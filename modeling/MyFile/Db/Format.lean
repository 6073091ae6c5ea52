import MyFile.Db.Spec
import MyFile.Linked

/-! The layout of the two files. The index file has the free list pointer and the hash chain
pointers, then the index records; the data records stand in the same order in the data file, so that
an image of the files is a list of pointers and a list of records. -/

namespace MyFile.Db

open Lua Unix Linked

/-- An index record with its data record, without the newlines. -/
structure Rec where
  ptr : ℕ
  key : Bytes
  data : Bytes
deriving DecidableEq, Repr

/-- The free list pointer is the first root, the hash chain pointers are the others. -/
structure Image where
  roots : List ℕ
  recs : List Rec
deriving DecidableEq, Repr

/-- The places of the index file that hold a chain pointer. -/
inductive Node where
  | root (j : ℕ)
  | entry (i : ℕ)
deriving DecidableEq, Repr

def ptrText (v : ℕ) : Bytes := spacedNumeral ptrSz v

def Rec.datlen (r : Rec) : ℕ := r.data.length + 1

def Rec.body (d : ℕ) (r : Rec) : Bytes := idxText r.key d r.datlen

def Rec.text (d : ℕ) (r : Rec) : Bytes :=
  ptrText r.ptr ++ (spacedNumeral idxlenSz (r.body d).length ++ r.body d)

def datText (recs : List Rec) : Bytes := recs.flatMap fun r => r.data ++ [newline]

def recsText : ℕ → List Rec → Bytes
  | _, [] => []
  | d, r :: recs => r.text d ++ recsText (d + r.datlen) recs

namespace Image

variable (I : Image)

def hashText : Bytes := I.roots.flatMap ptrText ++ [newline]

def idxFile : Bytes := I.hashText ++ recsText 0 I.recs

def datFile : Bytes := datText I.recs

def datoff (i : ℕ) : ℕ := (datText (I.recs.take i)).length

/-- The offset of a chain pointer. -/
def addr : Node → ℕ
  | .root j => ptrSz * j
  | .entry i => (I.hashText ++ recsText 0 (I.recs.take i)).length

def link : Node → ℕ
  | .root j => I.roots.getD j 0
  | .entry i => (I.recs[i]?.map Rec.ptr).getD 0

def setLink (n : Node) (v : ℕ) : Image :=
  match n with
  | .root j => { I with roots := I.roots.set j v }
  | .entry i => { I with recs := I.recs.modify i fun r => { r with ptr := v } }

end Image

def Plain (key : Bytes) : Prop := (0 : UInt8) ∉ key ∧ sep ∉ key

/-- A record that `_db_readidx` and `_db_readdat` can read when its data is at offset `d`. -/
structure Rec.Valid (d : ℕ) (r : Rec) : Prop where
  ptr_le : r.ptr ≤ 999999
  plain : Plain r.key
  data : (0 : UInt8) ∉ r.data
  datlen_le : r.datlen ≤ 1024
  le_body : 6 ≤ (r.body d).length
  body_le : (r.body d).length ≤ 1024

structure Image.Valid (I : Image) : Prop where
  roots_length : I.roots.length = 138
  root_le : ∀ v ∈ I.roots, v ≤ 999999
  recs : ∀ i (r : Rec), I.recs[i]? = some r → r.Valid (I.datoff i)

variable {I : Image} {r r' : Rec} {pre post : List Rec} {d i v : ℕ}
    {db : DB} {f : Files} {c : Current}

theorem length_ptrText (hv : v ≤ 999999) : (ptrText v).length = 6 :=
  length_spacedNumeral (by decide) (Nat.lt_succ_of_le hv)

theorem recsText_append (d : ℕ) (pre post : List Rec) :
    recsText d (pre ++ post) = recsText d pre ++ recsText (d + (datText pre).length) post := by
  induction pre generalizing d with
  | nil => rfl
  | cons r pre ih =>
    have hlen : d + (datText (r :: pre)).length = d + r.datlen + (datText pre).length := by
      simp [datText, Rec.datlen]
      omega
    rw [List.cons_append, recsText, recsText, ih, List.append_assoc, hlen]

theorem datText_append (pre post : List Rec) :
    datText (pre ++ post) = datText pre ++ datText post :=
  List.flatMap_append

theorem datText_cons (r : Rec) (recs : List Rec) :
    datText (r :: recs) = r.data ++ [newline] ++ datText recs := List.flatMap_cons

theorem idxFile_split (h : I.recs = pre ++ r :: post) :
    I.idxFile = (I.hashText ++ recsText 0 pre) ++
      (r.text (datText pre).length ++ recsText ((datText pre).length + r.datlen) post) := by
  rw [Image.idxFile, h, recsText_append, recsText, Nat.zero_add, List.append_assoc]

theorem addr_entry (h : I.recs = pre ++ r :: post) :
    I.addr (.entry pre.length) = (I.hashText ++ recsText 0 pre).length := by
  rw [Image.addr, h, List.take_left]

/-! ### Reading a record -/

theorem sep_ne_zero : sep ≠ 0 := by decide

theorem not_mem_numeral {c : UInt8} (hc : isDigit c = false) (n : ℕ) : c ∉ numeral n := by
  intro h
  rw [isDigit_of_mem_numeral h] at hc
  exact Bool.noConfusion hc

/-- `_db_readidx` reads what `_db_writeidx` writes. -/
theorem parseIdx_idxText {key : Bytes} {n : ℕ} (hkey : Plain key) (hn : 0 < n) (hmax : n ≤ 1024) :
    parseIdx (idxText key d n) =
      .ok (key ++ 0 :: (numeral d ++ 0 :: (numeral n ++ [0])), d, n) := by
  have hsplit : idxText key d n = (key ++ sep :: (numeral d ++ sep :: numeral n)) ++ [newline] := by
    simp [idxText]
  -- the text after each of the three bytes that are overwritten with a null byte
  have hlast : (idxText key d n).getLast? = some newline := by
    rw [hsplit, List.getLast?_concat]
  have hset : (idxText key d n).set ((idxText key d n).length - 1) 0 =
      key ++ sep :: (numeral d ++ sep :: (numeral n ++ [0])) := by
    rw [hsplit, set_split 0 (by rw [List.length_append]; rfl)]
    simp
  have hdrop1 : (key ++ 0 :: (numeral d ++ sep :: (numeral n ++ [0]))).drop (key.length + 1) =
      numeral d ++ sep :: (numeral n ++ [0]) := by
    rw [← List.drop_drop, List.drop_left, List.drop_succ_cons, List.drop_zero]
  have hdrop1' : (key ++ 0 :: (numeral d ++ 0 :: (numeral n ++ [0]))).drop (key.length + 1) =
      numeral d ++ 0 :: (numeral n ++ [0]) := by
    rw [← List.drop_drop, List.drop_left, List.drop_succ_cons, List.drop_zero]
  have hset2 : (key ++ 0 :: (numeral d ++ sep :: (numeral n ++ [0]))).set
      (key.length + 1 + (numeral d).length) 0 =
        key ++ 0 :: (numeral d ++ 0 :: (numeral n ++ [0])) := by
    have hsplit : key ++ 0 :: (numeral d ++ sep :: (numeral n ++ [0])) =
        (key ++ 0 :: numeral d) ++ sep :: (numeral n ++ [0]) := by simp
    rw [hsplit, set_split 0 (by simp; omega)]
    simp
  have hdrop2 : (key ++ 0 :: (numeral d ++ 0 :: (numeral n ++ [0]))).drop
      (key.length + 1 + (numeral d).length + 1) = numeral n ++ [0] := by
    rw [Nat.add_assoc, ← List.drop_drop, hdrop1', ← List.drop_drop, List.drop_left,
      List.drop_succ_cons, List.drop_zero]
  have h0 : ∀ m, (0 : UInt8) ∉ numeral m := not_mem_numeral (by decide)
  have hsep : ∀ m, sep ∉ numeral m := not_mem_numeral (by decide)
  have hoff : atol (numeral d ++ 0 :: (numeral n ++ [0])) = d :=
    atol_blanks_numeral 0 d (by simp; decide)
  have hlen : atol (numeral n ++ [0]) = n := atol_blanks_numeral 0 n (by simp; decide)
  have hlen' : ¬ ((n : ℤ) ≤ 0 ∨ (datlenMax : ℤ) < n) := by simp; omega
  rw [parseIdx, if_neg (by simp [hlast]), hset]
  simp only [strchr_append hkey.1 hkey.2 sep_ne_zero, set_split 0 rfl, hdrop1,
    strchr_append (h0 d) (hsep d) sep_ne_zero, hset2, hdrop1',
    hdrop2, strchr_eq_none (h0 n) (hsep n), hoff, hlen, if_neg hlen']
  simp

theorem split_at {l : List Rec} (h : l[i]? = some r) :
    l = l.take i ++ r :: l.drop (i + 1) ∧ (l.take i).length = i := by
  obtain ⟨hi, rfl⟩ := List.getElem?_eq_some_iff.mp h
  refine ⟨?_, ?_⟩
  · rw [← List.drop_eq_getElem_cons hi, List.take_append_drop]
  · rw [List.length_take]
    omega

@[simp] theorem DB.on_files (db : DB) (f : Files) (c : Current) : (db.on f c).files = f := rfl

@[simp] theorem DB.on_cur (db : DB) (f : Files) (c : Current) : (db.on f c).cur = c := rfl

theorem lseekIdx_run {off : ℤ} {whence : Whence} {msg : String} {p : ℕ}
    (h : lseek f.idx c.idxpos off whence = some p) :
    lseekIdx off whence msg (db.on f c) = (.ok p, db.on f { c with idxpos := p }) := by
  rw [lseekIdx, Act.state_bind, DB.on_files, DB.on_cur, h]
  rfl

theorem readIdx_run {n : ℕ} {got : Bytes} (h : readAt f.idx c.idxpos n = got) :
    readIdx n (db.on f c) = (.ok got, db.on f { c with idxpos := c.idxpos + got.length }) := by
  rw [← h]
  rfl

theorem move_bind {α : Type} {g : Current → Current} {k : Unit → M α} :
    (move g >>= k) (db.on f c) = k () (db.on f (g c)) := rfl

/-- The handle describes the record with number `i`. -/
structure At (I : Image) (i : ℕ) (r : Rec) (cur : Current) : Prop where
  entry : I.recs[i]? = some r
  idxoff : cur.idxoff = I.addr (.entry i)
  key : cstr cur.idxbuf = r.key
  ptrval : cur.ptrval = r.ptr
  datoff : cur.datoff = I.datoff i
  datlen : cur.datlen = r.datlen

theorem dbReadrec_body {pre post : Bytes} (hV : r.Valid d)
    (hidx : f.idx = pre ++ (r.body d ++ post)) (hpos : c.idxpos = pre.length) :
    dbReadrec r.ptr (r.body d).length (db.on f c) = (.ok r.ptr, db.on f { c with
      idxpos := pre.length + (r.body d).length
      idxbuf := r.key ++ 0 :: (numeral d ++ 0 :: (numeral r.datlen ++ [0]))
      idxlen := (r.body d).length
      datoff := d
      datlen := r.datlen
      ptrval := r.ptr }) := by
  have hread : readAt f.idx c.idxpos (r.body d).length = r.body d := by
    rw [hidx]
    exact readAt_split hpos rfl
  have hbounds : idxlenMin ≤ ((r.body d).length : ℤ) ∧ ((r.body d).length : ℤ) ≤ idxlenMax := by
    have h6 := hV.le_body
    have h1024 := hV.body_le
    simp only [idxlenMin, idxlenMax]
    omega
  have hparse : parseIdx (r.body d) = .ok _ :=
    parseIdx_idxText hV.plain (Nat.succ_pos _) hV.datlen_le
  rw [dbReadrec, Act.ensure_bind hbounds, Int.toNat_natCast, Act.bind_ok (readIdx_run hread),
    Act.ensure_bind rfl, hparse, hpos]
  rfl

theorem dbReadidx_entry (db : DB) (hI : I.Valid)
    (hidx : f.idx = I.idxFile) (hi : I.recs[i]? = some r) {offset : ℤ}
    (hseek : lseek f.idx c.idxpos offset (if offset = 0 then .cur else .set) =
      some (I.addr (.entry i))) :
    ∃ c', dbReadidx offset (db.on f c) = (.ok r.ptr, db.on f c') ∧ At I i r c' ∧
      c'.idxpos = I.addr (.entry (i + 1)) := by
  obtain ⟨hsplit, hlen⟩ := split_at hi
  have hV := hI.recs i r hi
  generalize hpre : I.recs.take i = pre at hsplit hlen
  generalize hd : I.datoff i = d at hV
  have haddr := addr_entry hsplit
  have htext := idxFile_split hsplit
  rw [hlen] at haddr
  rw [show (datText pre).length = d by rw [← hd, Image.datoff, hpre]] at htext
  -- `front` are the chain pointer and the length, which are read with one `readv`
  obtain ⟨front, hfront⟩ :
    ∃ front, ptrText r.ptr ++ spacedNumeral idxlenSz (r.body d).length = front := ⟨_, rfl⟩
  have hptr := length_ptrText hV.ptr_le
  have hwidth : (spacedNumeral idxlenSz (r.body d).length).length = 4 :=
    length_spacedNumeral (by decide) (Nat.lt_of_le_of_lt hV.body_le (by decide))
  have hlength : front.length = ptrSz + idxlenSz := by
    rw [← hfront, List.length_append, hptr, hwidth]
    rfl
  have htake : front.take ptrSz = ptrText r.ptr := by
    rw [← hfront]
    exact List.take_left' hptr
  have hdrop : front.drop ptrSz = spacedNumeral idxlenSz (r.body d).length := by
    rw [← hfront]
    exact List.drop_left' hptr
  have hrest : f.idx = ((I.hashText ++ recsText 0 pre) ++ front) ++
      (r.body d ++ recsText (d + r.datlen) (I.recs.drop (i + 1))) := by
    rw [hidx, htext, Rec.text, ← hfront]
    simp only [List.append_assoc]
  have hread : readAt f.idx (I.addr (.entry i)) (ptrSz + idxlenSz) = front := by
    rw [hrest, List.append_assoc]
    exact readAt_split haddr hlength.symm
  have hne : ¬ (front = [] ∧ offset = 0) := by
    intro h
    rw [h.1] at hlength
    exact absurd hlength (by decide)
  have hptrval : atol (ptrText r.ptr) = r.ptr := atol_spacedNumeral _ _
  have hpos :
      I.addr (.entry i) + front.length = ((I.hashText ++ recsText 0 pre) ++ front).length := by
    rw [haddr]
    exact List.length_append.symm
  rw [dbReadidx, Act.bind_ok (lseekIdx_run hseek), move_bind, Act.bind_ok (readIdx_run hread),
    if_neg hne, Act.ensure_bind hlength, htake, hdrop, hptrval, atol_spacedNumeral,
    dbReadrec_body hV hrest hpos]
  refine ⟨_, rfl, ⟨hi, rfl, ?_, rfl, hd.symm, rfl⟩, ?_⟩
  · exact cstr_append_zero hV.plain.1 _
  · have hnext : I.addr (.entry (i + 1)) = (I.hashText ++ recsText 0 (pre ++ [r])).length := by
      rw [Image.addr, List.take_add_one, hi, hpre]
      rfl
    rw [hnext, recsText_append, Nat.zero_add, ← hpre, ← Image.datoff,
      hd, hpre, recsText, recsText, Rec.text, ← List.append_assoc (ptrText _), hfront]
    simp only [List.length_append, List.append_nil]
    omega

theorem dbReadidx_end (hpos : c.idxpos = f.idx.length) :
    dbReadidx 0 (db.on f c) = (.ok (-1), db.on f { c with idxoff := f.idx.length }) := by
  have hseek : lseek f.idx c.idxpos 0 (if (0 : ℤ) = 0 then .cur else .set) = some f.idx.length := by
    rw [if_pos rfl, lseek_cur, hpos]
  have hread : readAt f.idx f.idx.length (ptrSz + idxlenSz) = [] := readAt_end _ _
  rw [dbReadidx, Act.bind_ok (lseekIdx_run hseek), move_bind, Act.bind_ok (readIdx_run hread),
    if_pos ⟨rfl, rfl⟩, Act.pure_apply, ← hpos]
  rfl

theorem addr_end : I.addr (.entry I.recs.length) = I.idxFile.length := by
  rw [Image.addr, List.take_length, Image.idxFile]

/-! ### Reading data and pointers -/

theorem lseekDat_run {off : ℤ} {whence : Whence} {msg : String} {p : ℕ}
    (h : lseek f.dat c.datpos off whence = some p) :
    lseekDat off whence msg (db.on f c) = (.ok p, db.on f { c with datpos := p }) := by
  rw [lseekDat, Act.state_bind, DB.on_files, DB.on_cur, h]
  rfl

theorem readDat_run {n : ℕ} {got : Bytes} (h : readAt f.dat c.datpos n = got) :
    readDat n (db.on f c) = (.ok got, db.on f { c with datpos := c.datpos + got.length }) := by
  rw [← h]
  rfl

theorem datText_split (h : I.recs[i]? = some r) :
    I.datFile = datText (I.recs.take i) ++
      ((r.data ++ [newline]) ++ datText (I.recs.drop (i + 1))) := by
  rw [Image.datFile]
  nth_rewrite 1 [(split_at h).1]
  rw [datText_append, datText_cons]

theorem dbReaddat_entry (db : DB) (hI : I.Valid) (hdat : f.dat = I.datFile) (hc : At I i r c) :
    ∃ c', dbReaddat (db.on f c) = (.ok r.data, db.on f c') ∧ c'.idxpos = c.idxpos := by
  have hread : readAt f.dat c.datoff c.datlen = r.data ++ [newline] := by
    rw [hdat, datText_split hc.entry]
    exact readAt_split hc.datoff (by rw [hc.datlen, List.length_append]; rfl)
  have hlen : (r.data ++ [newline]).length = c.datlen := by
    rw [hc.datlen, List.length_append]
    rfl
  have hset : (r.data ++ [newline]).set ((r.data ++ [newline]).length - 1) 0 = r.data ++ [0] :=
    set_split 0 (by rw [List.length_append]; rfl)
  have hdata : (0 : UInt8) ∉ r.data := (hI.recs i r hc.entry).data
  rw [dbReaddat, Act.state_bind, DB.on_cur, Act.bind_ok (lseekDat_run (lseek_set _ _ _)),
    Act.bind_ok (readDat_run hread), Act.ensure_bind hlen, Act.ensure_bind List.getLast?_concat,
    hset, move_bind, Act.pure_apply, cstr_append_zero hdata]
  exact ⟨_, rfl, rfl⟩

theorem dbReadptr_run {pre post : Bytes} {off : ℕ} (hidx : f.idx = pre ++ (ptrText v ++ post))
    (hoff : off = pre.length) (hv : v ≤ 999999) :
    dbReadptr off (db.on f c) = (.ok v, db.on f { c with idxpos := off + 6 }) := by
  have hlen : (ptrText v).length = ptrSz := length_ptrText hv
  have hread : readAt f.idx off ptrSz = ptrText v := by
    rw [hidx]
    exact readAt_split hoff hlen.symm
  have hval : atol (ptrText v) = v := atol_spacedNumeral _ _
  rw [dbReadptr, Act.bind_ok (lseekIdx_run (lseek_set _ _ _)), Act.bind_ok (readIdx_run hread),
    Act.ensure_bind hlen, Act.pure_apply, hval, hlen]
  rfl

end MyFile.Db
