import MyFile.Db.Format

/-! What the writing functions do to the image of the files. A chain pointer, or a record by one of
the same sizes, is written over in place; a new record is appended to both files. No record ever
moves. -/

namespace MyFile.Db

open Lua Unix Linked

namespace Image

variable (I : Image)

def files : Files := ⟨I.idxFile, I.datFile⟩

def setRec (i : ℕ) (r : Rec) : Image := { I with recs := I.recs.set i r }

def addRec (r : Rec) : Image := { I with recs := I.recs ++ [r] }

def pair (i : ℕ) : Option (Bytes × Bytes) := I.recs[i]?.map fun r => (r.key, r.data)

def Has : Node → Prop
  | .root j => j < I.roots.length
  | .entry i => i < I.recs.length

end Image

/-- The sizes that decide where the next record begins. -/
def Rec.dims (r : Rec) : ℕ × ℕ × ℕ := ((ptrText r.ptr).length, r.key.length, r.data.length)

/-- Everything is where it was. -/
structure SameShape (I I' : Image) : Prop where
  hash : I'.hashText.length = I.hashText.length
  dims : I'.recs.map Rec.dims = I.recs.map Rec.dims

variable {I I' : Image} {r r' : Rec} {recs recs' : List Rec} {d i j v : ℕ} {n : Node}

theorem length_text_congr (h : r'.dims = r.dims) : (r'.text d).length = (r.text d).length := by
  simp only [Rec.dims, Prod.mk.injEq] at h
  have hbody : (r'.body d).length = (r.body d).length := by
    simp [Rec.body, idxText, Rec.datlen, h.2.1, h.2.2]
  rw [Rec.text, Rec.text, hbody, List.length_append, List.length_append, List.length_append,
    List.length_append, h.1, hbody]

theorem length_recsText_congr (h : recs'.map Rec.dims = recs.map Rec.dims) :
    (recsText d recs').length = (recsText d recs).length := by
  induction recs generalizing recs' d with
  | nil =>
    obtain rfl : recs' = [] := by simpa using h
    rfl
  | cons r recs ih =>
    obtain ⟨r', recs', rfl⟩ : ∃ r' l, recs' = r' :: l := by
      cases recs' with
      | nil => simp at h
      | cons r' l => exact ⟨r', l, rfl⟩
    rw [List.map_cons, List.map_cons, List.cons_eq_cons] at h
    have hdat : r'.datlen = r.datlen := congrArg (fun p => p.2.2 + 1) h.1
    rw [recsText, recsText, List.length_append, List.length_append,
      length_text_congr h.1, hdat, ih h.2]

theorem length_datText_congr (h : recs'.map Rec.dims = recs.map Rec.dims) :
    (datText recs').length = (datText recs).length := by
  have hlen : ∀ l :
      List Rec, (datText l).length = ((l.map Rec.dims).map fun p => p.2.2 + 1).sum := by
    intro l
    rw [datText, List.length_flatMap, List.map_map]
    simp only [List.length_append, List.length_singleton]
    rfl
  rw [hlen, hlen, h]

theorem SameShape.take (h : SameShape I I') (i : ℕ) :
    (I'.recs.take i).map Rec.dims = (I.recs.take i).map Rec.dims := by
  rw [List.map_take, List.map_take, h.dims]

theorem SameShape.addr (h : SameShape I I') (n : Node) : I'.addr n = I.addr n := by
  cases n with
  | root j => rfl
  | entry i =>
    rw [Image.addr, Image.addr, List.length_append, List.length_append, h.hash,
      length_recsText_congr (h.take i)]

theorem SameShape.datoff (h : SameShape I I') (i : ℕ) : I'.datoff i = I.datoff i :=
  length_datText_congr (h.take i)

theorem length_flatMap_ptrText {l : List ℕ} (h : ∀ v ∈ l, v ≤ 999999) :
    (l.flatMap ptrText).length = 6 * l.length := by
  induction l with
  | nil => rfl
  | cons v l ih =>
    rw [List.flatMap_cons, List.length_append, length_ptrText (h v List.mem_cons_self),
      ih fun w hw => h w (List.mem_cons_of_mem v hw), List.length_cons]
    omega

theorem Image.Valid.length_hashText (hI : I.Valid) : I.hashText.length = 829 := by
  rw [Image.hashText, List.length_append, length_flatMap_ptrText hI.root_le, hI.roots_length]
  rfl

/-! ### Chain pointers -/

theorem setLink_entry (hi : I.recs[i]? = some r) :
    I.setLink (.entry i) v = I.setRec i { r with ptr := v } := by
  obtain ⟨hlt, rfl⟩ := List.getElem?_eq_some_iff.mp hi
  rw [Image.setLink, Image.setRec, List.modify_eq_set_getElem?, hi]
  rfl

theorem setRec_recs (hi : I.recs[i]? = some r) :
    (I.setRec i r').recs = I.recs.take i ++ r' :: I.recs.drop (i + 1) := by
  obtain ⟨hlt, rfl⟩ := List.getElem?_eq_some_iff.mp hi
  rw [Image.setRec, List.set_eq_take_append_cons_drop, if_pos hlt]

theorem sameShape_setRec (hi : I.recs[i]? = some r) (hr : r'.dims = r.dims) :
    SameShape I (I.setRec i r') := by
  refine ⟨rfl, ?_⟩
  have hget : (I.recs.map Rec.dims)[i]? = some r'.dims := by
    rw [List.getElem?_map, hi, hr]
    rfl
  obtain ⟨hlt, hget⟩ := List.getElem?_eq_some_iff.mp hget
  rw [Image.setRec, List.map_set, ← hget, List.set_getElem_self]

theorem getElem?_setRec (hi : I.recs[i]? = some r) (k : ℕ) :
    (I.setRec i r').recs[k]? = if i = k then some r' else I.recs[k]? := by
  obtain ⟨hlt, -⟩ := List.getElem?_eq_some_iff.mp hi
  rw [Image.setRec, List.getElem?_set]
  by_cases h : i = k
  · rw [if_pos h, if_pos h, if_pos (h ▸ hlt)]
  · rw [if_neg h, if_neg h]

theorem hashText_setLink_root (hI : I.Valid) (hj : j < I.roots.length) :
    ∃ pre post, pre.length = I.addr (.root j) ∧
      ∀ v, (I.setLink (.root j) v).hashText = pre ++ (ptrText v ++ post) := by
  refine ⟨(I.roots.take j).flatMap ptrText,
    (I.roots.drop (j + 1)).flatMap ptrText ++ [newline], ?_, ?_⟩
  · rw [length_flatMap_ptrText fun v hv => hI.root_le v (List.mem_of_mem_take hv), List.length_take,
      Nat.min_eq_left hj.le]
    rfl
  · intro v
    rw [Image.hashText, Image.setLink, List.set_eq_take_append_cons_drop,
      if_pos hj, List.flatMap_append, List.flatMap_cons]
    simp only [List.append_assoc]

theorem idxFile_setLink (hI : I.Valid) (hn : I.Has n) :
    ∃ pre post, pre.length = I.addr n ∧ ∀ v,
      (I.setLink n v).idxFile = pre ++ (ptrText v ++ post) := by
  cases n with
  | root j =>
    obtain ⟨pre, post, hlen, htext⟩ := hashText_setLink_root hI hn
    refine ⟨pre, post ++ recsText 0 I.recs, hlen, fun v => ?_⟩
    rw [Image.idxFile, htext]
    simp only [List.append_assoc]
    rfl
  | entry i =>
    obtain ⟨r, hi⟩ : ∃ r, I.recs[i]? = some r := ⟨_, List.getElem?_eq_getElem hn⟩
    refine ⟨I.hashText ++ recsText 0 (I.recs.take i),
      spacedNumeral idxlenSz (r.body (I.datoff i)).length ++ r.body (I.datoff i) ++
        recsText (I.datoff i + r.datlen) (I.recs.drop (i + 1)), rfl, fun v => ?_⟩
    rw [setLink_entry hi, idxFile_split (setRec_recs hi), Rec.text]
    simp only [List.append_assoc]
    rfl

theorem setLink_link (hn : I.Has n) : I.setLink n (I.link n) = I := by
  cases n with
  | root j =>
    have hj : j < I.roots.length := hn
    rw [Image.setLink, Image.link, List.getD_eq_getElem?_getD,
      List.getElem?_eq_getElem hj, Option.getD_some, List.set_getElem_self]
  | entry i =>
    obtain ⟨r, hi⟩ : ∃ r, I.recs[i]? = some r := ⟨_, List.getElem?_eq_getElem hn⟩
    obtain ⟨hlt, rfl⟩ := List.getElem?_eq_some_iff.mp hi
    rw [setLink_entry hi, Image.link, hi]
    change { I with recs := I.recs.set i I.recs[i] } = I
    rw [List.set_getElem_self]

theorem link_setRec (hi : I.recs[i]? = some r) :
    (I.setRec i r').link = Function.update I.link (.entry i) r'.ptr := by
  funext k
  cases k with
  | root j => rfl
  | entry k =>
    rw [Image.link, getElem?_setRec hi]
    by_cases h : i = k
    · rw [if_pos h, h, Function.update_self]
      rfl
    · rw [if_neg h, Function.update_of_ne fun hk => h (Node.entry.inj hk).symm]
      rfl

theorem link_setLink (hn : I.Has n) : (I.setLink n v).link = Function.update I.link n v := by
  cases n with
  | root j =>
    funext k
    cases k with
    | root k =>
      rw [Image.link, Image.setLink, List.getD_eq_getElem?_getD, List.getElem?_set]
      by_cases h : j = k
      · rw [if_pos h, if_pos (h ▸ hn), h, Function.update_self]
        rfl
      · rw [if_neg h, Function.update_of_ne fun hk => h (Node.root.inj hk).symm,
          ← List.getD_eq_getElem?_getD]
        rfl
    | entry i => rfl
  | entry i =>
    obtain ⟨r, hi⟩ : ∃ r, I.recs[i]? = some r := ⟨_, List.getElem?_eq_getElem hn⟩
    rw [setLink_entry hi, link_setRec hi]

theorem link_addRec : (I.addRec r).link = Function.update I.link (.entry I.recs.length) r.ptr := by
  funext k
  cases k with
  | root j => rfl
  | entry k =>
    rw [Image.link, Image.addRec]
    by_cases h : k = I.recs.length
    · rw [h, Function.update_self, List.getElem?_concat_length]
      rfl
    · rw [Function.update_of_ne fun hk => h (Node.entry.inj hk), List.getElem?_append]
      by_cases hlt : k < I.recs.length
      · rw [if_pos hlt]
        rfl
      · rw [if_neg hlt, Image.link, List.getElem?_eq_none (by simp; omega),
          List.getElem?_eq_none (Nat.le_of_not_lt hlt)]

/-! ### Keys and data -/

theorem pair_setRec (hi : I.recs[i]? = some r) :
    (I.setRec i r').pair = Function.update I.pair i (some (r'.key, r'.data)) := by
  funext k
  rw [Image.pair, getElem?_setRec hi]
  by_cases h : i = k
  · rw [if_pos h, h, Function.update_self]
    rfl
  · rw [if_neg h, Function.update_of_ne (Ne.symm h)]
    rfl

theorem pair_setLink : (I.setLink n v).pair = I.pair := by
  funext k
  cases n with
  | root j => rfl
  | entry i =>
    rw [Image.pair, Image.setLink, List.getElem?_modify, Option.map_eq_map, Option.map_map]
    refine congrArg (fun g => I.recs[k]?.map g) ?_
    funext r
    simp only [Function.comp]
    split <;> rfl

theorem pair_addRec :
    (I.addRec r).pair = Function.update I.pair I.recs.length (some (r.key, r.data)) := by
  funext k
  rw [Image.pair, Image.addRec]
  by_cases h : k = I.recs.length
  · rw [h, Function.update_self, List.getElem?_concat_length]
    rfl
  · rw [Function.update_of_ne h, Image.pair]
    by_cases hlt : k < I.recs.length
    · rw [List.getElem?_append_left hlt]
    · rw [List.getElem?_eq_none (by simp; omega), List.getElem?_eq_none (Nat.le_of_not_lt hlt)]

theorem length_setLink : (I.setLink n v).recs.length = I.recs.length := by
  cases n with
  | root j => rfl
  | entry i => exact List.length_modify ..

theorem has_setRec (hn : I.Has n) : (I.setRec i r).Has n := by
  cases n with
  | root j => exact hn
  | entry k => exact lt_of_lt_of_eq hn List.length_set.symm

theorem has_setLink {k : Node} (hn : I.Has n) : (I.setLink k v).Has n := by
  cases n with
  | root j =>
    cases k with
    | root l => exact lt_of_lt_of_eq hn List.length_set.symm
    | entry l => exact hn
  | entry i => exact lt_of_lt_of_eq hn length_setLink.symm

/-! ### Validity -/

theorem Rec.Valid.of_dims (hV : r.Valid d) (hr : r'.dims = r.dims) (hptr : r'.ptr ≤ 999999)
    (hplain : Plain r'.key) (hdata : (0 : UInt8) ∉ r'.data) : r'.Valid d := by
  simp only [Rec.dims, Prod.mk.injEq] at hr
  have hbody : (r'.body d).length = (r.body d).length := by
    simp [Rec.body, idxText, Rec.datlen, hr.2.1, hr.2.2]
  refine ⟨hptr, hplain, hdata, ?_, ?_, ?_⟩
  · rw [Rec.datlen, hr.2.2]
    exact hV.datlen_le
  · rw [hbody]
    exact hV.le_body
  · rw [hbody]
    exact hV.body_le

theorem valid_setRec (hI : I.Valid) (hi : I.recs[i]? = some r) (hr : r'.dims = r.dims)
    (hr' : r'.Valid (I.datoff i)) : (I.setRec i r').Valid := by
  have hshape := sameShape_setRec hi hr
  refine ⟨hI.roots_length, hI.root_le, ?_⟩
  intro k s hk
  rw [hshape.datoff]
  rw [getElem?_setRec hi] at hk
  by_cases h : i = k
  · rw [if_pos h, Option.some_inj] at hk
    rw [← h, ← hk]
    exact hr'
  · rw [if_neg h] at hk
    exact hI.recs k s hk

theorem valid_setLink (hI : I.Valid) (hn : I.Has n) (hv : v ≤ 999999) : (I.setLink n v).Valid := by
  cases n with
  | root j =>
    refine ⟨by rw [Image.setLink, List.length_set]; exact hI.roots_length, ?_, hI.recs⟩
    intro w hw
    rcases List.mem_or_eq_of_mem_set hw with hw | rfl
    · exact hI.root_le w hw
    · exact hv
  | entry i =>
    obtain ⟨r, hi⟩ : ∃ r, I.recs[i]? = some r := ⟨_, List.getElem?_eq_getElem hn⟩
    have hV := hI.recs i r hi
    have hdims : Rec.dims { r with ptr := v } = r.dims := by
      rw [Rec.dims, Rec.dims, length_ptrText hv, length_ptrText hV.ptr_le]
    rw [setLink_entry hi]
    exact valid_setRec hI hi hdims (hV.of_dims hdims hv hV.plain hV.data)

theorem sameShape_setLink (hI : I.Valid) (hn : I.Has n) (hv : v ≤ 999999) :
    SameShape I (I.setLink n v) := by
  cases n with
  | root j => exact ⟨by rw [(valid_setLink hI hn hv).length_hashText, hI.length_hashText], rfl⟩
  | entry i =>
    obtain ⟨r, hi⟩ : ∃ r, I.recs[i]? = some r := ⟨_, List.getElem?_eq_getElem hn⟩
    rw [setLink_entry hi]
    refine sameShape_setRec hi ?_
    rw [Rec.dims, Rec.dims, length_ptrText hv, length_ptrText (hI.recs i r hi).ptr_le]

theorem valid_addRec (hI : I.Valid) (hr : r.Valid I.datFile.length) : (I.addRec r).Valid := by
  refine ⟨hI.roots_length, hI.root_le, ?_⟩
  intro k s hk
  rw [Image.datoff, Image.addRec]
  by_cases hlt : k < I.recs.length
  · rw [List.take_append_of_le_length hlt.le]
    rw [Image.addRec, List.getElem?_append_left hlt] at hk
    exact hI.recs k s hk
  · obtain ⟨hk', -⟩ := List.getElem?_eq_some_iff.mp hk
    obtain rfl : k = I.recs.length := by
      simp only [Image.addRec, List.length_append, List.length_singleton] at hk'
      omega
    rw [Image.addRec, List.getElem?_concat_length, Option.some_inj] at hk
    rw [List.take_left, ← hk]
    exact hr

theorem link_le (hI : I.Valid) (n : Node) : I.link n ≤ 999999 := by
  cases n with
  | root j =>
    rw [Image.link, List.getD_eq_getElem?_getD]
    cases h : I.roots[j]? with
    | none => simp
    | some v => exact hI.root_le v (List.mem_of_getElem? h)
  | entry i =>
    rw [Image.link]
    cases h : I.recs[i]? with
    | none => simp
    | some r => exact (hI.recs i r h).ptr_le

/-! ### Writing -/

section run

variable {db : DB} {f : Files} {c : Current}

@[simp] theorem DB.on_nhash : (db.on f c).nhash = db.nhash := rfl

theorem lockIdx_run {start len : ℕ} {m : Option LockMode} : lockIdx start len m (db.on f c) =
    (.ok (), DB.on { db with idxLocks := db.idxLocks.set start len m } f c) := rfl

theorem lockDat_run {start len : ℕ} {m : Option LockMode} : lockDat start len m (db.on f c) =
    (.ok (), DB.on { db with datLocks := db.datLocks.set start len m } f c) := rfl

theorem lockIdx_bind {α : Type} {start len : ℕ} {m : Option LockMode} {k : Unit → M α} :
    (lockIdx start len m >>= k) (db.on f c) =
      k () (DB.on { db with idxLocks := db.idxLocks.set start len m } f c) := rfl

theorem lockDat_bind {α : Type} {start len : ℕ} {m : Option LockMode} {k : Unit → M α} :
    (lockDat start len m >>= k) (db.on f c) =
      k () (DB.on { db with datLocks := db.datLocks.set start len m } f c) := rfl

theorem writeIdx_run (text : Bytes) :
    writeIdx text (db.on f c) =
      (.ok (), db.on { f with idx := writeAt f.idx c.idxpos text }
        { c with idxpos := c.idxpos + text.length }) := rfl

theorem writeIdx_bind {α : Type} {text : Bytes} {k : Unit → M α} :
    (writeIdx text >>= k) (db.on f c) =
      k () (db.on { f with idx := writeAt f.idx c.idxpos text }
        { c with idxpos := c.idxpos + text.length }) := rfl

theorem writeDat_bind {α : Type} {text : Bytes} {k : Unit → M α} :
    (writeDat text >>= k) (db.on f c) =
      k () (db.on { f with dat := writeAt f.dat c.datpos text }
        { c with datpos := c.datpos + text.length }) := rfl

theorem ptrBounds (hv : v ≤ 999999) : (0 : ℤ) ≤ v ∧ (v : ℤ) ≤ ptrMax := by
  simp only [ptrMax]
  omega

theorem ifAppending_set (act : M Unit) : ifAppending .set act = pure () := rfl

theorem ifAppending_end (act : M Unit) : ifAppending .end act = act := rfl

theorem dbReadptr_node (hI : I.Valid) (hidx : f.idx = I.idxFile) (hn : I.Has n) :
    dbReadptr (I.addr n) (db.on f c) =
      (.ok (I.link n), db.on f { c with idxpos := I.addr n + 6 }) := by
  obtain ⟨pre, post, hlen, htext⟩ := idxFile_setLink hI hn
  have hself := htext (I.link n)
  rw [setLink_link hn] at hself
  exact dbReadptr_run (hidx.trans hself) hlen.symm (link_le hI n)

theorem datFile_setRec (hi : I.recs[i]? = some r) : (I.setRec i r').datFile =
    datText (I.recs.take i) ++ ((r'.data ++ [newline]) ++ datText (I.recs.drop (i + 1))) := by
  rw [Image.datFile, setRec_recs hi, datText_append, datText_cons]

theorem datFile_setLink (hn : I.Has n) : (I.setLink n v).datFile = I.datFile := by
  cases n with
  | root j => rfl
  | entry i =>
    obtain ⟨r, hi⟩ : ∃ r, I.recs[i]? = some r := ⟨_, List.getElem?_eq_getElem hn⟩
    rw [setLink_entry hi, datFile_setRec hi, datText_split hi]

theorem dbWriteptr_node (hI : I.Valid) (hn : I.Has n) (hv : v ≤ 999999) :
    dbWriteptr (I.addr n) v (db.on I.files c) =
      (.ok (), db.on (I.setLink n v).files { c with idxpos := I.addr n + 6 }) := by
  obtain ⟨pre, post, hlen, htext⟩ := idxFile_setLink hI hn
  have hself := htext (I.link n)
  rw [setLink_link hn] at hself
  have hwrite : writeAt I.idxFile (I.addr n) (ptrText v) = (I.setLink n v).idxFile := by
    rw [hself, htext]
    exact writeAt_split hlen.symm (by rw [length_ptrText hv, length_ptrText (link_le hI n)])
  rw [dbWriteptr, Act.ensure_bind (ptrBounds hv), Act.bind_ok (lseekIdx_run (lseek_set _ _ _)),
    writeIdx_run, Int.toNat_natCast, ← ptrText, length_ptrText hv]
  change (_, db.on { I.files with idx := writeAt I.idxFile (I.addr n) (ptrText v) } _) = _
  rw [hwrite, Image.files, Image.files, datFile_setLink hn]

theorem dbWritedat_over (db : DB) (c : Current) {data : Bytes}
    (hdat : f.dat = I.datFile) (hi : I.recs[i]? = some r) (hlen : data.length = r.data.length) :
    ∃ c', dbWritedat data (I.datoff i) .set (db.on f c) =
        (.ok (), db.on { f with dat := (I.setRec i { r with data := data }).datFile } c') ∧
      c'.datoff = I.datoff i ∧ c'.datlen = r.datlen := by
  have hwrite : writeAt f.dat (I.datoff i) (data ++ [newline]) =
      (I.setRec i { r with data := data }).datFile := by
    rw [hdat, datFile_setRec hi, datText_split hi]
    exact writeAt_split rfl (by rw [List.length_append, List.length_append, hlen])
  refine ⟨{ c with
    datpos := I.datoff i + (data ++ [newline]).length
    datoff := I.datoff i
    datlen := data.length + 1 }, ?_, rfl, congrArg (· + 1) hlen⟩
  rw [← hwrite, dbWritedat, ifAppending_set, Act.pure_bind, Act.bind_ok
    (lseekDat_run (lseek_set _ _ _)), move_bind, writeDat_bind, ifAppending_set, Act.pure_apply]

theorem idxFile_setRec (hi : I.recs[i]? = some r) (r' : Rec) : (I.setRec i r').idxFile =
    (I.hashText ++ recsText 0 (I.recs.take i)) ++
      (r'.text (I.datoff i) ++ recsText (I.datoff i + r'.datlen) (I.recs.drop (i + 1))) :=
  idxFile_split (setRec_recs hi)

theorem setRec_self (hi : I.recs[i]? = some r) : I.setRec i r = I := by
  obtain ⟨hlt, rfl⟩ := List.getElem?_eq_some_iff.mp hi
  rw [Image.setRec, List.set_getElem_self]

theorem idxBounds (hr : r.Valid d) :
    idxlenMin ≤ ((r.body d).length : ℤ) ∧ ((r.body d).length : ℤ) ≤ idxlenMax := by
  have h6 := hr.le_body
  have h1024 := hr.body_le
  simp only [idxlenMin, idxlenMax]
  omega

theorem dbWriteidx_over (db : DB) (c : Current) (hidx : f.idx = I.idxFile)
    (hi : I.recs[i]? = some r) (hdims : r'.dims = r.dims) (hr' : r'.Valid (I.datoff i))
    (hoff : c.datoff = I.datoff i) (hlen : c.datlen = r'.datlen) :
    ∃ c', dbWriteidx r'.key (I.addr (.entry i)) .set r'.ptr (db.on f c) =
        (.ok (), db.on { f with idx := (I.setRec i r').idxFile } c') := by
  have hwrite :
      writeAt f.idx (I.addr (.entry i)) (r'.text (I.datoff i)) = (I.setRec i r').idxFile := by
    have hdatlen : r'.datlen = r.datlen := congrArg (fun p => p.2.2 + 1) hdims
    have hself := idxFile_setRec hi r
    rw [setRec_self hi] at hself
    rw [hidx, hself, idxFile_setRec hi r', hdatlen]
    exact writeAt_split rfl (length_text_congr hdims)
  rw [← hwrite, dbWriteidx, Act.ensure_bind (ptrBounds hr'.ptr_le),
    Act.state_bind, DB.on_cur, hoff, hlen, move_bind, ← Rec.body, Act.ensure_bind (idxBounds hr'),
    ifAppending_set, Act.pure_bind, Act.bind_ok (lseekIdx_run (lseek_set _ _ _)),
    move_bind, writeIdx_bind, ifAppending_set, Act.pure_apply, Int.toNat_natCast, List.append_assoc]
  exact ⟨_, rfl⟩

theorem dbWritedat_end (db : DB) (f : Files) (c : Current) (data : Bytes)
    (hlocks : db.datLocks = Locks.none) :
    ∃ c', dbWritedat data 0 .end (db.on f c) =
        (.ok (), db.on { f with dat := f.dat ++ (data ++ [newline]) } c') ∧
      c'.datoff = f.dat.length ∧ c'.datlen = data.length + 1 := by
  have hback : (db.datLocks.set 0 0 (some .write)).set 0 0 none = db.datLocks :=
    Locks.set_set_none _ fun b _ => by rw [hlocks]; rfl
  rw [dbWritedat, ifAppending_end, lockDat_bind, Act.bind_ok (lseekDat_run (lseek_end _ _)),
    move_bind, writeDat_bind, ifAppending_end, lockDat_run, hback, writeAt_end]
  exact ⟨_, rfl, rfl, rfl⟩

theorem idxFile_addRec : (I.addRec r).idxFile = I.idxFile ++ r.text I.datFile.length := by
  rw [Image.idxFile, Image.addRec, recsText_append, recsText,
    recsText, Nat.zero_add, List.append_nil, ← List.append_assoc]
  rfl

theorem datFile_addRec : (I.addRec r).datFile = I.datFile ++ (r.data ++ [newline]) := by
  rw [Image.datFile, Image.addRec, datText_append, datText_cons]
  exact congrArg (I.datFile ++ ·) (List.append_nil _)

theorem dbWriteidx_end (db : DB) (c : Current) (hidx : f.idx = I.idxFile)
    (hr : r.Valid I.datFile.length) (hoff : c.datoff = I.datFile.length)
    (hlen : c.datlen = r.datlen) (hnhash : db.nhash = 137)
    (hlocks : ∀ b, 829 ≤ b → db.idxLocks b = none) :
    ∃ c', dbWriteidx r.key 0 .end r.ptr (db.on f c) =
        (.ok (), db.on { f with idx := (I.addRec r).idxFile } c') ∧
        c'.idxoff = I.idxFile.length := by
  have hback : (db.idxLocks.set ((db.nhash + 1) * ptrSz + 1) 0 (some .write)).set
      ((db.nhash + 1) * ptrSz + 1) 0 none = db.idxLocks := by
    refine Locks.set_set_none _ fun b hb => hlocks b ?_
    simpa [Locks.covers, hnhash] using hb
  rw [dbWriteidx, Act.ensure_bind (ptrBounds hr.ptr_le), Act.state_bind, DB.on_cur, hoff, hlen,
    move_bind, ← Rec.body, Act.ensure_bind (idxBounds hr), ifAppending_end, lockIdx_bind, Act.bind_ok
    (lseekIdx_run (lseek_end _ _)), move_bind, writeIdx_bind, ifAppending_end, lockIdx_run,
    DB.on_nhash, hback, writeAt_end, Int.toNat_natCast, List.append_assoc, idxFile_addRec, hidx]
  exact ⟨_, rfl, rfl⟩

end run

end MyFile.Db
