import MyFile.Lua.Literal

/-! `lua_stu/chapter2/12_1_1.lua`: `serialize` writes a value as a Lua expression. What it writes
for a value made of integers, strings and tables has a structurally equal value, in whatever order
`pairs` visits the fields. -/

namespace MyFile.Serialize

open Lua
open Lua.Assignment (Scalar)

variable (L : LiteralSyntax)

def field (key : Scalar) (val : Bytes) : Bytes :=
  lit " [" ++ L.write key ++ lit "] = " ++ val ++ lit ",\n"

/-- What is written, or the message of the error that is raised. `io.write` of a number and `%q` of
a string are `L.write`. -/
def serialize : Tree → Except Bytes Bytes
  | .scalar o => .ok (L.write o)
  | .table _ key val _ => do
    let fields ← (List.ofFn fun i => do
      let v ← serialize (val i)
      return field L (key i) v).mapM id
    return lit "\x7b\n" ++ fields.flatten ++ lit "\x7d\n"
  | .other type => .error (lit "cannot serialize a " ++ type)

def text : Tree → Bytes
  | .scalar o => L.write o
  | .table _ key val _ =>
    lit "\x7b\n" ++ (List.ofFn fun i => field L (key i) (text (val i))).flatten ++ lit "\x7d\n"
  | .other _ => []

theorem mapM_ok {ε α : Type} (l : List α) : (l.map (Except.ok (ε := ε))).mapM id = .ok l := by
  induction l with
  | nil => rfl
  | cons a l ih =>
    rw [List.map_cons, List.mapM_cons, ih]
    rfl

theorem serialize_plain {t : Tree} (ht : t.Plain) : serialize L t = .ok (text L t) := by
  induction t with
  | scalar o => rfl
  | other type => exact ht.elim
  | table n key val distinct ih =>
    have hfields : (List.ofFn fun i => do
        let v ← serialize L (val i)
        return field L (key i) v) =
        (List.ofFn fun i => field L (key i) (text L (val i))).map Except.ok := by
      rw [List.map_ofFn]
      congr 1
      funext i
      rw [ih i (ht i)]
      rfl
    rw [serialize, hfields, mapM_ok]
    rfl

/-! Reading it back. -/

/-- What an expression reader makes of the text of a value. -/
def ReadsBack (exp : Bytes → Option (Tree × Bytes)) (t : Tree) : Prop :=
  ∀ rest, Stops rest → ∃ u rest', exp (text L t ++ rest) = some (u, rest') ∧
    skipBlanks rest' = skipBlanks rest ∧ t.Same u

variable {L} {fuel : ℕ}

theorem readField_field {t : Tree} (h : ReadsBack L (readExp L (fuel + 1)) t) (key : Scalar)
    (rest : Bytes) :
    ∃ u rest', readField (readExp L (fuel + 1)) (field L key (text L t) ++ rest) =
      some (key, u, rest') ∧ skipBlanks rest' = skipBlanks (lit ",\n" ++ rest) ∧ t.Same u := by
  obtain ⟨u, rest', hval, hrest', hsame⟩ := h (lit ",\n" ++ rest) (by simp [Stops, lit, byte])
  refine ⟨u, rest', ?_, hrest', hsame⟩
  obtain ⟨x, w, hw, -, hx⟩ := L.starts key
  set tail := text L t ++ (lit ",\n" ++ rest) with htail
  have hopen : token (byte '[') (lit "[=") (field L key (text L t) ++ rest) =
      some (L.write key ++ (byte ']' :: (lit " = " ++ tail))) := by
    have hline : field L key (text L t) ++ rest =
        byte ' ' :: byte '[' :: (L.write key ++ (byte ']' :: (lit " = " ++ tail))) := by
      simp [field, htail, lit, byte]
    -- a key does not turn the bracket into the opening of a long string
    have hhead : ∀ z ∈ (L.write key ++ (byte ']' :: (lit " = " ++ tail))).head?, z ∉ lit "[=" := by
      rw [hw]
      intro z hz
      obtain rfl : x = z := by simpa using hz
      exact fun hmem => hx (List.mem_cons_of_mem _ hmem)
    rw [hline, token_congr (skipBlanks_blank (by decide) _), token_cons (by decide) hhead]
  have hkey : readExp L (fuel + 1) (L.write key ++ (byte ']' :: (lit " = " ++ tail))) =
      some (.scalar key, byte ']' :: (lit " = " ++ tail)) :=
    readExp_literal key (by simp [Stops])
  have hclose : token (byte ']') [] (byte ']' :: (lit " = " ++ tail)) = some (lit " = " ++ tail) :=
    token_cons (by decide) (by simp)
  have heq : token (byte '=') (lit "=") (lit " = " ++ tail) = some (byte ' ' :: tail) := by
    have hline : lit " = " ++ tail = byte ' ' :: byte '=' :: byte ' ' :: tail := rfl
    rw [hline, token_congr (skipBlanks_blank (by decide) _)]
    exact token_cons (by decide) (by simp [lit, byte])
  have hvalue : readExp L (fuel + 1) (byte ' ' :: tail) = some (u, rest') := by
    rw [readExp_congr (skipBlanks_blank (by decide) _), hval]
  simp only [readField, hopen, hkey, hclose, heq, hvalue, Option.bind_eq_bind, Option.bind_some]

theorem readFields_flatten (es : List (Scalar × Tree))
    (hes : ∀ e ∈ es, ReadsBack L (readExp L (fuel + 1)) e.2) (fields : Fields)
    (hkeys : ((fields.list ++ es).map Prod.fst).Nodup) (rest : Bytes) {n : ℕ} (hn : es.length < n) :
    ∃ f : Fields, ∃ us, f.list = fields.list ++ us ∧
      List.Forall₂ (fun e u => u.1 = e.1 ∧ e.2.Same u.2) es us ∧
      readFields (readExp L (fuel + 1)) n
        ((es.map fun e => field L e.1 (text L e.2)).flatten ++ (byte '\x7d' :: rest)) fields =
          some (f.toTree, rest) := by
  induction es generalizing fields n with
  | nil =>
    obtain ⟨n, rfl⟩ : ∃ m, n = m + 1 := ⟨n - 1, by omega⟩
    refine ⟨fields, [], (List.append_nil _).symm, .nil, ?_⟩
    have hclose : token (byte '\x7d') [] (byte '\x7d' :: rest) = some rest :=
      token_cons (by decide) (by simp)
    simp only [List.map_nil, List.flatten_nil, List.nil_append, readFields, hclose]
  | cons e es ih =>
    rw [List.length_cons] at hn
    obtain ⟨n, rfl⟩ : ∃ m, n = m + 1 := ⟨n - 1, by omega⟩
    set tail :=
      (es.map fun e => field L e.1 (text L e.2)).flatten ++ (byte '\x7d' :: rest) with htail
    have hline : ((e :: es).map fun e => field L e.1 (text L e.2)).flatten ++
        (byte '\x7d' :: rest) = field L e.1 (text L e.2) ++ tail := by
      simp [htail]
    have hnot : token (byte '\x7d') [] (field L e.1 (text L e.2) ++ tail) = none := by
      have hblank : field L e.1 (text L e.2) ++ tail =
          byte ' ' :: byte '[' ::
          (L.write e.1 ++ (lit "] = " ++ (text L e.2 ++ (lit ",\n" ++ tail)))) := by
        simp [field, lit, byte]
      rw [hblank, token_congr (skipBlanks_blank (by decide) _)]
      exact token_cons_of_ne (by decide) (by decide)
    obtain ⟨u, rest', hfield, hrest', hsame⟩ := readField_field (hes e (by simp)) e.1 tail
    have hcomma : token (byte ',') [] rest' = some (byte '\n' :: tail) := by
      rw [token_congr hrest']
      exact token_cons (by decide) (by simp)
    -- the keys are distinct, so no field is written over
    have hfresh : e.1 ∉ fields.list.map Prod.fst := by
      intro hmem
      rw [List.map_append, List.map_cons] at hkeys
      exact (List.nodup_append.mp hkeys).2.2 _ hmem _ (by simp) rfl
    have hset := Fields.set_of_not_mem u hfresh
    obtain ⟨f, us, hf, hus, hread⟩ := ih (fun e he => hes e (by simp [he])) (fields.set e.1 u)
      (by rw [hset]; simpa using hkeys) (n := n) (by omega)
    refine ⟨f, (e.1, u) :: us, ?_, .cons ⟨rfl, hsame⟩ hus, ?_⟩
    · rw [hf, hset, List.append_assoc, List.singleton_append]
    · rw [hline, readFields]
      simp only [hnot, hfield, hcomma, Option.bind_eq_bind, Option.bind_some]
      rw [readFields_congr (skipBlanks_blank (by decide) _)]
      exact hread

theorem length_text_le_flatten {es : List (Scalar × Tree)} {e : Scalar × Tree} (he : e ∈ es) :
    (text L e.2).length ≤ (es.map fun e => field L e.1 (text L e.2)).flatten.length := by
  have hmem : field L e.1 (text L e.2) ∈ es.map fun e => field L e.1 (text L e.2) :=
    List.mem_map.mpr ⟨e, he, rfl⟩
  have hpart := (List.sublist_flatten_of_mem hmem).length_le
  have hval : (text L e.2).length ≤ (field L e.1 (text L e.2)).length := by
    simp only [field, List.length_append]
    omega
  exact hval.trans hpart

theorem readsBack {t : Tree} (ht : t.Plain) {fuel : ℕ} (hf : (text L t).length < fuel) :
    ReadsBack L (readExp L fuel) t := by
  induction t generalizing fuel with
  | scalar o =>
    intro rest hrest
    obtain ⟨fuel, rfl⟩ : ∃ m, fuel = m + 1 := ⟨fuel - 1, by omega⟩
    exact ⟨.scalar o, rest, readExp_literal o hrest, rfl, rfl⟩
  | other type => exact ht.elim
  | table n key val distinct ih =>
    intro rest hrest
    set es := List.ofFn fun i => (key i, val i) with hes
    have hflat : (List.ofFn fun i => field L (key i) (text L (val i))) =
        es.map fun e => field L e.1 (text L e.2) := by
      rw [hes, List.map_ofFn]
      rfl
    have htext : text L (.table n key val distinct) =
        lit "\x7b\n" ++ (es.map fun e => field L e.1 (text L e.2)).flatten ++ lit "\x7d\n" := by
      rw [text, hflat]
    have hlen : (es.map fun e => field L e.1 (text L e.2)).flatten.length + 4 < fuel := by
      rw [htext] at hf
      simpa [lit] using hf
    obtain ⟨fuel, rfl⟩ : ∃ m, fuel = m + 1 + 1 := ⟨fuel - 2, by omega⟩
    set fields := (es.map fun e => field L e.1 (text L e.2)).flatten with hfields
    -- the text of each value is a part of the text of the table
    have hvals : ∀ e ∈ es, ReadsBack L (readExp L (fuel + 1)) e.2 := by
      intro e he
      have hle : (text L e.2).length < fuel + 1 := by
        have hpart : (text L e.2).length ≤ fields.length := length_text_le_flatten he
        omega
      obtain ⟨i, rfl⟩ := List.mem_ofFn.mp he
      exact ih i (ht i) hle
    have hkeys : (([] ++ es).map Prod.fst).Nodup := by
      rw [List.nil_append, hes, List.map_ofFn]
      exact List.nodup_ofFn.mpr distinct
    set body := fields ++ (byte '\x7d' :: byte '\n' :: rest) with hbody
    have hcount : es.length < (byte '\n' :: body).length + 1 := by
      have hes_le : es.length ≤ fields.length := by
        rw [hfields, ← List.flatMap_def]
        exact length_le_flatMap (fun e => by simp [field, lit]) es
      rw [hbody, List.length_cons, List.length_append]
      omega
    obtain ⟨f, us, hf, hus, hread⟩ :=
      readFields_flatten es hvals ⟨[], List.nodup_nil⟩ hkeys (byte '\n' :: rest) hcount
    have hopen : token (byte '\x7b') [] (text L (.table n key val distinct) ++ rest) =
        some (byte '\n' :: body) := by
      have hline :
          text L (.table n key val distinct) ++ rest = byte '\x7b' :: byte '\n' :: body := by
        simp [htext, hbody, lit, byte]
      rw [hline]
      exact token_cons (by decide) (by simp)
    refine ⟨f.toTree, byte '\n' :: rest, ?_, skipBlanks_blank (by decide) rest, ?_⟩
    · simp only [readExp, hopen]
      rw [readFields_congr (skipBlanks_blank (by decide) _)]
      exact hread
    · rw [hes] at hus
      exact Fields.same_toTree distinct (by rwa [hf])

/-- Whatever order `pairs` visits the fields of `t` in, the text is an expression for `t`. -/
theorem serialize_reads_back (L : LiteralSyntax) {t t' : Tree} (ht : t.Plain) (horder : t.Same t') :
    ∃ s, serialize L t' = .ok s ∧ ∃ u, expValue L s = some u ∧ t.Same u := by
  have ht' := horder.plain ht
  refine ⟨text L t', serialize_plain L ht', ?_⟩
  obtain ⟨u, rest, hread, hrest, hsame⟩ :=
    readsBack (L := L) ht' (Nat.lt_succ_self _) [] (by simp [Stops])
  rw [List.append_nil] at hread
  refine ⟨u, ?_, horder.trans hsame⟩
  rw [expValue, hread, Option.bind_some]
  exact if_pos hrest

/-! The table of the source's comment, in any order of its fields. -/

def documentedKey : Fin 3 → Scalar := ![.str (lit "a"), .str (lit "b"), .str (lit "key")]

def documentedVal : Fin 3 → Tree :=
  ![.scalar (.int 12), .scalar (.str (lit "Lua")), .scalar (.str (lit "another \"one\""))]

theorem documentedKey_injective : Function.Injective documentedKey := by decide

def documented (order : Equiv.Perm (Fin 3)) : Tree :=
  .table 3 (documentedKey ∘ order) (documentedVal ∘ order)
    (documentedKey_injective.comp order.injective)

theorem documented_plain (order : Equiv.Perm (Fin 3)) : (documented order).Plain := by
  intro i
  change (documentedVal (order i)).Plain
  generalize order i = j
  fin_cases j <;> trivial

theorem documented_same (order : Equiv.Perm (Fin 3)) : (documented 1).Same (documented order) := by
  refine ⟨order.symm, fun i => ?_⟩
  simp only [Function.comp_apply, Equiv.apply_symm_apply, Equiv.Perm.one_apply, true_and]
  fin_cases i <;> rfl

theorem serialize_documented_reads_back :
    (documented 1).Plain ∧ (documented 1).Same (documented Fin.revPerm) ∧
      ∃ s, serialize luaLiterals (documented Fin.revPerm) = .ok s ∧
        ∃ u, expValue luaLiterals s = some u ∧ (documented 1).Same u :=
  ⟨documented_plain 1, documented_same Fin.revPerm,
    serialize_reads_back luaLiterals (documented_plain 1) (documented_same Fin.revPerm)⟩

end MyFile.Serialize
