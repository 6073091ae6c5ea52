import MyFile.Cmd.Executors

/-! What `analyze_cmd` returns for words that are joined by single spaces: the words are split, in
the only way the tree allows, into a path to a handler and its arguments. -/

namespace MyFile.Cmd

open Lua

variable {F : Type*}

/-- `cmd_set[w1]...[wj]`, or `none` where something else than a table would be indexed. -/
def Value.at : Value F → List Bytes → Option (Value F)
  | v, [] => some v
  | .table get, w :: ws => (get w).at ws
  | _, _ :: _ => none

@[simp] theorem at_nil (v : Value F) : v.at [] = some v := by
  cases v <;> rfl

/-- The first `k` words lead through tables to the handler `f`. -/
structure Split (v : Value F) (ws : List Bytes) (k : ℕ) (f : F) : Prop where
  le : k ≤ ws.length
  tables : ∀ j < k, ∃ get, v.at (ws.take j) = some (.table get)
  func : v.at (ws.take k) = some (.func f)

@[simp] theorem split_zero {v : Value F} {ws : List Bytes} {f : F} :
    Split v ws 0 f ↔ v = .func f := by
  constructor
  · intro h
    simpa using h.func
  · rintro rfl
    exact ⟨Nat.zero_le _, by simp, by simp⟩

theorem split_succ {v : Value F} {ws : List Bytes} {k : ℕ} {f : F} :
    Split v ws (k + 1) f ↔ ∃ get w tb, v = .table get ∧ ws = w :: tb ∧ Split (get w) tb k f := by
  constructor
  · intro h
    obtain ⟨get, hget⟩ := h.tables 0 (Nat.succ_pos k)
    obtain rfl : v = .table get := by simpa using hget
    obtain ⟨w, tb, rfl⟩ := List.exists_cons_of_length_pos (Nat.lt_of_lt_of_le (Nat.succ_pos k) h.le)
    refine ⟨get, w, tb, rfl, rfl, Nat.le_of_succ_le_succ h.le, ?_, h.func⟩
    intro j hj
    exact h.tables (j + 1) (Nat.succ_lt_succ hj)
  · rintro ⟨get, w, tb, rfl, rfl, h⟩
    refine ⟨Nat.succ_le_succ h.le, ?_, h.func⟩
    intro j hj
    cases j with
    | zero => exact ⟨get, by simp⟩
    | succ j => exact h.tables j (Nat.lt_of_succ_lt_succ hj)

theorem resolve_eq_some_iff {v : Value F} {ws argv : List Bytes} {f : F} :
    resolve v ws = some (f, argv) ↔ ∃ k, Split v ws k f ∧ argv = ws.drop k := by
  induction ws generalizing v with
  | nil =>
    constructor
    · intro h
      cases v with
      | func g =>
        obtain ⟨rfl, rfl⟩ : g = f ∧ [] = argv := by simpa using h
        exact ⟨0, split_zero.mpr rfl, rfl⟩
      | _ => simp [resolve] at h
    · rintro ⟨k, hk, rfl⟩
      obtain rfl : k = 0 := Nat.le_zero.mp hk.le
      rw [split_zero.mp hk, resolve_func, List.drop_nil]
  | cons w ws ih =>
    constructor
    · intro h
      cases v with
      | func g =>
        obtain ⟨rfl, rfl⟩ : g = f ∧ w :: ws = argv := by simpa using h
        exact ⟨0, split_zero.mpr rfl, rfl⟩
      | table get =>
        obtain ⟨k, hk, rfl⟩ := ih.mp h
        exact ⟨k + 1, split_succ.mpr ⟨get, w, ws, rfl, rfl, hk⟩, rfl⟩
      | _ => simp at h
    · rintro ⟨k, hk, rfl⟩
      cases k with
      | zero => rw [split_zero.mp hk, resolve_func, List.drop_zero]
      | succ k =>
        obtain ⟨get, w', tb, rfl, heq, hk⟩ := split_succ.mp hk
        obtain ⟨rfl, rfl⟩ := List.cons.inj heq
        exact ih.mpr ⟨k, hk, rfl⟩

theorem Split.not_lt {v : Value F} {ws : List Bytes} {k k' : ℕ} {f f' : F} (h : Split v ws k f)
    (h' : Split v ws k' f') : ¬ k < k' := by
  intro hlt
  obtain ⟨get, hget⟩ := h'.tables k hlt
  rw [h.func] at hget
  simp at hget

theorem Split.unique {v : Value F} {ws : List Bytes} {k k' : ℕ} {f f' : F} (h : Split v ws k f)
    (h' : Split v ws k' f') : k = k' :=
  Nat.le_antisymm (Nat.not_lt.mp (h'.not_lt h)) (Nat.not_lt.mp (h.not_lt h'))

def join (ws : List Bytes) : Bytes := [space].intercalate ws

theorem head_join {w : Bytes} (hw : IsWord w) (ws : List Bytes) :
    ∀ x ∈ (join (w :: ws)).head?, isSpace x = false := by
  obtain ⟨c, w, rfl⟩ := List.exists_cons_of_ne_nil hw.1
  have hc : isSpace c = false := hw.2 c (by simp)
  cases ws <;> simpa [join, List.intercalate_cons_cons] using hc

theorem squeeze_join {ws : List Bytes} (h : ∀ w ∈ ws, IsWord w) : squeeze (join ws) = join ws := by
  induction ws with
  | nil => exact squeeze_nil
  | cons w ws ih =>
    have hw := h w (by simp)
    have ih := ih fun w' hw' => h w' (by simp [hw'])
    cases ws with
    | nil => simpa [join] using squeeze_append hw.2 []
    | cons w' ws =>
      have hjoin : join (w :: w' :: ws) = w ++ space :: join (w' :: ws) := by
        simp [join, List.intercalate_cons_cons]
      rw [hjoin, squeeze_append hw.2, squeeze_space_cons (head_join (h w' (by simp)) ws), ih]

theorem splitOn_join {ws : List Bytes} (hne : ws ≠ []) (h : ∀ w ∈ ws, IsWord w) :
    (join ws).splitOn space = ws :=
  List.splitOn_intercalate space (fun w hw => space_not_mem_of_isWord (h w hw)) hne

/-- The loop finds a handler exactly when some first words lead to it through tables; the others are
its arguments. Only one number of words does, without it the result is `nil, nil`, and nothing but a
table is ever indexed. -/
theorem analyzeCmd_join (split : Bytes → Bytes → List Bytes)
    (hsplit : ∀ s, split s (lit " ") = s.splitOn space) (get : Bytes → Value F) (ws : List Bytes)
    (hne : ws ≠ []) (hws : ∀ w ∈ ws, IsWord w) :
    (∀ f argv, analyzeCmd split (.table get) (some (join ws)) = .ok (some (f, argv)) ↔
      ∃ k, 1 ≤ k ∧ Split (.table get) ws k f ∧ argv = ws.drop k) ∧
    (∀ k k' f f', Split (.table get) ws k f → Split (.table get) ws k' f' → k = k') ∧
    ((¬ ∃ k f, Split (.table get) ws k f) →
      analyzeCmd split (.table get) (some (join ws)) = .ok none) ∧
    ∀ e, analyzeCmd split (.table get) (some (join ws)) ≠ .error e := by
  have hresult : analyzeCmd split (.table get) (some (join ws)) = .ok (resolve (.table get) ws) := by
    obtain ⟨r, hr, hf⟩ := walk_table get ws
    rw [analyzeCmd, Option.getD_some, squeeze_join hws, hsplit, splitOn_join hne hws, root, hr, ← hf]
    rfl
  rw [hresult]
  refine ⟨?_, fun k k' f f' => Split.unique, ?_, by simp⟩
  · intro f argv
    rw [Except.ok.injEq, resolve_eq_some_iff]
    refine exists_congr fun k => ?_
    constructor
    · rintro ⟨h, rfl⟩
      -- the tree itself is no handler, so at least one word is on the path
      have hpos : 1 ≤ k := by
        rcases Nat.eq_zero_or_pos k with rfl | hk
        · simp at h
        · exact hk
      exact ⟨hpos, h, rfl⟩
    · exact And.right
  · intro hnone
    rw [Except.ok.injEq]
    rcases hres : resolve (.table get) ws with _ | ⟨f, argv⟩
    · rfl
    · obtain ⟨k, hk, -⟩ := resolve_eq_some_iff.mp hres
      exact absurd ⟨k, f, hk⟩ hnone

/-- `a b c` in the tree with the one handler `a`. -/
theorem analyzeCmd_join_abc :
    analyzeCmd (fun s _ => s.splitOn space) (.table sampleTree)
      (some (join [lit "a", lit "b", lit "c"])) = .ok (some ("h", [lit "b", lit "c"])) := by
  have hws : ∀ w ∈ [lit "a", lit "b", lit "c"], IsWord w := by
    simp only [List.forall_mem_cons, IsWord]
    decide +kernel
  refine ((analyzeCmd_join (fun s _ => s.splitOn space) (fun _ => rfl) sampleTree
    [lit "a", lit "b", lit "c"] (by simp) hws).1 "h" [lit "b", lit "c"]).mpr ?_
  exact ⟨1, le_rfl, split_succ.mpr ⟨sampleTree, lit "a", _, rfl, rfl, split_zero.mpr rfl⟩, rfl⟩

end MyFile.Cmd
