import MyFile.Cmd.Executors

/-! How much `analyze_cmd` depends on the blanks of a command. Between the words their number and
kind make no difference, but a blank in front gives an empty first piece, which is looked up as a
key, and a blank at the end gives an empty last argument. -/

namespace MyFile.Cmd

open Lua

/-- The words of a command: its maximal runs of characters that are not blank. -/
def words (cmd : Bytes) : List Bytes := runs (fun c => !isSpace c) cmd

def beginsBlank (cmd : Bytes) : Bool := cmd.head?.any isSpace

def endsBlank (cmd : Bytes) : Bool := cmd.getLast?.any isSpace

/-- The empty piece that a blank at an end of the command leaves. -/
def edge (blank : Bool) : List Bytes := if blank then [[]] else []

/-! The pieces of a squeezed command. -/

theorem squeeze_blank_blank {x y : UInt8} (hx : isSpace x = true)
    (hy : isSpace y = true) (s : Bytes) :
    squeeze (x :: y :: s) = squeeze (y :: s) := by
  rw [squeeze_blank_cons hx, squeeze_blank_cons hy, List.dropWhile_cons_of_pos hy]

theorem words_blank_cons {x : UInt8} (hx : isSpace x = true) (s : Bytes) :
    words (x :: s) = words s :=
  runs_cons_sep s (by simp [hx])

theorem splitOn_space_cons (s : Bytes) : (space :: s).splitOn space = [] :: s.splitOn space :=
  List.splitOn_append_cons_self_of_not_mem (show space ∉ [] by simp) s

theorem splitOn_squeeze {cmd : Bytes} (hne : cmd ≠ []) :
    (squeeze cmd).splitOn space =
      edge (beginsBlank cmd) ++ words cmd ++ edge (endsBlank cmd) := by
  induction cmd using run_induction (t := fun c => !isSpace c) with
  | nil => exact absurd rfl hne
  | sep x s hx ih =>
    have hx : isSpace x = true := by simpa using hx
    rw [words_blank_cons hx]
    cases s with
    | nil =>
      rw [squeeze_blank_cons hx, List.dropWhile_nil, squeeze_nil, splitOn_space_cons]
      simp [beginsBlank, endsBlank, words, edge, hx]
    | cons y s =>
      have ih := ih (by simp)
      have hend : endsBlank (x :: y :: s) = endsBlank (y :: s) := rfl
      -- one blank of a run is enough to tell that the command begins with it
      by_cases hy : isSpace y = true
      · rw [squeeze_blank_blank hx hy, ih, hend]
        simp [beginsBlank, hx, hy]
      · rw [squeeze_blank_cons hx, List.dropWhile_cons_of_neg hy, splitOn_space_cons, ih, hend]
        simp [beginsBlank, edge, hx, hy]
  | run w s hw hall hs ih =>
    have hall : ∀ c ∈ w, isSpace c = false := fun c hc => by simpa using hall c hc
    have hwords : words (w ++ s) = w :: words s := runs_run_append hw (by simpa using hall) hs
    have hmem : space ∉ w := space_not_mem_of_isWord ⟨hw, hall⟩
    have hbegin : beginsBlank (w ++ s) = false := by
      obtain ⟨c, w, rfl⟩ := List.exists_cons_of_ne_nil hw
      simpa [beginsBlank] using hall c (by simp)
    rw [squeeze_append hall, hwords, hbegin]
    cases s with
    | nil =>
      have hend : endsBlank w = false := by
        simpa [endsBlank, List.getLast?_eq_getLast_of_ne_nil hw] using hall _ (List.getLast_mem hw)
      simp [words, edge, hend, List.splitOn_eq_singleton hmem]
    | cons x s =>
      have hx : isSpace x = true := by simpa using hs x rfl
      have hend : endsBlank (w ++ x :: s) = endsBlank (x :: s) := by
        rw [endsBlank, List.getLast?_append_of_ne_nil _ (by simp)]
        rfl
      have hrest := ih (by simp)
      -- the blank after the word begins the rest of the command and ends the word's piece
      rw [squeeze_blank_cons hx, splitOn_space_cons] at hrest
      rw [squeeze_blank_cons hx, List.splitOn_append_cons_self_of_not_mem hmem, hend]
      simp only [beginsBlank, edge, List.head?_cons, Option.any_some, hx, if_true] at hrest
      rw [List.singleton_append, List.cons_append] at hrest
      rw [(List.cons.inj hrest).2]
      rfl

theorem edge_inj {b b' : Bool} : edge b = edge b' ↔ b = b' := by
  cases b <;> cases b' <;> simp [edge]

theorem ne_nil_of_mem_words {w cmd : Bytes} (h : w ∈ words cmd) : w ≠ [] := by
  simpa using (List.mem_filter.mp h).2

theorem blank_of_words_eq_nil {cmd : Bytes} (hne : cmd ≠ []) (h : words cmd = []) :
    beginsBlank cmd = true ∧ endsBlank cmd = true := by
  have hall : ∀ c ∈ cmd, isSpace c = true := by
    clear hne
    induction cmd using run_induction (t := fun c => !isSpace c) with
    | nil => simp
    | sep x s hx ih =>
      have hx : isSpace x = true := by simpa using hx
      rw [words_blank_cons hx] at h
      exact List.forall_mem_cons.mpr ⟨hx, ih h⟩
    | run w s hw hall hs ih =>
      rw [words, runs_run_append hw hall hs] at h
      cases h
  constructor
  · simpa [beginsBlank, List.head?_eq_some_head hne] using hall _ (List.head_mem hne)
  · simpa [endsBlank, List.getLast?_eq_getLast_of_ne_nil hne] using hall _ (List.getLast_mem hne)

/-- Two commands with the same words are cut alike exactly when they are blank at the same ends. -/
theorem splitOn_squeeze_eq_iff {cmd cmd' : Bytes} (h : words cmd = words cmd') :
    (squeeze cmd).splitOn space = (squeeze cmd').splitOn space ↔
      beginsBlank cmd = beginsBlank cmd' ∧ endsBlank cmd = endsBlank cmd' := by
  have hempty {s : Bytes} (hs : words s = []) :
      ([] : Bytes).splitOn space = (squeeze s).splitOn space ↔
      beginsBlank [] = beginsBlank s ∧ endsBlank [] = endsBlank s := by
    rcases eq_or_ne s [] with rfl | hne
    · simp
    · obtain ⟨hb, he⟩ := blank_of_words_eq_nil hne hs
      rw [splitOn_squeeze hne, hs, hb, he]
      simp [edge, beginsBlank]
  rcases eq_or_ne cmd [] with rfl | hne
  · exact hempty h.symm
  rcases eq_or_ne cmd' [] with rfl | hne'
  · rw [eq_comm, @eq_comm _ (beginsBlank cmd), @eq_comm _ (endsBlank cmd)]
    exact hempty h
  rw [splitOn_squeeze hne, splitOn_squeeze hne', ← h]
  rcases hws : words cmd with _ | ⟨w, ws⟩
  · obtain ⟨hb, he⟩ := blank_of_words_eq_nil hne hws
    obtain ⟨hb', he'⟩ := blank_of_words_eq_nil hne' (h.symm.trans hws)
    simp [hb, he, hb', he']
  · -- the first piece tells whether the command begins with a blank
    have hmem : w ∈ words cmd := by simp [hws]
    have hw : w ≠ [] := ne_nil_of_mem_words hmem
    cases beginsBlank cmd <;> cases beginsBlank cmd' <;> simp [edge_inj]
    · simp [edge, hw]
    · simp [edge, hw.symm]

section resolve

variable {F : Type*}

theorem root_eq_table (cmdSet : Value F) : ∃ get, root cmdSet = .table get := by
  cases cmdSet <;> exact ⟨_, rfl⟩

theorem analyzeCmd_eq (split : Bytes → Bytes → List Bytes) (cmdSet : Value F) (cmd : Bytes) :
    analyzeCmd split cmdSet (some cmd) =
      .ok (resolve (root cmdSet) (split (squeeze cmd) (lit " "))) := by
  obtain ⟨get, hget⟩ := root_eq_table cmdSet
  obtain ⟨r, hr, hf⟩ := walk_table get (split (squeeze cmd) (lit " "))
  rw [hget, ← hf, analyzeCmd, hget]
  simp only [Option.getD_some, hr]
  rfl

theorem resolve_edge {get : Bytes → Value F} (hv : (Value.table get).WordKeys) (tb : List Bytes) :
    resolve (.table get) ([] :: tb) = none := by
  rw [resolve]
  rcases (hv []).1 with h | h
  · simp [h]
  · exact absurd rfl h.1

theorem resolve_append_edge {v : Value F} (hv : v.WordKeys) (tb : List Bytes) (blank : Bool) :
    resolve v (tb ++ edge blank) = (resolve v tb).map fun r => (r.1, r.2 ++ edge blank) := by
  induction tb generalizing v with
  | nil =>
    cases v with
    | table get =>
      cases blank with
      | false => rfl
      | true => exact resolve_edge hv []
    | _ => simp
  | cons w tb ih =>
    cases v with
    | table get => exact ih (hv w).2
    | _ => simp

/-- What `analyze_cmd` finds in a tree whose keys can be typed. -/
theorem resolve_squeeze_words {get : Bytes → Value F}
    (hv : (Value.table get).WordKeys) (cmd : Bytes) :
    resolve (.table get) ((squeeze cmd).splitOn space) =
      if beginsBlank cmd then none
      else (resolve (.table get) (words cmd)).map fun r => (r.1, r.2 ++ edge (endsBlank cmd)) := by
  rcases eq_or_ne cmd [] with rfl | hne
  · rw [squeeze_nil]
    exact resolve_edge hv []
  · rw [splitOn_squeeze hne]
    cases beginsBlank cmd with
    | true => exact resolve_edge hv _
    | false => exact resolve_append_edge hv _ _

end resolve

/-- Two commands with the same words are resolved alike in every command tree exactly when both or
none begin with a blank and both or none end with one. In a tree whose keys can be typed they are
resolved alike just when both begin with a blank, or they are blank at the same ends, or the words
lead to no handler. -/
theorem analyzeCmd_blanks_iff {F : Type*} [Nonempty F] (split : Bytes → Bytes → List Bytes)
    (hsplit : ∀ s, split s (lit " ") = s.splitOn space) {cmd cmd' : Bytes}
    (h : words cmd = words cmd') :
    ((∀ cmdSet : Value F,
        analyzeCmd split cmdSet (some cmd) = analyzeCmd split cmdSet (some cmd')) ↔
      beginsBlank cmd = beginsBlank cmd' ∧ endsBlank cmd = endsBlank cmd') ∧
    ∀ cmdSet : Value F, (root cmdSet).WordKeys →
      (analyzeCmd split cmdSet (some cmd) = analyzeCmd split cmdSet (some cmd') ↔
        (beginsBlank cmd = true ∧ beginsBlank cmd' = true) ∨
        (beginsBlank cmd = beginsBlank cmd' ∧ endsBlank cmd = endsBlank cmd') ∨
        resolve (root cmdSet) (words cmd) = none) := by
  rw [← splitOn_squeeze_eq_iff h]
  simp only [analyzeCmd_eq, hsplit, Except.ok.injEq]
  refine ⟨⟨?_, ?_⟩, ?_⟩
  · intro hall
    exact eq_of_resolve_eq (List.splitOn_ne_nil _ _) (List.splitOn_ne_nil _ _)
      fun get => hall (.table get)
  · intro heq cmdSet
    rw [heq]
  · intro cmdSet hkeys
    obtain ⟨get, hget⟩ := root_eq_table cmdSet
    rw [splitOn_squeeze_eq_iff h]
    rw [hget] at hkeys ⊢
    rw [resolve_squeeze_words hkeys, resolve_squeeze_words hkeys, ← h]
    rcases resolve (.table get) (words cmd) with _ | ⟨f, argv⟩
    · simp
    · cases beginsBlank cmd <;> cases beginsBlank cmd' <;> simp [edge_inj]

def removeTree : Bytes → Value String := fun k =>
  if k = lit "remove" then .table fun k => if k = lit "j42" then .func "h" else .nil else .nil

theorem analyzeCmd_blanks_between :
    analyzeCmd (fun s _ => s.splitOn space) (.table removeTree) (some (lit "remove j42 imei")) =
      analyzeCmd (fun s _ => s.splitOn space) (.table removeTree) (some (lit "remove  j42\timei")) :=
  (analyzeCmd_blanks_iff (fun s _ => s.splitOn space) (fun _ => rfl) (by decide +kernel)).1.mpr
    (by decide +kernel) (.table removeTree)

/-- The command of the script's test, and the same with other blanks: the second is not found. -/
theorem analyzeCmd_blank_in_front :
    words (lit "remove j42 imei") = words (lit " remove j42  imei ") ∧
      analyzeCmd (fun s _ => s.splitOn space) (.table removeTree) (some (lit "remove j42 imei")) =
        .ok (some ("h", [lit "imei"])) ∧
      analyzeCmd (fun s _ => s.splitOn space) (.table removeTree)
        (some (lit " remove j42  imei ")) = .ok none := by
  decide +kernel

end MyFile.Cmd
