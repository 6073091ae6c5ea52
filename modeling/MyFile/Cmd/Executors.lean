import MyFile.Cmd.Spec

/-! The two executors walk the same tree, one along the words of the squeezed command, the other
along those of the command as it is. They agree on a command in every tree exactly when squeezing
leaves the command alone. -/

namespace MyFile.Cmd

open Lua

variable {F : Type*}

/-- The handler a list of words leads to and the words left for it. -/
def resolve : Value F → List Bytes → Option (F × List Bytes)
  | .func f, argv => some (f, argv)
  | .table get, v :: tb => resolve (get v) tb
  | _, _ => none

@[simp] theorem resolve_func (f : F) (argv : List Bytes) :
    resolve (.func f) argv = some (f, argv) := by
  cases argv <;> rfl

@[simp] theorem resolve_nil (tb : List Bytes) : resolve (.nil : Value F) tb = none := by
  cases tb <;> rfl

@[simp] theorem resolve_other (b : Bool) (tb : List Bytes) :
    resolve (.other b : Value F) tb = none := by
  cases tb <;> rfl

theorem walk_func (f : F) (tb argv : List Bytes) :
    walk (.func f) tb argv = .ok (.func f, argv ++ tb) := by
  induction tb generalizing argv with
  | nil => simp [walk]
  | cons v tb ih => rw [walk, ih, List.append_assoc, List.singleton_append]

/-- From a table the loop never indexes anything else, and finds what `resolve` says. -/
theorem walk_table (get : Bytes → Value F) (tb : List Bytes) :
    ∃ r, walk (.table get) tb [] = .ok r ∧ found r = resolve (.table get) tb := by
  induction tb generalizing get with
  | nil => exact ⟨_, rfl, rfl⟩
  | cons v tb ih =>
    rw [walk, resolve]
    cases hv : get v with
    | nil => exact ⟨_, rfl, by simp [found]⟩
    | other b => exact ⟨_, rfl, by simp [found]⟩
    | func f => exact ⟨_, walk_func f tb [], by simp [found]⟩
    | table get' => exact ih get'

variable (split : Bytes → Bytes → List Bytes)

theorem executeCmd_eq (get : Bytes → Value F) (cmd : Bytes) :
    executeCmd split (.table get) (some cmd) =
      .ok (match resolve (.table get) (split (squeeze cmd) (lit " ")) with
        | some (f, argv) => .call f argv
        | none => .report (lit "-ERR " ++ cmd ++ lit " command not found!")) := by
  obtain ⟨r, hr, hf⟩ := walk_table get (split (squeeze cmd) (lit " "))
  simp only [executeCmd, analyzeCmd, root, Option.getD_some, hr]
  change (match found r with
    | some (f, argv) => (.ok (.call f argv) : Except Error (Outcome F))
    | none => .ok (.report (lit "-ERR " ++ cmd ++ lit " command not found!"))) = _
  rw [hf]
  cases resolve (.table get) (split (squeeze cmd) (lit " ")) <;> rfl

theorem executeCustomCmd_eq (get : Bytes → Value F) (cmd : Bytes) :
    executeCustomCmd split (.table get) (some cmd) =
      .ok (match resolve (.table get) (split cmd (lit " ")) with
        | some (f, argv) => .call f argv
        | none => .report (lit "-ERR \"" ++ cmd ++ lit "\" command not found!")) := by
  obtain ⟨r, hr, hf⟩ := walk_table get (split cmd (lit " "))
  rcases hres : resolve (.table get) (split cmd (lit " ")) with _ | ⟨f, argv⟩ <;>
  · rw [hres] at hf
    simp only [executeCustomCmd, Value.isFalsy, root, hr, bind, Except.bind, hf]
    rfl

theorem agree_iff_resolve (get : Bytes → Value F) (cmd : Bytes) :
    Agree (executeCustomCmd split (.table get) (some cmd))
        (executeCmd split (.table get) (some cmd)) ↔
      resolve (.table get) (split cmd (lit " ")) =
        resolve (.table get) (split (squeeze cmd) (lit " ")) := by
  have hmsg : lit "command not found!" <:+ lit "-ERR " ++ cmd ++ lit " command not found!" :=
    List.IsSuffix.trans ⟨lit " ", by decide +kernel⟩ (List.suffix_append _ _)
  have hmsg' : lit "command not found!" <:+ lit "-ERR \"" ++ cmd ++ lit "\" command not found!" :=
    List.IsSuffix.trans ⟨lit "\" ", by decide +kernel⟩ (List.suffix_append _ _)
  rw [executeCustomCmd_eq, executeCmd_eq, Agree]
  cases resolve (.table get) (split cmd (lit " ")) with
  | none =>
    cases resolve (.table get) (split (squeeze cmd) (lit " ")) with
    | none => exact iff_of_true (Or.inl ⟨_, _, rfl, rfl, hmsg', hmsg⟩) rfl
    | some r => simp
  | some r =>
    cases resolve (.table get) (split (squeeze cmd) (lit " ")) with
    | none => simp
    | some r' => simp [Prod.ext_iff, eq_comm]

/-! Squeezing. -/

def space : UInt8 := 32

theorem lit_space : lit " " = [space] := by decide

theorem blank_pattern : pattern "%s+" = ⟨false, [.single (.named .space false) .plus]⟩ := by
  decide +kernel

theorem blank_test : CharClass.test (.named .space false) = isSpace := by
  funext c
  simp [CharClass.test, Named.test]

@[simp] theorem squeeze_nil : squeeze [] = [] := by
  rw [squeeze, strGsub, blank_pattern]
  rfl

theorem squeeze_cons {x : UInt8} (hx : isSpace x = false) (s : Bytes) :
    squeeze (x :: s) = x :: squeeze s := by
  rw [← blank_test] at hx
  rw [squeeze, strGsub, blank_pattern, gsub_plus_cons CharClass.test hx]
  rw [squeeze, strGsub, blank_pattern]

theorem squeeze_blanks {w s : Bytes} (hne : w ≠ []) (hw : ∀ x ∈ w, isSpace x)
    (hs : ∀ x ∈ s.head?, isSpace x = false) : squeeze (w ++ s) = space :: squeeze s := by
  rw [← blank_test] at hw hs
  rw [squeeze, strGsub, blank_pattern, gsub_plus_run CharClass.test hne hw hs, lit_space]
  rw [squeeze, strGsub, blank_pattern, lit_space]
  rfl

/-- Every blank is a space character, and no two of them are adjacent. -/
def SingleSpaced (cmd : Bytes) : Prop :=
  (∀ c ∈ cmd, isSpace c → c = space) ∧ ¬ [space, space] <:+: cmd

theorem squeeze_length_le (s : Bytes) : (squeeze s).length ≤ s.length := by
  induction s using run_induction (t := isSpace) with
  | nil => simp
  | sep x s hx ih =>
    rw [squeeze_cons hx, List.length_cons, List.length_cons]
    omega
  | run w s hne hw hs ih =>
    have := List.length_pos_of_ne_nil hne
    rw [squeeze_blanks hne hw hs, List.length_cons, List.length_append]
    omega

theorem isSpace_space : isSpace space = true := by decide

theorem singleSpaced_cons {x : UInt8} {s : Bytes} (h : isSpace x = true → x = space)
    (hs : x = space → s.head? ≠ some space) : SingleSpaced (x :: s) ↔ SingleSpaced s := by
  have hpre : ¬ [space, space] <+: x :: s := by
    rw [List.cons_prefix_cons]
    rintro ⟨rfl, hp⟩
    cases s with
    | nil => simp at hp
    | cons y s =>
      rw [List.cons_prefix_cons] at hp
      exact hs rfl (by rw [← hp.1]; rfl)
  simp only [SingleSpaced, List.infix_cons_iff, hpre, false_or, List.forall_mem_cons]
  tauto

theorem squeeze_eq_self_iff (cmd : Bytes) : squeeze cmd = cmd ↔ SingleSpaced cmd := by
  induction cmd using run_induction (t := isSpace) with
  | nil => simp [SingleSpaced]
  | sep x s hx ih =>
    rw [squeeze_cons hx, List.cons.injEq, and_iff_right rfl, ih]
    refine (singleSpaced_cons (by simp [hx]) ?_).symm
    rintro rfl
    simp [isSpace_space] at hx
  | run w s hne hw hs ih =>
    rw [squeeze_blanks hne hw hs]
    have hhead : s.head? ≠ some space := by
      intro h
      simpa [isSpace_space] using hs space h
    constructor
    · intro h
      -- one blank became one space, so the run had one character
      have hlen := congrArg List.length h
      have hle := squeeze_length_le s
      have hpos := List.length_pos_of_ne_nil hne
      rw [List.length_cons, List.length_append] at hlen
      obtain ⟨x, rfl⟩ := List.length_eq_one_iff.mp (show w.length = 1 by omega)
      rw [List.singleton_append, List.cons.injEq] at h
      rw [List.singleton_append, ← h.1, singleSpaced_cons (fun _ => rfl) (fun _ => hhead)]
      exact ih.mp h.2
    · intro h
      cases w with
      | nil => exact absurd rfl hne
      | cons x w =>
        have hx : x = space := h.1 x (by simp) (hw x (by simp))
        cases w with
        | nil =>
          rw [List.singleton_append, hx, singleSpaced_cons (fun _ => rfl) (fun _ => hhead)] at h
          rw [List.singleton_append, hx, ih.mpr h]
        | cons y w =>
          have hy : y = space := h.1 y (by simp) (hw y (by simp))
          refine absurd ⟨[], w ++ s, ?_⟩ h.2
          simp [hx, hy]

theorem squeeze_append {w : Bytes} (hw : ∀ c ∈ w, isSpace c = false) (s : Bytes) :
    squeeze (w ++ s) = w ++ squeeze s := by
  induction w with
  | nil => rfl
  | cons x w ih =>
    rw [List.cons_append, squeeze_cons (hw x (by simp)), ih fun c hc => hw c (by simp [hc]),
      List.cons_append]

theorem squeeze_blank_cons {x : UInt8} (hx : isSpace x = true) (s : Bytes) :
    squeeze (x :: s) = space :: squeeze (s.dropWhile isSpace) := by
  have h := squeeze_blanks (w := x :: s.takeWhile isSpace) (by simp)
    (by simpa [hx] using fun y hy => List.mem_takeWhile_imp hy) (head_dropWhile isSpace s)
  rwa [List.cons_append, List.takeWhile_append_dropWhile] at h

theorem squeeze_space_cons {s : Bytes} (hs : ∀ x ∈ s.head?, isSpace x = false) :
    squeeze (space :: s) = space :: squeeze s :=
  squeeze_blanks (w := [space]) (by simp) (by simp [isSpace_space]) hs

/-! The words. -/

theorem splitOn_space_injective {s t : Bytes} (h : s.splitOn space = t.splitOn space) : s = t := by
  have hs : [space].intercalate (s.splitOn space) = s := List.intercalate_splitOn space
  rw [← hs, h, List.intercalate_splitOn]

theorem splitOn_space_cases (s : Bytes) :
    (space ∉ s ∧ s.splitOn space = [s]) ∨
      ∃ w rest, space ∉ w ∧ s = w ++ space :: rest ∧ s.splitOn space = w :: rest.splitOn space := by
  by_cases h : space ∈ s
  · obtain ⟨w, rest, rfl, hw⟩ := List.eq_append_cons_of_mem h
    exact Or.inr ⟨w, rest, hw, rfl, List.splitOn_append_cons_self_of_not_mem hw _⟩
  · exact Or.inl ⟨h, List.splitOn_eq_singleton h⟩

/-- A key that can be typed as a word. -/
def IsWord (k : Bytes) : Prop := k ≠ [] ∧ ∀ c ∈ k, isSpace c = false

def Value.WordKeys : Value F → Prop
  | .table get => ∀ k, (get k = .nil ∨ IsWord k) ∧ (get k).WordKeys
  | _ => True

theorem isWord_of_resolve {get : Bytes → Value F} (hv : (Value.table get).WordKeys) {k : Bytes}
    {tb : List Bytes} {r : F × List Bytes} (h : resolve (get k) tb = some r) : IsWord k := by
  rcases (hv k).1 with hk | hk
  · simp [hk] at h
  · exact hk

theorem space_not_mem_of_isWord {k : Bytes} (h : IsWord k) : space ∉ k := by
  intro hk
  simpa [isSpace_space] using h.2 space hk

theorem head_of_isWord {s w : Bytes} {ts : List Bytes} (hs : s.splitOn space = w :: ts)
    (hw : IsWord w) : ∀ x ∈ s.head?, isSpace x = false := by
  obtain ⟨c, w', rfl⟩ := List.exists_cons_of_ne_nil hw.1
  rcases splitOn_space_cases s with ⟨-, h⟩ | ⟨w₁, rest, -, rfl, h⟩
  · obtain ⟨rfl, -⟩ := List.cons.inj (h.symm.trans hs)
    simpa using hw.2 c (by simp)
  · obtain ⟨rfl, -⟩ := List.cons.inj (h.symm.trans hs)
    simpa using hw.2 c (by simp)

theorem resolve_squeeze {v : Value F} (hv : v.WordKeys) {cmd : Bytes} {f : F} {argv : List Bytes}
    (h : resolve v (cmd.splitOn space) = some (f, argv)) (hfun : ∀ g, v ≠ .func g) :
    ∃ argv', resolve v ((squeeze cmd).splitOn space) = some (f, argv') ∧
      (argv = argv' → squeeze cmd = cmd) := by
  induction v generalizing cmd with
  | nil => simp at h
  | other b => simp at h
  | func g => exact absurd rfl (hfun g)
  | table get ih =>
    rcases splitOn_space_cases cmd with ⟨-, hcmd⟩ | ⟨w, rest, -, rfl, hcmd⟩
    · rw [hcmd, resolve] at h
      have hw := isWord_of_resolve hv h
      have hsq : squeeze cmd = cmd := by simpa using squeeze_append hw.2 []
      rw [hsq, hcmd, resolve]
      exact ⟨argv, h, fun _ => rfl⟩
    · rw [hcmd, resolve] at h
      have hw := isWord_of_resolve hv h
      have hmem := space_not_mem_of_isWord hw
      rw [squeeze_append hw.2]
      cases hget : get w with
      | nil => simp [hget] at h
      | other b => simp [hget] at h
      | func g =>
        -- the rest of the words are the arguments on both sides
        simp only [hget, resolve_func, Option.some.injEq, Prod.mk.injEq] at h
        obtain ⟨rfl, rfl⟩ := h
        rw [squeeze_blank_cons isSpace_space, List.splitOn_append_cons_self_of_not_mem hmem,
          resolve, hget, resolve_func]
        exact ⟨_, rfl, fun he => by rw [← splitOn_space_injective he]⟩
      | table get' =>
        -- the next word is a key too, so one space stands between the two
        have hhead : ∀ x ∈ rest.head?, isSpace x = false := by
          obtain ⟨w', ts, hts⟩ := List.exists_cons_of_ne_nil (List.splitOn_ne_nil space rest)
          rw [hget, hts, resolve] at h
          have hv' : (Value.table get').WordKeys := hget ▸ (hv w).2
          exact head_of_isWord hts (isWord_of_resolve hv' h)
        obtain ⟨argv', hargv, heq⟩ := ih w (hv w).2 h (by simp [hget])
        rw [squeeze_space_cons hhead, List.splitOn_append_cons_self_of_not_mem hmem, resolve]
        exact ⟨argv', hargv, fun he => by rw [heq he]⟩

theorem eq_of_resolve_eq [Nonempty F] {tb tb' : List Bytes} (hne : tb ≠ []) (hne' : tb' ≠ [])
    (h : ∀ get : Bytes → Value F, resolve (.table get) tb = resolve (.table get) tb') :
    tb = tb' := by
  obtain ⟨f⟩ := ‹Nonempty F›
  obtain ⟨p, ps, rfl⟩ := List.exists_cons_of_ne_nil hne
  obtain ⟨q, qs, rfl⟩ := List.exists_cons_of_ne_nil hne'
  have hr := h fun v => if v = q then .func f else .nil
  rw [resolve, resolve] at hr
  by_cases hpq : p = q
  · simp only [hpq, if_true, resolve_func, Option.some.injEq, Prod.mk.injEq, true_and] at hr
    rw [hpq, hr]
  · simp [hpq] at hr

/-- The executors agree on a command in every command tree exactly when every run of white space in
it is one space character. In a tree whose keys can be typed they agree on any other command just
when its first words lead to no handler. -/
theorem executors_agree_iff [Nonempty F] (hsplit : ∀ s, split s (lit " ") = s.splitOn space)
    (cmd : Bytes) :
    ((∀ get : Bytes → Value F, Agree (executeCustomCmd split (.table get) (some cmd))
      (executeCmd split (.table get) (some cmd))) ↔ SingleSpaced cmd) ∧
    ∀ get : Bytes → Value F, (Value.table get).WordKeys →
      (Agree (executeCustomCmd split (.table get) (some cmd))
        (executeCmd split (.table get) (some cmd)) ↔
        SingleSpaced cmd ∨ resolve (.table get) ((squeeze cmd).splitOn space) = none) := by
  rw [← squeeze_eq_self_iff]
  refine ⟨⟨?_, ?_⟩, ?_⟩
  · -- trees with one handler are enough to tell the two lists of words apart
    intro h
    apply splitOn_space_injective
    refine eq_of_resolve_eq (F := F) (List.splitOn_ne_nil _ _) (List.splitOn_ne_nil _ _) ?_
    intro get
    have hr := (agree_iff_resolve split get cmd).mp (h get)
    rw [hsplit, hsplit] at hr
    exact hr.symm
  · intro h get
    rw [agree_iff_resolve, h]
  · intro get hkeys
    rw [agree_iff_resolve, hsplit, hsplit]
    have hres (f : F) (argv : List Bytes) (h : resolve _ (cmd.splitOn space) = some (f, argv)) :=
      resolve_squeeze hkeys h
    constructor
    · intro h
      rw [h] at hres
      cases hs : resolve (.table get) ((squeeze cmd).splitOn space) with
      | none => exact Or.inr rfl
      | some r =>
        obtain ⟨argv', h', heq⟩ := hres r.1 r.2 hs (by simp)
        refine Or.inl (heq ?_)
        simpa using congrArg (Option.map Prod.snd) (hs.symm.trans h')
    · rintro (h | hs)
      · rw [h]
      · cases hc : resolve (.table get) (cmd.splitOn space) with
        | none => exact hs.symm
        | some r =>
          obtain ⟨argv', h', -⟩ := hres r.1 r.2 hc (by simp)
          rw [hs] at h'
          cases h'

def sampleTree : Bytes → Value String := fun k => if k = lit "a" then .func "h" else .nil

theorem executors_agree_single_space :
    Agree (executeCustomCmd (fun s _ => s.splitOn space) (.table sampleTree) (some (lit "a b")))
      (executeCmd (fun s _ => s.splitOn space) (.table sampleTree) (some (lit "a b"))) :=
  (executors_agree_iff (fun s _ => s.splitOn space) (fun _ => rfl) (lit "a b")).1.mpr
    (by unfold SingleSpaced; decide +kernel) sampleTree

/-- `a  b`: the handler gets `b` from one executor, an empty argument and `b` from the other. -/
theorem executors_disagree_two_spaces :
    executeCmd (fun s _ => s.splitOn space) (.table sampleTree) (some (lit "a  b")) =
        .ok (.call "h" [lit "b"]) ∧
      executeCustomCmd (fun s _ => s.splitOn space) (.table sampleTree) (some (lit "a  b")) =
        .ok (.call "h" [[], lit "b"]) ∧
      ¬ Agree (executeCustomCmd (fun s _ => s.splitOn space) (.table sampleTree) (some (lit "a  b")))
        (executeCmd (fun s _ => s.splitOn space) (.table sampleTree) (some (lit "a  b"))) := by
  have h₁ : executeCmd (fun s _ => s.splitOn space) (.table sampleTree) (some (lit "a  b")) =
      .ok (.call "h" [lit "b"]) := by decide +kernel
  have h₂ : executeCustomCmd (fun s _ => s.splitOn space) (.table sampleTree) (some (lit "a  b")) =
      .ok (.call "h" [[], lit "b"]) := by decide +kernel
  refine ⟨h₁, h₂, ?_⟩
  rw [h₁, h₂]
  simp [Agree]

end MyFile.Cmd
