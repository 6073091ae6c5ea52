import MyFile.Save.Spec

/-! Executing what `save` writes. A stage pairs the table `saved` with a store in which every
recorded name already denotes the copy of its table, however few of its fields are there yet. A call
of `save` leads from stage to stage, writes one slot that was unset and completes every table it
creates. -/

namespace MyFile.Save

open Lua Lua.Assignment Store

variable {ι : Type*}

def image (ids : ι → Option ℕ) : Value ι → Option (Value ℕ)
  | .scalar s => some (.scalar s)
  | .table i => (ids i).map .table
  | .other _ => none

theorem image_cases {ids : ι → Option ℕ} {v : Value ι} {w : Value ℕ} (h : image ids v = some w) :
    (∃ s, v = .scalar s ∧ w = .scalar s) ∨ ∃ i r, v = .table i ∧ w = .table r ∧ ids i = some r := by
  cases v with
  | scalar s => exact Or.inl ⟨s, rfl, by simpa [image] using h.symm⟩
  | table i =>
    obtain ⟨r, hr, rfl⟩ := Option.map_eq_some_iff.mp h
    exact Or.inr ⟨i, r, rfl, rfl, hr⟩
  | other type => cases h

theorem image_mono {ids ids' : ι → Option ℕ} (h : ∀ i r, ids i = some r → ids' i = some r)
    {v : Value ι} {w : Value ℕ} (hv : image ids v = some w) : image ids' v = some w := by
  rcases image_cases hv with ⟨s, rfl, rfl⟩ | ⟨i, r, rfl, rfl, hr⟩
  · rfl
  · simp [image, h i r hr]

/-- `saved` while the chunk is being written, the store when it has been executed that far, and
which table of the store is the copy of which table. -/
structure Stage (ι : Type*) where
  store : Store
  saved : Saved ι
  ids : ι → Option ℕ
  names : ∀ i t, saved i = some t → ∃ n r, t = n.render ∧ ids i = some r ∧ Denotes store n r
  unsaved : ∀ i, saved i = none → ids i = none
  inj : ∀ i j r, ids i = some r → ids j = some r → i = j

/-- One call of `save`: the name, the slot it stands for and the value. -/
structure Item (ι : Type*) where
  name : Name
  slot : Slot
  value : Value ι

/-- The fields of a table that are not those of `H` are unset, the others hold copies. -/
structure Built (H : Heap ι) (σ : Store) (ids : ι → Option ℕ) (i : ι) (r : ℕ) : Prop where
  present : ∀ f ∈ H.fields i, ∃ w, image ids f.2 = some w ∧ σ.cells (.field r f.1) = some w
  absent : ∀ k, k ∉ (H.fields i).map Prod.fst → σ.cells (.field r k) = none

/-- From the first stage to the second the items have been saved. -/
structure Written (H : Heap ι) (items : List (Item ι)) (p q : Stage ι) : Prop where
  next : p.store.next ≤ q.store.next
  frame : ∀ t, p.store.Has t → t ∉ items.map Item.slot → q.store.cells t = p.store.cells t
  keeps : ∀ i r, p.ids i = some r → q.ids i = some r
  values : ∀ e ∈ items, ∃ w, image q.ids e.value = some w ∧ q.store.cells e.slot = some w
  built : ∀ i r, p.ids i = none → q.ids i = some r → p.store.next ≤ r ∧ Built H q.store q.ids i r

/-- What `save` may be called with. -/
structure Ready (p : Stage ι) (e : Item ι) : Prop where
  place : Place p.store e.name e.slot
  unset : p.store.cells e.slot = none
  plain : Plain e.value

variable {H : Heap ι} {p q p' : Stage ι} {e : Item ι} {items : List (Item ι)}

theorem Stage.saved_eq_none_iff (p : Stage ι) (i : ι) : p.saved i = none ↔ p.ids i = none := by
  refine ⟨p.unsaved i, fun h => ?_⟩
  cases hs : p.saved i with
  | none => rfl
  | some t =>
    obtain ⟨n, r, -, hr, -⟩ := p.names i t hs
    simp [h] at hr

theorem Stage.ids_lt (p : Stage ι) {i : ι} {r : ℕ} (h : p.ids i = some r) : r < p.store.next := by
  cases hs : p.saved i with
  | none => simp [p.unsaved i hs] at h
  | some t =>
    obtain ⟨n, r', -, hr', hd⟩ := p.names i t hs
    obtain rfl : r' = r := by simpa [h] using hr'.symm
    exact hd.lt

theorem Written.grows (h : Written H items p q) (hready : ∀ e ∈ items, Ready p e) :
    Grows p.store q.store := by
  refine ⟨h.next, fun t v ht hv => ?_⟩
  rw [h.frame t ht, hv]
  intro hmem
  obtain ⟨e, he, rfl⟩ := List.mem_map.mp hmem
  simp [(hready e he).unset] at hv

theorem Written.ready (h : Written H items p q) (hready : ∀ e ∈ items, Ready p e) (he : Ready p e)
    (hslot : e.slot ∉ items.map Item.slot) : Ready q e :=
  ⟨he.place.mono (h.grows hready), by rw [h.frame _ he.place.has hslot, he.unset], he.plain⟩

theorem Written.refl (H : Heap ι) (p : Stage ι) : Written H [] p p where
  next := le_rfl
  frame _ _ _ := rfl
  keeps _ _ h := h
  values _ h := by simp at h
  built i r hn hs := by simp [hn] at hs

theorem Built.mono {σ σ' : Store} {ids ids' : ι → Option ℕ} {i : ι} {r : ℕ} (h : Built H σ ids i r)
    (hids : ∀ i r, ids i = some r → ids' i = some r)
    (hcells : ∀ k, σ'.cells (.field r k) = σ.cells (.field r k)) : Built H σ' ids' i r where
  present f hf := by
    obtain ⟨w, hw, hc⟩ := h.present f hf
    exact ⟨w, image_mono hids hw, (hcells f.1).trans hc⟩
  absent k hk := (hcells k).trans (h.absent k hk)

theorem Written.cons (h₁ : Written H [e] p q) (h₂ : Written H items q p') (he : p.store.Has e.slot)
    (hslot : e.slot ∉ items.map Item.slot) (hitems : ∀ x ∈ items, p.store.Has x.slot) :
    Written H (e :: items) p p' where
  next := h₁.next.trans h₂.next
  frame t ht hne := by
    rw [List.map_cons, List.mem_cons, not_or] at hne
    rw [h₂.frame t (ht.mono h₁.next) hne.2, h₁.frame t ht (by simpa using hne.1)]
  keeps i r hr := h₂.keeps i r (h₁.keeps i r hr)
  values x hx := by
    rcases List.mem_cons.mp hx with rfl | hx
    · obtain ⟨w, hw, hc⟩ := h₁.values x (by simp)
      exact ⟨w, image_mono h₂.keeps hw, (h₂.frame _ (he.mono h₁.next) hslot).trans hc⟩
    · exact h₂.values x hx
  built i r hn hs := by
    rcases hq : q.ids i with _ | r'
    · obtain ⟨hle, hb⟩ := h₂.built i r hq hs
      exact ⟨h₁.next.trans hle, hb⟩
    · obtain rfl : r' = r := by simpa [hs] using (h₂.keeps i r' hq).symm
      obtain ⟨hle, hb⟩ := h₁.built i r' hn hq
      refine ⟨hle, hb.mono h₂.keeps fun k => h₂.frame _ (q.ids_lt hq) fun hmem => ?_⟩
      obtain ⟨x, hx, hxs⟩ := List.mem_map.mp hmem
      have hlt : p.store.Has (.field r' k) := hxs ▸ hitems x hx
      exact absurd hlt (Nat.not_lt.mpr hle)

/-! ### One assignment -/

def Stage.write (p : Stage ι) (s : Slot) (hs : p.store.cells s = none) (w : Value ℕ) : Stage ι where
  store := p.store.set s (some w)
  saved := p.saved
  ids := p.ids
  names i t ht := by
    obtain ⟨n, r, hn, hr, hd⟩ := p.names i t ht
    exact ⟨n, r, hn, hr, hd.mono (grows_set hs _)⟩
  unsaved := p.unsaved
  inj := p.inj

theorem written_write (H : Heap ι) (p : Stage ι) (e : Item ι) (hs : p.store.cells e.slot = none)
    {w : Value ℕ} (hw : image p.ids e.value = some w) : Written H [e] p (p.write e.slot hs w) where
  next := le_rfl
  frame t _ hne := set_cells_of_ne _ _ (by simpa using hne)
  keeps _ _ h := h
  values x hx := by
    obtain rfl : x = e := by simpa using hx
    exact ⟨w, hw, set_cells_self _ _ _⟩
  built i r hn hs := by
    change p.ids i = some r at hs
    simp [hn] at hs

/-- The calls of `save` for the fields of `i`, whose copy is `r` and is called `n`. -/
def fieldItems (H : Heap ι) (n : Name) (r : ℕ) (i : ι) : List (Item ι) :=
  (H.fields i).map fun f => ⟨n.index f.1, .field r f.1, f.2⟩

theorem fieldItems_slots (H : Heap ι) (n : Name) (r : ℕ) (i : ι) :
    (fieldItems H n r i).map Item.slot = ((H.fields i).map Prod.fst).map (.field r) := by
  simp [fieldItems, Function.comp_def]

theorem fieldItems_nodup (H : Heap ι) (n : Name) (r : ℕ) (i : ι) :
    ((fieldItems H n r i).map Item.slot).Nodup := by
  rw [fieldItems_slots]
  exact (H.nodup i).map fun k k' h => by simpa using h

section Create

variable [DecidableEq ι]

def Stage.create (p : Stage ι) (i : ι) (n : Name) (s : Slot) (hn : Place p.store n s)
    (hs : p.store.cells s = none) : Stage ι where
  store := p.store.alloc.set s (some (.table p.store.next))
  saved := Function.update p.saved i (some n.render)
  ids := Function.update p.ids i (some p.store.next)
  names j t ht := by
    have hs' : p.store.alloc.cells s = none := (alloc_cells_of_has hn.has).trans hs
    have hg := (grows_alloc p.store).trans (grows_set hs' (some (.table p.store.next)))
    rcases eq_or_ne j i with rfl | hj
    · obtain rfl : n.render = t := by simpa using ht
      exact ⟨n, p.store.next, rfl, by simp,
        (hn.mono hg).denotes (set_cells_self _ _ _) (Nat.lt_succ_self _)⟩
    · obtain ⟨m, r, hm, hr, hd⟩ := p.names j t (by simpa [hj] using ht)
      exact ⟨m, r, hm, by simpa [hj] using hr, hd.mono hg⟩
  unsaved j hj := by
    have hne : j ≠ i := by
      rintro rfl
      simp at hj
    simpa [hne] using p.unsaved j (by simpa [hne] using hj)
  inj j k r hj hk := by
    -- the new identity is above all those in use
    have hlt : ∀ j', j' ≠ i → Function.update p.ids i (some p.store.next) j' = some r →
        r < p.store.next := by
      intro j' hne h
      exact p.ids_lt (by simpa [hne] using h)
    rcases eq_or_ne j i with rfl | hji <;> rcases eq_or_ne k j with rfl | hkj
    · rfl
    · have := hlt k hkj hk
      have : p.store.next = r := by simpa using hj
      omega
    · rfl
    · rcases eq_or_ne k i with rfl | hki
      · have := hlt j hji hj
        have : p.store.next = r := by simpa using hk
        omega
      · exact p.inj j k r (by simpa [hji] using hj) (by simpa [hki] using hk)

variable {i : ι} {n : Name} {s : Slot} (hn : Place p.store n s) (hs : p.store.cells s = none)

theorem slot_ne_new {σ : Store} (hs : σ.Has s) (k : Scalar) : s ≠ .field σ.next k := by
  rintro rfl
  exact lt_irrefl _ hs

theorem create_cells_of_ne {t : Slot} (ht : p.store.Has t) (hne : t ≠ s) :
    (p.create i n s hn hs).store.cells t = p.store.cells t :=
  (set_cells_of_ne _ _ hne).trans (alloc_cells_of_has ht)

theorem create_cells_new (k : Scalar) :
    (p.create i n s hn hs).store.cells (.field p.store.next k) = none :=
  (set_cells_of_ne _ _ (slot_ne_new hn.has k).symm).trans (alloc_cells_new _ k)

theorem create_denotes : Denotes (p.create i n s hn hs).store n p.store.next := by
  obtain ⟨m, r, hm, hr, hd⟩ := (p.create i n s hn hs).names i n.render (by simp [Stage.create])
  obtain rfl : p.store.next = r := by simpa [Stage.create] using hr
  obtain rfl := render_injective hm
  exact hd

theorem ready_fieldItems (hH : H.Plain) :
    ∀ e ∈ fieldItems H n p.store.next i, Ready (p.create i n s hn hs) e := by
  intro e he
  obtain ⟨f, hf, rfl⟩ := List.mem_map.mp he
  exact ⟨.index _ (create_denotes hn hs), create_cells_new hn hs _, hH i f hf⟩

theorem written_create (hi : p.saved i = none)
    (h : Written H (fieldItems H n p.store.next i) (p.create i n s hn hs) q) :
    Written H [⟨n, s, .table i⟩] p q := by
  have hid : q.ids i = some p.store.next := h.keeps i _ (by simp [Stage.create])
  have hnext : p.store.next + 1 ≤ q.store.next := h.next
  -- saving the fields touches no slot that was there before
  have hold : ∀ t, p.store.Has t → q.store.cells t = (p.create i n s hn hs).store.cells t := by
    intro t ht
    refine h.frame t (ht.mono (Nat.le_succ _)) ?_
    rw [fieldItems_slots, List.mem_map]
    rintro ⟨k, -, hk⟩
    exact slot_ne_new ht k hk.symm
  refine ⟨by omega, ?_, ?_, ?_, ?_⟩
  · intro t ht hne
    rw [hold t ht, create_cells_of_ne hn hs ht (by simpa using hne)]
  · intro j r hr
    have hne : j ≠ i := by
      rintro rfl
      simp [p.unsaved j hi] at hr
    exact h.keeps j r (by simpa [Stage.create, hne] using hr)
  · intro e he
    obtain rfl : e = ⟨n, s, .table i⟩ := by simpa using he
    refine ⟨.table p.store.next, by simp [image, hid], ?_⟩
    rw [hold s hn.has]
    exact set_cells_self _ _ _
  · intro j r hnone hsome
    rcases eq_or_ne j i with rfl | hne
    · obtain rfl : p.store.next = r := by simpa [hid] using hsome
      refine ⟨le_rfl, fun f hf => ?_, fun k hk => ?_⟩
      · exact h.values ⟨n.index f.1, .field p.store.next f.1, f.2⟩ (List.mem_map_of_mem hf)
      · rw [h.frame _ (Nat.lt_succ_self _), create_cells_new hn hs k]
        rw [fieldItems_slots]
        simpa using hk
    · obtain ⟨hle, hb⟩ := h.built j r (by simpa [Stage.create, hne] using hnone) hsome
      exact ⟨(Nat.le_succ _).trans hle, hb⟩

end Create

/-! ### Whole calls -/

section Calls

variable [Fintype ι]

def unvisited {α : Type*} (saved : ι → Option α) : ℕ :=
  (Finset.univ.filter fun i => saved i = none).card

theorem unvisited_le_card {α : Type*} (saved : ι → Option α) : unvisited saved ≤ Fintype.card ι :=
  Finset.card_le_univ _

theorem Written.unvisited_le (h : Written H items p q) : unvisited q.saved ≤ unvisited p.saved := by
  apply Finset.card_le_card
  intro i hi
  simp only [Finset.mem_filter, Finset.mem_univ, true_and, Stage.saved_eq_none_iff] at hi ⊢
  cases hp : p.ids i with
  | none => rfl
  | some r => simp [h.keeps i r hp] at hi

theorem unvisited_update [DecidableEq ι] {α : Type*}
    {saved : ι → Option α} {i : ι} (hi : saved i = none) (a : α) :
    unvisited (Function.update saved i (some a)) < unvisited saved := by
  apply Finset.card_lt_card
  refine ⟨fun j hj => ?_, fun h => ?_⟩
  · have hne : j ≠ i := by
      rintro rfl
      simp at hj
    simpa [hne] using hj
  · simpa using h (Finset.mem_filter.mpr ⟨Finset.mem_univ i, hi⟩)

/-- With enough fuel the call returns; it has written statements that lead to a stage at which the
items are saved. -/
def Saves (H : Heap ι) (p : Stage ι) (items : List (Item ι))
    (call : ℕ → Except Error (Text × Saved ι)) :
    Prop :=
  ∃ ss q, (∀ fuel, unvisited p.saved < fuel → call fuel = .ok (ss.flatMap Stmt.render, q.saved)) ∧
    p.store.execAll ss = .ok q.store ∧ Written H items p q

theorem saves_write {p : Stage ι} {e : Item ι} (he : Ready p e) {x : Exp} {w : Value ℕ}
    {call : ℕ → Except Error (Text × Saved ι)}
    (hcall : ∀ fuel, call (fuel + 1) = .ok ((Stmt.mk e.name x).render, p.saved))
    (heval : p.store.eval x = .ok (some w, p.store)) (hw : image p.ids e.value = some w) :
    Saves H p [e] call := by
  refine ⟨[⟨e.name, x⟩], p.write e.slot he.unset w, fun fuel hfuel => ?_,
    ?_, written_write H p e he.unset hw⟩
  · obtain ⟨m, rfl⟩ : ∃ m, fuel = m + 1 := ⟨fuel - 1, by omega⟩
    rw [hcall, List.flatMap_singleton]
    rfl
  · rw [execAll_cons (exec_place heval he.place)]
    rfl

variable [DecidableEq ι]

theorem saveEach_saves {d : ℕ}
    (hsave : ∀ (p : Stage ι) (e : Item ι), unvisited p.saved ≤ d → Ready p e →
      Saves H p [e] fun fuel => save H fuel e.name.render e.value p.saved)
    (items : List (Item ι)) (p : Stage ι) (hd : unvisited p.saved ≤ d)
      (hready : ∀ e ∈ items, Ready p e)
    (hnodup : (items.map Item.slot).Nodup) :
    Saves H p items fun fuel =>
      saveEach (save H fuel) (items.map fun e => (e.name.render, e.value)) p.saved := by
  induction items generalizing p with
  | nil => exact ⟨[], p, fun _ _ => rfl, rfl, .refl H p⟩
  | cons e items ih =>
    rw [List.map_cons, List.nodup_cons] at hnodup
    have he := hready e (by simp)
    obtain ⟨ss, q, hcall, hexec, hw⟩ := hsave p e hd he
    have hq : unvisited q.saved ≤ unvisited p.saved := hw.unvisited_le
    have hready' : ∀ x ∈ items, Ready q x := by
      intro x hx
      refine hw.ready (by simpa using he) (hready x (by simp [hx])) ?_
      intro hmem
      rw [List.map_singleton, List.mem_singleton] at hmem
      exact hnodup.1 (hmem ▸ List.mem_map_of_mem hx)
    obtain ⟨ss', p', hcall', hexec', hw'⟩ := ih q (hq.trans hd) hready' hnodup.2
    refine ⟨ss ++ ss', p', fun fuel hfuel => ?_, ?_, ?_⟩
    · rw [List.flatMap_append]
      exact saveEach_cons (hcall fuel hfuel) (hcall' fuel (by omega))
    · rw [execAll_append hexec, hexec']
    · exact hw.cons hw' he.place.has hnodup.1 fun x hx => (hready x (by simp [hx])).place.has

/-- The induction is on the number of tables without a name: a call for one of them records it
before it goes on to the fields, so the nested calls have one table less. -/
theorem save_saves (hH : H.Plain) (d : ℕ) (p : Stage ι) (e : Item ι) (hd : unvisited p.saved ≤ d)
    (he : Ready p e) : Saves H p [e] fun fuel => save H fuel e.name.render e.value p.saved := by
  induction d using Nat.strong_induction_on generalizing p e with
  | _ d ih =>
  obtain ⟨n, s, v⟩ := e
  cases v with
  | scalar c => exact saves_write he (fun _ => rfl) (x := .lit c) rfl rfl
  | other type => exact absurd he.plain id
  | table i =>
    cases hi : p.saved i with
    | some t =>
      obtain ⟨m, r, rfl, hr, hm⟩ := p.names i t hi
      exact saves_write he (fun fuel => save_saved hi) (x := .name m)
        (eval_name hm) (by simp [image, hr])
    | none =>
      set q := p.create i n s he.place he.unset with hq
      have hlt : unvisited q.saved < unvisited p.saved := unvisited_update hi n.render
      obtain ⟨ss, p', hcall, hexec, hw⟩ := saveEach_saves (ih (unvisited q.saved) (by omega))
        (fieldItems H n p.store.next i) q le_rfl (ready_fieldItems he.place he.unset hH)
        (fieldItems_nodup H n p.store.next i)
      refine ⟨⟨n, .newTable⟩ :: ss, p', fun fuel hfuel => ?_,
        ?_, written_create he.place he.unset hi hw⟩
      · obtain ⟨m, rfl⟩ : ∃ m, fuel = m + 1 := ⟨fuel - 1, by omega⟩
        have hfields : (H.fields i).map (fun f => (fieldname n.render f.1, f.2)) =
            (fieldItems H n p.store.next i).map fun e => (e.name.render, e.value) := by
          simp [fieldItems, fieldname, basicSerialize, Name.render, Function.comp_def]
        exact save_table hi (hfields ▸ hcall m (by omega))
      · rw [execAll_cons (exec_place rfl (he.place.mono (grows_alloc _)))]
        exact hexec

end Calls

/-! ### Paths -/

/-- A value of the heap and its copy, or nothing on both sides. -/
abbrev Copied (ids : ι → Option ℕ) : Option (Value ι) → Option (Value ℕ) → Prop :=
  Option.Rel fun v w => image ids v = some w

theorem Built.copied {σ : Store} {ids : ι → Option ℕ} {i : ι}
    {r : ℕ} (h : Built H σ ids i r) (k : Scalar) :
    Copied ids ((H.fields i).lookup k) (σ.cells (.field r k)) := by
  cases hk : (H.fields i).lookup k with
  | none =>
    rw [h.absent k]
    · exact .none
    · intro hmem
      obtain ⟨f, hf, rfl⟩ := List.mem_map.mp hmem
      simpa using List.lookup_eq_none_iff.mp hk f hf
  | some v =>
    obtain ⟨l₁, l₂, hl, -⟩ := List.lookup_eq_some_iff.mp hk
    obtain ⟨w, hw, hc⟩ := h.present (k, v) (by simp [hl])
    rw [hc]
    exact .some hw

theorem copied_followFrom {σ : Store} {ids : ι → Option ℕ}
    (hb : ∀ i r, ids i = some r → Built H σ ids i r) {v : Option (Value ι)}
    {w : Option (Value ℕ)} (h : Copied ids v w) (ks : List Scalar) :
    Copied ids (H.followFrom v ks) (σ.followFrom w ks) := by
  induction ks generalizing v w with
  | nil => simpa [Heap.followFrom, Store.followFrom] using h
  | cons k ks ih =>
    rcases h with h | _
    · rcases image_cases h with ⟨s, rfl, rfl⟩ | ⟨i, r, rfl, rfl, hr⟩
      · exact .none
      · exact ih ((hb i r hr).copied k)
    · exact .none

section Copied

variable {ids : ι → Option ℕ} {v : Option (Value ι)} {w : Option (Value ℕ)}

theorem copied_isSome_iff (h : Copied ids v w) : w.isSome ↔ v.isSome := by
  rcases h with _ | _ <;> simp

theorem copied_scalar_iff (h : Copied ids v w) (s : Scalar) :
    w = some (.scalar s) ↔ v = some (.scalar s) := by
  rcases h with h | _
  · rcases image_cases h with ⟨s', rfl, rfl⟩ | ⟨i, r, rfl, rfl, -⟩ <;> simp
  · simp

theorem copied_table_iff (h : Copied ids v w) (r : ℕ) :
    w = some (.table r) ↔ ∃ i, ids i = some r ∧ v = some (.table i) := by
  rcases h with h | _
  · rcases image_cases h with ⟨s, rfl, rfl⟩ | ⟨i, r', rfl, rfl, hr'⟩
    · simp
    · simp [hr']
  · simp

end Copied

/-- With one-to-one copies along all paths the names are jointly isomorphic to the roots. -/
theorem isomorphic_of_copied {roots : List (Bytes × ι)} {σ : Store} {ids : ι → Option ℕ}
    (hinj : ∀ i j r, ids i = some r → ids j = some r → i = j)
    (h : ∀ g ∈ roots.map Prod.fst, ∀ ks, Copied ids (H.follow roots g ks) (σ.follow g ks)) :
    Isomorphic H roots σ where
  keys g hg ks := copied_isSome_iff (h g hg ks)
  scalars g hg ks s := copied_scalar_iff (h g hg ks) s
  tables g hg g' hg' ks ks' := by
    constructor
    · rintro ⟨r, hr, hr'⟩
      obtain ⟨i, hi, hv⟩ := (copied_table_iff (h g hg ks) r).mp hr
      obtain ⟨j, hj, hv'⟩ := (copied_table_iff (h g' hg' ks') r).mp hr'
      obtain rfl := hinj i j r hi hj
      exact ⟨i, hv, hv'⟩
    · rintro ⟨i, hv, hv'⟩
      -- the copy exists because the copied value is there
      obtain ⟨w, hw⟩ : ∃ w, σ.follow g ks = some w :=
        Option.isSome_iff_exists.mp ((copied_isSome_iff (h g hg ks)).mpr (by simp [hv]))
      have hc := h g hg ks
      rw [hv, hw] at hc
      rcases hc with hc | _
      obtain ⟨r, hr, rfl⟩ := Option.map_eq_some_iff.mp hc
      exact ⟨r, hw, (copied_table_iff (h g' hg' ks') r).mpr ⟨i, hr, hv'⟩⟩

/-! ### The roots -/

def Stage.start (ι : Type*) (σ : Store) : Stage ι where
  store := σ
  saved _ := none
  ids _ := none
  names _ _ h := by cases h
  unsaved _ _ := rfl
  inj _ _ _ h := by cases h

def rootItems (roots : List (Bytes × ι)) : List (Item ι) :=
  roots.map fun r => ⟨.global r.1, .global r.1, .table r.2⟩

theorem rootItems_slots (roots : List (Bytes × ι)) :
    (rootItems roots).map Item.slot = (roots.map Prod.fst).map .global := by
  simp [rootItems, Function.comp_def]

theorem ready_rootItems {roots : List (Bytes × ι)} {σ : Store}
    (hunset : ∀ g ∈ roots.map Prod.fst, σ.cells (.global g) = none) :
    ∀ e ∈ rootItems roots, Ready (.start ι σ) e := by
  intro e he
  obtain ⟨r, hr, rfl⟩ := List.mem_map.mp he
  exact ⟨.global r.1, hunset r.1 (List.mem_map_of_mem hr), trivial⟩

theorem written_roots {roots : List (Bytes × ι)} (h : Written H (rootItems roots) p q) {g : Bytes}
    (hg : g ∈ roots.map Prod.fst) :
    Copied q.ids ((roots.lookup g).map .table) (q.store.cells (.global g)) := by
  cases hl : roots.lookup g with
  | none =>
    obtain ⟨r, hr, rfl⟩ := List.mem_map.mp hg
    simpa using List.lookup_eq_none_iff.mp hl r hr
  | some i =>
    obtain ⟨l₁, l₂, hr, -⟩ := List.lookup_eq_some_iff.mp hl
    obtain ⟨w, hw, hc⟩ := h.values ⟨.global g, .global g, .table i⟩ (by simp [rootItems, hr])
    rw [hc]
    exact .some hw

/-- `save` returns for every root, and executing what it has written gives the same graph again. -/
theorem saveRoots_rebuilds [Fintype ι] [DecidableEq ι] (H : Heap ι) (hH : H.Plain)
    (roots : List (Bytes × ι)) (hnames : (roots.map Prod.fst).Nodup) (σ : Store)
    (hunset : ∀ g ∈ roots.map Prod.fst, σ.cells (.global g) = none) :
    ∃ out saved, (∀ fuel, Fintype.card ι < fuel → saveRoots H fuel roots = .ok (out, saved)) ∧
      ∃ σ', σ.run out = .ok σ' ∧ Isomorphic H roots σ' := by
  have hslots : ((rootItems roots).map Item.slot).Nodup := by
    rw [rootItems_slots]
    exact hnames.map fun g g' h => by simpa using h
  obtain ⟨ss, q, hcall, hexec, hw⟩ := saveEach_saves (save_saves hH _)
    (rootItems roots) (.start ι σ) le_rfl (ready_rootItems hunset) hslots
  refine ⟨ss.flatMap Stmt.render, q.saved, fun fuel hfuel => ?_, q.store, run_render hexec,
    isomorphic_of_copied q.inj fun g hg ks => ?_⟩
  · rw [← hcall fuel ((unvisited_le_card _).trans_lt hfuel), rootItems, List.map_map]
    rfl
  · exact copied_followFrom (fun i r hr => (hw.built i r rfl hr).2) (written_roots hw hg) ks

/-- The tables at the end of the script: `a = {x=1, y=2;{3,4,5}}; a[2]=a; a.z=a[1]`. -/
def scriptHeap : Heap (Fin 2) where
  fields
    | 0 => [(.int 1, .table 1), (.int 2, .table 0), (.str (lit "x"), .scalar (.int 1)),
        (.str (lit "y"), .scalar (.int 2)), (.str (lit "z"), .table 1)]
    | 1 => [(.int 1, .scalar (.int 3)), (.int 2, .scalar (.int 4)), (.int 3, .scalar (.int 5))]
  nodup := by decide

theorem saveRoots_rebuilds_script :
    ∃ out saved, (∀ fuel, 2 < fuel → saveRoots scriptHeap fuel [(lit "a", 0)] = .ok (out, saved)) ∧
      ∃ σ', (Store.mk 0 fun _ => none).run out = .ok σ' ∧ Isomorphic scriptHeap [(lit "a", 0)] σ' :=
  saveRoots_rebuilds scriptHeap (by unfold Heap.Plain; decide)
    [(lit "a", 0)] (by simp) ⟨0, fun _ => none⟩ (by simp)

-- `save('a', a)` at the end of the script: the cycle and the shared table are written by name
example :
    let a := Name.global (lit "a")
    (saveRoots scriptHeap 3 [(lit "a", 0)]).map Prod.fst = .ok (List.flatMap Stmt.render
      [⟨a, .newTable⟩, ⟨a.index (.int 1), .newTable⟩,
        ⟨(a.index (.int 1)).index (.int 1), .lit (.int 3)⟩,
        ⟨(a.index (.int 1)).index (.int 2), .lit (.int 4)⟩,
        ⟨(a.index (.int 1)).index (.int 3), .lit (.int 5)⟩,
        ⟨a.index (.int 2), .name a⟩,
        ⟨a.index (.str (lit "x")), .lit (.int 1)⟩, ⟨a.index (.str (lit "y")), .lit (.int 2)⟩,
        ⟨a.index (.str (lit "z")), .name (a.index (.int 1))⟩]) := by rfl

end MyFile.Save
