import MyFile.Ivr.Routing

/-! The order in which `pairs` visits the service table. The scan for a pressed key stops at its
entry, so an entry that does not route hides the default trunk when it is visited before it. -/

namespace MyFile.Ivr

open Lua

/-! Tables with distinct keys. -/

section keys

variable {α β : Type*} [DecidableEq β] (key : α → β)

theorem find?_perm {l₁ l₂ : List α} (h : l₁.Perm l₂) (hn : (l₁.map key).Nodup) (k : β) :
    l₁.find? (fun a => key a = k) = l₂.find? fun a => key a = k := by
  induction h with
  | nil => rfl
  | cons x hp ih =>
    rw [List.map_cons, List.nodup_cons] at hn
    rw [List.find?_cons, List.find?_cons, ih hn.2]
  | swap x y l =>
    simp only [List.map_cons, List.nodup_cons, List.mem_cons, not_or] at hn
    have hne : key y ≠ key x := hn.1.1
    by_cases hx : key x = k
    · have hy : key y ≠ k := fun hy => hne (hy.trans hx.symm)
      simp [hx, hy]
    · simp [List.find?_cons, hx]
  | trans hp₁ hp₂ ih₁ ih₂ => rw [ih₁ hn, ih₂ ((hp₁.map key).nodup_iff.mp hn)]

end keys

variable {c : Config} {codec : Option Bytes} {entries entries₁ entries₂ : List Entry}

def keys (entries : List Entry) : List Bytes := entries.map fun e => e.key.text

theorem routed_perm (hp : entries₁.Perm entries₂) (hkeys : (keys entries₁).Nodup) (digit : Bytes) :
    routed c entries₁ digit = routed c entries₂ digit := by
  unfold routed
  rw [find?_perm (fun e : Entry => e.key.text) hp hkeys]

theorem timeoutReport_perm (hp : entries₁.Perm entries₂) (hkeys : (keys entries₁).Nodup) (i : ℕ) :
    timeoutReport c codec entries₁ i = timeoutReport c codec entries₂ i := by
  unfold timeoutReport
  rw [routed_perm hp hkeys]

theorem not_routes_of_mem {digit : Bytes} (hr : routed c entries digit = none)
    (hmem : digit ∈ keys entries) :
    ∃ e ∈ entries, e.key.text = digit ∧ e.service.routes c = false := by
  obtain ⟨e, he, hkey⟩ := List.mem_map.mp hmem
  cases hfind : entries.find? fun e => e.key.text = digit with
  | none =>
    have hne := List.find?_eq_none.mp hfind e he
    simp [hkey] at hne
  | some e' =>
    refine ⟨e', List.mem_of_find?_eq_some hfind, by simpa using List.find?_some hfind, ?_⟩
    simpa [routed, hfind] using hr

theorem defaultSeen_eq_none (h : ∀ e ∈ entries, e.default = none) (digit : Bytes) :
    defaultSeen digit entries = none := by
  cases hs : defaultSeen digit entries with
  | none => rfl
  | some t =>
    obtain ⟨e, he, ht⟩ := defaultSeen_entry hs
    simp [h e he] at ht

theorem defaultSeen_of_mem (hkeys : (keys entries).Nodup) {digit : Bytes}
    (hdigit : digit ∉ keys entries) {e : Entry} (he : e ∈ entries) {t : Trunk}
    (ht : e.default = some t) : defaultSeen digit entries = some t := by
  induction entries with
  | nil => cases he
  | cons e' entries ih =>
    simp only [keys, List.map_cons, List.nodup_cons, List.mem_cons, not_or] at hkeys hdigit
    rw [defaultSeen, if_neg (Ne.symm hdigit.1)]
    rcases List.mem_cons.mp he with rfl | he
    · -- the key `none` is taken, so no other entry is a default trunk
      have hnone : ∀ e' ∈ entries, e'.default = none := by
        intro e' he'
        cases hd : e'.default with
        | none => rfl
        | some t' =>
          have hkey := (default_eq_some hd).2.trans (default_eq_some ht).2.symm
          exact absurd (List.mem_map.mpr ⟨e', he', hkey⟩) hkeys.1
      rw [defaultSeen_eq_none hnone, Option.none_or, ht]
    · rw [ih hkeys.2 hdigit.2 he, Option.some_or]

/-! Where the order does not matter. -/

theorem menu_perm_of_noDefault (hp : entries₁.Perm entries₂) (hkeys : (keys entries₁).Nodup)
    (hdef : ∀ e ∈ entries₂, e.default = none) (n i : ℕ) :
    menu c codec entries₁ n i = menu c codec entries₂ n i := by
  have hdef₁ : ∀ e ∈ entries₁, e.default = none := fun e he => hdef e (hp.mem_iff.mp he)
  induction n generalizing i with
  | zero => exact timeoutReport_perm hp hkeys i
  | succ n ih =>
    rw [menu, menu, timeoutReport_perm hp hkeys, routed_perm hp hkeys, defaultSeen_eq_none hdef,
      defaultSeen_eq_none hdef₁, ih]

/-- The default trunk is configured, and the key pressed at the `i`-th question is that of an entry
that does not route: a ring group that is not configured. -/
def Shadowed (c : Config) (entries : List Entry) (i : ℕ) : Prop :=
  (∃ e ∈ entries, e.default ≠ none) ∧
    ∃ e ∈ entries, e.key.text = c.responses i ∧ e.service.routes c = false

theorem menu_perm (hp : entries₁.Perm entries₂) (hkeys : (keys entries₁).Nodup) {n i : ℕ}
    (h : ¬ Shadowed c entries₂ i) :
    menu c codec entries₁ (n + 1) i = menu c codec entries₂ (n + 1) i := by
  by_cases hdef : ∀ e ∈ entries₂, e.default = none
  · exact menu_perm_of_noDefault hp hkeys hdef (n + 1) i
  · rw [menu, menu, timeoutReport_perm hp hkeys, routed_perm hp hkeys]
    cases hr : routed c entries₂ (c.responses i) with
    | some s => rfl
    | none =>
      -- the key has no entry at all, so both scans meet the default trunk
      simp only [not_forall] at hdef
      obtain ⟨e, he, hne⟩ := hdef
      obtain ⟨t, ht⟩ := Option.ne_none_iff_exists'.mp hne
      have hkey₂ : c.responses i ∉ keys entries₂ :=
        fun hmem => h ⟨⟨e, he, hne⟩, not_routes_of_mem hr hmem⟩
      have hkey₁ : c.responses i ∉ keys entries₁ :=
        fun hmem => hkey₂ ((hp.map _).mem_iff.mp hmem)
      rw [defaultSeen_of_mem hkeys hkey₁ (hp.mem_iff.mpr he) ht,
        defaultSeen_of_mem ((hp.map _).nodup_iff.mp hkeys) hkey₂ he ht]

/-! What two runs are compared by. -/

def Call.audible : Call → Bool
  | .playback _ => true
  | .playAndGetDigits _ _ _ _ _ _ _ _ => true
  | _ => false

/-- Prompts and announcements, hangup, transfer, bridge and number. -/
structure Observation where
  announced : List Call
  hangup : Option Bytes
  transfer : Option Bytes
  bridge : Option Bytes
  dst : Option Bytes
deriving DecidableEq, Repr

def observe (st : State) : Observation :=
  ⟨st.log.filter Call.audible, st.hangupCause, st.vars .myIvrTransferStr, st.vars .myIvrBridgeStr,
    st.vars .myDstNumber⟩

def Report.observe (st : State) (r : Report) : Observation :=
  ⟨(st.log ++ r.calls).filter Call.audible, r.ending.hangup, r.ending.transfer, r.ending.bridge,
    r.ending.dst.or (st.vars .myDstNumber)⟩

theorem Realises.observe {st : State} {x : Except Error State} {r : Except Error Report}
    (h : Realises st x r) : x.map observe = r.map (Report.observe st) := by
  cases r with
  | error e =>
    change x = .error e at h
    rw [h]
    rfl
  | ok r =>
    obtain ⟨st', rfl, hd⟩ := h
    simp only [Except.map, Ivr.observe, Report.observe, hd.log, hd.hangup, hd.transfer, hd.bridge,
      hd.dst]

def withTable (c : Config) (entries : List Entry) : Config :=
  { c with serviceTb := entries.map Entry.render }

theorem menu_withTable (entries' : List Entry) (n i : ℕ) :
    menu (withTable c entries') codec entries n i = menu c codec entries n i := by
  induction n generalizing i with
  | zero => rfl
  | succ n ih =>
    rw [menu, menu, ← ih]
    rfl

theorem observe_run {fuel : ℕ} (hfuel : 3 < fuel) {st : State} (hst : Started st)
    (entries : List Entry) :
    (serverForMenuStep0 (withTable c entries) fuel st).map observe =
      (menu c (st.vars .rtpUseCodecName) entries 3 st.asked).map (Report.observe st) := by
  rw [← menu_withTable entries]
  exact (run_realises rfl hfuel hst).observe

/-! Where it does. -/

theorem default_eq_none_of_not_routes {e : Entry} (h : e.service.routes c = false) :
    e.default = none := by
  unfold Entry.default
  cases hs : e.service with
  | extensions number => rfl
  | ringgroup index strategy => rfl
  | trunks t => simp [hs, Service.routes] at h

section shadowed

variable {e : Entry} {i : ℕ} (hkey : e.key.text = c.responses i)
    (hroutes : e.service.routes c = false)

include hkey hroutes

theorem menu_default_first {d : Entry} {t : Trunk} (hd : d.default = some t)
    (hne : d.key.text ≠ e.key.text) (rest : List Entry) (n : ℕ) :
    menu c codec (d :: e :: rest) (n + 1) i = .ok ⟨[welcomeCall c, moreDigitsCall],
      if c.responses (i + 1) ≠ [] then .trunk t (c.responses i ++ c.responses (i + 1))
      else .limbo⟩ := by
  rw [hkey] at hne
  have hpressed : c.responses i ≠ [] := hkey ▸ e.key.ne
  have hrouted : routed c (d :: e :: rest) (c.responses i) = none := by
    simp [routed, hne, hkey, hroutes]
  have hseen : defaultSeen (c.responses i) (d :: e :: rest) = some t := by
    rw [defaultSeen, if_neg hne, defaultSeen, if_pos hkey, default_eq_none_of_not_routes hroutes, hd]
    rfl
  rw [menu, if_neg hpressed, hrouted, hseen]

theorem menu_entry_first (rest : List Entry) (n : ℕ) :
    menu c codec (e :: rest) (n + 1) i =
      if dialsExtension c i then .ok ⟨[welcomeCall c, moreDigitsCall],
        .extension (c.responses i ++ c.responses (i + 1))⟩
      else (menu c codec (e :: rest) n (i + roundLength c)).map
        (Report.after (failedRoundCalls c)) := by
  have hpressed : c.responses i ≠ [] := hkey ▸ e.key.ne
  have hrouted : routed c (e :: rest) (c.responses i) = none := by simp [routed, hkey, hroutes]
  have hseen : defaultSeen (c.responses i) (e :: rest) = none := by
    rw [defaultSeen, if_pos hkey, default_eq_none_of_not_routes hroutes]
  rw [menu, if_neg hpressed, hrouted, hseen]

theorem observe_ne {d : Entry} {t : Trunk} (hd : d.default = some t)
    (hne : d.key.text ≠ e.key.text) (rest rest' : List Entry) (n : ℕ) (st : State) :
    (menu c codec (d :: e :: rest) (n + 1) i).map (Report.observe st) ≠
      (menu c codec (e :: rest') (n + 1) i).map (Report.observe st) := by
  rw [menu_default_first hkey hroutes hd hne, menu_entry_first hkey hroutes]
  by_cases hdial : dialsExtension c i
  · rw [if_pos hdial]
    intro heq
    have htransfer := congrArg Observation.transfer (Except.ok.inj heq)
    simp only [Report.observe] at htransfer
    split_ifs at htransfer <;> cases htransfer
  · rw [if_neg hdial]
    cases menu c codec (e :: rest') n (i + roundLength c) with
    | error err => exact fun heq => by cases heq
    | ok r =>
      intro heq
      have hcalls := congrArg (fun o => o.announced.length) (Except.ok.inj heq)
      have hfailed : 2 ≤ ((failedRoundCalls c).filter Call.audible).length := by
        unfold failedRoundCalls
        cases c.enableExtension <;> exact Nat.le_refl 2
      simp only [Report.observe, Report.after, List.filter_append, List.length_append] at hcalls
      have hfirst : ([welcomeCall c, moreDigitsCall].filter Call.audible).length = 1 := rfl
      omega

end shadowed

/-- The runs of all orders of a table with distinct keys agree exactly when the first key pressed
does not shadow the default trunk. -/
theorem order_independent_iff (hkeys : (keys entries).Nodup) {fuel : ℕ} (hfuel : 3 < fuel)
    {st : State} (hst : Started st) :
    (∀ entries₁ entries₂, entries₁.Perm entries → entries₂.Perm entries →
      (serverForMenuStep0 (withTable c entries₁) fuel st).map observe =
        (serverForMenuStep0 (withTable c entries₂) fuel st).map observe) ↔
      ¬ Shadowed c entries st.asked := by
  constructor
  · rintro h ⟨⟨d, hd, hdef⟩, e, he, hkey, hroutes⟩
    obtain ⟨t, ht⟩ := Option.ne_none_iff_exists'.mp hdef
    have hde : d ≠ e := by
      rintro rfl
      rw [default_eq_none_of_not_routes hroutes] at ht
      cases ht
    have hne : d.key.text ≠ e.key.text := fun hk =>
      hde (List.inj_on_of_nodup_map hkeys hd he hk)
    -- the two entries can stand in front in either order
    obtain ⟨rest, hrest⟩ : ∃ rest, entries.Perm (d :: e :: rest) := by
      obtain ⟨l₁, l₂, rfl⟩ := List.append_of_mem hd
      have hmem : e ∈ l₁ ++ l₂ := by simpa [Ne.symm hde] using he
      obtain ⟨l₃, l₄, hl⟩ := List.append_of_mem hmem
      refine ⟨l₃ ++ l₄, List.perm_middle.trans (List.Perm.cons d ?_)⟩
      rw [hl]
      exact List.perm_middle
    have heq := h (d :: e :: rest) (e :: d :: rest) hrest.symm
      ((List.Perm.swap d e rest).trans hrest.symm)
    rw [observe_run hfuel hst, observe_run hfuel hst] at heq
    exact observe_ne hkey hroutes ht hne rest (d :: rest) 2 st heq
  · intro h entries₁ entries₂ hp₁ hp₂
    have hkeys₁ : (keys entries₁).Nodup := (hp₁.map _).nodup_iff.mpr hkeys
    have hkeys₂ : (keys entries₂).Nodup := (hp₂.map _).nodup_iff.mpr hkeys
    rw [observe_run hfuel hst, observe_run hfuel hst, menu_perm hp₁ hkeys₁ h, menu_perm hp₂ hkeys₂ h]

/-- The script's own table has no ring group, so no order of it matters. -/
theorem order_independent_script :
    (keys scriptEntries).Nodup ∧
      ∀ entries₁ entries₂, entries₁.Perm scriptEntries → entries₂.Perm scriptEntries →
        (serverForMenuStep0 (withTable (scriptConfig [] fun _ => lit "5") entries₁) 4
            startState).map observe =
          (serverForMenuStep0 (withTable (scriptConfig [] fun _ => lit "5") entries₂) 4
            startState).map observe := by
  have hkeys : (keys scriptEntries).Nodup := by decide
  refine ⟨hkeys, (order_independent_iff hkeys (Nat.lt_succ_self 3) started_startState).mpr ?_⟩
  rintro ⟨-, e, he, -, hroutes⟩
  simp only [scriptEntries, List.mem_cons, List.not_mem_nil, or_false] at he
  rcases he with rfl | rfl | rfl <;> cases hroutes

def shadowEntries : List Entry :=
  [⟨keyOne, .ringgroup (.of (lit "9") (by decide)) ⟨lit "all", by decide⟩⟩,
    ⟨keyNone, .trunks (.fxo (.of (lit "1") (by decide)) .one none)⟩]

def shadowConfig : Config :=
  scriptConfig [] fun n => if n = 0 then lit "1" else if n = 1 then lit "5" else []

/-- In one order the call goes to the default trunk with the number 15, in the other the caller is
told that there is no such user and is left without a route. -/
theorem order_dependent_ringgroup :
    (keys shadowEntries).Nodup ∧ shadowEntries.reverse.Perm shadowEntries ∧
      (serverForMenuStep0 (withTable shadowConfig shadowEntries) 4 startState).map
        (fun st => (observe st).bridge) = .ok none ∧
      (serverForMenuStep0 (withTable shadowConfig shadowEntries.reverse) 4 startState).map
        (fun st => (observe st).bridge) = .ok (some (lit "T-freetdm/1/1/15")) := by
  refine ⟨by decide, List.reverse_perm _, ?_, ?_⟩ <;> decide +kernel

end MyFile.Ivr
