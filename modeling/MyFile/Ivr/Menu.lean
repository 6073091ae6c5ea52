import MyFile.Ivr.Parse

/-! The menu in terms of what it is for: from the table's entries, the caller's answers and the
directory, `menu` says which calls are made and how the call ends. `server_for_menu_step_0` on a
well-formed table does what `menu` says. -/

namespace MyFile.Ivr

open Lua

/-- How a run of the menu leaves the call. -/
inductive Ending where
  /-- Hung up, no route. -/
  | noRoute
  /-- Hung up, no number dialed after the dial tone of a trunk. -/
  | noNumber (t : Trunk)
  | extension (number : Bytes)
  | ringgroup
  | trunk (t : Trunk) (number : Bytes)
  /-- Neither hung up nor routed. -/
  | limbo

namespace Ending

def hangup : Ending → Option Bytes
  | noRoute => some (lit "NO_ROUTE_DESTINATION")
  | noNumber _ => some (lit "normal_clearing")
  | _ => none

def transfer : Ending → Option Bytes
  | extension number => some (lit "T-" ++ number ++ lit " XML extension")
  | ringgroup => some (lit "T-RingGroupService XML ringgroup")
  | _ => none

def bridge : Ending → Option Bytes
  | noNumber t => some t.device
  | trunk t number => some (t.device ++ lit "/" ++ number)
  | _ => none

def dst : Ending → Option Bytes
  | extension number => some number
  | trunk _ number => some number
  | _ => none

end Ending

structure Report where
  calls : List Call
  ending : Ending

def Report.after (calls : List Call) (r : Report) : Report := ⟨calls ++ r.calls, r.ending⟩

@[simp] theorem Report.ending_after (calls : List Call) (r : Report) :
    (r.after calls).ending = r.ending := rfl

def questions (calls : List Call) : ℕ := calls.countP fun
  | .getDigits _ _ _ => true
  | .playAndGetDigits _ _ _ _ _ _ _ _ => true
  | _ => false

variable (c : Config) (codec : Option Bytes) (entries : List Entry)

def welcomeCall : Call := .playAndGetDigits 1 1 c.repeatLoops c.timeout []
  (c.soundWelcome ++ c.readCodec) [] (lit "[0-9*#]")

def dialToneCall (readCodec : Bytes) : Call := .playAndGetDigits 1 15 3 5000 (lit "#")
  (c.soundDir ++ lit "/dial_tone." ++ readCodec) [] (lit "\\d+")

def moreDigitsCall : Call := .getDigits 15 (lit "#") 4000

def noUserCalls : List Call := [.playback (c.soundNoUser ++ c.readCodec), .sleep 1500]

/-- A service that takes the call: all but a ring group that is not configured. -/
def Service.routes : Service → Bool
  | .ringgroup index _ => (c.ringgroupTb.find? fun v2 => v2.index = some index.text).isSome
  | _ => true

/-- What a service that routes does, its answers counted from `i`. -/
def Service.report (i : ℕ) : Service → Except Error Report
  | .extensions number => .ok ⟨[], .extension number.text⟩
  | .ringgroup _ _ => .ok ⟨[], .ringgroup⟩
  | .trunks t => match t.dst with
    | some dst => .ok ⟨[], .trunk t dst⟩
    | none => (dialToneCodec c codec).map fun readCodec =>
      ⟨[.sleep 500, dialToneCall c readCodec],
        if c.responses i ≠ [] then .trunk t (c.responses i) else .noNumber t⟩

def routed (digit : Bytes) : Option Service :=
  ((entries.find? fun e => e.key.text = digit).map Entry.service).filter (Service.routes c)

def Entry.default (e : Entry) : Option Trunk :=
  match e.service with
  | .trunks t => if e.key.text = lit "none" then some t else none
  | _ => none

/-- The default trunk met by the scan for a key, which ends at the key's entry. -/
def defaultSeen (digit : Bytes) : List Entry → Option Trunk
  | [] => none
  | e :: entries =>
    if e.key.text = digit then e.default else (defaultSeen digit entries).or e.default

def isExtension (number : Bytes) : Bool :=
  c.executeString (lit "eval $\x7buser_data(" ++ number ++ lit "@$\x7bdomain\x7d attr id)\x7d") =
    number

def timeoutReport (i : ℕ) : Except Error Report :=
  match routed c entries (lit "timeout") with
  | some s => s.report c codec i
  | none => .ok ⟨[], .noRoute⟩

def dialsExtension (i : ℕ) : Prop :=
  c.enableExtension = true ∧ c.responses (i + 1) ≠ [] ∧
    isExtension c (c.responses i ++ c.responses (i + 1)) = true

instance (i : ℕ) : Decidable (dialsExtension c i) := inferInstanceAs (Decidable (_ ∧ _))

def roundLength : ℕ := if c.enableExtension then 2 else 1

def failedRoundCalls : List Call :=
  welcomeCall c :: (if c.enableExtension then [moreDigitsCall] else []) ++ noUserCalls c

/-- The menu with `n` failures left, the answers counted from `i`. -/
def menu : ℕ → ℕ → Except Error Report
  | 0, i => timeoutReport c codec entries i
  | n + 1, i =>
    if c.responses i = [] then
      (timeoutReport c codec entries (i + 1)).map (Report.after [welcomeCall c])
    else match routed c entries (c.responses i) with
      | some s => (s.report c codec (i + 1)).map (Report.after [welcomeCall c])
      | none =>
        match defaultSeen (c.responses i) entries with
        | some t => .ok ⟨[welcomeCall c, moreDigitsCall],
            if c.responses (i + 1) ≠ [] then .trunk t (c.responses i ++ c.responses (i + 1))
            else .limbo⟩
        | none =>
          if dialsExtension c i then
            .ok ⟨[welcomeCall c, moreDigitsCall],
              .extension (c.responses i ++ c.responses (i + 1))⟩
          else (menu n (i + roundLength c)).map (Report.after (failedRoundCalls c))

/-! What a report can be. -/

variable {c codec entries}

theorem report_cases {s : Service} {i : ℕ} {r : Report} (h : s.report c codec i = .ok r) :
    (∃ number, s = .extensions number ∧ r = ⟨[], .extension number.text⟩) ∨
    (∃ index strategy, s = .ringgroup index strategy ∧ r = ⟨[], .ringgroup⟩) ∨
    (∃ t dst, s = .trunks t ∧ t.dst = some dst ∧ r = ⟨[], .trunk t dst⟩) ∨
    ∃ t readCodec, s = .trunks t ∧ t.dst = none ∧ r = ⟨[.sleep 500, dialToneCall c readCodec],
      if c.responses i ≠ [] then .trunk t (c.responses i) else .noNumber t⟩ := by
  cases s with
  | extensions number => exact Or.inl ⟨number, rfl, (Except.ok.inj h).symm⟩
  | ringgroup index strategy => exact Or.inr (Or.inl ⟨index, strategy, rfl, (Except.ok.inj h).symm⟩)
  | trunks t =>
    refine Or.inr (Or.inr ?_)
    rw [Service.report] at h
    cases hdst : t.dst with
    | some dst =>
      rw [hdst] at h
      exact Or.inl ⟨t, dst, rfl, hdst, (Except.ok.inj h).symm⟩
    | none =>
      rw [hdst] at h
      cases hcodec : dialToneCodec c codec with
      | error e => simp [hcodec, Except.map] at h
      | ok readCodec =>
        rw [hcodec] at h
        exact Or.inr ⟨t, readCodec, rfl, hdst, (Except.ok.inj h).symm⟩

theorem timeoutReport_cases {i : ℕ} {r : Report} (h : timeoutReport c codec entries i = .ok r) :
    r = ⟨[], .noRoute⟩ ∨
      ∃ s, routed c entries (lit "timeout") = some s ∧ s.report c codec i = .ok r := by
  unfold timeoutReport at h
  cases hr : routed c entries (lit "timeout") with
  | none =>
    rw [hr] at h
    exact Or.inl (Except.ok.inj h).symm
  | some s =>
    rw [hr] at h
    exact Or.inr ⟨s, rfl, h⟩

theorem map_after_eq_ok {x : Except Error Report} {calls : List Call} {r : Report}
    (h : x.map (Report.after calls) = .ok r) : ∃ r', x = .ok r' ∧ r = r'.after calls := by
  cases x with
  | error e => cases h
  | ok r' => exact ⟨r', rfl, (Except.ok.inj h).symm⟩

/-- A round of the menu in which the caller is told to try again. -/
structure Fails (c : Config) (entries : List Entry) (i : ℕ) : Prop where
  pressed : c.responses i ≠ []
  routed : routed c entries (c.responses i) = none
  noDefault : defaultSeen (c.responses i) entries = none
  noExtension : ¬ dialsExtension c i

theorem menu_cases {n i : ℕ} {r : Report} (h : menu c codec entries (n + 1) i = .ok r) :
    (c.responses i = [] ∧ ∃ r', timeoutReport c codec entries (i + 1) = .ok r' ∧
      r = r'.after [welcomeCall c]) ∨
    (c.responses i ≠ [] ∧ ∃ s r', routed c entries (c.responses i) = some s ∧
      s.report c codec (i + 1) = .ok r' ∧ r = r'.after [welcomeCall c]) ∨
    (c.responses i ≠ [] ∧ routed c entries (c.responses i) = none ∧
      ∃ t, defaultSeen (c.responses i) entries = some t ∧ r = ⟨[welcomeCall c, moreDigitsCall],
        if c.responses (i + 1) ≠ [] then .trunk t (c.responses i ++ c.responses (i + 1))
        else .limbo⟩) ∨
    (c.responses i ≠ [] ∧ routed c entries (c.responses i) = none ∧
      defaultSeen (c.responses i) entries = none ∧ dialsExtension c i ∧
      r = ⟨[welcomeCall c, moreDigitsCall], .extension (c.responses i ++ c.responses (i + 1))⟩) ∨
    (Fails c entries i ∧ ∃ r', menu c codec entries n (i + roundLength c) = .ok r' ∧
      r = r'.after (failedRoundCalls c)) := by
  rw [menu] at h
  by_cases hd : c.responses i = []
  · rw [if_pos hd] at h
    exact Or.inl ⟨hd, map_after_eq_ok h⟩
  · rw [if_neg hd] at h
    refine Or.inr ?_
    cases hr : routed c entries (c.responses i) with
    | some s =>
      rw [hr] at h
      obtain ⟨r', hr', rfl⟩ := map_after_eq_ok h
      exact Or.inl ⟨hd, s, r', rfl, hr', rfl⟩
    | none =>
      refine Or.inr ?_
      cases hs : defaultSeen (c.responses i) entries with
      | some t =>
        rw [hr, hs] at h
        exact Or.inl ⟨hd, rfl, t, rfl, (Except.ok.inj h).symm⟩
      | none =>
        rw [hr, hs] at h
        dsimp only at h
        by_cases hext : dialsExtension c i
        · rw [if_pos hext] at h
          exact Or.inr (Or.inl ⟨hd, rfl, rfl, hext, (Except.ok.inj h).symm⟩)
        · rw [if_neg hext] at h
          exact Or.inr (Or.inr ⟨⟨hd, hr, hs, hext⟩, map_after_eq_ok h⟩)

end MyFile.Ivr
