/-
  cpufreq_screenstate: the speed of the CPU follows the screen and the charger.

  The governor has three bits: whether the LCD is on, whether the device is charging, and whether charging is
  overridden.  Each of its handlers changes one of them and requests a target frequency, and the handler of
  GOV_LIMITS, which is called when the policy has changed, requests it from all of them:

      500000 while charging, else the maximum with the LCD on, else the minimum.

  The other handlers look at less.  `cpufreq_gov_screenstate_lcdoff` does not ask whether the device is
  charging, and `check_charger` requests nothing for a dark screen when the charging ends.

  * `handle`          — the handlers;
  * `Agrees`          — the last target is the one GOV_LIMITS would request;
  * `handle_agrees_iff` — which events keep that, and no others;
  * `run_agrees_iff`  — in every run;
  * `dark_and_charging` — the LCD is turned off on the charger.
-/
import Mathlib.Data.List.Induction
import KernelPatches.Cpufreq.Override

namespace KernelPatches.Cpufreq

/-! ## The governor -/

/-- CPUFREQ_RELATION_* -/
inductive Relation where
  | l
  | h
  deriving DecidableEq, Repr

/-- The governor's variables, the limits of the policy, what `override_show_chrg_ovrd` returns, and the last
    target that was requested. -/
structure Governor where
  policy : Limits
  cpuIsManaged : Bool
  lcdState : Bool
  chargingState : Bool
  chOverride : Bool
  chrgOvrd : Bool
  target : Option (UInt32 × Relation)
  deriving DecidableEq, Repr

/-- What happens to it.  A policy that changes is followed by GOV_LIMITS, and a charger poll comes with what
    `ds2784_getcurrent` and `gadget_event_state_current` have read. -/
inductive GovEvent where
  | start
  | stop
  | limits (policy : Limits)
  | lcdOff
  | lcdOn
  | checkCharger (cur currentMA : Int32)
  | override (on : Bool)
  deriving DecidableEq, Repr

namespace Governor

/-- `__cpufreq_driver_target` -/
def driverTarget (s : Governor) (freq : UInt32) (relation : Relation) : Governor :=
  { s with target := some (freq, relation) }

/-- GOV_START -/
def govStart (s : Governor) : Governor :=
  if s.cpuIsManaged then s
  else
    { s with
      cpuIsManaged := true, lcdState := true, chargingState := false, chOverride := s.chrgOvrd }.driverTarget
      s.policy.max .h

/-- GOV_STOP -/
def govStop (s : Governor) : Governor :=
  { s with cpuIsManaged := false, lcdState := false, chOverride := false }

/-- GOV_LIMITS -/
def govLimits (s : Governor) : Governor :=
  if s.chargingState then s.driverTarget 500000 .l
  else if s.lcdState then s.driverTarget s.policy.max .h
  else s.driverTarget s.policy.min .l

/-- `cpufreq_gov_screenstate_lcdoff` -/
def lcdOff (s : Governor) : Governor :=
  if s.cpuIsManaged then { s.driverTarget s.policy.min .l with lcdState := false } else s

/-- `cpufreq_gov_screenstate_lcdon` -/
def lcdOn (s : Governor) : Governor :=
  if s.cpuIsManaged then
    if !s.chargingState then { s.driverTarget s.policy.max .h with lcdState := true }
    else { s.driverTarget 500000 .l with lcdState := true }
  else s

/-- The charging begins. -/
def plugged (s : Governor) : Governor :=
  if !s.chargingState then { s with chargingState := true }.driverTarget 500000 .l else s

/-- It ends. -/
def unplugged (s : Governor) : Governor :=
  if s.chargingState then
    let s := { s with chargingState := false }
    if s.lcdState then s.driverTarget s.policy.max .h else s
  else s

/-- The part of `check_charger` about the override. -/
def checkOverride (s : Governor) : Governor :=
  if s.chrgOvrd && !s.chOverride then
    let s := { s with chargingState := false, chOverride := true }
    if s.lcdState then s.driverTarget s.policy.max .h else s
  else if !s.chrgOvrd && s.chOverride then { s with chOverride := false }
  else s

/-- `check_charger` -/
def checkCharger (cur currentMA : Int32) (s : Governor) : Governor :=
  let s := s.checkOverride
  if s.chOverride then s
  else if 0 < cur && currentMA < 500 then s.plugged
  else if currentMA = 1000 then s.plugged
  else s.unplugged

/-- An event. -/
def handle (s : Governor) : GovEvent → Governor
  | .start => s.govStart
  | .stop => s.govStop
  | .limits policy => { s with policy := policy }.govLimits
  | .lcdOff => s.lcdOff
  | .lcdOn => s.lcdOn
  | .checkCharger cur currentMA => s.checkCharger cur currentMA
  | .override on => { s with chrgOvrd := on }

/-- The variables when the module is loaded. -/
def loaded (policy : Limits) (chrgOvrd : Bool) : Governor :=
  ⟨policy, false, false, false, false, chrgOvrd, none⟩

/-- A run. -/
def run (s : Governor) (es : List GovEvent) : Governor := es.foldl handle s

theorem run_snoc (s : Governor) (es : List GovEvent) (e : GovEvent) :
    s.run (es ++ [e]) = (s.run es).handle e := by
  simp only [run, List.foldl_append, List.foldl_cons, List.foldl_nil]

/-! ## The law -/

/-- The target GOV_LIMITS requests. -/
def limitsTarget (s : Governor) : UInt32 :=
  if s.chargingState then 500000 else if s.lcdState then s.policy.max else s.policy.min

/-- **The law**: while the CPU is managed, the last target is the one GOV_LIMITS would request. -/
def Agrees (s : Governor) : Prop :=
  s.cpuIsManaged = true → s.target.map Prod.fst = some s.limitsTarget

/-- A charger is there, by the readings of a poll. -/
def Charger (cur currentMA : Int32) : Prop := (0 < cur ∧ currentMA < 500) ∨ currentMA = 1000

/-- A poll ends the charging: the override is new, or there is no override and no charger. -/
def EndsCharging (s : Governor) (cur currentMA : Int32) : Prop :=
  s.chargingState = true ∧
    ((s.chrgOvrd = true ∧ s.chOverride = false) ∨ (s.chrgOvrd = false ∧ ¬ Charger cur currentMA))

/-- The event is handled as GOV_LIMITS would: the LCD is not turned off while charging, and the charging does
    not end with the LCD off, unless the minimum is the speed for charging anyway. -/
def Lawful (s : Governor) : GovEvent → Prop
  | .lcdOff => s.cpuIsManaged = true → s.chargingState = true → s.policy.min = 500000
  | .checkCharger cur currentMA => s.cpuIsManaged = true → s.EndsCharging cur currentMA →
      s.lcdState = false → s.policy.min = 500000
  | _ => True

/-! ## The handlers -/

variable {s : Governor} {cur currentMA : Int32}

theorem govLimits_agrees (s : Governor) : s.govLimits.Agrees := by
  intro _
  obtain ⟨policy, managed, lcd, charging, ch, ovrd, target⟩ := s
  cases charging with
  | true => rfl
  | false =>
    cases lcd with
    | true => rfl
    | false => rfl

theorem govStart_agrees (h : s.Agrees) : s.govStart.Agrees := by
  unfold govStart
  split
  · exact h
  · intro _
    rfl

theorem lcdOn_agrees (h : s.Agrees) : s.lcdOn.Agrees := by
  obtain ⟨policy, managed, lcd, charging, ch, ovrd, target⟩ := s
  cases managed with
  | false => exact h
  | true =>
    intro _
    cases charging with
    | true => rfl
    | false => rfl

/-- Turning the LCD off requests the minimum, charging or not. -/
theorem lcdOff_agrees_iff : s.lcdOff.Agrees ↔ s.Lawful .lcdOff := by
  obtain ⟨policy, managed, lcd, charging, ch, ovrd, target⟩ := s
  cases managed with
  | false =>
    refine iff_of_true (fun hc => ?_) (fun hc => ?_)
    · cases hc
    · cases hc
  | true =>
    cases charging with
    | false =>
      refine iff_of_true (fun _ => rfl) (fun _ hc => ?_)
      cases hc
    | true =>
      constructor
      · intro h _ _
        exact Option.some.inj (h rfl)
      · intro h _
        exact congrArg some (h rfl rfl)

theorem plugged_agrees (h : s.Agrees) : s.plugged.Agrees := by
  obtain ⟨policy, managed, lcd, charging, ch, ovrd, target⟩ := s
  cases charging with
  | true => exact h
  | false =>
    intro _
    rfl

/-- The end of the charging requests nothing with the LCD off, where the target is still the one for
    charging. -/
theorem endOfCharging_agrees_iff (h : s.Agrees) (hc : s.chargingState = true) {s' : Governor}
    (hs' : s' = if s.lcdState = true then { s with chargingState := false }.driverTarget s.policy.max .h
      else { s with chargingState := false }) :
    s'.Agrees ↔ (s.cpuIsManaged = true → s.lcdState = false → s.policy.min = 500000) := by
  obtain ⟨policy, managed, lcd, charging, ch, ovrd, target⟩ := s
  obtain rfl : charging = true := hc
  subst hs'
  cases managed with
  | false =>
    refine iff_of_true (fun hm => ?_) (fun hm => ?_)
    · cases lcd with
      | true => cases hm
      | false => cases hm
    · cases hm
  | true =>
    cases lcd with
    | true =>
      refine iff_of_true (fun _ => rfl) (fun _ hl => ?_)
      cases hl
    | false =>
      have htarget : target.map Prod.fst = some (500000 : UInt32) := h rfl
      constructor
      · intro h' _ _
        have hmin : target.map Prod.fst = some policy.min := h' rfl
        rw [htarget] at hmin
        exact (Option.some.inj hmin).symm
      · intro hmin _
        show target.map Prod.fst = some policy.min
        rw [htarget, hmin rfl rfl]

theorem unplugged_agrees_iff (h : s.Agrees) : s.unplugged.Agrees ↔
    (s.cpuIsManaged = true → s.chargingState = true → s.lcdState = false → s.policy.min = 500000) := by
  unfold unplugged
  by_cases hc : s.chargingState = true
  · rw [if_pos hc]
    refine (endOfCharging_agrees_iff h hc rfl).trans ⟨fun hm hs _ => hm hs, fun hm hs => hm hs hc⟩
  · rw [if_neg hc]
    exact iff_of_true h fun _ hc' => absurd hc' hc

/-- The override that is new ends the charging; the target of a device that is not charging stays right. -/
theorem checkOverride_new (h : s.Agrees) (hon : s.chrgOvrd = true) (hoff : s.chOverride = false) :
    s.checkOverride.Agrees ↔
      (s.cpuIsManaged = true → s.chargingState = true → s.lcdState = false → s.policy.min = 500000) := by
  unfold checkOverride
  rw [hon, hoff, if_pos (by rfl)]
  have hover : ∀ t : Governor, { t with chOverride := true }.Agrees ↔ t.Agrees := fun _ => Iff.rfl
  by_cases hc : s.chargingState = true
  · have hend := endOfCharging_agrees_iff h hc rfl
    refine Iff.trans ?_ (hend.trans ⟨fun hm hs _ => hm hs, fun hm hs => hm hs hc⟩)
    by_cases hl : s.lcdState = true
    · rw [if_pos hl, if_pos hl]
      exact hover ({ s with chargingState := false }.driverTarget s.policy.max .h)
    · rw [if_neg hl, if_neg hl]
      exact hover { s with chargingState := false }
  · refine iff_of_true ?_ fun _ hc' => absurd hc' hc
    obtain ⟨policy, managed, lcd, charging, ch, ovrd, target⟩ := s
    obtain rfl : charging = false := eq_false_of_ne_true hc
    cases lcd with
    | true =>
      intro _
      rfl
    | false => exact h

/-- Without an override the readings decide. -/
theorem checkCharger_readings (hoff : s.chrgOvrd = false) : s.checkCharger cur currentMA =
    if 0 < cur ∧ currentMA < 500 ∨ currentMA = 1000 then { s with chOverride := false }.plugged
    else { s with chOverride := false }.unplugged := by
  have hover : s.checkOverride = { s with chOverride := false } := by
    obtain ⟨policy, managed, lcd, charging, ch, ovrd, target⟩ := s
    obtain rfl : ovrd = false := hoff
    cases ch with
    | true => rfl
    | false => rfl
  unfold checkCharger
  rw [hover]
  dsimp only
  rw [if_neg Bool.false_ne_true]
  by_cases htouch : 0 < cur ∧ currentMA < 500
  · rw [if_pos (Or.inl htouch), if_pos (by rw [decide_eq_true htouch.1, decide_eq_true htouch.2]; rfl)]
  · rw [if_neg (by rw [Bool.and_eq_true, decide_eq_true_eq, decide_eq_true_eq]; exact htouch)]
    by_cases hplug : currentMA = 1000
    · rw [if_pos hplug, if_pos (Or.inr hplug)]
    · rw [if_neg hplug, if_neg (not_or.mpr ⟨htouch, hplug⟩)]

theorem checkCharger_agrees_iff (h : s.Agrees) :
    (s.checkCharger cur currentMA).Agrees ↔ s.Lawful (.checkCharger cur currentMA) := by
  cases hon : s.chrgOvrd with
  | true =>
    cases hch : s.chOverride with
    | true =>
      -- the poll ends here, and nothing has changed
      have hover : s.checkOverride = s := by
        unfold checkOverride
        rw [hon, hch]
        rfl
      have hsame : s.checkCharger cur currentMA = s := by
        unfold checkCharger
        rw [hover]
        dsimp only
        rw [if_pos hch]
      rw [hsame]
      refine iff_of_true h ?_
      rintro - ⟨-, ⟨-, hc⟩ | ⟨hc, -⟩⟩
      · rw [hch] at hc
        cases hc
      · rw [hon] at hc
        cases hc
    | false =>
      have hover : s.checkOverride.chOverride = true := by
        unfold checkOverride
        rw [hon, hch, if_pos (by rfl)]
        dsimp only
        split
        · rfl
        · rfl
      have hpoll : s.checkCharger cur currentMA = s.checkOverride := by
        unfold checkCharger
        dsimp only
        rw [if_pos hover]
      rw [hpoll, checkOverride_new h hon hch]
      constructor
      · intro hm hs hends
        exact hm hs hends.1
      · intro hm hs hc
        exact hm hs ⟨hc, Or.inl ⟨hon, hch⟩⟩
  | false =>
    have h' : { s with chOverride := false }.Agrees := h
    rw [checkCharger_readings hon]
    by_cases hplug : 0 < cur ∧ currentMA < 500 ∨ currentMA = 1000
    · rw [if_pos hplug]
      refine iff_of_true (plugged_agrees h') ?_
      rintro - ⟨-, ⟨hc, -⟩ | ⟨-, hc⟩⟩
      · rw [hon] at hc
        cases hc
      · exact absurd hplug hc
    · rw [if_neg hplug, unplugged_agrees_iff h']
      constructor
      · intro hm hs hends
        exact hm hs hends.1
      · intro hm hs hc
        exact hm hs ⟨hc, Or.inr ⟨hon, hplug⟩⟩

/-! ## Runs -/

/-- **One event**: the law is kept by those events that are handled as GOV_LIMITS would, and no others. -/
theorem handle_agrees_iff (h : s.Agrees) (e : GovEvent) : (s.handle e).Agrees ↔ s.Lawful e := by
  cases e with
  | start => exact iff_of_true (govStart_agrees h) trivial
  | stop =>
    refine iff_of_true (fun hm => ?_) trivial
    cases hm
  | limits policy => exact iff_of_true (govLimits_agrees _) trivial
  | lcdOff => exact lcdOff_agrees_iff
  | lcdOn => exact iff_of_true (lcdOn_agrees h) trivial
  | checkCharger cur currentMA => exact checkCharger_agrees_iff h
  | override on => exact iff_of_true h trivial

/-- Where every event so far was lawful, the law holds, by induction on the events. -/
theorem run_agrees {es : List GovEvent} (h : s.Agrees)
    (hlaw : ∀ before e, before ++ [e] <+: es → (s.run before).Lawful e) : (s.run es).Agrees := by
  induction es using List.reverseRec with
  | nil => exact h
  | append_singleton es e ih =>
    have hbefore : (s.run es).Agrees :=
      ih fun before e' hpre => hlaw before e' (hpre.trans (List.prefix_append es [e]))
    rw [run_snoc]
    exact (handle_agrees_iff hbefore e).mpr (hlaw es e (List.prefix_refl _))

/-- **Every run**: after each handler the last target is the one GOV_LIMITS would request iff each event was
    lawful in the state it came in. -/
theorem run_agrees_iff (policy : Limits) (chrgOvrd : Bool) (es : List GovEvent) :
    (∀ before, before <+: es → ((loaded policy chrgOvrd).run before).Agrees) ↔
      ∀ before e, before ++ [e] <+: es → ((loaded policy chrgOvrd).run before).Lawful e := by
  have hloaded : (loaded policy chrgOvrd).Agrees := fun hm => Bool.noConfusion hm
  constructor
  · intro h before e hpre
    have hafter := h (before ++ [e]) hpre
    rw [run_snoc] at hafter
    exact (handle_agrees_iff (h before ((List.prefix_append before [e]).trans hpre)) e).mp hafter
  · intro hlaw before hpre
    exact run_agrees hloaded fun b e hb => hlaw b e (hb.trans hpre)

/-- **The screen goes dark on the charger**, and the CPU slows down to the minimum. -/
theorem dark_and_charging :
    ¬ ∀ before, before <+: [GovEvent.start, .checkCharger 0 1000, .lcdOff] →
      ((loaded ⟨125000, 600000⟩ false).run before).Agrees := by
  intro h
  have hdark := h _ (List.prefix_refl _) rfl
  exact absurd hdark (by decide)

end Governor

end KernelPatches.Cpufreq
