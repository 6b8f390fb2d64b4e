/-
  cpufreq_screenstate: GOV_STOP and the charger poll.

  The poll is a delayed work that schedules itself again.  It runs on its own, as the LCD callbacks do, and these
  take `screenstate_mutex`.  GOV_STOP does not: it clears the governor's variables one after another and then
  cancels the work.  `cancel_delayed_work` removes the work while it is in the queue.  A poll that has LEFT the
  queue, and waits for the mutex, is not waited for, and the poll does not look at `cpu_is_managed`.

  One step is a section under the mutex, a statement of GOV_STOP, or the work leaving the queue.  The cpufreq core
  calls a governor by turns: GOV_START, then GOV_LIMITS any number of times, then GOV_STOP.

  * `GovStep`            — the steps;
  * `run_unmanaged`      — whenever GOV_STOP has begun, the CPU is not managed;
  * `stop_is_final_iff`  — after GOV_STOP nothing is requested and the work is not scheduled, exactly when no poll
                           had left the queue without having run;
  * `poll_after_stop`    — one that had.
-/
import KernelPatches.Cpufreq.Screenstate
import KernelPatches.Lib.Runs

namespace KernelPatches.Cpufreq

open KernelPatches.Lib

/-! ## The steps -/

/-- Where the cpufreq core is with the governor.  In GOV_STOP, the statement that comes next. -/
inductive StopPhase where
  | stopped
  | started
  | clearLcd
  | clearOverride
  | cancel
  deriving DecidableEq, Repr

/-- The governor, whether `dbs_work` is in the queue, and how many polls have left it and wait for the mutex. -/
structure GovSystem where
  gov : Governor
  phase : StopPhase
  queued : Bool
  waiting : Nat
  deriving DecidableEq, Repr

/-- One step. -/
inductive GovStep where
  | start
  | limits (policy : Limits)
  | stopManaged
  | stopLcd
  | stopOverride
  | stopCancel
  | lcdOff
  | lcdOn
  | override (on : Bool)
  | dequeue
  | poll (cur currentMA : Int32)
  deriving DecidableEq, Repr

namespace GovSystem

/-- What the step's handler does to the governor. -/
def handler : GovStep → Governor → Governor
  | .start => Governor.govStart
  | .limits policy => fun g => { g with policy := policy }.govLimits
  | .stopManaged => fun g => { g with cpuIsManaged := false }
  | .stopLcd => fun g => { g with lcdState := false }
  | .stopOverride => fun g => { g with chOverride := false }
  | .stopCancel => id
  | .lcdOff => Governor.lcdOff
  | .lcdOn => Governor.lcdOn
  | .override on => fun g => { g with chrgOvrd := on }
  | .dequeue => id
  | .poll cur currentMA => Governor.checkCharger cur currentMA

/-- When the step can be taken. -/
def Enabled (s : GovSystem) : GovStep → Prop
  | .start => s.phase = .stopped
  | .limits _ => s.phase = .started
  | .stopManaged => s.phase = .started
  | .stopLcd => s.phase = .clearLcd
  | .stopOverride => s.phase = .clearOverride
  | .stopCancel => s.phase = .cancel
  | .lcdOff | .lcdOn | .override _ => True
  | .dequeue => s.queued = true
  | .poll _ _ => 0 < s.waiting

/-- The core, the queue and the polls behind the step.  GOV_START schedules the work unless the CPU is managed
    already, and a poll always does. -/
def schedule (s : GovSystem) : GovStep → GovSystem
  | .start => { s with phase := .started, queued := s.queued || !s.gov.cpuIsManaged }
  | .stopManaged => { s with phase := .clearLcd }
  | .stopLcd => { s with phase := .clearOverride }
  | .stopOverride => { s with phase := .cancel }
  | .stopCancel => { s with phase := .stopped, queued := false }
  | .dequeue => { s with queued := false, waiting := s.waiting + 1 }
  | .poll _ _ => { s with queued := true, waiting := s.waiting - 1 }
  | .limits _ | .lcdOff | .lcdOn | .override _ => s

/-- The state behind the step. -/
def next (s : GovSystem) (e : GovStep) : GovSystem := { s.schedule e with gov := handler e s.gov }

/-- A step. -/
def Step (s : GovSystem) (e : GovStep) (s' : GovSystem) : Prop := s.Enabled e ∧ s' = s.next e

theorem Step.of {s : GovSystem} (e : GovStep) (h : s.Enabled e) : Step s e (s.next e) := ⟨h, rfl⟩

/-- The governor, and no target requested. -/
def silent (g : Governor) : Governor := { g with target := none }

/-- The step requests a frequency: it leaves a target where there was none. -/
def Requests (s : GovSystem) (e : GovStep) : Prop := (handler e (silent s.gov)).target ≠ none

/-- The module is loaded, and the governor has not been started. -/
def loaded (policy : Limits) (chrgOvrd : Bool) : GovSystem := ⟨Governor.loaded policy chrgOvrd, .stopped, false, 0⟩

/-- **Nothing happens any more** until the next GOV_START: no step requests a frequency, and the work is not
    scheduled. -/
def Final (s : GovSystem) : Prop :=
  ∀ es t, Run Step s es t → .start ∉ es → ∀ e t', Step t e t' → e ≠ .start → ¬ t.Requests e ∧ t'.queued = false

/-! ## GOV_STOP -/

/-- The CPU is managed only between GOV_START and GOV_STOP. -/
def Unmanaged (s : GovSystem) : Prop := s.phase ≠ .started → s.gov.cpuIsManaged = false

section

variable {g : Governor}

theorem plugged_cpuIsManaged (g : Governor) : g.plugged.cpuIsManaged = g.cpuIsManaged := by
  unfold Governor.plugged
  split
  · rfl
  · rfl

theorem unplugged_cpuIsManaged (g : Governor) : g.unplugged.cpuIsManaged = g.cpuIsManaged := by
  unfold Governor.unplugged
  split
  · dsimp only
    split
    · rfl
    · rfl
  · rfl

theorem checkOverride_cpuIsManaged (g : Governor) : g.checkOverride.cpuIsManaged = g.cpuIsManaged := by
  unfold Governor.checkOverride
  split
  · dsimp only
    split
    · rfl
    · rfl
  · split
    · rfl
    · rfl

/-- A poll does not look at `cpu_is_managed`, and leaves it. -/
theorem checkCharger_cpuIsManaged (cur currentMA : Int32) (g : Governor) :
    (g.checkCharger cur currentMA).cpuIsManaged = g.cpuIsManaged := by
  rw [← checkOverride_cpuIsManaged g]
  unfold Governor.checkCharger
  dsimp only
  split
  · rfl
  split
  · exact plugged_cpuIsManaged _
  split
  · exact plugged_cpuIsManaged _
  · exact unplugged_cpuIsManaged _

/-- The LCD callbacks do nothing while the CPU is not managed. -/
theorem lcdOff_unmanaged (h : g.cpuIsManaged = false) : g.lcdOff = g := by
  unfold Governor.lcdOff
  rw [h, if_neg Bool.false_ne_true]

theorem lcdOn_unmanaged (h : g.cpuIsManaged = false) : g.lcdOn = g := by
  unfold Governor.lcdOn
  rw [h, if_neg Bool.false_ne_true]

end

/-- One step keeps that. -/
theorem Step.unmanaged {s s' : GovSystem} {e : GovStep} (h : s.Unmanaged) (hs : Step s e s') : s'.Unmanaged := by
  obtain ⟨hen, rfl⟩ := hs
  intro hphase
  cases e with
  | start => exact absurd rfl hphase
  | limits policy => exact absurd hen hphase
  | stopManaged => rfl
  | stopLcd => exact h (by rw [show s.phase = .clearLcd from hen]; decide)
  | stopOverride => exact h (by rw [show s.phase = .clearOverride from hen]; decide)
  | stopCancel => exact h (by rw [show s.phase = .cancel from hen]; decide)
  | lcdOff =>
    show s.gov.lcdOff.cpuIsManaged = false
    rw [lcdOff_unmanaged (h hphase)]
    exact h hphase
  | lcdOn =>
    show s.gov.lcdOn.cpuIsManaged = false
    rw [lcdOn_unmanaged (h hphase)]
    exact h hphase
  | override on => exact h hphase
  | dequeue => exact h hphase
  | poll cur currentMA => exact (checkCharger_cpuIsManaged cur currentMA s.gov).trans (h hphase)

/-- **Whenever GOV_STOP has begun** the CPU is not managed, in every run. -/
theorem run_unmanaged {policy : Limits} {chrgOvrd : Bool} {es : List GovStep} {s : GovSystem}
    (h : Run Step (loaded policy chrgOvrd) es s) : s.Unmanaged :=
  h.inv (fun _ => rfl) fun _ _ _ hkeep hs => Step.unmanaged hkeep hs

/-- Stopped, and no poll is on its way. -/
structure AtRest (s : GovSystem) : Prop where
  phase : s.phase = .stopped
  unmanaged : s.gov.cpuIsManaged = false
  queued : s.queued = false
  waiting : s.waiting = 0

/-- **At rest** every step but GOV_START leaves it so, and requests nothing. -/
theorem AtRest.step {s s' : GovSystem} {e : GovStep} (h : s.AtRest) (hs : Step s e s') (he : e ≠ .start) :
    s'.AtRest ∧ ¬ s.Requests e := by
  obtain ⟨hen, rfl⟩ := hs
  have hphase := h.phase
  have hsilent : (silent s.gov).cpuIsManaged = false := h.unmanaged
  have hoff : (silent s.gov).lcdOff.target = none := by
    rw [lcdOff_unmanaged hsilent]
    rfl
  have hon : (silent s.gov).lcdOn.target = none := by
    rw [lcdOn_unmanaged hsilent]
    rfl
  -- what the core, the queue or a waiting poll would have to do is not possible
  have hcore : s.phase = .stopped → ∀ p, p ≠ StopPhase.stopped → s.phase ≠ p := by
    rintro hp p hne rfl
    exact hne hp
  cases e with
  | start => exact absurd rfl he
  | limits policy => exact absurd hen (hcore hphase _ (by decide))
  | stopManaged => exact absurd hen (hcore hphase _ (by decide))
  | stopLcd => exact absurd hen (hcore hphase _ (by decide))
  | stopOverride => exact absurd hen (hcore hphase _ (by decide))
  | stopCancel => exact absurd hen (hcore hphase _ (by decide))
  | lcdOff =>
    refine ⟨⟨hphase, ?_, h.queued, h.waiting⟩, fun hr => hr hoff⟩
    show s.gov.lcdOff.cpuIsManaged = false
    rw [lcdOff_unmanaged h.unmanaged]
    exact h.unmanaged
  | lcdOn =>
    refine ⟨⟨hphase, ?_, h.queued, h.waiting⟩, fun hr => hr hon⟩
    show s.gov.lcdOn.cpuIsManaged = false
    rw [lcdOn_unmanaged h.unmanaged]
    exact h.unmanaged
  | override on => exact ⟨⟨hphase, h.unmanaged, h.queued, h.waiting⟩, fun hr => hr rfl⟩
  | dequeue =>
    have hqueued : s.queued = true := hen
    rw [h.queued] at hqueued
    exact Bool.noConfusion hqueued
  | poll cur currentMA =>
    have hwaiting : 0 < s.waiting := hen
    rw [h.waiting] at hwaiting
    exact absurd hwaiting (Nat.lt_irrefl 0)

/-- Without GOV_START, a run from a state at rest stays there, by induction on the run. -/
theorem AtRest.run {s t : GovSystem} {es : List GovStep} (h : s.AtRest) (hrun : Run Step s es t)
    (hstart : .start ∉ es) : t.AtRest := by
  refine hrun.inv_of (P := fun e => e ≠ .start) (fun e he => ?_) h fun _ _ _ hne hrest hs => (hrest.step hs hne).1
  rintro rfl
  exact hstart he

/-- **When GOV_STOP is final**, in every run: exactly when, as it cancels the work, no poll has left the queue and
    waits for the mutex. -/
theorem stop_is_final_iff {policy : Limits} {chrgOvrd : Bool} {es : List GovStep} {s s' : GovSystem}
    (h : Run Step (loaded policy chrgOvrd) es s) (hs : Step s .stopCancel s') : s'.Final ↔ s.waiting = 0 := by
  have hunmanaged := Step.unmanaged (run_unmanaged h) hs
  obtain ⟨-, rfl⟩ := hs
  constructor
  · intro hfinal
    by_contra hwaiting
    -- the poll that waits runs now, and schedules the work
    have hpoll := hfinal [] _ .nil List.not_mem_nil (.poll 0 0) _ ⟨Nat.pos_of_ne_zero hwaiting, rfl⟩
      (fun hne => by cases hne)
    exact Bool.noConfusion hpoll.2
  · intro hwaiting es' t hrun hstart e t' hstep he
    have hrest : AtRest (s.next .stopCancel) :=
      ⟨rfl, hunmanaged StopPhase.noConfusion, rfl, hwaiting⟩
    obtain ⟨hrest', hquiet⟩ := (hrest.run hrun hstart).step hstep he
    exact ⟨hquiet, hrest'.queued⟩

/-- Here no poll has left the queue when GOV_STOP cancels the work. -/
theorem stop_is_final_iff_started : ∃ s s', Run Step (loaded ⟨500000, 600000⟩ false)
    [.start, .stopManaged, .stopLcd, .stopOverride] s ∧ Step s .stopCancel s' ∧ s'.Final := by
  have hrun := (((Run.nil.snoc (Step.of (s := loaded ⟨500000, 600000⟩ false) .start rfl)).snoc
    (Step.of .stopManaged rfl)).snoc (Step.of .stopLcd rfl)).snoc (Step.of .stopOverride rfl)
  exact ⟨_, _, hrun, Step.of .stopCancel rfl, (stop_is_final_iff hrun (Step.of .stopCancel rfl)).mpr rfl⟩

/-- **A poll after GOV_STOP**: it had left the queue, and schedules the work. -/
theorem poll_after_stop : ¬ ∀ (policy : Limits) (chrgOvrd : Bool) (es : List GovStep) (s s' : GovSystem),
    Run Step (loaded policy chrgOvrd) es s → Step s .stopCancel s' → s'.Final := by
  intro h
  have hrun := ((((Run.nil.snoc (Step.of (s := loaded ⟨500000, 600000⟩ false) .start rfl)).snoc
    (Step.of .dequeue rfl)).snoc (Step.of .stopManaged rfl)).snoc (Step.of .stopLcd rfl)).snoc
      (Step.of .stopOverride rfl)
  have hfinal := h _ _ _ _ _ hrun (Step.of .stopCancel rfl)
  have hpoll := hfinal [] _ .nil List.not_mem_nil (.poll 0 0) _ (Step.of (.poll 0 0) Nat.zero_lt_one)
    GovStep.noConfusion
  exact Bool.noConfusion hpoll.2

end GovSystem

end KernelPatches.Cpufreq
