/-
  cpufreq_override: the temperature alarm and the low battery alarm.

  `check_stuff` runs every `OVERRIDE_POLLING` jiffies.  It reads the temperature of the CPU and what is
  left in the battery, and caps the policy of the CPU while either is bad.  Each alarm saves the limits
  it finds when it is raised and puts them back when it is cleared, so that the alarms have to nest.

  `__cpufreq_set_policy` is the kernel's: it is the parameter `setPolicy`, and `Installs` says that it
  installs the limits it is given.

  * `inForce`                  — the limits that should be in force: the user's, under the two caps;
  * `Nested`                   — the invariant: the policy has those limits, and each alarm has saved
                                 the ones below its own cap;
  * `run_limits`               — in every run the limits are those, whatever the readings are;
  * `run_capped_iff`           — every poll of a run keeps to the thresholds iff no reading of 100 or
                                 more is dropped where it counts;
  * `dropped_reading`          — such a reading, in the middle of an alarm.
-/
import Mathlib.Tactic.Common

namespace KernelPatches.Cpufreq

/-! ## The policy -/

/-- The limits of a policy, in kHz. -/
structure Limits where
  min : UInt32
  max : UInt32
deriving DecidableEq, Repr

/-- `struct cpufreq_policy`: the limits in force, and those that the user has asked for. -/
structure CpufreqPolicy extends Limits where
  userPolicy : Limits
deriving DecidableEq, Repr

/-- `cpufreq_set_policy`: what `__cpufreq_set_policy` installs becomes the user's as well. -/
def cpufreqSetPolicy (setPolicy : CpufreqPolicy → CpufreqPolicy → CpufreqPolicy)
    (data policy : CpufreqPolicy) : CpufreqPolicy :=
  let data := setPolicy data policy
  { data with userPolicy := data.toLimits }

/-- `__cpufreq_set_policy` installs the given limits. -/
def Installs (setPolicy : CpufreqPolicy → CpufreqPolicy → CpufreqPolicy) : Prop :=
  ∀ data policy, (setPolicy data policy).toLimits = policy.toLimits

theorem cpufreqSetPolicy_limits {setPolicy : CpufreqPolicy → CpufreqPolicy → CpufreqPolicy}
    (hset : Installs setPolicy) (data policy : CpufreqPolicy) :
    (cpufreqSetPolicy setPolicy data policy).toLimits = policy.toLimits :=
  hset data policy

/-! ## The temperature sensor -/

/-- The temperatures, in degrees, that the readings of the sensor stand for. -/
def adcToTemp : Array Int32 :=
  #[-40, -40, -40, -40, -40, -39, -38, -36, -34, -32, -31, -29, -28, -26,
   -25, -24, -22, -21, -19, -18, -17, -15, -14, -12, -11, -9, -8, -7, -5,
   -4, -2, -1, 0, 1, 3, 4, 5, 7, 8, 10, 11, 13, 14, 15, 17, 18, 20, 21,
   22, 24, 25, 27, 28, 30, 31, 32, 34, 35, 37, 38, 39, 41, 42, 44, 45,
   47, 48, 49, 51, 52, 53, 55, 56, 58, 59, 60, 62, 63, 65, 66, 67, 69,
   70, 72, 73, 74, 76, 77, 79, 80, 81, 83, 84, 85, 87, 88, 89, 91, 92,
   94, 95, 96, 98, 99, 100, 102, 103, 105, 106, 107, 109, 110, 111, 113,
   114, 116, 117, 118, 120, 121, 122, 124, 124, 125, 125, 125, 125, 125]

/-- `omap34xx_get_temp`, by the sensor register: its low seven bits are the reading. -/
def omap34xxGetTemp (reg : UInt32) : Int32 :=
  adcToTemp.getD (reg &&& 127).toNat 0

/-- Every reading has a temperature. -/
example : adcToTemp.size = 128 := rfl

/-! ## The driver -/

/-- What the user sets through sysfs. -/
structure Thresholds where
  overrideHightemp : UInt32
  overrideLowtemp : UInt32
  batteryScalebackPercent : Int32
  batteryScalebackSpeed : Int32
deriving Repr

/-- `HIGHTEMP_SCALEBACK`, `LOWTEMP_RESET`, `BATTERY_PERCENT` and `BATTERY_PERCENT_SPEED`. -/
def defaults : Thresholds := ⟨55, 50, 25, 500000⟩

/-- The policy of the CPU, and the driver's own variables. -/
structure State where
  policy : CpufreqPolicy
  overtempAlarm : Bool
  prevMinspeedTemp : Int32
  prevMaxspeedTemp : Int32
  batteryAlarm : Bool
  prevMinspeedBat : Int32
  prevMaxspeedBat : Int32
deriving DecidableEq, Repr

/-- What a poll reads: the register of the sensor, and `battery_per` after `ds2784_getpercent`. -/
structure Poll where
  tempSensor : UInt32
  batteryPer : Int32
deriving Repr

section

variable (setPolicy : CpufreqPolicy → CpufreqPolicy → CpufreqPolicy) (th : Thresholds)

/-- The first half of `check_stuff`: the temperature alarm. -/
def checkTemp (cputemp : UInt32) (s : State) : State :=
  if cputemp > th.overrideHightemp then
    if !s.overtempAlarm then
      let newPolicy := { s.policy with min := 500000, max := 500000 }
      { s with
        overtempAlarm := true
        prevMinspeedTemp := s.policy.min.toInt32
        prevMaxspeedTemp := s.policy.max.toInt32
        policy := cpufreqSetPolicy setPolicy s.policy newPolicy }
    else s
  else
    if s.overtempAlarm && cputemp < th.overrideLowtemp then
      let newPolicy :=
        { s.policy with min := s.prevMinspeedTemp.toUInt32, max := s.prevMaxspeedTemp.toUInt32 }
      { s with
        policy := cpufreqSetPolicy setPolicy s.policy newPolicy
        overtempAlarm := false }
    else s

/-- The second half: the battery alarm, which waits while the temperature alarm is on. -/
def checkBattery (batteryPer : Int32) (s : State) : State :=
  if batteryPer < th.batteryScalebackPercent then
    if !s.batteryAlarm && !s.overtempAlarm then
      let speed := th.batteryScalebackSpeed.toUInt32
      let newPolicy := { s.policy with min := speed, max := speed }
      { s with
        batteryAlarm := true
        prevMinspeedBat := s.policy.min.toInt32
        prevMaxspeedBat := s.policy.max.toInt32
        policy := cpufreqSetPolicy setPolicy s.policy newPolicy }
    else s
  else
    if s.batteryAlarm && !s.overtempAlarm then
      let newPolicy :=
        { s.policy with min := s.prevMinspeedBat.toUInt32, max := s.prevMaxspeedBat.toUInt32 }
      { s with
        policy := cpufreqSetPolicy setPolicy s.policy newPolicy
        batteryAlarm := false }
    else s

/-- "Check values in case driver hasnt polled": the temperature `check_stuff` goes by. -/
def checkedTemp (temp : Int32) : UInt32 :=
  let cputemp := temp.toUInt32
  if cputemp < 100 then cputemp else 0

/-- `check_stuff`. -/
def checkStuff (s : State) (p : Poll) : State :=
  let cputemp := checkedTemp (omap34xxGetTemp p.tempSensor)
  let batteryPer := if p.batteryPer > 0 then p.batteryPer else 100
  checkBattery setPolicy th batteryPer (checkTemp setPolicy th cputemp s)

/-- A run of polls. -/
def run (s : State) (polls : List Poll) : State :=
  polls.foldl (checkStuff setPolicy th) s

end

theorem run_snoc (setPolicy : CpufreqPolicy → CpufreqPolicy → CpufreqPolicy) (th : Thresholds)
    (s : State) (polls : List Poll) (p : Poll) :
    run setPolicy th s (polls ++ [p]) = checkStuff setPolicy th (run setPolicy th s polls) p := by
  simp only [run, List.foldl_append, List.foldl_cons, List.foldl_nil]

/-- The driver as it is loaded, on a policy. -/
def loaded (policy : CpufreqPolicy) : State :=
  { policy, overtempAlarm := false, prevMinspeedTemp := 0, prevMaxspeedTemp := 0
    batteryAlarm := false, prevMinspeedBat := 0, prevMaxspeedBat := 0 }

/-! ## The limits in force -/

/-- The limits of the temperature alarm. -/
def overtempCap : Limits := ⟨500000, 500000⟩

/-- The limits of the battery alarm. -/
def batteryCap (th : Thresholds) : Limits :=
  ⟨th.batteryScalebackSpeed.toUInt32, th.batteryScalebackSpeed.toUInt32⟩

/-- What each alarm has saved. -/
def State.savedTemp (s : State) : Limits := ⟨s.prevMinspeedTemp.toUInt32, s.prevMaxspeedTemp.toUInt32⟩

def State.savedBat (s : State) : Limits := ⟨s.prevMinspeedBat.toUInt32, s.prevMaxspeedBat.toUInt32⟩

/-- The limits that should be in force: those of the temperature alarm, or else of the battery alarm,
    or else the user's. -/
def inForce (th : Thresholds) (user : Limits) (overtemp battery : Bool) : Limits :=
  if overtemp then overtempCap else if battery then batteryCap th else user

/-- **The invariant.**  The limits in force are the right ones, and each alarm that is on has saved those
    that are right without it.  The battery alarm does not move while the temperature alarm is on, so the
    temperature alarm is always the inner one. -/
structure Nested (th : Thresholds) (user : Limits) (s : State) : Prop where
  limits : s.policy.toLimits = inForce th user s.overtempAlarm s.batteryAlarm
  savedTemp : s.overtempAlarm = true → s.savedTemp = inForce th user false s.batteryAlarm
  savedBat : s.batteryAlarm = true → s.savedBat = user

section

variable {setPolicy : CpufreqPolicy → CpufreqPolicy → CpufreqPolicy} {th : Thresholds} {user : Limits}
variable {s : State}

theorem nested_loaded (policy : CpufreqPolicy) : Nested th policy.toLimits (loaded policy) where
  limits := rfl
  savedTemp h := by cases h
  savedBat h := by cases h

theorem checkTemp_nested (hset : Installs setPolicy) (h : Nested th user s) (cputemp : UInt32) :
    Nested th user (checkTemp setPolicy th cputemp s) := by
  unfold checkTemp
  split
  · split
    · -- The alarm is raised.
      rename_i hoff
      have hot : s.overtempAlarm = false := by simpa using hoff
      have hlim := h.limits
      rw [hot] at hlim
      constructor
      · exact cpufreqSetPolicy_limits hset _ _
      · intro _
        show Limits.mk s.policy.min.toInt32.toUInt32 s.policy.max.toInt32.toUInt32 = _
        rw [UInt32.toUInt32_toInt32, UInt32.toUInt32_toInt32]
        exact hlim
      · exact h.savedBat
    · exact h
  · split
    · -- The alarm is cleared.
      rename_i hon
      have hot : s.overtempAlarm = true := (Bool.and_eq_true_iff.mp hon).1
      constructor
      · apply (cpufreqSetPolicy_limits hset _ _).trans
        exact h.savedTemp hot
      · intro hc
        cases hc
      · exact h.savedBat
    · exact h

theorem checkBattery_nested (hset : Installs setPolicy) (h : Nested th user s) (batteryPer : Int32) :
    Nested th user (checkBattery setPolicy th batteryPer s) := by
  unfold checkBattery
  split
  · split
    · rename_i hoff
      obtain ⟨hbat, hot⟩ : s.batteryAlarm = false ∧ s.overtempAlarm = false := by simpa using hoff
      have hlim := h.limits
      rw [hot, hbat] at hlim
      constructor
      · show _ = inForce th user s.overtempAlarm true
        rw [hot]
        exact cpufreqSetPolicy_limits hset _ _
      · intro hc
        exact absurd (hot.symm.trans hc) Bool.false_ne_true
      · intro _
        show Limits.mk s.policy.min.toInt32.toUInt32 s.policy.max.toInt32.toUInt32 = _
        rw [UInt32.toUInt32_toInt32, UInt32.toUInt32_toInt32]
        exact hlim
    · exact h
  · split
    · rename_i hon
      obtain ⟨hbat, hot⟩ : s.batteryAlarm = true ∧ s.overtempAlarm = false := by simpa using hon
      constructor
      · show _ = inForce th user s.overtempAlarm false
        rw [hot]
        apply (cpufreqSetPolicy_limits hset _ _).trans
        exact h.savedBat hbat
      · intro hc
        exact absurd (hot.symm.trans hc) Bool.false_ne_true
      · intro hc
        cases hc
    · exact h

theorem checkStuff_nested (hset : Installs setPolicy) (h : Nested th user s) (p : Poll) :
    Nested th user (checkStuff setPolicy th s p) :=
  checkBattery_nested hset (checkTemp_nested hset h _) _

theorem run_nested (hset : Installs setPolicy) (h : Nested th user s) (polls : List Poll) :
    Nested th user (run setPolicy th s polls) := by
  induction polls generalizing s with
  | nil => exact h
  | cons p polls ih => exact ih (checkStuff_nested hset h p)

theorem Nested.cap (h : Nested th user s) (hot : s.overtempAlarm = true) :
    s.policy.toLimits = overtempCap := by
  rw [h.limits, hot]
  rfl

theorem Nested.battery (h : Nested th user s) (hot : s.overtempAlarm = false)
    (hbat : s.batteryAlarm = true) : s.policy.toLimits = batteryCap th := by
  rw [h.limits, hot, hbat]
  rfl

theorem Nested.noAlarm (h : Nested th user s) (hot : s.overtempAlarm = false)
    (hbat : s.batteryAlarm = false) : s.policy.toLimits = user := by
  rw [h.limits, hot, hbat]
  rfl

/-- **The limits in every run**, with the alarms rising and falling in any order: under the temperature
    alarm they are its cap, under the battery alarm alone the scale-back speed, and without an alarm
    those that were in force when the driver was loaded. -/
theorem run_limits (hset : Installs setPolicy) (policy : CpufreqPolicy) (polls : List Poll) :
    let s := run setPolicy th (loaded policy) polls
    (s.overtempAlarm = true → s.policy.toLimits = overtempCap) ∧
      (s.overtempAlarm = false → s.batteryAlarm = true → s.policy.toLimits = batteryCap th) ∧
      (s.overtempAlarm = false → s.batteryAlarm = false → s.policy.toLimits = policy.toLimits) := by
  intro s
  have hnested : Nested th policy.toLimits s := run_nested hset (nested_loaded policy) polls
  exact ⟨hnested.cap, hnested.battery, hnested.noAlarm⟩

/-- `__cpufreq_set_policy` as it is when it accepts the policy. -/
def accept (_data policy : CpufreqPolicy) : CpufreqPolicy := policy

/-- A policy from 125 to 600 MHz. -/
def stockPolicy : CpufreqPolicy := ⟨⟨125000, 600000⟩, ⟨125000, 600000⟩⟩

/-- The battery runs low at 60 degrees, and both recover. -/
def lowAndHot : List Poll := [⟨74, 20⟩, ⟨40, 20⟩, ⟨74, 20⟩, ⟨40, 90⟩]

theorem run_limits_both :
    let s := run accept defaults (loaded stockPolicy) lowAndHot
    (s.overtempAlarm = true → s.policy.toLimits = overtempCap) ∧
      (s.overtempAlarm = false → s.batteryAlarm = true → s.policy.toLimits = batteryCap defaults) ∧
      (s.overtempAlarm = false → s.batteryAlarm = false →
        s.policy.toLimits = stockPolicy.toLimits) :=
  @run_limits accept defaults (fun _ _ => rfl) stockPolicy lowAndHot

/-! ## The thresholds -/

/-- The temperature that a poll measures. -/
def Poll.measured (p : Poll) : Int := (omap34xxGetTemp p.tempSensor).toInt

/-- A poll keeps to the thresholds, from `s` to `s'`: above `override_hightemp` it leaves the policy
    capped and the alarm on, and it lifts the cap of the alarm below `override_lowtemp` only. -/
def KeepsTo (th : Thresholds) (s : State) (p : Poll) (s' : State) : Prop :=
  ((th.overrideHightemp.toNat : Int) < p.measured →
    s'.overtempAlarm = true ∧ s'.policy.toLimits = overtempCap) ∧
  (s.overtempAlarm = true → ¬ (s'.overtempAlarm = true ∧ s'.policy.toLimits = overtempCap) →
    p.measured < th.overrideLowtemp.toNat)

/-- A reading that can be taken for 0 without harm: it is below 100, or else the alarm is on for good if
    the reading is above `override_hightemp`, and off, on for good or due to be cleared if it is not. -/
def Harmless (th : Thresholds) (s : State) (p : Poll) : Prop :=
  100 ≤ p.measured →
    (th.overrideHightemp.toNat < p.measured → s.overtempAlarm = true ∧ th.overrideLowtemp = 0) ∧
    (s.overtempAlarm = true → th.overrideLowtemp = 0 ∨ p.measured < th.overrideLowtemp.toNat)

/-- The check keeps the readings from 0 to 99, and takes the others for 0. -/
theorem checkedTemp_eq (t : Int32) :
    (checkedTemp t).toNat = if 0 ≤ t.toInt ∧ t.toInt < 100 then t.toInt.toNat else 0 := by
  have hint : t.toInt = if 2 * t.toUInt32.toNat < 2 ^ 32 then (t.toUInt32.toNat : Int)
      else (t.toUInt32.toNat : Int) - (2 ^ 32 : Nat) := BitVec.toInt_eq_toNat_cond t.toBitVec
  have hlt : t.toUInt32.toNat < 2 ^ 32 := t.toUInt32.toNat_lt
  have h100 : t.toUInt32 < 100 ↔ t.toUInt32.toNat < 100 := UInt32.lt_iff_toNat_lt
  rw [checkedTemp]
  by_cases hsmall : t.toUInt32.toNat < 100
  · rw [if_pos (h100.mpr hsmall)]
    have hval : t.toInt = t.toUInt32.toNat := by rw [hint, if_pos (by omega)]
    rw [if_pos (by omega), hval, Int.toNat_natCast]
  · rw [if_neg (fun hc => hsmall (h100.mp hc))]
    have hout : ¬ (0 ≤ t.toInt ∧ t.toInt < 100) := by
      split at hint <;> omega
    rw [if_neg hout]
    rfl

/-- What the alarm is after the temperature has been looked at. -/
theorem checkTemp_alarm (cputemp : UInt32) :
    (checkTemp setPolicy th cputemp s).overtempAlarm = true ↔
      th.overrideHightemp < cputemp ∨ (s.overtempAlarm = true ∧ ¬ cputemp < th.overrideLowtemp) := by
  unfold checkTemp
  by_cases hhigh : cputemp > th.overrideHightemp
  · rw [if_pos hhigh]
    cases hot : s.overtempAlarm with
    | false => exact ⟨fun _ => Or.inl hhigh, fun _ => rfl⟩
    | true => exact ⟨fun _ => Or.inl hhigh, fun _ => hot⟩
  · rw [if_neg hhigh]
    cases hot : s.overtempAlarm with
    | false => simp [hot, show ¬ th.overrideHightemp < cputemp from hhigh]
    | true =>
      by_cases hlow : cputemp < th.overrideLowtemp
      · simp [hlow, show ¬ th.overrideHightemp < cputemp from hhigh]
      · simp [hlow, hot]

theorem checkBattery_alarm (batteryPer : Int32) :
    (checkBattery setPolicy th batteryPer s).overtempAlarm = s.overtempAlarm := by
  unfold checkBattery
  split <;> split <;> rfl

/-- A poll keeps to the thresholds iff its reading does no harm. -/
theorem checkStuff_keepsTo_iff (hset : Installs setPolicy) (h : Nested th user s) (p : Poll) :
    KeepsTo th s p (checkStuff setPolicy th s p) ↔ Harmless th s p := by
  have hcap : (checkStuff setPolicy th s p).overtempAlarm = true →
      (checkStuff setPolicy th s p).policy.toLimits = overtempCap :=
    (checkStuff_nested hset h p).cap
  have halarm : (checkStuff setPolicy th s p).overtempAlarm = true ↔
      th.overrideHightemp < checkedTemp (omap34xxGetTemp p.tempSensor) ∨
        (s.overtempAlarm = true ∧
          ¬ checkedTemp (omap34xxGetTemp p.tempSensor) < th.overrideLowtemp) := by
    rw [checkStuff, checkBattery_alarm]
    exact checkTemp_alarm _
  rw [UInt32.lt_iff_toNat_lt, UInt32.lt_iff_toNat_lt, checkedTemp_eq] at halarm
  have hzero : th.overrideLowtemp = 0 ↔ th.overrideLowtemp.toNat = 0 := by
    rw [← UInt32.toNat_inj]
    rfl
  rw [KeepsTo, Harmless, hzero]
  change (_ ↔ th.overrideHightemp.toNat < (if 0 ≤ p.measured ∧ p.measured < 100 then p.measured.toNat
    else 0) ∨ _ ∧ ¬ (if 0 ≤ p.measured ∧ p.measured < 100 then p.measured.toNat else 0) < _) at halarm
  by_cases hkept : 0 ≤ p.measured ∧ p.measured < 100
  · rw [if_pos hkept] at halarm
    constructor
    · intro _ hc
      omega
    · intro _
      constructor
      · intro hhigh
        have hon := halarm.mpr (Or.inl (by omega))
        exact ⟨hon, hcap hon⟩
      · intro hon hlift
        by_contra hlow
        have hon' := halarm.mpr (Or.inr ⟨hon, by omega⟩)
        exact hlift ⟨hon', hcap hon'⟩
  · -- The reading is taken for 0, and the alarm stays on only if 0 is not low enough to clear it.
    rw [if_neg hkept] at halarm
    have hon : (checkStuff setPolicy th s p).overtempAlarm = true ↔
        s.overtempAlarm = true ∧ th.overrideLowtemp.toNat = 0 := by
      rw [halarm, or_iff_right (Nat.not_lt_zero _), Nat.not_lt, Nat.le_zero]
    constructor
    · intro hkeeps _
      constructor
      · intro hhigh
        exact hon.mp (hkeeps.1 hhigh).1
      · intro hot
        by_cases hlow : th.overrideLowtemp.toNat = 0
        · exact Or.inl hlow
        · exact Or.inr (hkeeps.2 hot fun hc => hlow (hon.mp hc.1).2)
    · intro hharm
      constructor
      · intro hhigh
        have hon' := hon.mpr ((hharm (by omega)).1 hhigh)
        exact ⟨hon', hcap hon'⟩
      · intro hot hlift
        have hlow : th.overrideLowtemp.toNat ≠ 0 := by
          intro hlow
          have hon' := hon.mpr ⟨hot, hlow⟩
          exact hlift ⟨hon', hcap hon'⟩
        by_cases hneg : p.measured < 0
        · omega
        · exact ((hharm (by omega)).2 hot).resolve_left hlow

/-- **When a run keeps to the thresholds**: every poll of it does iff every reading of 100 or more does
    no harm. -/
theorem run_keepsTo_iff (hset : Installs setPolicy) (policy : CpufreqPolicy) (polls : List Poll) :
    (∀ before p, before ++ [p] <+: polls → KeepsTo th (run setPolicy th (loaded policy) before) p
        (run setPolicy th (loaded policy) (before ++ [p]))) ↔
      ∀ before p, before ++ [p] <+: polls →
        Harmless th (run setPolicy th (loaded policy) before) p := by
  apply forall_congr'
  intro before
  apply forall_congr'
  intro p
  apply imp_congr_right
  intro _
  rw [run_snoc]
  exact checkStuff_keepsTo_iff hset (run_nested hset (nested_loaded policy) before) p

/-- The CPU warms up to 60 degrees, and on to 100. -/
def warm : Poll := ⟨74, 90⟩

def hot : Poll := ⟨104, 90⟩

theorem run_keepsTo_warm :
    (∀ before p, before ++ [p] <+: [warm] →
        KeepsTo defaults (run accept defaults (loaded stockPolicy) before) p
          (run accept defaults (loaded stockPolicy) (before ++ [p]))) ↔
      ∀ before p, before ++ [p] <+: [warm] →
        Harmless defaults (run accept defaults (loaded stockPolicy) before) p :=
  @run_keepsTo_iff accept defaults (fun _ _ => rfl) stockPolicy [warm]

/-- **A dropped reading**: at 60 degrees the alarm is raised, and at 100 it is cleared. -/
theorem dropped_reading :
    ¬ ∀ before p, before ++ [p] <+: [warm, hot] →
      KeepsTo defaults (run accept defaults (loaded stockPolicy) before) p
        (run accept defaults (loaded stockPolicy) (before ++ [p])) := by
  intro h
  have hhot : (defaults.overrideHightemp.toNat : Int) < hot.measured := by decide +kernel
  have hcap := ((h [warm] hot (List.prefix_refl _)).1 hhot).1
  have hclear : (run accept defaults (loaded stockPolicy) ([warm] ++ [hot])).overtempAlarm = false := by
    decide +kernel
  rw [hclear] at hcap
  cases hcap

end

end KernelPatches.Cpufreq
