/-
  aufs: a dentry is brought up to date, its old ancestors first.

  When the branches were changed, a dentry and its inode are refreshed before they are used again, and their
  parent has to be current by then.  Usually the directories were refreshed by the remount; after it has failed
  for one of them (`FAILED_REFRESH_DIRS`) `au_reval_dpath` climbs from the dentry to the first ancestor that is
  current, refreshes the old one below it, and begins again at the dentry.

  The path is numbered from the dentry, 0, up to the root.

  * `climb`, `revalLoop`        — the two loops of `au_reval_dpath`, with the one reference they carry;
  * `climb_eq`                  — the climb ends below the first current ancestor, and moves one reference there;
  * `revalLoop_spec`            — the loop comes to its end, and what is refreshed and counted by then;
  * `auRevalDpath_meets_iff`    — when all of the path is current afterwards and every reference is given back;
  * `parent_put_twice`          — two old levels: the reference of the first round is put again in the second.
-/
import Mathlib.Logic.Function.Basic
import KernelPatches.Aufs.Branch

namespace KernelPatches.Aufs

/-! ## The path -/

/-- A dentry of the path: its generation, that of its inode, and `d_count`. -/
structure PathLevel where
  digen : Nat
  iigen : Nat
  dCount : Int
deriving DecidableEq, Repr

/-- The path, and the levels `au_refresh_hdentry` was called for, each with what it asserts at its start:
    that the parent is current. -/
structure RevalSt where
  level : Nat → PathLevel
  refreshed : List (Nat × Bool)

namespace RevalSt

/-- The generation of the dentry or of its inode is obsolete. -/
def old (s : RevalSt) (sgen i : Nat) : Bool := (s.level i).digen != sgen || (s.level i).iigen != sgen

/-- `dget` -/
def dget (s : RevalSt) (i : Nat) : RevalSt :=
  { s with level := Function.update s.level i { s.level i with dCount := (s.level i).dCount + 1 } }

/-- `dput`, which does nothing for a null pointer. -/
def dput (s : RevalSt) : Option Nat → RevalSt
  | none => s
  | some i => { s with level := Function.update s.level i { s.level i with dCount := (s.level i).dCount - 1 } }

/-- The two generations of a level are set. -/
def setGens (s : RevalSt) (i digen iigen : Nat) : RevalSt :=
  { s with level := Function.update s.level i { s.level i with digen := digen, iigen := iigen } }

end RevalSt

/-- What the calls answer, level by level: whether somebody else has refreshed the dentry while its lock was
    awaited; `au_refresh_hdentry` and `au_refresh_hinode`; and the generation of the inode when the latter
    fails. -/
structure RevalAnswers where
  updated : Nat → Bool
  refreshHdentry : Nat → Int
  refreshHinode : Nat → Int
  iigenLeft : Nat → Nat

section

variable (sgen : Nat) (o : RevalAnswers) (root : Nat)

/-- `au_refresh_hdentry` and `au_refresh_hinode` of a level.  They set the generations to that of the super
    block, which is the `sgen` that the callers of `au_reval_dpath` pass. -/
def refreshLevel (d parent : Nat) (s : RevalSt) : Int × RevalSt :=
  let s := { s with refreshed := s.refreshed ++ [(d, !s.old sgen parent)] }
  if o.refreshHdentry d < 0 then (o.refreshHdentry d, s)
  else if o.refreshHinode d = 0 then (0, s.setGens d sgen sgen)
  else (o.refreshHinode d, s.setGens d sgen (o.iigenLeft d))

/-- The level of `d_parent`: the root is its own parent. -/
def dParent (d : Nat) : Nat := if d = root then root else d + 1

/-- `simple_reval_dpath` -/
def simpleRevalDpath (s : RevalSt) : Int × RevalSt :=
  if s.old sgen 0 then
    let parent := dParent root 0
    let r := refreshLevel sgen o 0 parent (s.dget parent)
    (r.1, r.2.dput (some parent))
  else (0, s)

/-- The inner loop, from `d` on: the level below the first that is current, that one, with its reference
    taken, and the state. -/
def climb : Nat → Nat → Option Nat → RevalSt → Option (Nat × Nat × RevalSt)
  | 0, _, _, _ => none
  | fuel + 1, d, parent, s =>
    let s := s.dput parent
    let parent := dParent root d
    let s := s.dget parent
    if s.old sgen parent then climb fuel parent (some parent) s
    else some (d, parent, s)

/-- The rest of a round, for `d` and its parent: `err`, which was zero before, and the state. -/
def revalLevel (d parent : Nat) (s : RevalSt) : Int × RevalSt :=
  -- someone might update our dentry while we were sleeping
  let s := if d ≠ 0 && o.updated d then s.setGens d sgen sgen else s
  let r := if s.old sgen d then refreshLevel sgen o d parent s else (0, s)
  (r.1, r.2.dput (some parent))

/-- The outer loop.  `parent` still points to the dentry of the round before. -/
def revalLoop : Nat → Option Nat → RevalSt → Option (Int × RevalSt)
  | 0, _, _ => none
  | fuel + 1, parent, s =>
    if s.old sgen 0 then
      match climb sgen root (fuel + 1) 0 parent s with
      | none => none
      | some (d, parent, s) =>
        let r := revalLevel sgen o d parent s
        if r.1 ≠ 0 then some r else revalLoop fuel (some parent) r.2
    else some (0, s)

/-- `au_reval_dpath` -/
def auRevalDpath (failedRefreshDirs : Bool) (fuel : Nat) (s : RevalSt) : Option (Int × RevalSt) :=
  if failedRefreshDirs then revalLoop sgen o root fuel none s else some (simpleRevalDpath sgen o root s)

end

/-! ## References and generations -/

namespace RevalSt

variable (s : RevalSt) (sgen i j : Nat)

/-- `d_count` of a level. -/
def count (s : RevalSt) (i : Nat) : Int := (s.level i).dCount

@[simp] theorem old_dget : (s.dget i).old sgen j = s.old sgen j := by
  unfold old dget
  by_cases h : j = i
  · subst h
    simp
  · simp [Function.update_of_ne h]

@[simp] theorem old_dput (p : Option Nat) : (s.dput p).old sgen j = s.old sgen j := by
  cases p with
  | none => rfl
  | some i =>
    unfold old dput
    by_cases h : j = i
    · subst h
      simp
    · simp [Function.update_of_ne h]

@[simp] theorem count_setGens (digen iigen : Nat) : (s.setGens i digen iigen).count j = s.count j := by
  unfold setGens count
  by_cases h : j = i
  · subst h
    simp
  · simp [Function.update_of_ne h]

@[simp] theorem old_setGens_self : (s.setGens i sgen sgen).old sgen i = false := by
  unfold old setGens
  simp

theorem old_setGens_ne {i j : Nat} (h : j ≠ i) (digen iigen : Nat) :
    (s.setGens i digen iigen).old sgen j = s.old sgen j := by
  unfold old setGens
  simp [Function.update_of_ne h]

theorem count_dget_self : (s.dget i).count i = s.count i + 1 := by simp [dget, count]

theorem count_dget_ne {i j : Nat} (h : j ≠ i) : (s.dget i).count j = s.count j := by
  simp [dget, count, Function.update_of_ne h]

theorem count_dput_self : (s.dput (some i)).count i = s.count i - 1 := by simp [dput, count]

theorem count_dput_ne {i j : Nat} (h : j ≠ i) : (s.dput (some i)).count j = s.count j := by
  simp [dput, count, Function.update_of_ne h]

/-- A `dput` takes nothing but one reference. -/
theorem count_dput_le (p : Option Nat) : (s.dput p).count j ≤ s.count j := by
  cases p with
  | none => exact Int.le_refl _
  | some i =>
    by_cases h : j = i
    · subst h
      rw [count_dput_self]
      omega
    · exact Int.le_of_eq (count_dput_ne s h)

@[simp] theorem refreshed_dput (p : Option Nat) : (s.dput p).refreshed = s.refreshed := by cases p <;> rfl

/-- A reference that is taken and given back. -/
@[simp] theorem dput_dget : (s.dget i).dput (some i) = s := by
  unfold dget dput
  cases s
  simp

end RevalSt

section

variable {sgen : Nat} {o : RevalAnswers} {root : Nat} {s : RevalSt} {k : Nat}

/-- **The climb ends below `k`**, the first level above `d` that is current.  Of the references it has taken
    it keeps the one on `k`; the one it was given is put. -/
theorem climb_eq {d fuel : Nat} (parent : Option Nat) (hdk : d < k) (hroot : k ≤ root)
    (hold : ∀ i, d < i → i < k → s.old sgen i = true) (hk : s.old sgen k = false) (hfuel : k ≤ d + fuel) :
    climb sgen root fuel d parent s = some (k - 1, k, (s.dput parent).dget k) := by
  induction fuel generalizing d parent s with
  | zero => omega
  | succ fuel ih =>
    have hparent : dParent root d = d + 1 := if_neg (by omega)
    unfold climb
    simp only [hparent, RevalSt.old_dget, RevalSt.old_dput]
    rcases Nat.eq_or_lt_of_le hdk with heq | hlt
    · rw [show d + 1 = k from heq, hk]
      rw [show k - 1 = d by omega]
      rfl
    · rw [hold (d + 1) (by omega) hlt, if_pos rfl]
      have hnext := @ih ((s.dput parent).dget (d + 1)) (d + 1) (some (d + 1)) hlt (by
        intro i hi hik
        rw [RevalSt.old_dget, RevalSt.old_dput]
        exact hold i (by omega) hik) (by rw [RevalSt.old_dget, RevalSt.old_dput, hk]) (by omega)
      rw [RevalSt.dput_dget] at hnext
      exact hnext

/-- The refresh of a level fails: it is done, and one of the two calls answers with an error. -/
def RefreshFails (o : RevalAnswers) (d : Nat) : Prop :=
  ¬ (d ≠ 0 ∧ o.updated d = true) ∧ (o.refreshHdentry d < 0 ∨ o.refreshHinode d ≠ 0)

instance (o : RevalAnswers) (d : Nat) : Decidable (RefreshFails o d) := inferInstanceAs (Decidable (_ ∧ _))

/-- What is done to a level: no reference is lost or won; only the generations of `d` may change, and they
    are current unless it failed; and who was refreshed had a current parent. -/
structure LevelDone (sgen d : Nat) (fails : Prop) (s : RevalSt) (r : Int × RevalSt) : Prop where
  counted : ∀ i, r.2.count i = s.count i
  others : ∀ i, i ≠ d → r.2.old sgen i = s.old sgen i
  ordered : (∀ x ∈ s.refreshed, x.2 = true) → ∀ x ∈ r.2.refreshed, x.2 = true
  failed : r.1 ≠ 0 ↔ fails
  current : r.1 = 0 → r.2.old sgen d = false

theorem refreshLevel_done {d : Nat} (hk : s.old sgen k = false) :
    LevelDone sgen d (o.refreshHdentry d < 0 ∨ o.refreshHinode d ≠ 0) s (refreshLevel sgen o d k s) := by
  have hlog : (∀ x ∈ s.refreshed, x.2 = true) →
      ∀ x ∈ s.refreshed ++ [(d, !s.old sgen k)], x.2 = true := by
    intro h x hx
    rcases List.mem_append.mp hx with hx | hx
    · exact h x hx
    · rw [List.mem_singleton.mp hx, hk]
      rfl
  unfold refreshLevel
  by_cases hneg : o.refreshHdentry d < 0
  · simp only [hneg, ↓reduceIte]
    exact ⟨fun _ => rfl, fun _ _ => rfl, hlog, ⟨fun _ => Or.inl trivial, fun _ => by omega⟩,
      fun h => absurd h (by omega)⟩
  · by_cases hino : o.refreshHinode d = 0
    · simp only [hneg, hino, ↓reduceIte]
      exact ⟨fun i => RevalSt.count_setGens _ _ _ _ _, fun i hi => RevalSt.old_setGens_ne _ _ hi _ _, hlog,
        ⟨fun h => absurd rfl h, fun h => by simp at h⟩, fun _ => RevalSt.old_setGens_self _ _ _⟩
    · simp only [hneg, hino, ↓reduceIte]
      exact ⟨fun i => RevalSt.count_setGens _ _ _ _ _, fun i hi => RevalSt.old_setGens_ne _ _ hi _ _, hlog,
        ⟨fun _ => Or.inr hino, fun _ => hino⟩, fun h => absurd h hino⟩

/-- Without `FAILED_REFRESH_DIRS` the dentry alone is done, below its parent. -/
theorem simpleRevalDpath_done (hd : s.old sgen 0 = true) (hk : s.old sgen (dParent root 0) = false) :
    LevelDone sgen 0 (o.refreshHdentry 0 < 0 ∨ o.refreshHinode 0 ≠ 0) s (simpleRevalDpath sgen o root s) := by
  have hdone := @refreshLevel_done sgen o (s.dget (dParent root 0)) (dParent root 0) 0
    (by rw [RevalSt.old_dget, hk])
  unfold simpleRevalDpath
  rw [if_pos hd]
  refine ⟨fun i => ?_, fun i hi => ?_, fun h => ?_, hdone.failed, fun h => ?_⟩
  · by_cases hik : i = dParent root 0
    · rw [hik, RevalSt.count_dput_self, hdone.counted, RevalSt.count_dget_self]
      omega
    · rw [RevalSt.count_dput_ne _ hik, hdone.counted, RevalSt.count_dget_ne _ hik]
  · rw [RevalSt.old_dput, hdone.others i hi, RevalSt.old_dget]
  · rw [RevalSt.refreshed_dput]
    exact hdone.ordered h
  · rw [RevalSt.old_dput]
    exact hdone.current h

/-- **One round.**  It does its level, and the reference on the parent is put. -/
theorem revalLevel_done {d : Nat} (hd : s.old sgen d = true) (hk : s.old sgen k = false) :
    LevelDone sgen d (RefreshFails o d) (s.dput (some k)) (revalLevel sgen o d k s) := by
  unfold revalLevel
  by_cases hup : (d ≠ 0 && o.updated d) = true
  · have hup' : d ≠ 0 ∧ o.updated d = true := by simpa using hup
    simp only [hup, ↓reduceIte, RevalSt.old_setGens_self, Bool.false_eq_true]
    refine ⟨fun i => ?_, fun i hi => ?_, fun h => ?_, ⟨fun h => absurd rfl h, fun h => absurd hup' h.1⟩,
      fun _ => ?_⟩
    · by_cases hik : i = k
      · rw [hik, RevalSt.count_dput_self, RevalSt.count_dput_self, RevalSt.count_setGens]
      · rw [RevalSt.count_dput_ne _ hik, RevalSt.count_dput_ne _ hik, RevalSt.count_setGens]
    · rw [RevalSt.old_dput, RevalSt.old_dput, RevalSt.old_setGens_ne _ _ hi]
    · rw [RevalSt.refreshed_dput] at h ⊢
      exact h
    · rw [RevalSt.old_dput, RevalSt.old_setGens_self]
  · have hdone := @refreshLevel_done sgen o s k d hk
    simp only [hup, hd, ↓reduceIte, Bool.false_eq_true]
    refine ⟨fun i => ?_, fun i hi => ?_, fun h => ?_, ?_, fun h => ?_⟩
    · by_cases hik : i = k
      · rw [hik, RevalSt.count_dput_self, RevalSt.count_dput_self, hdone.counted]
      · rw [RevalSt.count_dput_ne _ hik, RevalSt.count_dput_ne _ hik, hdone.counted]
    · rw [RevalSt.old_dput, RevalSt.old_dput, hdone.others i hi]
    · rw [RevalSt.refreshed_dput] at h ⊢
      exact hdone.ordered h
    · have hup' : ¬ (d ≠ 0 ∧ o.updated d = true) := by simpa using hup
      exact hdone.failed.trans ⟨fun h => ⟨hup', h⟩, And.right⟩
    · rw [RevalSt.old_dput]
      exact hdone.current h

/-! ## The loop -/

/-- The first `k` levels of the path are old, and the next one is current. -/
structure OldBelow (sgen root : Nat) (s : RevalSt) (k : Nat) : Prop where
  below : ∀ i < k, s.old sgen i = true
  next : s.old sgen k = false
  inside : k ≤ root

/-- **One round of the outer loop** refreshes the topmost of the old levels. -/
theorem revalLoop_round (h : OldBelow sgen root s (k + 1)) (parent : Option Nat) {fuel : Nat}
    (hfuel : k ≤ fuel) :
    revalLoop sgen o root (fuel + 1) parent s =
      let r := revalLevel sgen o k (k + 1) ((s.dput parent).dget (k + 1))
      if r.1 ≠ 0 then some r else revalLoop sgen o root fuel (some (k + 1)) r.2 := by
  have hclimb := @climb_eq sgen root s (k + 1) 0 (fuel + 1) parent (Nat.succ_pos k) h.inside
    (fun i _ hi => h.below i hi) h.next (by omega)
  rw [revalLoop, h.below 0 (Nat.succ_pos k), if_pos rfl, hclimb]
  rfl

/-- What the round leaves: one old level less, unless it fails, and the references but for the one that
    `parent` had left. -/
theorem revalRound_done (h : OldBelow sgen root s (k + 1)) (parent : Option Nat) :
    LevelDone sgen k (RefreshFails o k) (s.dput parent)
      (revalLevel sgen o k (k + 1) ((s.dput parent).dget (k + 1))) := by
  have hdone := @revalLevel_done sgen o ((s.dput parent).dget (k + 1)) (k + 1) k
    (by rw [RevalSt.old_dget, RevalSt.old_dput, h.below k (Nat.lt_succ_self k)])
    (by rw [RevalSt.old_dget, RevalSt.old_dput, h.next])
  rwa [RevalSt.dput_dget] at hdone

/-- With one old level less, the levels below it are still old. -/
theorem OldBelow.after (h : OldBelow sgen root s (k + 1)) {parent : Option Nat} {fails : Prop}
    {r : Int × RevalSt} (hdone : LevelDone sgen k fails (s.dput parent) r) (hzero : r.1 = 0) :
    OldBelow sgen root r.2 k where
  below i hi := by
    rw [hdone.others i (by omega), RevalSt.old_dput]
    exact h.below i (by omega)
  next := hdone.current hzero
  inside := Nat.le_of_succ_le h.inside

/-- What holds when the loop has ended, from `s` with `k` old levels and what `parent` points to. -/
structure LoopDone (sgen k : Nat) (parent : Option Nat) (s : RevalSt) (r : Int × RevalSt) : Prop where
  counted : ∀ i, r.2.count i ≤ s.count i
  put : 0 < k → ∀ q ∈ parent, r.2.count q < s.count q
  ordered : (∀ x ∈ s.refreshed, x.2 = true) → ∀ x ∈ r.2.refreshed, x.2 = true
  current : r.1 = 0 → ∀ i < k, r.2.old sgen i = false
  above : ∀ i, k ≤ i → r.2.old sgen i = s.old sgen i

/-- **The loop ends**, after at most as many rounds as there are old levels; it refreshes them from the top,
    and puts what `parent` points to once more. -/
theorem revalLoop_spec (h : OldBelow sgen root s k) (parent : Option Nat) :
    ∃ r, (∀ fuel, k < fuel → revalLoop sgen o root fuel parent s = some r) ∧ LoopDone sgen k parent s r := by
  induction k generalizing s parent with
  | zero =>
    refine ⟨(0, s), fun fuel hfuel => ?_, fun _ => Int.le_refl _, fun h0 => absurd h0 (Nat.lt_irrefl 0),
      fun hlog => hlog, fun _ i hi => absurd hi (Nat.not_lt_zero i), fun _ _ => rfl⟩
    obtain ⟨fuel, rfl⟩ : ∃ n, fuel = n + 1 := ⟨fuel - 1, by omega⟩
    rw [revalLoop, h.next]
    rfl
  | succ k ih =>
    have hround : ∀ fuel, k + 1 < fuel → revalLoop sgen o root fuel parent s =
        let r := revalLevel sgen o k (k + 1) ((s.dput parent).dget (k + 1))
        if r.1 ≠ 0 then some r else revalLoop sgen o root (fuel - 1) (some (k + 1)) r.2 := by
      intro fuel hfuel
      obtain ⟨fuel, rfl⟩ : ∃ n, fuel = n + 1 := ⟨fuel - 1, by omega⟩
      exact revalLoop_round h parent (by omega)
    have hdone := @revalRound_done sgen o root s k h parent
    generalize revalLevel sgen o k (k + 1) ((s.dput parent).dget (k + 1)) = r at hdone hround
    -- the round itself: no more references than before, and what `parent` pointed to has lost one
    have hle : ∀ i, r.2.count i ≤ s.count i := fun i => by
      rw [hdone.counted]
      exact RevalSt.count_dput_le s i parent
    have hput : ∀ q ∈ parent, r.2.count q < s.count q := by
      intro q hq
      rw [hdone.counted, Option.mem_def.mp hq, RevalSt.count_dput_self]
      omega
    have habove : ∀ i, k + 1 ≤ i → r.2.old sgen i = s.old sgen i := fun i hi => by
      rw [hdone.others i (by omega), RevalSt.old_dput]
    have hlog : (∀ x ∈ s.refreshed, x.2 = true) → ∀ x ∈ r.2.refreshed, x.2 = true := fun hs =>
      hdone.ordered (by rw [RevalSt.refreshed_dput]; exact hs)
    by_cases hzero : r.1 = 0
    · obtain ⟨r', hr', hloop⟩ := ih (h.after hdone hzero) (some (k + 1))
      refine ⟨r', fun fuel hfuel => ?_, fun i => ?_, fun _ q hq => ?_, fun hs => hloop.ordered (hlog hs),
        fun h0 i hi => ?_, fun i hi => ?_⟩
      · rw [hround fuel hfuel]
        simp only [hzero, ne_eq, not_true_eq_false, ↓reduceIte]
        exact hr' (fuel - 1) (by omega)
      · exact Int.le_trans (hloop.counted i) (hle i)
      · exact Int.lt_of_le_of_lt (hloop.counted q) (hput q hq)
      · rcases Nat.lt_or_ge i k with hik | hik
        · exact hloop.current h0 i hik
        · rw [hloop.above i hik, show i = k by omega]
          exact hdone.current hzero
      · rw [hloop.above i (by omega), habove i hi]
    · refine ⟨r, fun fuel hfuel => ?_, hle, fun _ => hput, hlog, fun h0 => absurd h0 hzero, habove⟩
      rw [hround fuel hfuel]
      simp only [ne_eq, hzero, not_false_eq_true, ↓reduceIte]

end

/-! ## When it does what it should -/

/-- How many levels are old, from the dentry up to the first that is current. -/
def oldLevels (sgen : Nat) (s : RevalSt) : (left i : Nat) → Nat
  | 0, i => i
  | left + 1, i => if s.old sgen i then oldLevels sgen s left (i + 1) else i

section

variable {sgen : Nat} {o : RevalAnswers} {root : Nat} {s : RevalSt} {k : Nat}

theorem oldLevels_spec {left i : Nat} (hroot : s.old sgen (i + left) = false)
    (hbelow : ∀ j < i, s.old sgen j = true) :
    OldBelow sgen (i + left) s (oldLevels sgen s left i) := by
  induction left generalizing i with
  | zero => exact ⟨hbelow, hroot, Nat.le_refl _⟩
  | succ left ih =>
    rw [oldLevels]
    by_cases hi : s.old sgen i = true
    · rw [if_pos hi, show i + (left + 1) = i + 1 + left by omega]
      apply ih
      · rw [← hroot]
        congr 1
        omega
      · intro j hj
        rcases Nat.eq_or_lt_of_le (Nat.le_of_lt_succ hj) with rfl | hlt
        · exact hi
        · exact hbelow j hlt
    · rw [if_neg hi]
      exact ⟨hbelow, by simpa using hi, by omega⟩

/-- **What `au_reval_dpath` is for**: if it returns zero, the whole path is current; each level was refreshed
    below a current parent; and no dentry has lost or won a reference. -/
structure RevalMeets (sgen root : Nat) (s : RevalSt) (r : Int × RevalSt) : Prop where
  current : r.1 = 0 → ∀ i ≤ root, r.2.old sgen i = false
  ordered : ∀ x ∈ r.2.refreshed, x.2 = true
  counted : ∀ i, r.2.count i = s.count i

/-- Nothing but the dentry itself is old; or the topmost of the old levels that lead up from it, which is
    refreshed first, fails. -/
def RevalSafe (sgen : Nat) (o : RevalAnswers) (root : Nat) (s : RevalSt) : Prop :=
  (oldLevels sgen s root 0 ≤ 1 ∧ ∀ i, oldLevels sgen s root 0 ≤ i → i ≤ root → s.old sgen i = false) ∨
    (0 < oldLevels sgen s root 0 ∧ RefreshFails o (oldLevels sgen s root 0 - 1))

/-- With no old level below a current one, the loop is at its end. -/
theorem revalLoop_none (h : OldBelow sgen root s 0) (parent : Option Nat) {fuel : Nat} (hfuel : 0 < fuel) :
    revalLoop sgen o root fuel parent s = some (0, s) := by
  obtain ⟨fuel, rfl⟩ : ∃ n, fuel = n + 1 := ⟨fuel - 1, by omega⟩
  rw [revalLoop, h.next]
  rfl

/-- With old levels, the loop is one round, and what follows if that succeeds. -/
theorem revalLoop_first (h : OldBelow sgen root s (k + 1)) :
    ∃ r₁, LevelDone sgen k (RefreshFails o k) s r₁ ∧ ∀ fuel, k < fuel →
      revalLoop sgen o root (fuel + 1) none s =
        if r₁.1 ≠ 0 then some r₁ else revalLoop sgen o root fuel (some (k + 1)) r₁.2 :=
  ⟨_, revalRound_done h none, fun _ hfuel => revalLoop_round h none (Nat.le_of_lt hfuel)⟩

/-- When the first refresh fails, its round is all there is, and it has put no more than it took. -/
theorem revalLoop_fails (h : OldBelow sgen root s (k + 1)) (hfails : RefreshFails o k) {fuel : Nat}
    (hfuel : k < fuel) {r : Int × RevalSt} (hr : revalLoop sgen o root (fuel + 1) none s = some r) :
    r.1 ≠ 0 ∧ ∀ i, r.2.count i = s.count i := by
  obtain ⟨r₁, hdone, hround⟩ := @revalLoop_first sgen o root s k h
  rw [hround fuel hfuel, if_pos (hdone.failed.mpr hfails)] at hr
  obtain rfl := Option.some.inj hr
  exact ⟨hdone.failed.mpr hfails, hdone.counted⟩

/-- When the dentry is the only one to be refreshed, and is, nothing is put twice. -/
theorem revalLoop_one (h : OldBelow sgen root s 1) (hok : ¬ RefreshFails o 0) {fuel : Nat} (hfuel : 0 < fuel)
    {r : Int × RevalSt} (hr : revalLoop sgen o root (fuel + 1) none s = some r) :
    r.1 = 0 ∧ ∀ i, r.2.count i = s.count i := by
  obtain ⟨r₁, hdone, hround⟩ := @revalLoop_first sgen o root s 0 h
  have hzero : r₁.1 = 0 := Classical.not_not.mp fun h => hok (hdone.failed.mp h)
  rw [hround fuel hfuel, if_neg (fun h => h hzero),
    revalLoop_none (@OldBelow.after sgen root s _ h none _ _ hdone hzero) _ hfuel] at hr
  obtain rfl := Option.some.inj hr
  exact ⟨rfl, hdone.counted⟩

/-- A second round puts the parent of the first once more. -/
theorem revalLoop_loses (h : OldBelow sgen root s (k + 2)) (hok : ¬ RefreshFails o (k + 1)) {fuel : Nat}
    (hfuel : k + 1 < fuel) {r : Int × RevalSt} (hr : revalLoop sgen o root (fuel + 1) none s = some r) :
    r.2.count (k + 2) < s.count (k + 2) := by
  obtain ⟨r₁, hdone, hround⟩ := @revalLoop_first sgen o root s (k + 1) h
  have hzero : r₁.1 = 0 := Classical.not_not.mp fun h => hok (hdone.failed.mp h)
  obtain ⟨r', hr', hloop⟩ :=
    @revalLoop_spec sgen o root r₁.2 (k + 1) (@OldBelow.after sgen root s _ h none _ _ hdone hzero) (some (k + 2))
  rw [hround fuel hfuel, if_neg (fun h => h hzero), hr' fuel hfuel] at hr
  obtain rfl := Option.some.inj hr
  have hlt := hloop.put (Nat.succ_pos k) (k + 2) rfl
  rwa [hdone.counted] at hlt

/-- **`au_reval_dpath` with `FAILED_REFRESH_DIRS` set does what it is for iff `RevalSafe`.**  It always
    returns. -/
theorem auRevalDpath_meets_iff (hroot : s.old sgen root = false) (hlog : s.refreshed = []) :
    (∃ r, (∀ fuel, root < fuel → auRevalDpath sgen o root true fuel s = some r) ∧
      RevalMeets sgen root s r) ↔ RevalSafe sgen o root s := by
  have hold : OldBelow sgen root s (oldLevels sgen s root 0) := by
    have hspec := @oldLevels_spec sgen s root 0
    rw [Nat.zero_add] at hspec
    exact hspec hroot fun j hj => absurd hj (Nat.not_lt_zero j)
  unfold RevalSafe
  generalize oldLevels sgen s root 0 = k at hold
  obtain ⟨r, hr, hloop⟩ := @revalLoop_spec sgen o root s k hold none
  have hruns : ∀ fuel, root < fuel → auRevalDpath sgen o root true fuel s = some r := fun fuel hfuel =>
    hr fuel (Nat.lt_of_le_of_lt hold.inside hfuel)
  have hordered : ∀ x ∈ r.2.refreshed, x.2 = true := hloop.ordered (by simp [hlog])
  have hcurrent : (∀ i, k ≤ i → i ≤ root → s.old sgen i = false) → r.1 = 0 →
      ∀ i ≤ root, r.2.old sgen i = false := by
    intro habove h0 i hi
    rcases Nat.lt_or_ge i k with hik | hik
    · exact hloop.current h0 i hik
    · rw [hloop.above i hik]
      exact habove i hik hi
  have habove : RevalMeets sgen root s r → r.1 = 0 → ∀ i, k ≤ i → i ≤ root → s.old sgen i = false := by
    intro hm h0 i hik hi
    rw [← hloop.above i hik]
    exact hm.current h0 i hi
  have hexists : (∃ r, (∀ fuel, root < fuel → auRevalDpath sgen o root true fuel s = some r) ∧
      RevalMeets sgen root s r) ↔ RevalMeets sgen root s r := by
    constructor
    · rintro ⟨r', hr', hm⟩
      have heq := (hr' (root + 1) (Nat.lt_succ_self root)).symm.trans (hruns _ (Nat.lt_succ_self root))
      rwa [Option.some.inj heq] at hm
    · exact fun hm => ⟨r, hruns, hm⟩
  rw [hexists]
  cases k with
  | zero =>
    -- nothing to refresh
    have hzero : r = (0, s) :=
      Option.some.inj ((hr 1 (by decide)).symm.trans (revalLoop_none hold none (by decide)))
    constructor
    · intro hm
      exact Or.inl ⟨Nat.zero_le 1, habove hm (by rw [hzero])⟩
    · rintro (⟨-, h⟩ | ⟨h, -⟩)
      · exact ⟨hcurrent h, hordered, fun i => by rw [hzero]⟩
      · exact absurd h (Nat.lt_irrefl 0)
  | succ k =>
    have hrun := hr (k + 2) (Nat.lt_succ_self (k + 1))
    by_cases hfails : RefreshFails o k
    · obtain ⟨herr, hcount⟩ := revalLoop_fails hold hfails (Nat.lt_succ_self k) hrun
      exact ⟨fun _ => Or.inr ⟨Nat.succ_pos k, hfails⟩, fun _ => ⟨fun h0 => absurd h0 herr, hordered, hcount⟩⟩
    · cases k with
      | zero =>
        obtain ⟨hzero, hcount⟩ := revalLoop_one hold hfails (Nat.lt_succ_self 0) hrun
        constructor
        · intro hm
          exact Or.inl ⟨Nat.le_refl 1, habove hm hzero⟩
        · rintro (⟨-, h⟩ | ⟨-, h⟩)
          · exact ⟨hcurrent h, hordered, hcount⟩
          · exact absurd h hfails
      | succ k =>
        have hlost := revalLoop_loses hold hfails (Nat.lt_succ_self (k + 1)) hrun
        constructor
        · intro hm
          have hkept := hm.counted (k + 2)
          omega
        · rintro (⟨h, -⟩ | ⟨-, h⟩)
          · omega
          · exact absurd h hfails

end

/-! ## A path of two directories -/

/-- Every call succeeds. -/
def refreshSucceeds : RevalAnswers where
  updated _ := false
  refreshHdentry _ := 1
  refreshHinode _ := 0
  iigenLeft _ := 0

/-- A path below the root: generation 2 for what is current, and 1 for the first `k` levels. -/
def pathOld (k : Nat) : RevalSt where
  level i := if i < k then ⟨1, 1, 1⟩ else ⟨2, 2, 1⟩
  refreshed := []

/-- A file whose directory is current is refreshed, and no reference is lost. -/
theorem auRevalDpath_file :
    ∃ r, (∀ fuel, 2 < fuel → auRevalDpath 2 refreshSucceeds 2 true fuel (pathOld 1) = some r) ∧
      RevalMeets 2 2 (pathOld 1) r := by
  apply (auRevalDpath_meets_iff rfl rfl).mpr
  refine Or.inl ⟨by decide, fun i hi hroot => ?_⟩
  have hge : 1 ≤ i := hi
  unfold pathOld RevalSt.old
  simp [show ¬ i < 1 by omega]

/-- **A file in a directory that is old as well.**  The directory is refreshed below the root, and then the
    file below the directory: the reference on the root, taken once, is put twice. -/
theorem parent_put_twice :
    ¬ ∃ r, (∀ fuel, 2 < fuel → auRevalDpath 2 refreshSucceeds 2 true fuel (pathOld 2) = some r) ∧
      RevalMeets 2 2 (pathOld 2) r := by
  rintro ⟨r, hr, hm⟩
  have hcount : (auRevalDpath 2 refreshSucceeds 2 true 3 (pathOld 2)).map (fun r => r.2.count 2) = some 0 := by
    rfl
  rw [hr 3 (by decide)] at hcount
  have hlost : r.2.count 2 = 0 := Option.some.inj hcount
  rw [hm.counted 2] at hlost
  exact absurd hlost (by decide)

end KernelPatches.Aufs
