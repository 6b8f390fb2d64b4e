/-
  aufs: the locks of an open file after the branches were changed.

  `au_reval_and_lock_fdi` takes the write locks of the file info and of the dentry info, brings both up to
  date, and leaves them locked for its caller, for reading unless the caller wants to write.  Its callers
  unlock them when it has returned zero, and skip that on an error.  One of the errors comes from a `goto` that
  passes the unlocking: `au_reval_dpath` has failed, and both write locks stay.

  * `auRevalAndLockFdi`            — the locks taken, downgraded and dropped;
  * `auRevalAndLockFdi_run`        — what it returns with what is held, exit by exit;
  * `auRevalAndLockFdi_meets_iff`  — when it keeps to what its callers rely on;
  * `aufsRead_unlocks_iff`         — when `aufs_read` then leaves no lock behind;
  * `locked_after_error`           — a dentry that cannot be refreshed.
-/
import KernelPatches.Lib.Custody

namespace KernelPatches.Aufs.FdiLocks

open KernelPatches.Lib
open KernelPatches.Lib.Prog

/-! ## The function -/

/-- The locks: of the super block, of the file info and of the dentry info. -/
inductive FdiLock where
  | siRead
  | fiRead
  | fiWrite
  | diRead
  | diWrite
deriving DecidableEq, Repr

/-- What `au_reval_and_lock_fdi` meets: the generations of the super block, of the file, of its dentry and of
    the inode; where the dentry, the inode and the file start; and what `au_reval_dpath` and `refresh_file`
    return. -/
structure FdiIo where
  sgen : Nat
  fgen : Nat
  digen : Nat
  iigen : Nat
  dbstart : Int
  ibstart : Int
  fbstart : Int
  revalDpath : Int
  refreshFile : Int

/-- `di_downgrade_lock` and `fi_downgrade_lock`, unless the caller wants to write. -/
def downgrade (wlock : Bool) : Prog FdiLock Unit := do
  if !wlock then
    giving .diWrite
    taking .diRead
    giving .fiWrite
    taking .fiRead

/-- From `refresh_file` on. -/
def refreshLocked (o : FdiIo) (wlock : Bool) : Prog FdiLock Int := do
  if o.refreshFile = 0 then
    downgrade wlock
  else
    giving .diWrite
    giving .fiWrite
  return o.refreshFile

/-- `au_reval_and_lock_fdi` -/
def auRevalAndLockFdi (o : FdiIo) (wlock : Bool) : Prog FdiLock Int := do
  taking .fiWrite
  taking .diWrite
  let pseudoLink := o.dbstart ≠ o.ibstart
  if o.sgen = o.fgen ∧ ¬ pseudoLink ∧ o.fbstart = o.dbstart then
    downgrade wlock
    return 0
  else if o.sgen ≠ o.digen ∨ o.sgen ≠ o.iigen then
    -- the error goes out with both locks
    if o.revalDpath < 0 then
      return o.revalDpath
    else
      refreshLocked o wlock
  else
    refreshLocked o wlock

/-- `aufs_read`: the locks around the read. -/
def aufsRead (o : FdiIo) : Prog FdiLock Int := do
  taking .siRead
  let err ← auRevalAndLockFdi o false
  if err = 0 then
    giving .diRead
    giving .fiRead
  giving .siRead
  return err

/-! ## The exits -/

/-- The locks in the mode asked for, the last taken first. -/
def asked (wlock : Bool) : List FdiLock := if wlock then [.diWrite, .fiWrite] else [.fiRead, .diRead]

/-- The file is as the branches are, and the dentry starts where the inode and the file do. -/
def UpToDate (o : FdiIo) : Prop := o.sgen = o.fgen ∧ o.dbstart = o.ibstart ∧ o.fbstart = o.dbstart

/-- `au_reval_dpath` is called, and fails. -/
def RevalFails (o : FdiIo) : Prop :=
  ¬ UpToDate o ∧ (o.sgen ≠ o.digen ∨ o.sgen ≠ o.iigen) ∧ o.revalDpath < 0

section

variable {o : FdiIo} {wlock : Bool} {held : List FdiLock}

theorem downgrade_run : (downgrade wlock).run (.diWrite :: .fiWrite :: held) = some ((), asked wlock ++ held) := by
  cases wlock with
  | true => rfl
  | false =>
    unfold downgrade
    simp [run_give_tail, asked]

theorem refreshLocked_run :
    (refreshLocked o wlock).run (.diWrite :: .fiWrite :: held) =
      some (o.refreshFile, if o.refreshFile = 0 then asked wlock ++ held else held) := by
  unfold refreshLocked
  by_cases h : o.refreshFile = 0
  · simp [h, downgrade_run]
  · simp [h]

/-- **The exits**: up to date; an error with both locks; and after `refresh_file`. -/
theorem auRevalAndLockFdi_run :
    (UpToDate o ∧ (auRevalAndLockFdi o wlock).run held = some (0, asked wlock ++ held)) ∨
    (RevalFails o ∧ (auRevalAndLockFdi o wlock).run held = some (o.revalDpath, .diWrite :: .fiWrite :: held)) ∨
    (¬ UpToDate o ∧ ¬ RevalFails o ∧ (auRevalAndLockFdi o wlock).run held =
      some (o.refreshFile, if o.refreshFile = 0 then asked wlock ++ held else held)) := by
  unfold auRevalAndLockFdi
  simp only [run_bind, run_taking, Option.bind_some, ne_eq, Classical.not_not]
  by_cases hup : o.sgen = o.fgen ∧ o.dbstart = o.ibstart ∧ o.fbstart = o.dbstart
  · refine Or.inl ⟨hup, ?_⟩
    rw [if_pos hup]
    simp [downgrade_run]
  · rw [if_neg hup]
    by_cases hold : ¬ o.sgen = o.digen ∨ ¬ o.sgen = o.iigen
    · rw [if_pos hold]
      by_cases hneg : o.revalDpath < 0
      · refine Or.inr (Or.inl ⟨⟨hup, hold, hneg⟩, ?_⟩)
        rw [if_pos hneg]
        rfl
      · refine Or.inr (Or.inr ⟨hup, fun h => hneg h.2.2, ?_⟩)
        rw [if_neg hneg, refreshLocked_run]
    · refine Or.inr (Or.inr ⟨hup, fun h => hold h.2.1, ?_⟩)
      rw [if_neg hold, refreshLocked_run]

end

/-! ## What its callers rely on -/

/-- **What the callers rely on**: zero with both locks in the mode asked for, or an error with neither. -/
def Meets (wlock : Bool) (held : List FdiLock) (r : Option (Int × List FdiLock)) : Prop :=
  ∃ err held', r = some (err, held') ∧
    ((err = 0 ∧ held'.Perm (asked wlock ++ held)) ∨ (err ≠ 0 ∧ held' = held))

/-- **`au_reval_and_lock_fdi` keeps to it iff `au_reval_dpath` is not called, or does not fail.** -/
theorem auRevalAndLockFdi_meets_iff (o : FdiIo) (wlock : Bool) (held : List FdiLock) :
    Meets wlock held ((auRevalAndLockFdi o wlock).run held) ↔ ¬ RevalFails o := by
  rcases @auRevalAndLockFdi_run o wlock held with ⟨hup, hrun⟩ | ⟨hfails, hrun⟩ | ⟨-, hok, hrun⟩
  · rw [hrun]
    exact ⟨fun _ h => h.1 hup, fun _ => ⟨0, _, rfl, Or.inl ⟨rfl, List.Perm.refl _⟩⟩⟩
  · rw [hrun]
    constructor
    · rintro ⟨err, held', heq, hcase⟩
      obtain ⟨rfl, rfl⟩ := Prod.mk.inj (Option.some.inj heq)
      rcases hcase with ⟨hzero, -⟩ | ⟨-, hheld⟩
      · have hneg := hfails.2.2
        omega
      · have hlen := congrArg List.length hheld
        simp only [List.length_cons] at hlen
        omega
    · exact fun h => absurd hfails h
  · rw [hrun]
    refine ⟨fun _ => hok, fun _ => ⟨o.refreshFile, _, rfl, ?_⟩⟩
    by_cases hzero : o.refreshFile = 0
    · rw [if_pos hzero]
      exact Or.inl ⟨hzero, List.Perm.refl _⟩
    · rw [if_neg hzero]
      exact Or.inr ⟨hzero, rfl⟩

/-- **`aufs_read` leaves no lock behind, under the same condition.** -/
theorem aufsRead_unlocks_iff (o : FdiIo) :
    (∃ err, (aufsRead o).run [] = some (err, [])) ↔ ¬ RevalFails o := by
  unfold aufsRead
  simp only [run_bind, run_taking, Option.bind_some]
  rcases @auRevalAndLockFdi_run o false [.siRead] with ⟨hup, hrun⟩ | ⟨hfails, hrun⟩ | ⟨-, hok, hrun⟩
  · rw [hrun]
    exact ⟨fun _ h => h.1 hup, fun _ => ⟨0, rfl⟩⟩
  · rw [hrun]
    have hne : o.revalDpath ≠ 0 := Int.ne_of_lt hfails.2.2
    refine ⟨fun ⟨err, h⟩ => ?_, fun h => absurd hfails h⟩
    simp [hne, run_give_tail] at h
  · rw [hrun]
    refine ⟨fun _ => hok, fun _ => ⟨o.refreshFile, ?_⟩⟩
    by_cases hzero : o.refreshFile = 0
    · simp [hzero, asked, run_give_tail]
    · simp [hzero]

/-- **A dentry that is old and cannot be refreshed**, as after `ENOMEM`: an error, and both write locks. -/
theorem locked_after_error :
    ¬ Meets false [] ((auRevalAndLockFdi ⟨2, 1, 1, 1, 0, 0, 0, -12, 0⟩ false).run []) := by
  rintro ⟨err, held', heq, hcase⟩
  have hrun : (auRevalAndLockFdi ⟨2, 1, 1, 1, 0, 0, 0, -12, 0⟩ false).run [] =
    some (-12, [.diWrite, .fiWrite]) := by rfl
  obtain ⟨rfl, rfl⟩ := Prod.mk.inj (Option.some.inj (hrun.symm.trans heq))
  rcases hcase with ⟨hzero, -⟩ | ⟨-, hheld⟩
  · exact absurd hzero (by decide)
  · exact absurd hheld (by decide)

end KernelPatches.Aufs.FdiLocks
