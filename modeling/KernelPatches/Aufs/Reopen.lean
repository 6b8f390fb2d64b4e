/-
  aufs: what a failed reopen leaves of the hidden file.

  `au_ready_to_write` calls `au_reopen_nondir` on three ways: the hidden file is where the dentry starts, after a
  copy-up or without one; the file was deleted, and copied up before, so that the dentry is redirected to the
  `hi_wh` for the time of the call; or it is copied up by the call itself.  When the reopen is for the branch the
  file is open on, the slot is emptied BEFORE the new hidden file is open.

  * `reopenDinfo`             — the dentry the reopen is called with, if it is called;
  * `HOpenFails`              — opening a hidden file answers an error;
  * `auReopenNondir_err`      — what a failed reopen leaves, and when it fails;
  * `ready_keeps_iff`         — the hidden file survives a failed reopen iff the old and the new branch are not
                                the same, or the modes are, or the open does not fail.
-/
import KernelPatches.Aufs.Finfo

namespace KernelPatches.Aufs

/-! ## Opening a hidden file -/

/-- **Opening the hidden file answers an error**: it was removed meanwhile, or `dentry_open` fails, or, when the
    file is open for execution, the hidden file is open for writing elsewhere. -/
def HOpenFails (o : OpenIo) (d : Dinfo) (bindex : Int) (fMode : Nat) (siBranch : List Nat) : Prop :=
  (d.hDptr bindex.toNat).isSome = true ∧
    (o.enoent = true ∨
      bindex.toNat < siBranch.length ∧
        if hasMode fMode fmodeExec then (∃ hFile, o.dentryOpen = .ok hFile) ∧ o.denyWrite ≠ 0
        else ∃ err, o.dentryOpen = .error err)

theorem auHOpen_err_iff {o : OpenIo} {d : Dinfo} {bindex : Int} {fMode : Nat} {sb : FileSb} :
    (∃ err, (auHOpen o d bindex (some fMode) sb).1 = .err err) ↔ HOpenFails o d bindex fMode sb.siBranch := by
  rw [HOpenFails, auHOpen]
  cases hd : d.hDptr bindex.toNat with
  | none => simp
  | some hDentry =>
    cases hn : o.enoent with
    | true => simp
    | false =>
      cases hbr : sb.siBranch[bindex.toNat]? with
      | none =>
        have hlen := List.getElem?_eq_none_iff.mp hbr
        simp
        omega
      | some br =>
        obtain ⟨hlen, -⟩ := List.getElem?_eq_some_iff.mp hbr
        cases hm : hasMode fMode fmodeExec <;> cases ho : o.dentryOpen <;>
          by_cases hw : o.denyWrite = 0 <;> simp [hm, hw, hlen]

section

variable {o : OpenIo} {d : Dinfo} {s : FileSt} {hf : AuHfile} {err : Int}

/-- A failed open leaves the file alone. -/
theorem reopenAt_err (h : (reopenAt o d s).1 = .err err) :
    (reopenAt o d s).2.f = s.f ∧ HOpenFails o d d.diBstart s.f.fMode s.sb.siBranch := by
  rw [← auHOpen_err_iff]
  unfold reopenAt at h ⊢
  rcases hopen : auHOpen o d d.diBstart (some s.f.fMode) s.sb with ⟨r, sb⟩
  rw [hopen] at h
  cases r with
  | ok hFile => cases h
  | oops => cases h
  | err e => exact ⟨rfl, e, rfl⟩

theorem reopenAt_of_fails (h : HOpenFails o d d.diBstart s.f.fMode s.sb.siBranch) :
    ∃ e, (reopenAt o d s).1 = .err e := by
  obtain ⟨e, he⟩ := auHOpen_err_iff.mpr h
  refine ⟨e, ?_⟩
  unfold reopenAt
  rcases hopen : auHOpen o d d.diBstart (some s.f.fMode) s.sb with ⟨r, sb⟩
  rw [hopen] at he
  obtain rfl : r = .err e := he
  rfl

/-- **A reopen where the file is open, in another mode.**  The slot is empty when the open fails. -/
theorem auReopenNondir_same (hslot : s.f.hFptr s.f.fiBstart = some hf) (hb : d.diBstart = s.f.fiBstart)
    (hmode : s.f.fMode ≠ hf.hfFile.fMode) :
    auReopenNondir o d s = reopenAt o d (auSetHFptr s d.diBstart.toNat none) := by
  rw [auReopenNondir, if_pos hb.symm, hb, hslot]
  exact if_neg hmode

/-- **A failed reopen.**  Where the file is open already, it can fail in another mode only, and then the slot is
    emptied first; elsewhere the slots stay as they are. -/
theorem auReopenNondir_err (hslot : s.f.hFptr s.f.fiBstart = some hf) (h : (auReopenNondir o d s).1 = .err err) :
    HOpenFails o d d.diBstart s.f.fMode s.sb.siBranch ∧
      ((d.diBstart = s.f.fiBstart ∧ s.f.fMode ≠ hf.hfFile.fMode) ∨
        (d.diBstart ≠ s.f.fiBstart ∧ (auReopenNondir o d s).2.f = s.f)) := by
  by_cases hb : d.diBstart = s.f.fiBstart
  · by_cases hmode : s.f.fMode = hf.hfFile.fMode
    · rw [auReopenNondir, if_pos hb.symm, hb, hslot] at h
      dsimp only at h
      rw [if_pos hmode] at h
      cases h
    · rw [auReopenNondir_same hslot hb hmode] at h
      have hfails := (reopenAt_err h).2
      rw [auSetHFptr_siBranch] at hfails
      exact ⟨hfails, Or.inl ⟨hb, hmode⟩⟩
  · rw [auReopenNondir, if_neg (Ne.symm hb)] at h ⊢
    obtain ⟨hf', hfails⟩ := reopenAt_err h
    exact ⟨hfails, Or.inr ⟨hb, hf'⟩⟩

end

/-! ## The call from a write -/

/-- The dentry `au_reopen_nondir` is called with, if `au_ready_to_write` calls it. -/
def reopenDinfo (o : WriteIo) (d : Dinfo) (f : AufsFile) : Option Dinfo :=
  match f.hFptr f.fiBstart with
  | none => none
  | some hf =>
    if !o.testRo && hasMode hf.hfFile.fMode fmodeWrite then none
    else if o.copyup < 0 ∨ o.cpupDirs ≠ 0 ∨ o.pinCpup ≠ 0 then none
    else if o.unhashed then
      match o.hiWh, o.whDentry with
      | some hiWh, _ => some (d.redirect o.copyup.toNat (some hiWh))
      | none, .error _ => none
      | none, .ok whDentry =>
        if o.cpup ≠ 0 then none
        else some ((d.redirect o.copyup.toNat (some whDentry)).setHDptr d.diBstart.toNat (some hf.hfFile.fDentry))
    else if (d.hDptr o.copyup.toNat).isSome then some d
    else if o.cpup ≠ 0 then none
    else some o.cpupDinfo

/-- The generations and the starts are such that nothing is refreshed. -/
def Unchanged (r : RevalIo) (s : FileSt) : Prop :=
  s.sb.siGeneration = s.f.fiGeneration ∧ r.dbstart = r.ibstart ∧ s.f.fiBstart = r.dbstart

/-- **The hidden file is kept**: it is where it was, and a read that has nothing to refresh reads it. -/
def KeepsHidden (hf : AuHfile) (s s' : FileSt) : Prop :=
  s'.f.fiBstart = s.f.fiBstart ∧ s'.f.hFptr s'.f.fiBstart = some hf ∧
    ∀ r, Unchanged r s' → (aufsRead r s').1 = .ok hf.hfFile

/-- When `au_reopen_nondir` is called and fails, the hidden file is kept. -/
def FailedReopenKeeps (o : WriteIo) (d : Dinfo) (s : FileSt) (hf : AuHfile) : Prop :=
  ∀ d' err, reopenDinfo o d s.f = some d' → (auReopenNondir o.hOpen d' s).1 = .err err →
    KeepsHidden hf s (auReadyToWrite o d s).2.2

section

variable {o : WriteIo} {d d' : Dinfo} {s s' : FileSt} {hf : AuHfile}

/-- **The file is left as the reopen leaves it**, and as it was when there is none. -/
theorem auReadyToWrite_file : (auReadyToWrite o d s).2.2 =
    match reopenDinfo o d s.f with
    | none => s
    | some d' => (auReopenNondir o.hOpen d' s).2 := by
  unfold reopenDinfo auReadyToWrite
  cases hslot : s.f.hFptr s.f.fiBstart with
  | none =>
    dsimp only [Option.isNone, Option.any]
    split_ifs <;> first | rfl | contradiction
  | some hf =>
    simp only [Option.isNone_some, Option.any_some, Bool.and_false, Bool.false_eq_true, if_false]
    by_cases hw : (!o.testRo && hasMode hf.hfFile.fMode fmodeWrite) = true
    · rw [if_pos hw, if_pos hw]
    rw [if_neg hw, if_neg hw]
    by_cases hcopyup : o.copyup < 0
    · rw [if_pos hcopyup, if_pos (Or.inl hcopyup)]
    rw [if_neg hcopyup]
    by_cases hdirs : o.cpupDirs ≠ 0
    · rw [if_pos hdirs, if_pos (Or.inr (Or.inl hdirs))]
    rw [if_neg hdirs]
    by_cases hpin : o.pinCpup ≠ 0
    · rw [if_pos hpin, if_pos (Or.inr (Or.inr hpin))]
    rw [if_neg hpin]
    have hprep : ¬ (o.copyup < 0 ∨ o.cpupDirs ≠ 0 ∨ o.pinCpup ≠ 0) := by
      rintro (h | h | h)
      · exact hcopyup h
      · exact hdirs h
      · exact hpin h
    rw [if_neg hprep]
    cases hun : o.unhashed with
    | false =>
      rw [if_neg Bool.false_ne_true, if_neg Bool.false_ne_true]
      split_ifs <;> rfl
    | true =>
      -- the file was deleted
      rw [if_pos rfl, if_pos rfl]
      unfold auReadyToWriteWh
      cases o.hiWh with
      | some hiWh => rfl
      | none =>
        dsimp only
        unfold auCpupWh
        cases o.whDentry with
        | error err => rfl
        | ok whDentry =>
          dsimp only
          unfold doCpupWhOpen
          rw [hslot]
          dsimp only
          by_cases hc : o.cpup ≠ 0
          · rw [if_pos hc, if_pos hc]
          · rw [if_neg hc, if_neg hc]
            dsimp only
            rcases auReopenNondir o.hOpen _ s with ⟨r, t⟩
            cases r <;> rfl

theorem auReadyToWrite_reopen (h : reopenDinfo o d s.f = some d') :
    (auReadyToWrite o d s).2.2 = (auReopenNondir o.hOpen d' s).2 := by
  rw [auReadyToWrite_file, h]

/-- A read that has nothing to refresh reads what is in the slot. -/
theorem aufsRead_unchanged {r : RevalIo} (h : Unchanged r s) (hslot : s.f.hFptr s.f.fiBstart = some hf) :
    (aufsRead r s).1 = .ok hf.hfFile := by
  have hreval : auRevalAndLockFdi r s = (.ok (), s) := if_pos h
  rw [aufsRead, hreval]
  dsimp only
  rw [hslot]

theorem keepsHidden_of_file (hslot : s.f.hFptr s.f.fiBstart = some hf) (h : s'.f = s.f) : KeepsHidden hf s s' := by
  have hslot' : s'.f.hFptr s'.f.fiBstart = some hf := by
    rw [h]
    exact hslot
  exact ⟨congrArg AufsFile.fiBstart h, hslot', fun r hr => aufsRead_unchanged hr hslot'⟩

/-- **A failed reopen before a write.**  The hidden file is kept iff the reopen is not for the branch the file is
    open on, in another mode, with an open that fails. -/
theorem ready_keeps_iff (hslot : s.f.hFptr s.f.fiBstart = some hf) :
    FailedReopenKeeps o d s hf ↔
      ∀ d', reopenDinfo o d s.f = some d' →
        ¬ (d'.diBstart = s.f.fiBstart ∧ s.f.fMode ≠ hf.hfFile.fMode ∧
          HOpenFails o.hOpen d' d'.diBstart s.f.fMode s.sb.siBranch) := by
  constructor
  · rintro hkeep d' hd ⟨hb, hmode, hfails⟩
    have heq := auReopenNondir_same (o := o.hOpen) hslot hb hmode
    -- the open meets the same branches after the slot was emptied
    have hfails' : HOpenFails o.hOpen d' d'.diBstart (auSetHFptr s d'.diBstart.toNat none).f.fMode
        (auSetHFptr s d'.diBstart.toNat none).sb.siBranch := by
      rw [auSetHFptr_siBranch]
      exact hfails
    obtain ⟨err, herr⟩ := reopenAt_of_fails hfails'
    obtain ⟨hstart, hslot', -⟩ := hkeep d' err hd (by rw [heq]; exact herr)
    rw [auReadyToWrite_reopen hd, heq, (reopenAt_err herr).1] at hslot'
    rw [AufsFile.hFptr_eq_some] at hslot'
    have hnone : (auSetHFptr s d'.diBstart.toNat none).f.slot d'.diBstart.toNat = none := slot_auSetHFptr_self
    have hsame : (auSetHFptr s d'.diBstart.toNat none).f.fiBstart = d'.diBstart := hb.symm
    rw [hsame, hnone] at hslot'
    cases hslot'.2
  · intro hcond d' err hd herr
    rw [auReadyToWrite_reopen hd]
    rcases auReopenNondir_err hslot herr with ⟨hfails, ⟨hb, hmode⟩ | ⟨-, hfile⟩⟩
    · exact absurd ⟨hb, hmode, hfails⟩ (hcond d' hd)
    · exact keepsHidden_of_file hslot hfile

end

/-- A file with a hidden file that is open for reading only, on branch `b` of two, the second one below. -/
def readOnlyHFile (b : Nat) : AuHfile :=
  ⟨⟨7, ⟨b, [[97]], some (.mk 12 sIfreg [] fun _ => 0)⟩, 1⟩, b⟩

/-- The file is open for reading and writing. -/
def readWriteFile (b : Nat) : FileSt :=
  { sb := ⟨[0, 1], 1, fun br => br, Function.update (fun _ => 0) b 1⟩
    f := ⟨3, false, b, b, [none, none].set b (some (readOnlyHFile b)), 1⟩ }

/-- It is on branch 0, or was copied up to it, and the hidden file cannot be opened there: ENFILE. -/
def noFileWrite (testRo : Bool) : WriteIo :=
  { testRo := testRo, pin := 0, copyup := 0, cpupDirs := 0, pinCpup := 0, unhashed := false, hiWh := none
    whDentry := .error (- ENOENT), cpup := 0, cpupDinfo := Dinfo.alloc
    hOpen := ⟨false, .error (-23), 0⟩, unlink := 0 }

/-- The dentry starts on branch 0. -/
def onBranchZero : Dinfo := Dinfo.alloc.found 0 (readOnlyHFile 0).hfFile.fDentry

theorem onBranchZero_starts : 0 ≤ onBranchZero.diBstart := by decide

theorem ready_keeps_iff_copiedUp :
    FailedReopenKeeps (noFileWrite true) onBranchZero (readWriteFile 1) (readOnlyHFile 1) :=
  (ready_keeps_iff rfl).mpr fun d' hd hcond => by
    obtain rfl : onBranchZero = d' := Option.some.inj hd
    exact absurd hcond.1 (by decide)

/-- **The permission of the branch was changed**: the file is opened again where it is, which fails, and the next
    read finds no hidden file. -/
theorem reopen_same_branch :
    ¬ FailedReopenKeeps (noFileWrite false) onBranchZero (readWriteFile 0) (readOnlyHFile 0) ∧
      ∃ r, Unchanged r (auReadyToWrite (noFileWrite false) onBranchZero (readWriteFile 0)).2.2 ∧
        (aufsRead r (auReadyToWrite (noFileWrite false) onBranchZero (readWriteFile 0)).2.2).1 = .oops := by
  constructor
  · intro hkeep
    obtain ⟨-, hslot, -⟩ := hkeep onBranchZero (-23) rfl rfl
    cases hslot
  · refine ⟨⟨0, 0, 0, ⟨false, 0, fun _ => true, false, false, 0, false, 0, false, 0, none, ⟨false, .error (-23), 0⟩,
      onBranchZero, onBranchZero_starts, fun _ => ⟨false, .error (-23), 0⟩⟩⟩, ⟨rfl, rfl, rfl⟩, rfl⟩

end KernelPatches.Aufs
