/-
  aufs: the locks, the pins and the references of link(2).

  A pin is what is held of the hidden directory of a dentry: its lock, a reference, the reference on the parent
  and, where the branch is written to, its mount.  `aufs_link` pins the new entry.  Without pseudo-links, when
  the source is on a lower branch, it drops the pin and the lock on the parent, copies the source up under a pin
  of its own, and takes both again; when the copy-up fails it leaves by the exit of those who still have them.

  Inside `au_do_pin` there is a second slip: when the directory turns out not to be the parent any more, or its
  own parent cannot be pinned, it undoes what it has done by `au_do_unpin`, which gives back the write access of
  the mount although it was not asked for yet.

  * `auDoPin`, `auDoUnpin`     — a pin and its grandparent's;
  * `aufsLink`                 — link(2), with every lock and reference on its way;
  * `auPin_cases`              — a pin is taken, or fails with nothing held, or goes wrong;
  * `aufsLink_keeps_iff`       — when everything is given back once, and only while it is held;
  * `copy_up_fails`            — without pseudo-links, the parent directory cannot be copied up.
-/
import KernelPatches.Lib.Custody
import KernelPatches.Aufs.Finfo
import KernelPatches.Aufs.Xino

namespace KernelPatches.Aufs.LinkLocks

open KernelPatches.Lib
open KernelPatches.Lib.Prog

/-! ## What is held -/

/-- The dentries of the call: the new entry and the source, and what is above them. -/
inductive LinkDentry where
  | dst
  | src
  | dstParent
  | srcParent
  | dstGparent
  | srcGparent
  | above
deriving DecidableEq, Repr

/-- `d_parent` -/
def LinkDentry.parent : LinkDentry → LinkDentry
  | dst => dstParent
  | src => srcParent
  | dstParent => dstGparent
  | srcParent => srcGparent
  | dstGparent => above
  | srcGparent => above
  | above => above

/-- What is held: the arguments, the lock of the super block, those of the dentry infos, references on
    dentries, the locks of hidden directories and references on them, the write access to the mount of the
    branch, the lock of the hidden inode of the source and references on hidden dentries, and the whiteout. -/
inductive LinkRes where
  | args
  | siRead
  | diWrite (d : LinkDentry)
  | diRead (d : LinkDentry)
  | dref (d : LinkDentry)
  | hDir (d : LinkDentry)
  | hDirRef (d : LinkDentry)
  | mntWrite
  | hInode
  | hDref
  | whDentry
deriving DecidableEq, Repr

/-! ## Pins -/

/-- `struct au_pin1`: the dentry, the flags VERIFY, MNT_WRITE, DI_LOCKED and DO_GPARENT, and whether `parent`
    and `h_dir` are set. -/
structure Pin1 where
  dentry : LinkDentry
  verify : Bool
  mntWrite : Bool
  diLocked : Bool
  doGparent : Bool
  hDir : Bool

/-- What `au_do_pin` meets: whether the dentry is the root, whether the hidden directory is gone, whether the
    hidden dentry is there and `au_verify_parent` fails, and the error of `au_br_want_write`. -/
structure PinIo where
  isRoot : Bool
  gone : Bool
  moved : Bool
  wantWrite : Int

/-- `au_do_unpin`, of a pin and of the pin of its grandparent, which come as a list. -/
def auDoUnpin : List Pin1 → Prog LinkRes (List Pin1)
  | [] => return []
  | p :: gp => do
    if p.mntWrite then giving .mntWrite
    if !p.hDir then
      return p :: gp
    else
      giving (.hDir p.dentry.parent)
      let gp ← auDoUnpin gp
      if !p.diLocked then giving (.diRead p.dentry.parent)
      giving (.hDirRef p.dentry.parent)
      giving (.dref p.dentry.parent)
      return { p with hDir := false } :: gp

/-- `au_br_want_write`, if the pin has the flag for it: the flag is cleared when it fails. -/
def pinWantWrite (o : PinIo) (p : Pin1) : Prog LinkRes (Int × Pin1) := do
  if !p.mntWrite then
    return (0, p)
  else if o.wantWrite ≠ 0 then
    return (o.wantWrite, { p with mntWrite := false })
  else
    taking .mntWrite
    return (0, p)

/-- `au_do_pin`, with the directory locked and `err` from the pin of the grandparent: whether it is still the
    parent, and the write access. -/
def pinVerify (err : Int) (o : PinIo) (p : Pin1) : Prog LinkRes (Int × Pin1) :=
  if err ≠ 0 then return (err, p)
  else if p.verify && o.moved then return (- EIO, p)
  else pinWantWrite o p

/-- `au_do_pin`, of a pin and of the pin of its grandparent, which come as a list. -/
def auDoPin : List (Pin1 × PinIo) → Prog LinkRes (Int × List Pin1)
  | [] => return (0, [])
  | (p, o) :: gps => do
    if o.isRoot then
      let r ← pinWantWrite o p
      return (r.1, r.2 :: gps.map (·.1))
    else
      taking (.dref p.dentry.parent)
      if !p.diLocked then taking (.diRead p.dentry.parent)
      else needing [.diWrite p.dentry.parent, .diRead p.dentry.parent]
      -- udba case
      if p.verify && o.gone then
        if !p.diLocked then giving (.diRead p.dentry.parent)
        giving (.dref p.dentry.parent)
        return (- EIO, p :: gps.map (·.1))
      else
        taking (.hDirRef p.dentry.parent)
        let g ← if p.doGparent then auDoPin gps else pure (0, gps.map (·.1))
        taking (.hDir p.dentry.parent)
        let r ← pinVerify g.1 o p
        let pins := { r.2 with hDir := true } :: g.2
        if r.1 = 0 then
          return (0, pins)
        else
          let pins ← auDoUnpin pins
          return (r.1, pins)

/-- `au_pin_init`, for AuPin_DI_LOCKED | AuPin_MNT_WRITE; the dentry of the grandparent's pin, which
    `au_do_pin` sets, is set here. -/
def auPinInit (udbaNone doGparent : Bool) (dentry : LinkDentry) : Pin1 × Pin1 :=
  (⟨dentry, !udbaNone, true, true, doGparent, false⟩,
    ⟨dentry.parent, doGparent && !udbaNone, false, false, false, false⟩)

/-- `au_pin` -/
def auPin (udbaNone doGparent : Bool) (dentry : LinkDentry) (o og : PinIo) :
    Prog LinkRes (Int × List Pin1) :=
  let init := auPinInit udbaNone doGparent dentry
  auDoPin [(init.1, o), (init.2, og)]

/-! ## link(2) -/

/-- What `aufs_link` meets: memory for its arguments; the mount options; `au_wr_dir`; the first pin, with its
    grandparent's; whether the new entry starts on the branch, and the error of `au_may_add`; whether the
    whiteout is on it, and `au_wh_lkup`; whether the source is on a lower branch.  With pseudo-links: whether
    its inode is not on the branch yet, whether a hidden dentry of it is found, and the errors of the copy-up.
    Without: whether its parent is on the branch, before and after waiting for the lock, the error of
    `au_cpup_dirs`, the pin and the copy-up of the source, and the second pin of the new entry.  Then the
    errors of `vfsub_link`, of unlinking the whiteout, and of the revert. -/
structure LinkIo where
  nomem : Bool
  udbaNone : Bool
  hinotify : Bool
  plink : Bool
  wrDir : Int
  pin : PinIo
  pinGp : PinIo
  startsThere : Bool
  mayAdd : Int
  dbwhThere : Bool
  whLkup : Int
  below : Bool
  noHInode : Bool
  hAlias : Bool
  cpupSingle : Int
  hasDir : Bool
  hasDirNow : Bool
  cpupDirs : Int
  srcPin : PinIo
  srcPinGp : PinIo
  cpupSimple : Int
  rePin : PinIo
  rePinGp : PinIo
  vfsLink : Int
  whUnlink : Int
  revert : Int

section

variable (o : LinkIo)

/-- `au_may_add` is called, where the new entry starts on the branch, and refuses. -/
def addRefused : Bool := !o.udbaNone && o.startsThere && o.mayAdd ≠ 0

/-- `lock_hdir_lkup_wh`: an error, or whether there is a whiteout; and the pin. -/
def lockHdirLkupWh : Prog LinkRes (Except Int Bool × List Pin1) := do
  if o.wrDir < 0 then
    return (.error o.wrDir, [])
  else
    let r ← auPin o.udbaNone o.hinotify .dst o.pin o.pinGp
    if r.1 ≠ 0 then
      return (.error r.1, r.2)
    else if addRefused o then
      let pins ← auDoUnpin r.2
      return (.error o.mayAdd, pins)
    else if !o.dbwhThere then
      return (.ok false, r.2)
    else if o.whLkup ≠ 0 then
      let pins ← auDoUnpin r.2
      return (.error o.whLkup, pins)
    else
      taking .whDentry
      return (.ok true, r.2)

/-- `au_test_and_cpup_dirs` of the source. -/
def auTestAndCpupDirs : Prog LinkRes Int := do
  taking (.dref .srcParent)
  needing [.diRead .srcParent]
  if o.hasDir then
    giving (.dref .srcParent)
    return 0
  else
    giving (.diRead .srcParent)
    taking (.diWrite .srcParent)
    -- someone else might change our inode while we were sleeping
    let err := if o.hasDirNow then 0 else o.cpupDirs
    giving (.diWrite .srcParent)
    taking (.diRead .srcParent)
    giving (.dref .srcParent)
    return err

/-- `au_cpup_before_link`, which uses the pin of the new entry. -/
def auCpupBeforeLink (pins : List Pin1) : Prog LinkRes (Int × List Pin1) := do
  taking (.diRead .srcParent)
  let err ← auTestAndCpupDirs o
  if err ≠ 0 then
    giving (.diRead .srcParent)
    return (err, pins)
  else
    let r ← auPin o.udbaNone o.hinotify .src o.srcPin o.srcPinGp
    if r.1 ≠ 0 then
      giving (.diRead .srcParent)
      return (r.1, r.2)
    else
      taking .hInode
      giving .hInode
      let pins ← auDoUnpin r.2
      giving (.diRead .srcParent)
      return (o.cpupSimple, pins)

/-- `au_cpup_or_link` -/
def auCpupOrLink : Prog LinkRes Int := do
  if o.noHInode then
    taking .hDref
    taking .hInode
    giving .hInode
    giving .hDref
    return o.cpupSingle
  else if o.hAlias then
    taking .hDref
    giving .hDref
    return o.vfsLink
  else
    return - EIO

/-- `out_unlock` -/
def outUnlock (err : Int) : Prog LinkRes Int := do
  giving (.diWrite .dstParent)
  giving (.dref .srcParent)
  giving (.diWrite .dst)
  giving (.diWrite .src)
  giving .siRead
  giving .args
  return err

/-- `out_wh` -/
def outWh (wh : Bool) (err : Int) : Prog LinkRes Int := do
  if wh then giving .whDentry
  outUnlock err

/-- `out_unpin` -/
def outUnpin (wh : Bool) (pins : List Pin1) (err : Int) : Prog LinkRes Int := do
  let _ ← auDoUnpin pins
  outWh wh err

/-- After the link: the whiteout is unlinked, and the link reverted when that fails. -/
def afterLink (wh : Bool) (pins : List Pin1) (err : Int) : Prog LinkRes Int :=
  if err ≠ 0 then outUnpin wh pins err
  else if wh && o.whUnlink ≠ 0 then outUnpin wh pins (if o.revert = 0 then o.whUnlink else - EIO)
  else outUnpin wh pins 0

/-- The link itself. -/
def linkLocked (wh : Bool) (pins : List Pin1) : Prog LinkRes Int := do
  if o.plink then
    let err ← if o.below then auCpupOrLink o else pure o.vfsLink
    afterLink o wh pins err
  else if o.below then
    let pins ← auDoUnpin pins
    giving (.diWrite .dstParent)
    let r ← auCpupBeforeLink o pins
    if r.1 ≠ 0 then
      outUnpin wh r.2 r.1
    else
      taking (.diWrite .dstParent)
      let r ← auPin o.udbaNone o.hinotify .dst o.rePin o.rePinGp
      if r.1 ≠ 0 then
        outWh wh r.1
      else
        afterLink o wh r.2 o.vfsLink
  else
    afterLink o wh pins o.vfsLink

/-- `aufs_link` -/
def aufsLink : Prog LinkRes Int := do
  if o.nomem then
    return - ENOMEM
  else
    taking .args
    taking .siRead
    taking (.diWrite .dst)
    taking (.diWrite .src)
    taking (.dref .srcParent)
    taking (.diWrite .dstParent)
    let r ← lockHdirLkupWh o
    match r.1 with
    | .error err => outUnlock err
    | .ok wh => linkLocked o wh r.2

end

/-! ## A pin is taken, or not -/

/-- The pin of the grandparent fails, when the directory is gone or has another parent. -/
def gpFails (udbaNone : Bool) (og : PinIo) : Bool := !og.isRoot && !udbaNone && (og.gone || og.moved)

/-- **The slip of `au_do_pin`**: the hidden directory is there and locked, and then its parent cannot be
    pinned, or it is not the parent any more. -/
def pinFaults (udbaNone doGparent : Bool) (o og : PinIo) : Bool :=
  !o.isRoot && (udbaNone || !o.gone) && ((doGparent && gpFails udbaNone og) || (!udbaNone && o.moved))

/-- The pin is taken. -/
def pinOk (udbaNone doGparent : Bool) (o og : PinIo) : Bool :=
  o.wantWrite == 0 && (o.isRoot ||
    (udbaNone || (!o.gone && !o.moved)) && !(doGparent && gpFails udbaNone og))

section

variable {udbaNone doGparent : Bool} {d : LinkDentry} {o og : PinIo} {held : List LinkRes}

/-- The pin of a grandparent, as `au_pin_init` makes it, and when it is taken. -/
def gpInit (verify : Bool) (d : LinkDentry) : Pin1 := ⟨d, verify, false, false, false, false⟩

/-- What it takes. -/
def gpTaken (og : PinIo) (d : LinkDentry) : List LinkRes :=
  if og.isRoot then [] else [.hDir d.parent, .hDirRef d.parent, .diRead d.parent, .dref d.parent]

theorem gpPin_ok (h : gpFails udbaNone og = false) :
    (auDoPin [(gpInit (!udbaNone) d, og)]).run held =
      some ((0, [{ gpInit (!udbaNone) d with hDir := !og.isRoot }]), gpTaken og d ++ held) := by
  unfold gpFails at h
  unfold auDoPin gpTaken
  cases hroot : og.isRoot with
  | true => simp [gpInit, pinWantWrite]
  | false =>
    cases udbaNone with
    | true => simp [gpInit, pinWantWrite, pinVerify]
    | false =>
      have hgone : og.gone = false := by simp_all
      have hmoved : og.moved = false := by simp_all
      simp [gpInit, pinWantWrite, pinVerify, hgone, hmoved]

theorem gpUnpin_run : (auDoUnpin [{ gpInit (!udbaNone) d with hDir := !og.isRoot }]).run (gpTaken og d ++ held) =
    some ([gpInit (!udbaNone) d], held) := by
  unfold auDoUnpin gpTaken
  cases hroot : og.isRoot with
  | true => simp [gpInit]
  | false => simp [gpInit, auDoUnpin, run_give_tail]

theorem gpPin_fails (h : gpFails udbaNone og = true) :
    (auDoPin [(gpInit (!udbaNone) d, og)]).run held = some ((- EIO, [gpInit (!udbaNone) d]), held) := by
  unfold gpFails at h
  have hroot : og.isRoot = false := by simp_all
  have hudba : udbaNone = false := by simp_all
  unfold auDoPin
  cases hgone : og.gone with
  | true => simp [gpInit, hroot, hudba]
  | false =>
    have hmoved : og.moved = true := by simp_all
    simp [gpInit, hroot, hudba, hmoved, pinVerify, auDoUnpin, run_give_tail, EIO]

/-- What a pin takes. -/
def pinTaken (doGparent : Bool) (d : LinkDentry) (o og : PinIo) : List LinkRes :=
  if o.isRoot then [.mntWrite]
  else .mntWrite :: .hDir d.parent ::
    ((if doGparent then gpTaken og d.parent else []) ++ [.hDirRef d.parent, .dref d.parent])

/-- The pins after `au_pin` has taken them. -/
def pinned (udbaNone doGparent : Bool) (d : LinkDentry) (o og : PinIo) : List Pin1 :=
  [{ (auPinInit udbaNone doGparent d).1 with hDir := !o.isRoot },
    if doGparent && !o.isRoot then { gpInit (!udbaNone) d.parent with hDir := !og.isRoot }
    else (auPinInit udbaNone doGparent d).2]

/-- **A pin is taken.** -/
theorem auPin_ok (hlock : ∃ r ∈ [LinkRes.diWrite d.parent, .diRead d.parent], r ∈ held)
    (h : pinOk udbaNone doGparent o og = true) :
    (auPin udbaNone doGparent d o og).run held =
      some ((0, pinned udbaNone doGparent d o og), pinTaken doGparent d o og ++ held) := by
  have hneed : (needing [LinkRes.diWrite d.parent, .diRead d.parent]).run (.dref d.parent :: held) =
      some ((), .dref d.parent :: held) :=
    run_need (hlock.imp fun r hr => ⟨hr.1, List.mem_cons_of_mem _ hr.2⟩)
  unfold pinOk at h
  have hwant : o.wantWrite = 0 := by simp_all
  unfold auPin auDoPin pinned pinTaken
  cases hroot : o.isRoot with
  | true => simp [auPinInit, hwant, pinWantWrite]
  | false =>
    have hhere : (!udbaNone && o.gone) = false ∧ (!udbaNone && o.moved) = false := by
      cases udbaNone <;> simp_all
    cases doGparent with
    | false => simp [auPinInit, hhere, hwant, hneed, pinVerify, pinWantWrite]
    | true =>
      have hgp : gpFails udbaNone og = false := by simp_all
      have hrun := @gpPin_ok udbaNone d.parent og (.hDirRef d.parent :: .dref d.parent :: held) hgp
      unfold gpInit at hrun
      simp [auPinInit, hhere, hwant, hneed, pinVerify, pinWantWrite, hrun, gpInit]

/-- **What was taken is given back.** -/
theorem auUnpin_run : ∃ pins, (auDoUnpin (pinned udbaNone doGparent d o og)).run
    (pinTaken doGparent d o og ++ held) = some (pins, held) := by
  unfold pinned pinTaken
  unfold auDoUnpin
  cases hroot : o.isRoot with
  | true => simp [auPinInit]
  | false =>
    cases doGparent with
    | false => simp [auPinInit, auDoUnpin]
    | true =>
      have hrun := @gpUnpin_run udbaNone d.parent og (.hDirRef d.parent :: .dref d.parent :: held)
      unfold gpInit at hrun
      simp [auPinInit, gpInit, hrun]

/-- **A pin fails, and nothing is held.** -/
theorem auPin_fails (hlock : ∃ r ∈ [LinkRes.diWrite d.parent, .diRead d.parent], r ∈ held)
    (hok : pinOk udbaNone doGparent o og = false) (h : pinFaults udbaNone doGparent o og = false) :
    ∃ err pins, err ≠ 0 ∧ (auPin udbaNone doGparent d o og).run held = some ((err, pins), held) := by
  have hneed : (needing [LinkRes.diWrite d.parent, .diRead d.parent]).run (.dref d.parent :: held) =
      some ((), .dref d.parent :: held) :=
    run_need (hlock.imp fun r hr => ⟨hr.1, List.mem_cons_of_mem _ hr.2⟩)
  unfold pinOk at hok
  unfold pinFaults at h
  unfold auPin auDoPin
  by_cases hroot : o.isRoot = true
  · have hwant : o.wantWrite ≠ 0 := by simp_all
    refine ⟨o.wantWrite, [{ (auPinInit udbaNone doGparent d).1 with mntWrite := false },
      (auPinInit udbaNone doGparent d).2], hwant, ?_⟩
    simp [auPinInit, hroot, hwant, pinWantWrite]
  · by_cases hgone : (!udbaNone && o.gone) = true
    · refine ⟨- EIO, [(auPinInit udbaNone doGparent d).1, (auPinInit udbaNone doGparent d).2], by decide, ?_⟩
      simp [auPinInit, hroot, hgone, hneed]
    · -- nothing is left to fail but the write access, whose flag is then cleared
      have hmoved : (!udbaNone && o.moved) = false := by cases udbaNone <;> simp_all
      have hgp : (doGparent && gpFails udbaNone og) = false := by cases udbaNone <;> simp_all
      have hwant : o.wantWrite ≠ 0 := by cases udbaNone <;> simp_all
      refine ⟨o.wantWrite, [{ (auPinInit udbaNone doGparent d).1 with mntWrite := false },
        (auPinInit udbaNone doGparent d).2], hwant, ?_⟩
      cases doGparent with
      | false => simp [auPinInit, hroot, hgone, hmoved, hwant, hneed, pinVerify, pinWantWrite, auDoUnpin]
      | true =>
        have hrun := @gpPin_ok udbaNone d.parent og (.hDirRef d.parent :: .dref d.parent :: held) hgp
        unfold gpInit gpTaken at hrun
        cases hog : og.isRoot <;>
          simp [auPinInit, hroot, hgone, hmoved, hwant, hneed, pinVerify, pinWantWrite, hrun, hog, auDoUnpin,
            run_give_tail]

/-- **The slip**: the write access to the mount is given back, and was not taken. -/
theorem auPin_faults (hlock : ∃ r ∈ [LinkRes.diWrite d.parent, .diRead d.parent], r ∈ held)
    (h : pinFaults udbaNone doGparent o og = true) (hmnt : LinkRes.mntWrite ∉ held) :
    (auPin udbaNone doGparent d o og).run held = none := by
  have hneed : (needing [LinkRes.diWrite d.parent, .diRead d.parent]).run (.dref d.parent :: held) =
      some ((), .dref d.parent :: held) :=
    run_need (hlock.imp fun r hr => ⟨hr.1, List.mem_cons_of_mem _ hr.2⟩)
  unfold pinFaults at h
  have hroot : o.isRoot = false := by simp_all
  have hhere : (!udbaNone && o.gone) = false := by cases udbaNone <;> simp_all
  unfold auPin auDoPin
  by_cases hgp : (doGparent && gpFails udbaNone og) = true
  · obtain ⟨rfl, hfails⟩ : doGparent = true ∧ gpFails udbaNone og = true := by simpa using hgp
    have hrun := @gpPin_fails udbaNone d.parent og (.hDirRef d.parent :: .dref d.parent :: held) hfails
    unfold gpInit at hrun
    have hnone : (giving LinkRes.mntWrite).run (.hDir d.parent :: .hDirRef d.parent :: .dref d.parent :: held) =
        none := run_give_none (by simp [hmnt])
    simp [auPinInit, hroot, hhere, hneed, pinVerify, hrun, auDoUnpin, hnone, EIO]
  · obtain ⟨hudba, hmoved⟩ : udbaNone = false ∧ o.moved = true := by simp_all
    subst hudba
    have hgone : o.gone = false := by simpa using hhere
    cases doGparent with
    | false =>
      have hnone : (giving LinkRes.mntWrite).run (.hDir d.parent :: .hDirRef d.parent :: .dref d.parent :: held) =
          none := run_give_none (by simp [hmnt])
      simp [auPinInit, hroot, hgone, hmoved, hneed, pinVerify, auDoUnpin, hnone, EIO]
    | true =>
      have hfails : gpFails false og = false := by simpa using hgp
      have hrun := @gpPin_ok false d.parent og (.hDirRef d.parent :: .dref d.parent :: held) hfails
      simp only [gpInit, Bool.not_false] at hrun
      have hnone : (giving LinkRes.mntWrite).run
          (.hDir d.parent :: (gpTaken og d.parent ++ .hDirRef d.parent :: .dref d.parent :: held)) = none := by
        apply run_give_none
        unfold gpTaken
        split <;> simp [hmnt]
      simp [auPinInit, hroot, hgone, hmoved, hneed, pinVerify, hrun, auDoUnpin, hnone, EIO]

/-- A pin that is taken did not slip. -/
theorem pinFaults_of_ok (h : pinOk udbaNone doGparent o og = true) : pinFaults udbaNone doGparent o og = false := by
  unfold pinOk at h
  unfold pinFaults
  cases udbaNone <;> cases doGparent <;> cases hroot : o.isRoot <;> simp_all

end

/-! ## The exits of link(2) -/

/-- What is held besides the parent's lock: the whiteout, if there is one, and what `aufs_link` takes first. -/
def linkBase (wh : Bool) : List LinkRes :=
  (if wh then [.whDentry] else []) ++
    [.dref .srcParent, .diWrite .src, .diWrite .dst, .siRead, .args]

theorem mntWrite_not_linkBase (wh : Bool) : LinkRes.mntWrite ∉ linkBase wh := by cases wh <;> decide
theorem diWrite_not_linkBase (wh : Bool) : LinkRes.diWrite .dstParent ∉ linkBase wh := by cases wh <;> decide

section

variable {o : LinkIo} {wh : Bool} {err : Int}

theorem outWh_run : (outWh wh err).run (.diWrite .dstParent :: linkBase wh) = some (err, []) := by
  cases wh <;> rfl

/-- From where the pin is taken, everything is given back. -/
theorem outUnpin_run {udbaNone doGparent : Bool} {d : LinkDentry} {p pg : PinIo} :
    (outUnpin wh (pinned udbaNone doGparent d p pg) err).run
      (pinTaken doGparent d p pg ++ .diWrite .dstParent :: linkBase wh) = some (err, []) := by
  obtain ⟨pins, hunpin⟩ :=
    @auUnpin_run udbaNone doGparent d p pg (.diWrite .dstParent :: linkBase wh)
  unfold outUnpin
  rw [run_bind, hunpin]
  exact outWh_run

theorem afterLink_run {udbaNone doGparent : Bool} {d : LinkDentry} {p pg : PinIo} :
    ∃ err', (afterLink o wh (pinned udbaNone doGparent d p pg) err).run
      (pinTaken doGparent d p pg ++ .diWrite .dstParent :: linkBase wh) = some (err', []) := by
  unfold afterLink
  split
  · exact ⟨_, outUnpin_run⟩
  · split
    · exact ⟨_, outUnpin_run⟩
    · exact ⟨_, outUnpin_run⟩

theorem auDoUnpin_taken (pins : List Pin1) : (auDoUnpin pins).taken = [] := by
  induction pins with
  | nil => rfl
  | cons p gp ih =>
    unfold auDoUnpin
    cases p.mntWrite <;> cases p.hDir <;> cases p.diLocked <;> simp [ih]

/-- **The exit of those who hold the lock on the parent goes wrong without it**, whatever is left of the pin. -/
theorem outUnpin_unlocked (pins : List Pin1) {held : List LinkRes} (h : LinkRes.diWrite .dstParent ∉ held) :
    (outUnpin wh pins err).run held = none := by
  apply run_eq_none h
  · unfold outUnpin outWh outUnlock
    cases wh <;> simp [auDoUnpin_taken]
  · unfold outUnpin outWh outUnlock
    cases wh <;> simp

/-! ## The copy-up before the link -/

/-- The directory of the source is on the branch, or is copied there. -/
def dirsOk (o : LinkIo) : Bool := o.hasDir || o.hasDirNow || o.cpupDirs == 0

/-- The source is copied up. -/
def cpupOk (o : LinkIo) : Bool :=
  dirsOk o && pinOk o.udbaNone o.hinotify o.srcPin o.srcPinGp && o.cpupSimple == 0

theorem auTestAndCpupDirs_run {held : List LinkRes} :
    ∃ err, (auTestAndCpupDirs o).run (.diRead .srcParent :: held) = some (err, .diRead .srcParent :: held) ∧
      (err = 0 ↔ dirsOk o = true) := by
  have hneed : ∀ l, (needing [LinkRes.diRead .srcParent]).run (.dref .srcParent :: .diRead .srcParent :: l) =
      some ((), .dref .srcParent :: .diRead .srcParent :: l) := fun l => run_need (by simp)
  unfold auTestAndCpupDirs dirsOk
  cases hdir : o.hasDir with
  | true => exact ⟨0, by simp [hneed], by simp⟩
  | false =>
    refine ⟨if o.hasDirNow then 0 else o.cpupDirs, by simp [hneed, run_give_tail], ?_⟩
    cases o.hasDirNow <;> simp

/-- The copy-up leaves what was held, if its pin does not slip. -/
theorem auCpupBeforeLink_run {pins : List Pin1} {held : List LinkRes}
    (h : (dirsOk o && pinFaults o.udbaNone o.hinotify o.srcPin o.srcPinGp) = false) :
    ∃ r, (auCpupBeforeLink o pins).run held = some (r, held) ∧ (r.1 = 0 ↔ cpupOk o = true) := by
  obtain ⟨err, hdirs, hzero⟩ := @auTestAndCpupDirs_run o held
  have hlock : ∃ r ∈ [LinkRes.diWrite LinkDentry.src.parent, .diRead LinkDentry.src.parent],
      r ∈ LinkRes.diRead .srcParent :: held := ⟨.diRead .srcParent, by simp [LinkDentry.parent], by simp⟩
  unfold auCpupBeforeLink cpupOk
  simp only [run_bind, run_taking, Option.bind_some, hdirs]
  by_cases herr : err = 0
  · have hok : dirsOk o = true := hzero.mp herr
    rw [if_neg (fun h => h herr)]
    cases hpin : pinOk o.udbaNone o.hinotify o.srcPin o.srcPinGp with
    | true =>
      obtain ⟨pins', hunpin⟩ := @auUnpin_run o.udbaNone o.hinotify .src o.srcPin o.srcPinGp
        (.diRead .srcParent :: held)
      refine ⟨(o.cpupSimple, pins'), ?_, by simp [hok]⟩
      simp [auPin_ok hlock hpin, hunpin]
    | false =>
      have hfaults : pinFaults o.udbaNone o.hinotify o.srcPin o.srcPinGp = false := by simpa [hok] using h
      obtain ⟨e, pins', hne, hrun⟩ := auPin_fails hlock hpin hfaults
      exact ⟨(e, pins'), by simp [hrun, hne], by simp [hne]⟩
  · have hbad : dirsOk o = false := by
      rw [← Bool.not_eq_true]
      exact fun h => herr (hzero.mpr h)
    rw [if_pos herr]
    exact ⟨(err, pins), by simp, by simp [herr, hbad]⟩

/-- With a slip it goes wrong. -/
theorem auCpupBeforeLink_faults {pins : List Pin1} {held : List LinkRes} (hmnt : LinkRes.mntWrite ∉ held)
    (h : (dirsOk o && pinFaults o.udbaNone o.hinotify o.srcPin o.srcPinGp) = true) :
    (auCpupBeforeLink o pins).run held = none := by
  obtain ⟨hok, hfaults⟩ := (Bool.and_eq_true _ _).mp h
  obtain ⟨err, hdirs, hzero⟩ := @auTestAndCpupDirs_run o held
  have hlock : ∃ r ∈ [LinkRes.diWrite LinkDentry.src.parent, .diRead LinkDentry.src.parent],
      r ∈ LinkRes.diRead .srcParent :: held := ⟨.diRead .srcParent, by simp [LinkDentry.parent], by simp⟩
  unfold auCpupBeforeLink
  simp only [run_bind, run_taking, Option.bind_some, hdirs]
  rw [if_neg (fun h => h (hzero.mpr hok)), run_bind, auPin_faults hlock hfaults (by simp [hmnt])]
  rfl

/-! ## The pin of the new entry -/

/-- The new entry is pinned, may be added, and its whiteout is looked up. -/
def entryLocked (o : LinkIo) : Bool :=
  pinOk o.udbaNone o.hinotify o.pin o.pinGp && !addRefused o &&
    (!o.dbwhThere || o.whLkup == 0)

theorem dstLock (wh : Bool) : ∃ r ∈ [LinkRes.diWrite LinkDentry.dst.parent, .diRead LinkDentry.dst.parent],
    r ∈ LinkRes.diWrite .dstParent :: linkBase wh :=
  ⟨.diWrite .dstParent, by simp [LinkDentry.parent], by simp⟩

theorem mntWrite_not_locked (wh : Bool) : LinkRes.mntWrite ∉ LinkRes.diWrite .dstParent :: linkBase wh := by
  cases wh <;> decide

/-- It goes well, and what is held is the pin, the whiteout and what was held before. -/
theorem lockHdirLkupWh_locked (hwr : ¬ o.wrDir < 0) (h : entryLocked o = true) :
    ∃ held, (lockHdirLkupWh o).run (.diWrite .dstParent :: linkBase false) =
        some ((.ok o.dbwhThere, pinned o.udbaNone o.hinotify .dst o.pin o.pinGp), held) ∧
      held.Perm (pinTaken o.hinotify .dst o.pin o.pinGp ++ .diWrite .dstParent :: linkBase o.dbwhThere) := by
  unfold entryLocked at h
  have hpin : pinOk o.udbaNone o.hinotify o.pin o.pinGp = true := by simp_all
  have hadd : addRefused o = false := by simp_all
  unfold lockHdirLkupWh
  rw [if_neg hwr]
  simp only [run_bind, auPin_ok (dstLock false) hpin, Option.bind_some, ne_eq, not_true_eq_false, ↓reduceIte]
  rw [if_neg (by rw [hadd]; exact Bool.false_ne_true)]
  cases hwh : o.dbwhThere with
  | false => exact ⟨_, rfl, List.Perm.refl _⟩
  | true =>
    have hlkup : o.whLkup = 0 := by simp_all
    refine ⟨_, by simp [hlkup]; rfl, ?_⟩
    unfold linkBase
    rw [List.perm_iff_count]
    intro a
    simp [List.count_append, List.count_cons]
    omega

/-- It fails, and nothing is held but what was held before. -/
theorem lockHdirLkupWh_fails (h : o.wrDir < 0 ∨ (entryLocked o = false ∧
      pinFaults o.udbaNone o.hinotify o.pin o.pinGp = false)) :
    ∃ err pins, (lockHdirLkupWh o).run (.diWrite .dstParent :: linkBase false) =
      some ((.error err, pins), .diWrite .dstParent :: linkBase false) := by
  unfold lockHdirLkupWh
  by_cases hwr : o.wrDir < 0
  · rw [if_pos hwr]
    exact ⟨_, _, rfl⟩
  · obtain ⟨hentry, hfaults⟩ := h.resolve_left hwr
    unfold entryLocked at hentry
    rw [if_neg hwr]
    cases hpin : pinOk o.udbaNone o.hinotify o.pin o.pinGp with
    | false =>
      obtain ⟨e, pins, hne, hrun⟩ := auPin_fails (dstLock false) hpin hfaults
      exact ⟨e, pins, by simp [hrun, hne]⟩
    | true =>
      obtain ⟨pins, hunpin⟩ := @auUnpin_run o.udbaNone o.hinotify .dst o.pin o.pinGp
        (.diWrite .dstParent :: linkBase false)
      simp only [run_bind, auPin_ok (dstLock false) hpin, Option.bind_some, ne_eq, not_true_eq_false, ↓reduceIte]
      by_cases hadd : addRefused o = true
      · rw [if_pos hadd]
        exact ⟨o.mayAdd, pins, by simp [hunpin]⟩
      · rw [if_neg hadd]
        have hwh : o.dbwhThere = true := by simp_all
        have hlkup : o.whLkup ≠ 0 := by simp_all
        exact ⟨o.whLkup, pins, by simp [hwh, hlkup, hunpin]⟩

/-- With a slip it goes wrong. -/
theorem lockHdirLkupWh_faults (hwr : ¬ o.wrDir < 0) (h : pinFaults o.udbaNone o.hinotify o.pin o.pinGp = true) :
    (lockHdirLkupWh o).run (.diWrite .dstParent :: linkBase false) = none := by
  unfold lockHdirLkupWh
  rw [if_neg hwr, run_bind, auPin_faults (dstLock false) h (mntWrite_not_locked false)]
  rfl

/-! ## link(2) as a whole -/

/-- **When link(2) gives everything back once, and only while it is held**: no pin slips, and, without
    pseudo-links and with the source on a lower branch, the copy-up before the link succeeds. -/
def LinkSafe (o : LinkIo) : Prop :=
  o.nomem = true ∨ o.wrDir < 0 ∨
    (pinFaults o.udbaNone o.hinotify o.pin o.pinGp = false ∧
      (entryLocked o = true → o.plink = false → o.below = true →
        cpupOk o = true ∧ pinFaults o.udbaNone o.hinotify o.rePin o.rePinGp = false))

instance (o : LinkIo) : Decidable (LinkSafe o) := inferInstanceAs (Decidable (_ ∨ _))

/-- The link, from where the pin is taken. -/
theorem linkLocked_keeps_iff (o : LinkIo) (wh : Bool) (p pg : PinIo) :
    (∃ err, (linkLocked o wh (pinned o.udbaNone o.hinotify .dst p pg)).run
        (pinTaken o.hinotify .dst p pg ++ .diWrite .dstParent :: linkBase wh) = some (err, [])) ↔
      (o.plink = false → o.below = true →
        cpupOk o = true ∧ pinFaults o.udbaNone o.hinotify o.rePin o.rePinGp = false) := by
  unfold linkLocked
  cases hplink : o.plink with
  | true =>
    refine ⟨fun _ h => absurd h (by decide), fun _ => ?_⟩
    cases hbelow : o.below with
    | false =>
      simp only [Bool.false_eq_true, ↓reduceIte, run_bind, run_pure, Option.bind_some]
      exact afterLink_run
    | true =>
      -- the reference on the hidden dentry and the lock of its inode come and go
      have hcpup : ∀ held, ∃ err, (auCpupOrLink o).run held = some (err, held) := by
        intro held
        unfold auCpupOrLink
        split
        · exact ⟨_, rfl⟩
        · split
          · exact ⟨_, rfl⟩
          · exact ⟨_, rfl⟩
      obtain ⟨err, herr⟩ := hcpup (pinTaken o.hinotify .dst p pg ++ .diWrite .dstParent :: linkBase wh)
      simp only [↓reduceIte, run_bind, herr, Option.bind_some]
      exact afterLink_run
  | false =>
    cases hbelow : o.below with
    | false =>
      refine ⟨fun _ _ h => absurd h (by decide), fun _ => ?_⟩
      exact afterLink_run
    | true =>
      obtain ⟨pins, hunpin⟩ := @auUnpin_run o.udbaNone o.hinotify .dst p pg (.diWrite .dstParent :: linkBase wh)
      simp only [Bool.false_eq_true, ↓reduceIte, run_bind, hunpin, Option.bind_some, run_give_head,
        forall_const]
      cases hslip : dirsOk o && pinFaults o.udbaNone o.hinotify o.srcPin o.srcPinGp with
      | true =>
        have hbad : cpupOk o = false := by
          unfold cpupOk
          obtain ⟨hdirs, hfaults⟩ := (Bool.and_eq_true _ _).mp hslip
          cases hpin : pinOk o.udbaNone o.hinotify o.srcPin o.srcPinGp with
          | false => simp
          | true => exact absurd ((pinFaults_of_ok hpin).symm.trans hfaults) (by decide)
        rw [auCpupBeforeLink_faults (mntWrite_not_linkBase wh) hslip]
        simp [hbad]
      | false =>
        obtain ⟨r, hrun, hzero⟩ := @auCpupBeforeLink_run o pins (linkBase wh) hslip
        rw [hrun, Option.bind_some]
        by_cases herr : r.1 = 0
        · rw [if_neg (fun h => h herr)]
          simp only [run_bind, run_taking, Option.bind_some, hzero.mp herr, true_and]
          cases hfaults : pinFaults o.udbaNone o.hinotify o.rePin o.rePinGp with
          | true =>
            rw [auPin_faults (dstLock wh) hfaults (mntWrite_not_locked wh)]
            simp
          | false =>
            refine ⟨fun _ => rfl, fun _ => ?_⟩
            cases hpin : pinOk o.udbaNone o.hinotify o.rePin o.rePinGp with
            | true =>
              simp only [auPin_ok (dstLock wh) hpin, Option.bind_some, ne_eq, not_true_eq_false, ↓reduceIte]
              exact afterLink_run
            | false =>
              obtain ⟨e, pins', hne, hrun'⟩ := auPin_fails (dstLock wh) hpin hfaults
              rw [hrun', Option.bind_some, if_pos hne]
              exact ⟨e, outWh_run⟩
        · -- the lock on the parent is not held any more
          have hbad : cpupOk o = false := by
            rw [← Bool.not_eq_true]
            exact fun h => herr (hzero.mpr h)
          rw [if_pos herr, outUnpin_unlocked r.2 (diWrite_not_linkBase wh)]
          simp [hbad]

/-- **link(2) gives everything back once, and only while it is held, iff `LinkSafe`.** -/
theorem aufsLink_keeps_iff (o : LinkIo) : (∃ err, (aufsLink o).run [] = some (err, [])) ↔ LinkSafe o := by
  have hlocks : linkBase false = [.dref .srcParent, .diWrite .src, .diWrite .dst, .siRead, .args] := rfl
  unfold aufsLink LinkSafe
  by_cases hmem : o.nomem = true
  · rw [if_pos hmem]
    exact ⟨fun _ => Or.inl hmem, fun _ => ⟨- ENOMEM, rfl⟩⟩
  · rw [if_neg hmem]
    simp only [run_bind, run_taking, Option.bind_some, ← hlocks]
    by_cases hwr : o.wrDir < 0
    · obtain ⟨err, pins, hrun⟩ := @lockHdirLkupWh_fails o (Or.inl hwr)
      rw [hrun]
      exact ⟨fun _ => Or.inr (Or.inl hwr), fun _ => ⟨err, rfl⟩⟩
    · cases hfaults : pinFaults o.udbaNone o.hinotify o.pin o.pinGp with
      | true =>
        rw [lockHdirLkupWh_faults hwr hfaults]
        simp [hmem, hwr]
      | false =>
        cases hentry : entryLocked o with
        | false =>
          obtain ⟨err, pins, hrun⟩ := @lockHdirLkupWh_fails o (Or.inr ⟨hentry, hfaults⟩)
          rw [hrun]
          refine ⟨fun _ => Or.inr (Or.inr ⟨rfl, fun h => absurd h (by decide)⟩), fun _ => ⟨err, rfl⟩⟩
        | true =>
          obtain ⟨held, hrun, hperm⟩ := lockHdirLkupWh_locked hwr hentry
          have hkeeps := linkLocked_keeps_iff o o.dbwhThere o.pin o.pinGp
          rw [hrun, Option.bind_some]
          constructor
          · rintro ⟨err, h⟩
            exact Or.inr (Or.inr ⟨rfl, fun _ => hkeeps.mp ⟨err, run_perm_nil hperm h⟩⟩)
          · rintro (h | h | ⟨-, h⟩)
            · exact absurd h hmem
            · exact absurd h hwr
            · obtain ⟨err, herr⟩ := hkeeps.mpr (h rfl)
              exact ⟨err, run_perm_nil hperm.symm herr⟩

end

/-! ## Two runs -/

/-- Everything goes well, without pseudo-links and with the source on a lower branch. -/
def copiedUp : LinkIo where
  nomem := false
  udbaNone := false
  hinotify := false
  plink := false
  wrDir := 0
  pin := ⟨false, false, false, 0⟩
  pinGp := ⟨true, false, false, 0⟩
  startsThere := true
  mayAdd := 0
  dbwhThere := false
  whLkup := 0
  below := true
  noHInode := true
  hAlias := false
  cpupSingle := 0
  hasDir := false
  hasDirNow := false
  cpupDirs := 0
  srcPin := ⟨false, false, false, 0⟩
  srcPinGp := ⟨true, false, false, 0⟩
  cpupSimple := 0
  rePin := ⟨false, false, false, 0⟩
  rePinGp := ⟨true, false, false, 0⟩
  vfsLink := 0
  whUnlink := 0
  revert := 0

/-- **The directory of the source cannot be copied up**, for want of space say: the pin is given back a second
    time, and the lock on the parent is not held when it is unlocked. -/
theorem copy_up_fails : ¬ ∃ err, (aufsLink { copiedUp with cpupDirs := -28 }).run [] = some (err, []) := by
  rintro ⟨err, h⟩
  have hnone : (aufsLink { copiedUp with cpupDirs := -28 }).run [] = none := by decide +kernel
  rw [hnone] at h
  cases h

end KernelPatches.Aufs.LinkLocks
