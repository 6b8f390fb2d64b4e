/-
  aufs: `unlink` and `rmdir`.

  To remove a name from the union its topmost hidden entry is removed, and if the name would still be
  there, on a lower branch, or if the branch of the entry cannot be written, a WHITEOUT is made.

  * `auWrDirNeedWh`     — which branch is written to, and whether a whiteout is necessary: for the entry's
                          own branch the name is looked up again below it, with the same `au_dinfo`;
  * `lockHdirCreateWh`  — makes the whiteout;
  * `renwhAndRmdir`     — renames a directory to a temporary name that is never looked up;
  * `doRevert`          — takes the whiteout away again, when the entry could not be removed;
  * `aufsUnlink`, `aufsRmdir`.

  The branches' directories are those of the `au_dinfo` of the parent.  The lower file systems answer
  requests through `io`, a negative answer being an error.  `none` is a call that does not come back: a
  null pointer, memory outside of an array, or `BUG()`.
-/
import KernelPatches.Aufs.Cpup
import KernelPatches.Aufs.WbrPolicy

namespace KernelPatches.Aufs

def EISDIR : Int := 21
def ENOTDIR : Int := 20
def EACCES : Int := 13
def EMLINK : Int := 31

/-- DNAME_INLINE_LEN_MIN -/
def dnameInlineLenMin : Nat := 36

/-! ## State -/

/-- AuWbrCopyup_* -/
inductive WbrCopyup where
  | tdp
  | bup
  | bu
  deriving DecidableEq, Repr

/-- What does not change in a call: the union and what its policies ask, the mount options, the mode of
    the inode and on which branches its hidden inode is immutable, the copy-ups to come, which branches have
    a whiteout to link to, the hidden inodes of the parent's inode, whether the dentry has one user, whether
    a renamed directory is removed later, and what `au_test_empty` finds. -/
structure RmEnv where
  union : UnionSb
  wbr : WbrEnv
  wbrCopyup : WbrCopyup
  shwh : Bool
  udbaNone : Bool
  mode : Nat
  immutable : Nat → Bool
  cpup : Nat → CpupEnv
  whbase : Nat → Bool
  dir : IInfo
  dCountOne : Bool
  rmdirLater : Bool
  testEmpty : Int

/-- The name and its dentry, the parent with its name and the directories above, the answers to come, and
    the counter of the temporary names. -/
structure RmState where
  name : Name
  d : Dinfo
  parentName : Name
  parent : Dinfo
  above : List (Name × Dinfo)
  io : List Int
  cnt : Nat

/-- The permissions of the branches and the mount options, for lookups. -/
def RmEnv.stack (env : RmEnv) : Stack where
  siBend := env.union.siBend.toNat
  brPerm b := ((env.union.siBranch.getD b none).map AuBranch.brPerm).getD .ro
  shwh := env.shwh
  udbaNone := env.udbaNone

/-- The entries of the parent's directory on branch `b` are changed. -/
def RmState.changeDir (s : RmState) (b : Nat) (f : List (Name × HInode) → List (Name × HInode)) : RmState :=
  { s with parent := s.parent.changeDir b f }

/-- The entries without those of a name. -/
def eraseName (name : Name) (entries : List (Name × HInode)) : List (Name × HInode) :=
  entries.filter fun e => e.1 ≠ name

/-- A new empty regular file. -/
def newFile : HInode := .mk 0 sIfreg [] fun _ => 0

section

variable (env : RmEnv)

/-! ## Which branch -/

/-- `au_test_ro`, of the inode that is removed. -/
def auTestRo (bindex : Nat) : Option Bool :=
  match sbrRdonly env.wbr env.union bindex with
  | .error _ => none
  | .ok rdonly => some (rdonly || env.immutable bindex)

/-- The loop of `au_wbr_copyup_bup`, over `n` branches from `bindex` upwards. -/
def copyupBupFrom (parent : Dinfo) : Nat → Nat → Option Int
  | 0, _ => some (-EROFS)
  | n + 1, bindex =>
    if !hasHDir parent bindex then copyupBupFrom parent n (bindex - 1)
    else
      match sbrRdonly env.wbr env.union bindex with
      | .error _ => none
      | .ok rdonly =>
        if !rdonly && (!env.wbr.dirperm1 || env.wbr.hPerm bindex != 0) then some bindex
        else copyupBupFrom parent n (bindex - 1)

/-- `AuWbrCopyup` -/
def auWbrCopyup (d parent : Dinfo) : Option Int :=
  match env.wbrCopyup with
  | .tdp => (auWbrCreateTdp env.wbr env.union d parent).toOption
  | .bup =>
    match copyupBupFrom env parent (d.diBstart + 1 - parent.diBstart).toNat d.diBstart.toNat with
    | none => none
    | some err =>
      if err < 0 then (auWbrBu env.wbr env.union parent.diBstart.toNat).toOption else some err
  | .bu => (auWbrBu env.wbr env.union (d.diBstart.toNat + 1)).toOption

/-- The branch that is written to: the entry's own one, or the one to copy up to. -/
def rmTarget (d parent : Dinfo) : Option Int :=
  match auTestRo env d.diBstart.toNat with
  | none => none
  | some false => some d.diBstart
  | some true => auWbrCopyup env d parent

/-- The second lookup of `au_wr_dir_need_wh`, from the branch below the entry on. -/
def lkupBelow (isdir : Bool) (s : RmState) : Except Int Nat × Dinfo :=
  let r := auLkupDentry env.stack s.parent (some env.mode) s.name (s.d.diBstart.toNat + 1) 0
    (if isdir then { s.d with diBdiropq := -1 } else s.d)
  (r.1, if isdir then { r.2 with diBdiropq := s.d.diBdiropq } else r.2)

/-- `au_wr_dir_need_wh`, with `*bcpup` or -1 for it: whether a whiteout is necessary or the error, and the
    branch. -/
def auWrDirNeedWh (isdir : Bool) (bcpup : Int) (s : RmState) : Option (Int × Int × RmState) :=
  let target := if bcpup < 0 then rmTarget env s.d s.parent else some bcpup
  match target with
  | none => none
  | some bcpup =>
    if bcpup < 0 then some (bcpup, bcpup, s)
    else if bcpup ≠ s.d.diBstart then
      match auCpupDirs env.cpup bcpup.toNat ((s.parentName, s.parent) :: s.above) s.io with
      | some (err, (_, parent) :: above, io) =>
        some (if err ≠ 0 then err else 1, bcpup, { s with parent := parent, above := above, io := io })
      | _ => none
    else
      let r := lkupBelow env isdir s
      match r.1 with
      | .error err => some (err, bcpup, { s with d := r.2 })
      | .ok needWh =>
        let d := if needWh = 0 ∧ r.2.diBend ≠ s.d.diBend then
            { r.2.setHDptr r.2.diBend.toNat none with diBend := s.d.diBend }
          else r.2
        some (needWh, bcpup, { s with d := d })

/-! ## The whiteout -/

/-- `au_may_del` -/
def auMayDel (isdir : Bool) (bindex : Nat) (hParent : HDentry) (s : RmState) : Option (Int × List Int) :=
  match s.d.hDptr bindex with
  | none => none
  | some hDentry =>
    match hDentry.inode with
    | none => some (-ENOENT, s.io)
    | some hInode =>
      if !isdir ∧ hInode.mode = sIfdir then some (-EISDIR, s.io)
      else if isdir ∧ hInode.mode ≠ sIfdir then some (-ENOTDIR, s.io)
      else if hDentry.mnt ≠ hParent.mnt ∨ hDentry.path.tail ≠ hParent.path then some (-ENOENT, s.io)
      else
        let perm := ask s.io
        if perm.1 ≠ 0 then some (-EACCES, perm.2)
        else
          match hParent.inode with
          | none => none
          | some dir =>
            match auSioLkupOne s.name hParent dir with
            | .error _ => some (- EIO, perm.2)
            | .ok hLatest =>
              some (if hLatest.mnt = hDentry.mnt ∧ hLatest.path = hDentry.path then 0 else - EIO, perm.2)

/-- `link_or_create_wh`: a link to the branch's whiteout, or a new file where there is none or it has too
    many links. -/
def linkOrCreateWh (bindex : Nat) (io : List Int) : Int × List Int :=
  if env.whbase bindex then
    let l := ask io
    if l.1 ≠ -EMLINK then l else ask l.2
  else ask io

/-- `au_wh_create`: the error, and whether the whiteout was made now or has been there. -/
def auWhCreate (bindex : Nat) (hParent : HDentry) (s : RmState) : Option (Except Int Bool × RmState) :=
  match hParent.inode with
  | none => none
  | some dir =>
    if pathMax - whPfx.length < s.name.length then some (.error (-ENAMETOOLONG), s)
    else
      match auLkupOne (whPfx ++ s.name) hParent dir with
      | .error err => some (.error err, s)
      | .ok whDentry =>
        if whDentry.inode.isSome then some (.ok false, s)
        else
          let l := linkOrCreateWh env bindex s.io
          if l.1 ≠ 0 then some (.error l.1, { s with io := l.2 })
          else
            let s := { s with io := l.2, d := { s.d with diBwh := bindex } }
            some (.ok true, s.changeDir bindex ((whPfx ++ s.name, newFile) :: ·))

/-- `lock_hdir_create_wh`: the error, or the whiteout if one was necessary, and whether it was made now. -/
def lockHdirCreateWh (isdir : Bool) (s : RmState) : Option (Except Int (Option Bool) × Int × RmState) :=
  match auWrDirNeedWh env isdir (-1) s with
  | none => none
  | some (needWh, bcpup, s) =>
    if needWh < 0 then some (.error needWh, bcpup, s)
    else
      -- au_pin
      let pin := ask s.io
      let s := { s with io := pin.2 }
      if pin.1 ≠ 0 then some (.error pin.1, bcpup, s)
      else
        match s.parent.hDptr bcpup.toNat with
        | none => none
        | some hParent =>
          let may :=
            if !env.udbaNone ∧ s.d.diBstart = bcpup then auMayDel isdir bcpup.toNat hParent s
            else some (0, s.io)
          match may with
          | none => none
          | some (err, io) =>
            let s := { s with io := io }
            if err ≠ 0 then some (.error err, bcpup, s)
            else if needWh = 0 then some (.ok none, bcpup, s)
            else
              match auWhCreate env bcpup.toNat hParent s with
              | none => none
              | some (.error err, s) => some (.error err, bcpup, s)
              | some (.ok created, s) => some (.ok (some created), bcpup, s)

/-- `do_revert`, the whiteout being on branch `bindex` and `bwh` the old index.  The hidden directory is
    that of `bwh`: `vfs_unlink` is stopped by a `BUG_ON` if it is not the one the whiteout is in. -/
def doRevert (bwh : Int) (bindex : Nat) (s : RmState) : Option (Int × RmState) :=
  if bwh < 0 then none
  else
    match (env.dir.iiHinode bwh.toNat).hiInode with
    | none => none
    | some hDir =>
      if (env.dir.iiHinode bindex).hiInode ≠ some hDir then none
      else
        let r := ask s.io
        let s := { s with io := r.2 }
        if r.1 ≠ 0 then some (- EIO, s)
        else
          some (0, { s with d := { s.d with diBwh := bwh } }.changeDir bindex (eraseName (whPfx ++ s.name)))

/-- The whiteout is reverted after the error `err`. -/
def revertWh (bwh : Int) (bindex : Nat) (err : Int) (s : RmState) : Option (Int × RmState) :=
  match doRevert env bwh bindex s with
  | none => none
  | some (rerr, s) => some (if rerr ≠ 0 then rerr else err, s)

/-! ## The entry -/

/-- The name `au_whtmp_lkup` tries: doubly whited out, with four digits of the counter. -/
def whtmpName (name : Name) (cnt : Nat) : Name :=
  whPfx ++ whPfx ++ name ++ [46, 48, 48 + UInt8.ofNat (cnt / 100 % 10), 48 + UInt8.ofNat (cnt / 10 % 10),
    48 + UInt8.ofNat (cnt % 10)]

/-- The loop of `au_whtmp_lkup`.  There is no fourth try. -/
def whtmpTry (hParent : HDentry) (dir : HInode) (name : Name) : Nat → Nat → Option (Except Int Name × Nat)
  | 0, _ => none
  | n + 1, cnt =>
    match auSioLkupOne (whtmpName name cnt) hParent dir with
    | .error err => some (.error err, (cnt + 1) % 256)
    | .ok hDentry =>
      if hDentry.inode.isNone then some (.ok (whtmpName name cnt), (cnt + 1) % 256)
      else whtmpTry hParent dir name n ((cnt + 1) % 256)

/-- `au_whtmp_lkup` -/
def auWhtmpLkup (hParent : HDentry) (dir : HInode) (s : RmState) : Option (Except Int Name × RmState) :=
  let long := dnameInlineLenMin < s.name.length
  if long ∧ pathMax ≤ s.name.length + 13 then some (.error (-ENAMETOOLONG), s)
  else
    let mem := if long then ask s.io else (0, s.io)
    let s := { s with io := mem.2 }
    if mem.1 ≠ 0 then some (.error negENOMEM, s)
    else
      match whtmpTry hParent dir s.name 3 s.cnt with
      | none => none
      | some (r, cnt) => some (r, { s with cnt := cnt })

/-- An entry gets another name. -/
def renameEntry (name newName : Name) (entries : List (Name × HInode)) : List (Name × HInode) :=
  (entries.lookup name).toList.map (newName, ·) ++ eraseName name entries

/-- `au_whtmp_ren`: the error, or the temporary name. -/
def auWhtmpRen (bindex : Nat) (s : RmState) : Option (Except Int Name × RmState) :=
  match s.parent.hDptr bindex with
  | none => none
  | some hParent =>
    match hParent.inode with
    | none => none
    | some dir =>
      match auWhtmpLkup hParent dir s with
      | none => none
      | some (.error err, s) => some (.error err, s)
      | some (.ok tmp, s) =>
        let r := ask s.io
        let s := { s with io := r.2 }
        if r.1 ≠ 0 then some (.error r.1, s)
        else some (.ok tmp, s.changeDir bindex (renameEntry s.name tmp))

/-- `renwh_and_rmdir`, an error of removing the renamed directory being ignored. -/
def renwhAndRmdir (bindex : Nat) (s : RmState) : Option (Int × RmState) :=
  match auWhtmpRen bindex s with
  | none => none
  | some (.error err, s) => some (err, s)
  | some (.ok tmp, s) =>
    if env.rmdirLater then some (1, s)
    else
      let r := ask s.io
      let s := { s with io := r.2 }
      some (0, if r.1 = 0 then s.changeDir bindex (eraseName tmp) else s)

/-- The hidden entry of `bstart` is removed: by `vfsub_unlink`, or `renwh_and_rmdir` for a directory. -/
def removeHidden (isdir : Bool) (bstart : Nat) (s : RmState) : Option (Int × RmState) :=
  if isdir then
    match renwhAndRmdir env bstart s with
    | none => none
    | some (err, s) => some (if 0 < err then 0 else err, s)
  else
    let r := ask s.io
    let s := { s with io := r.2 }
    if r.1 ≠ 0 then some (r.1, s) else some (0, s.changeDir bstart (eraseName s.name))

/-- `epilog` -/
def epilog (s : RmState) : RmState :=
  if env.dCountOne then { s with d := auUpdateDbstart (s.d.setHDptr s.d.diBstart.toNat none) } else s

/-- What `aufs_unlink` and `aufs_rmdir` have in common. -/
def auRemove (isdir : Bool) (s : RmState) : Option (Int × RmState) :=
  let bstart := s.d.diBstart
  let bwh := s.d.diBwh
  match lockHdirCreateWh env isdir s with
  | none => none
  | some (.error err, _, s) => some (err, s)
  | some (.ok wh, bindex, s) =>
    let removed := if bindex = bstart then removeHidden env isdir bstart.toNat s else some (0, s)
    match removed with
    | none => none
    | some (err, s) =>
      if err = 0 then
        let s := if isdir then { s with d := { s.d with diBdiropq := -1 } } else s
        some (0, epilog env s)
      else if wh.isSome then revertWh env bwh bindex.toNat err s
      else some (err, s)

/-- `aufs_unlink` -/
def aufsUnlink (s : RmState) : Option (Int × RmState) := auRemove env false s

/-- `aufs_rmdir`: two allocations, and `au_test_empty`. -/
def aufsRmdir (s : RmState) : Option (Int × RmState) :=
  let whlist := ask s.io
  let args := ask whlist.2
  if whlist.1 ≠ 0 then some (negENOMEM, { s with io := whlist.2 })
  else if args.1 ≠ 0 then some (negENOMEM, { s with io := args.2 })
  else if env.testEmpty ≠ 0 then some (env.testEmpty, { s with io := args.2 })
  else auRemove env true { s with io := args.2 }

end

end KernelPatches.Aufs
