/-
  aufs: `rename`, on the branch it is made on.

  `aufs_rename` chooses a branch, makes the parent directories there, and lets `do_rename` do the work, all of
  it on this branch.  Nine things can fail:

   1. the arguments for removing the old destination directory later are allocated;
   2. the source is whited out, if something of that name would show up from below;
   3. the whiteout of the destination is looked up, if the destination started on the branch;
   4. a destination directory is renamed to a temporary name, and its inotify watch is suspended;
   5. the destination is looked up again, and has to be negative;
   6. a source on another branch is copied up over a destination that is still there;
   7. the source is renamed, or copied up under the destination's name;
   8. a directory is made opaque;
   9. the whiteout of the destination is removed.

  After a failure `do_rename` jumps into a ladder of labels which undo in the opposite order what was done
  (`revert`).  The functions which undo a step get the error by value, so that none of them changes it.

  * `RenStep`, `RenState.step` — the steps;
  * `runSteps`, `doRename`     — one after the other, until one fails;
  * `aufsRename`               — with what is done after `do_rename`.

  The directories are those of the two parents' `au_dinfo`, the source's being `false`.  The lower file
  systems answer through `io`, as they do for a removal; a lookup that nothing else tells to fail asks too.
  `none` is a null pointer, or memory outside of an array.
-/
import KernelPatches.Aufs.Remove
import KernelPatches.Aufs.LookupUnion

namespace KernelPatches.Aufs


/-! ## State -/

/-- What does not change: what a whiteout is made with, the copy-up to come, whether the source is a directory,
    whether it has to be whited out and whether the two parents are one, the mount option, the branch that is
    written to, `di_bstart` of the two dentries before the call, and their names. -/
structure RenEnv where
  rm : RmEnv
  cpup : CpupEnv
  isdir : Bool
  whSrc : Bool
  sameDir : Bool
  alwaysDiropq : Bool
  btgt : Nat
  bstartSrc : Nat
  bstartDst : Nat
  srcName : Name
  dstName : Name

/-- `struct au_ren_args`, with the `au_dinfo`s of the two dentries and of their parents, the answers to come
    and the counter of the temporary names, and the inotify watches of the hidden inodes the two inodes have on
    the branch, if they have one, which tell whether it is active. -/
structure RenState where
  parents : Bool → Dinfo
  src : Dinfo
  dst : Dinfo
  hDentryDst : Option HDentry
  hDst : Option HDentry
  tmpName : Name
  thargs : Bool
  whSrc : Bool
  whDst : Bool
  needDiropq : Bool
  bycpup : Bool
  srcWatch : Option Bool
  dstWatch : Option Bool
  io : List Int
  cnt : Nat

/-- The steps of `do_rename`. -/
inductive RenStep where
  | thargs
  | whSrc
  | whDst
  | whtmp
  | lkupNeg
  | cpupSrc
  | rename
  | diropq
  | unlinkWh
  deriving DecidableEq, Repr

/-- The parent of the destination. -/
def RenEnv.dstDir (env : RenEnv) : Bool := !env.sameDir

/-- What is asked of a parent, a name and a dentry by the functions a removal uses. -/
def RenState.rm (s : RenState) (p : Bool) (name : Name) (d : Dinfo) : RmState :=
  ⟨name, d, [], s.parents p, [], s.io, s.cnt⟩

/-- What they leave of it. -/
def RenState.ofRm (s : RenState) (p : Bool) (r : RmState) : RenState :=
  { s with parents := Function.update s.parents p r.parent, io := r.io, cnt := r.cnt }

/-- The entries of a parent's directory on branch `b` are changed. -/
def RenState.changeDir (s : RenState) (p : Bool) (b : Nat)
    (f : List (Name × HInode) → List (Name × HInode)) : RenState :=
  { s with parents := Function.update s.parents p ((s.parents p).changeDir b f) }

/-- An entry is made, or replaced. -/
def setEntry (name : Name) (hInode : HInode) (entries : List (Name × HInode)) : List (Name × HInode) :=
  (name, hInode) :: eraseName name entries

/-- An entry of a directory is renamed to a name of a directory, and replaces what is there. -/
def RenState.moveEntry (s : RenState) (b : Nat) (p : Bool) (name : Name) (q : Bool) (newName : Name) : RenState :=
  match entryAt (s.parents p) name b with
  | none => s
  | some hInode => (s.changeDir p b (eraseName name)).changeDir q b (setEntry newName hInode)

/-- Whether a copy-up makes an entry, be it that it is removed again. -/
def cpupMakes (env : CpupEnv) (hSrc : HInode) (io : List Int) : Bool :=
  if env.dstNlink.any (· ≠ 0) then (auCpupSingle env hSrc io).any (·.1 = 0)
  else if env.dstNlink.isSome && !env.plink then false
  else if hSrc.mode = sIfreg then (ask io).1 = 0
  else (cpupEntry env hSrc.mode io).any (·.1 = 0)

section

variable (env : RenEnv)

/-! ## The steps -/

/-- The arguments for `au_whtmp_kick_rmdir` are allocated. -/
def prepareThargs (s : RenState) : Option (Int × RenState) :=
  if env.isdir && (s.hDentryDst.bind HDentry.inode).isSome then
    let m := ask s.io
    let s := { s with io := m.2 }
    if m.1 ≠ 0 then some (negENOMEM, s) else some (0, { s with thargs := true, hDst := s.hDentryDst })
  else some (0, s)

/-- The whiteout of the source is made. -/
def createWhSrc (s : RenState) : Option (Int × RenState) :=
  if env.whSrc then
    match (s.parents false).hDptr env.btgt with
    | none => none
    | some hParent =>
      match auWhCreate env.rm env.btgt hParent (s.rm false env.srcName s.src) with
      | none => none
      | some (.error err, r) => some (err, { s.ofRm false r with src := r.d })
      | some (.ok _, r) => some (0, { s.ofRm false r with src := r.d, whSrc := true })
  else some (0, s)

/-- The whiteout of the destination is looked up. -/
def lookupWhDst (s : RenState) : Option (Int × RenState) :=
  if env.bstartDst = env.btgt then
    match (s.parents env.dstDir).hDptr env.btgt with
    | none => none
    | some hParent =>
      match hParent.inode with
      | none => none
      | some dir =>
        let m := ask s.io
        let s := { s with io := m.2 }
        if m.1 ≠ 0 then some (m.1, s)
        else
          match auLkupOne (whPfx ++ env.dstName) hParent dir with
          | .error err => some (err, s)
          | .ok whDentry => some (0, { s with whDst := whDentry.inode.isSome })
  else some (0, s)

/-- A destination directory is renamed to a temporary name, and its watch suspended. -/
def renameToWhtmp (s : RenState) : Option (Int × RenState) :=
  if s.thargs then
    match auWhtmpRen env.btgt (s.rm env.dstDir env.dstName s.dst) with
    | none => none
    | some (.error err, r) => some (err, s.ofRm env.dstDir r)
    | some (.ok tmp, r) =>
      some (0, { s.ofRm env.dstDir r with
        tmpName := tmp, dstWatch := s.dstWatch.map fun _ => false, dst := s.dst.setHDptr env.btgt none })
  else some (0, s)

/-- The destination is looked up again. -/
def lookupNegDst (s : RenState) : Option (Int × RenState) :=
  if s.thargs then
    let m := ask s.io
    let s := { s with io := m.2 }
    if m.1 ≠ 0 then some (m.1, s)
    else
      match auLkupNeg env.dstName (s.parents env.dstDir) env.btgt s.dst with
      | none => none
      | some (err, d) =>
        if err ≠ 0 then some (err, { s with dst := d })
        else some (0, { s with dst := d, hDentryDst := d.hDptr env.btgt })
  else some (0, s)

/-- The source is copied up, to be renamed over the destination then. -/
def copyUpSrc (s : RenState) : Option (Int × RenState) :=
  if (s.hDentryDst.bind HDentry.inode).isSome && env.bstartSrc ≠ env.btgt then
    match auCpupSimple env.cpup env.srcName env.btgt ⟨s.parents false, s.src, s.io⟩ with
    | none => none
    | some (err, n) =>
      some (err, { s with parents := Function.update s.parents false n.parent, src := n.d, io := n.io })
  else some (0, s)

/-- Whether the directory is to be opaque. -/
def needsDiropq (s : RenState) : Bool :=
  env.isdir && (s.whDst || s.dst.diBdiropq = env.btgt || (env.btgt : Int) < s.dst.diBend || env.alwaysDiropq)

/-- `au_ren_or_cpup` -/
def auRenOrCpup (s : RenState) : Option (Int × RenState) :=
  if s.src.diBstart = env.btgt then
    let s := if s.needDiropq && s.src.diBdiropq = env.btgt then { s with needDiropq := false } else s
    match s.src.hDptr env.btgt with
    | none => none
    | some _ =>
      let r := ask s.io
      let s := { s with io := r.2 }
      if r.1 ≠ 0 then some (r.1, s)
      else some (0, s.moveEntry env.btgt false env.srcName env.dstDir env.dstName)
  else
    let d := { s.src with diBstart := env.btgt }.setHDptr env.btgt s.hDentryDst
    match s.hDentryDst, (d.hDptr env.bstartSrc).bind HDentry.inode with
    | some hd, some hSrc =>
      match auCpupSingle env.cpup hSrc s.io with
      | none => none
      | some (err, left, io) =>
        let new := env.cpup.copied hSrc
        let made : HDentry := { hd with inode := some new }
        -- both dentries have the hidden dentry, so an entry that is removed again leaves it its inode
        let dst := if cpupMakes env.cpup hSrc s.io then s.dst.setHDptr env.btgt (some made) else s.dst
        let t := { s with bycpup := true, io := io, dst := dst }
        let t := if left then t.changeDir env.dstDir env.btgt (setEntry env.dstName new) else t
        if err ≠ 0 then some (err, { t with src := { d.setHDptr env.btgt none with diBstart := env.bstartSrc } })
        else some (0, { t with src := d.setHDptr env.btgt (some made) })
    | _, _ => none

/-- The source is renamed, or copied up under the new name. -/
def renameOrCpup (s : RenState) : Option (Int × RenState) :=
  auRenOrCpup env { s with needDiropq := needsDiropq env s, bycpup := false }

/-- `au_ren_diropq`.  The directory is under the destination's name now; a marker that is there already is in
    the way. -/
def auRenDiropq (s : RenState) : Option (Int × RenState) :=
  if s.needDiropq then
    match s.src.hDptr env.btgt, entryAt (s.parents env.dstDir) env.dstName env.btgt with
    | some _, some dir =>
      if dir.lkupErr whDiropq ≠ 0 then some (dir.lkupErr whDiropq, s)
      else if (dir.find whDiropq).isSome then some (-EEXIST, s)
      else
        let l := linkOrCreateWh env.rm env.btgt s.io
        let s := { s with io := l.2 }
        if l.1 ≠ 0 then some (l.1, s)
        else
          let dir := dir.withEntries ((whDiropq, newFile) :: dir.entries)
          let s := s.changeDir env.dstDir env.btgt (setEntry env.dstName dir)
          some (0, { s with src := { s.src with diBdiropq := env.btgt } })
    | _, _ => none
  else some (0, s)

/-- The whiteout of the destination is removed. -/
def unlinkWhDst (s : RenState) : Option (Int × RenState) :=
  if s.whDst then
    let r := ask s.io
    let s := { s with io := r.2 }
    if r.1 ≠ 0 then some (r.1, s)
    else
      some (0, { s.changeDir env.dstDir env.btgt (eraseName (whPfx ++ env.dstName)) with
        dst := { s.dst with diBwh := -1 } })
  else some (0, s)

/-- The step, and the error or zero. -/
def RenState.step : RenStep → RenState → Option (Int × RenState)
  | .thargs => prepareThargs env
  | .whSrc => createWhSrc env
  | .whDst => lookupWhDst env
  | .whtmp => renameToWhtmp env
  | .lkupNeg => lookupNegDst env
  | .cpupSrc => copyUpSrc env
  | .rename => renameOrCpup env
  | .diropq => auRenDiropq env
  | .unlinkWh => unlinkWhDst env

/-! ## Undoing -/

/-- `au_ren_rev_diropq` -/
def auRenRevDiropq (s : RenState) : RenState :=
  match entryAt (s.parents env.dstDir) env.dstName env.btgt with
  | none => s
  | some dir =>
    let r := ask s.io
    let s := { s with io := r.2 }
    if r.1 ≠ 0 then s
    else
      let dir := dir.withEntries (eraseName whDiropq dir.entries)
      { s.changeDir env.dstDir env.btgt (setEntry env.dstName dir) with
        src := { s.src with diBdiropq := -1 } }

/-- `au_ren_rev_rename`: a lookup, and the renaming. -/
def auRenRevRename (s : RenState) : RenState :=
  let l := ask s.io
  let s := { s with io := l.2 }
  if l.1 ≠ 0 then s
  else
    let r := ask s.io
    let s := { s with io := r.2 }
    if r.1 ≠ 0 then s else s.moveEntry env.btgt env.dstDir env.dstName false env.srcName

/-- `au_ren_rev_cpup`.  `vfs_unlink` refuses a directory. -/
def auRenRevCpup (s : RenState) : RenState :=
  let dir := (entryAt (s.parents env.dstDir) env.dstName env.btgt).any (·.mode = sIfdir)
  let r := if dir then (-EISDIR, s.io) else ask s.io
  let s := { s with
    io := r.2, src := { s.src.setHDptr env.btgt none with diBstart := env.bstartSrc } }
  if r.1 ≠ 0 then s else s.changeDir env.dstDir env.btgt (eraseName env.dstName)

/-- `au_ren_rev_whtmp`.  The watch is looked for in the inode of the source. -/
def auRenRevWhtmp (s : RenState) : RenState :=
  let l := ask s.io
  let s := { s with io := l.2 }
  if l.1 ≠ 0 then s
  else if (entryAt (s.parents env.dstDir) env.dstName env.btgt).isSome then s
  else
    let s := { s with srcWatch := s.srcWatch.map fun _ => true }
    let r := ask s.io
    let s := { s with io := r.2 }
    if r.1 ≠ 0 then s
    else
      { s.moveEntry env.btgt env.dstDir s.tmpName env.dstDir env.dstName with
        dst := s.dst.setHDptr env.btgt s.hDst }

/-- `au_ren_rev_whsrc` -/
def auRenRevWhsrc (s : RenState) : RenState :=
  let r := ask s.io
  let s := { s with io := r.2 }
  if r.1 ≠ 0 then s
  else
    { s.changeDir false env.btgt (eraseName (whPfx ++ env.srcName)) with src := { s.src with diBwh := -1 } }

def outWhsrc (s : RenState) : RenState :=
  let s := if s.whSrc then auRenRevWhsrc env s else s
  { s with dst := auUpdateDbstart s.dst }

def outWhdst (s : RenState) : RenState := outWhsrc env { s with whDst := false }

def outWhtmp (s : RenState) : RenState := outWhdst env (if s.thargs then auRenRevWhtmp env s else s)

def outRename (s : RenState) : RenState :=
  outWhtmp env (if s.bycpup then auRenRevCpup env s else auRenRevRename env s)

def outDiropq (s : RenState) : RenState := outRename env (if s.needDiropq then auRenRevDiropq env s else s)

/-- Where a step that fails jumps to. -/
def revert : RenStep → RenState → RenState
  | .thargs => id
  | .whSrc => id
  | .whDst => outWhsrc env
  | .whtmp => outWhdst env
  | .lkupNeg => outWhtmp env
  | .cpupSrc => outWhtmp env
  | .rename => outWhtmp env
  | .diropq => outRename env
  | .unlinkWh => outDiropq env

/-! ## do_rename -/

/-- The steps, in the order of the code. -/
def renSteps : List RenStep :=
  [.thargs, .whSrc, .whDst, .whtmp, .lkupNeg, .cpupSrc, .rename, .diropq, .unlinkWh]

/-- The steps one after the other: the one that fails with its error, if one does. -/
def runSteps : List RenStep → RenState → Option (Option (RenStep × Int) × RenState)
  | [], s => some (none, s)
  | k :: ks, s =>
    match s.step env k with
    | none => none
    | some (err, s) => if err ≠ 0 then some (some (k, err), s) else runSteps ks s

/-- `au_ren_del_whtmp`, an error being ignored. -/
def auRenDelWhtmp (s : RenState) : RenState :=
  if env.rm.rmdirLater then s
  else
    let r := ask s.io
    let s := { s with io := r.2 }
    if r.1 = 0 then s.changeDir env.dstDir env.btgt (eraseName s.tmpName) else s

/-- `do_rename` -/
def doRename (s : RenState) : Option (Int × RenState) :=
  match runSteps env renSteps s with
  | none => none
  | some (none, s) => some (0, if s.thargs then auRenDelWhtmp env s else s)
  | some (some (k, err), s) => some (err, revert env k s)

/-- The hidden dentries below branch `b` are put. -/
def Dinfo.putBelow (d : Dinfo) (b : Nat) : Dinfo :=
  { d with diBwh := -1, diBend := b, diHdentry := fun k => if b < k ∧ k ≤ d.diBend then none else d.diHdentry k }

/-- `aufs_rename`, from `do_rename` on. -/
def aufsRename (s : RenState) : Option (Int × RenState) :=
  match doRename env s with
  | none => none
  | some (err, s) =>
    if err = 0 then some (0, { s with src := s.src.putBelow env.btgt })
    else some (err, if env.isdir then { s with dst := auUpdateDbstart s.dst } else s)

end

end KernelPatches.Aufs
