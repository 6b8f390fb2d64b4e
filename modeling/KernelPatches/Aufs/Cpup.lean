/-
  aufs: copying up an entry, or a path, to a higher branch.

  `au_cpup_simple` copies what a name is on one branch to the name on another one.  The copy needs a hidden
  dentry to be made from: `au_lkup_neg` looks up the name on the target branch, where it should not exist,
  and enters it in the `au_dinfo`.  `au_do_cpup_wh` copies a deleted file for those who have it open, to a
  temporary name; it puts that name, and the file's own hidden dentry, in the place of two hidden dentries.
  When the copying fails, both have to undo this.

  * `auCpupSingle` — the copying, which reads the hidden dentries and changes none of them;
  * `auCpupSimple`, `auDoCpupWh` — the two callers;
  * `auCpupDirs`   — copies up the directories of a path which a branch lacks, the topmost one first.

  The lower file systems answer the requests through a list `io`, in their order: a negative answer is an
  error, anything else, and no answer, a success.  `none` is a null pointer the kernel dies of.
-/
import KernelPatches.Aufs.Inode

namespace KernelPatches.Aufs

/-! ## What a branch holds -/

/-- The directory with other entries. -/
def HInode.withEntries (dir : HInode) (entries : List (Name × HInode)) : HInode :=
  .mk dir.ino dir.mode entries dir.lkupErr

/-- The entries of the directory on branch `b` are changed. -/
def Dinfo.changeDir (parent : Dinfo) (b : Nat) (f : List (Name × HInode) → List (Name × HInode)) : Dinfo :=
  { parent with
    diHdentry := Function.update parent.diHdentry b ((parent.diHdentry b).map fun hd =>
      { hd with inode := hd.inode.map fun dir => dir.withEntries (f dir.entries) }) }

/-- A request to a lower file system: zero or the error. -/
def ask : List Int → Int × List Int
  | [] => (0, [])
  | r :: io => (min r 0, io)

/-! ## au_cpup_single -/

/-- What a copy-up finds besides the dentries: the mount options `plink` and `udba=inotify`, the link count
    of the hidden inode the inode has on the target branch already, whether its pseudo-link is there, what
    `readlink` returns, the size of the file and how much of it is wanted, and the number of the new
    hidden inode. -/
structure CpupEnv where
  plink : Bool
  hinotify : Bool
  dstNlink : Option Nat
  plinkFound : Bool
  symlen : Int
  size : Int
  len : Int
  newIno : Nat

/-- The copy of a hidden inode: of a directory only the directory itself. -/
def CpupEnv.copied (env : CpupEnv) (hSrc : HInode) : HInode :=
  .mk env.newIno hSrc.mode (if hSrc.mode = sIfdir then [] else hSrc.entries) fun _ => 0

/-- `au_do_cpup_regular`: the error, and whether the file is left. -/
def auDoCpupRegular (env : CpupEnv) (io : List Int) : Option (Int × Bool × List Int) :=
  let len := if env.len = -1 ∨ env.size < env.len then env.size else env.len
  let c := if len ≠ 0 then ask io else (0, io)
  if c.1 = 0 then some (0, true, c.2)
  -- hdir is null without hinotify
  else if !env.hinotify then none
  else
    let r := ask c.2
    if r.1 ≠ 0 then some (- EIO, true, r.2) else some (c.1, false, r.2)

/-- `au_do_cpup_symlink` -/
def auDoCpupSymlink (env : CpupEnv) (io : List Int) : Option (Int × Bool × List Int) :=
  let sym := ask io
  if sym.1 ≠ 0 then some (negENOMEM, false, sym.2)
  else if env.symlen < 0 then some (env.symlen, false, sym.2)
  -- nothing is made, and the caller locks the inode of what it made
  else if env.symlen = 0 then none
  else
    let c := ask sym.2
    some (c.1, c.1 = 0, c.2)

/-- `cpup_entry`: the error, and whether there is an entry on the target branch now. -/
def cpupEntry (env : CpupEnv) (mode : Nat) (io : List Int) : Option (Int × Bool × List Int) :=
  if mode = sIfreg then
    let c := ask io
    if c.1 ≠ 0 then some (c.1, false, c.2) else auDoCpupRegular env c.2
  else if mode = sIflnk then auDoCpupSymlink env io
  else if mode = sIfdir ∨ mode = sIfchr ∨ mode = sIfblk ∨ mode = sIfifo ∨ mode = sIfsock then
    let c := ask io
    some (c.1, c.1 = 0, c.2)
  else some (- EIO, false, io)

/-- `au_cpup_single`, of the hidden inode `hSrc`: the error, and whether there is an entry on the target
    branch now. -/
def auCpupSingle (env : CpupEnv) (hSrc : HInode) (io : List Int) : Option (Int × Bool × List Int) :=
  if env.dstNlink.isSome && !env.plink then some (- EIO, false, io)
  else if env.dstNlink.any (· ≠ 0) then
    let l := ask io
    if l.1 ≠ 0 then some (l.1, false, l.2)
    else if !env.plinkFound then some (- EIO, false, l.2)
    else
      let c := ask l.2
      some (c.1, c.1 = 0, c.2)
  else
    match cpupEntry env hSrc.mode io with
    | none => none
    | some (err, left, io) =>
      if err ≠ 0 then some (err, left, io)
      else
        -- cpup_iattr
        let a := ask io
        if a.1 = 0 then some (0, true, a.2)
        else
          let r := ask a.2
          if r.1 ≠ 0 then some (- EIO, true, r.2) else some (a.1, false, r.2)

/-! ## au_cpup_simple -/

/-- `au_sio_lkup_one`, which is `au_lkup_one` with the rights of root.  What it returns for an error is
    negative. -/
def auSioLkupOne (name : Name) (hParent : HDentry) (dir : HInode) : Except Int HDentry :=
  match auLkupOne name hParent dir with
  | .error err => .error (min err (-1))
  | .ok hDentry => .ok hDentry

/-- `au_lkup_neg` -/
def auLkupNeg (name : Name) (parent : Dinfo) (bindex : Nat) (d : Dinfo) : Option (Int × Dinfo) :=
  match parent.hDptr bindex with
  | none => none
  | some hParent =>
    match hParent.inode with
    | none => none
    | some dir =>
      match auSioLkupOne name hParent dir with
      | .error err => some (err, d)
      | .ok hDentry =>
        if hDentry.inode.isSome then some (- EIO, d)
        else
          let d := { d with
            diBstart := if bindex < d.diBstart then bindex else d.diBstart
            diBend := if d.diBend < bindex then bindex else d.diBend }
          some (0, d.setHDptr bindex (some hDentry))

/-- The first hidden dentry, over `count` branches from `bindex` on. -/
def firstHDptr (d : Dinfo) : Nat → Nat → Option Nat
  | 0, _ => none
  | count + 1, bindex =>
    if (d.hDptr bindex).isSome then some bindex else firstHDptr d count (bindex + 1)

/-- The branch `au_cpup_simple` copies from. -/
def cpupSrc (d : Dinfo) (bdst : Nat) : Option Nat := firstHDptr d (d.diBend - bdst).toNat (bdst + 1)

/-- A dentry, with the `au_dinfo` of its parent and the answers of the lower file systems. -/
structure Named where
  parent : Dinfo
  d : Dinfo
  io : List Int

/-- `au_cpup_simple` -/
def auCpupSimple (env : CpupEnv) (name : Name) (bdst : Nat) (s : Named) : Option (Int × Named) :=
  match cpupSrc s.d bdst with
  | none => none
  | some bsrc =>
    match (s.d.hDptr bsrc).bind HDentry.inode with
    | none => none
    | some hSrc =>
      match auLkupNeg name s.parent bdst s.d with
      | none => none
      | some (err, d) =>
        if err ≠ 0 then some (err, { s with d := d })
        else
          match auCpupSingle env hSrc s.io with
          | none => none
          | some (err, left, io) =>
            let new := env.copied hSrc
            let parent := if left then s.parent.changeDir bdst ((name, new) :: ·) else s.parent
            if err = 0 then
              let hDst := (d.hDptr bdst).map fun hd => { hd with inode := some new }
              some (0, ⟨parent, d.setHDptr bdst hDst, io⟩)
            -- revert
            else some (err, ⟨parent, { d.setHDptr bdst none with diBstart := bsrc }, io⟩)

/-! ## au_do_cpup_wh -/

/-- `au_do_cpup_wh`: `whDentry` is the temporary name, and `file` the hidden dentry of the open file. -/
def auDoCpupWh (env : CpupEnv) (bdst : Nat) (whDentry : HDentry) (file : Option HDentry) (d : Dinfo)
    (io : List Int) : Option (Int × Dinfo × List Int) :=
  -- the hidden dentry of di_bstart is read and written
  if d.diBstart < 0 then none
  else
    let bstart := d.diBstart.toNat
    let hDBdst := d.diHdentry bdst
    let d₁ := { d.setHDptr bdst (some whDentry) with diBstart := bdst }
    let hDBstart := d₁.diHdentry bstart
    let d₁ := if file.isSome then d₁.setHDptr bstart file else d₁
    match (d₁.hDptr bstart).bind HDentry.inode with
    | none => none
    | some hSrc =>
      match auCpupSingle env hSrc io with
      | none => none
      | some (err, _, io) =>
        let restore := fun (d : Dinfo) => { d.setHDptr bdst hDBdst with diBstart := bstart }
        if err = 0 ∧ file.isSome then
          let r := ask io
          some (r.1, restore (d₁.setHDptr bstart hDBstart), r.2)
        else some (err, restore d₁, io)

/-! ## au_cpup_dirs -/

/-- `au_cp_dirs` with `au_cpup_dir`: the list is the directories above the entry with their names, the
    nearest one first and the root last.  `env n` is for the one with `n` above it. -/
def auCpupDirs (env : Nat → CpupEnv) (bdst : Nat) : List (Name × Dinfo) → List Int →
    Option (Int × List (Name × Dinfo) × List Int)
  | [], _ => none
  | [root], io => some (0, [root], io)
  | (name, d) :: rest, io =>
    if (d.hDptr bdst).isSome then some (0, (name, d) :: rest, io)
    else
      match auCpupDirs env bdst rest io with
      | none => none
      | some (err, rest, io) =>
        if err ≠ 0 then some (err, (name, d) :: rest, io)
        else
          match rest with
          | [] => none
          | (pname, parent) :: rest =>
            match auCpupSimple (env (rest.length + 1)) name bdst ⟨parent, d, io⟩ with
            | none => none
            | some (err, s) => some (err, (name, s.d) :: (pname, s.parent) :: rest, s.io)

end KernelPatches.Aufs
