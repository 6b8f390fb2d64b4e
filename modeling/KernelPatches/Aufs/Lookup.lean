/-
  aufs: looking a name up in a stack of branches.

  A directory of the union is a directory on each of several branches, the topmost one first, and a
  name of it is looked up from the top to the bottom.  A branch may hold the name itself, or its
  WHITEOUT (a regular file with the prefix `.wh.`), which hides the name on this branch and below.  A
  directory which holds the file `.wh..wh..opq` is OPAQUE and hides the directories below.

  The lower file systems are trees (`HInode`), a hidden dentry is a place in one (`HDentry`), and what a
  dentry of the union knows of its hidden dentries is `Dinfo`, the source's `au_dinfo`.  The functions
  of `dentry.c` and `dinfo.c` follow the source:

  * `auDoLookup`, `auLkupDentry`  — one branch, and the loop over the branches;
  * `auDbtail`, `auDbtaildir`     — how far down the union of a directory goes;
  * `auUpdateDbstart`             — leading negative hidden dentries are dropped.

  `aufs_bindex_t` is an `Int`, with -1 for none.  Lookups carry no `nameidata` (no NFS branch), and
  memory is not short.
-/
import KernelPatches.Aufs.Xino

namespace KernelPatches.Aufs

/-! ## The lower file systems -/

def EPERM : Int := 1
def EEXIST : Int := 17
def ENAMETOOLONG : Int := 36

/-- PATH_MAX -/
def pathMax : Nat := 4096

abbrev Name := List UInt8

/-- AUFS_WH_PFX: `.wh.` -/
def whPfx : Name := [46, 119, 104, 46]

/-- AUFS_WH_DIROPQ: `.wh..wh..opq` -/
def whDiropq : Name := whPfx ++ whPfx ++ [46, 111, 112, 113]

/-- S_IFDIR -/
def sIfdir : Nat := 0x4000

/-- S_IFREG -/
def sIfreg : Nat := 0x8000

/-- A hidden inode: its number, `i_mode & S_IFMT`, the entries of a directory, and the error a lookup
    of a name in it gives, zero for none. -/
inductive HInode where
  | mk (ino mode : Nat) (entries : List (Name × HInode)) (lkupErr : Name → Int)

namespace HInode

def ino : HInode → Nat
  | mk ino _ _ _ => ino

def mode : HInode → Nat
  | mk _ mode _ _ => mode

def entries : HInode → List (Name × HInode)
  | mk _ _ entries _ => entries

def lkupErr : HInode → Name → Int
  | mk _ _ _ lkupErr => lkupErr

/-- The entry with a name. -/
def find (dir : HInode) (name : Name) : Option HInode := dir.entries.lookup name

end HInode

/-- A hidden dentry: the branch's mount and the path under it, the last name first, and the inode.
    The mount and the path make the dentry. -/
structure HDentry where
  mnt : Nat
  path : List Name
  inode : Option HInode

/-- `au_lkup_one` in the directory `dir` of `hParent`. -/
def auLkupOne (name : Name) (hParent : HDentry) (dir : HInode) : Except Int HDentry :=
  if dir.lkupErr name ≠ 0 then .error (dir.lkupErr name)
  else .ok ⟨hParent.mnt, name :: hParent.path, dir.find name⟩

/-! ## Branches -/

/-- AuBrPerm_* -/
inductive BrPerm where
  | rw
  | ro
  | rr
  | rwNoLinkWh
  | roWh
  | rrWh
  deriving DecidableEq, Repr

/-- `au_br_writable` -/
def auBrWritable (perm : BrPerm) : Bool := perm = .rw || perm = .rwNoLinkWh

/-- `au_br_whable` -/
def auBrWhable (perm : BrPerm) : Bool := perm = .rw || perm = .roWh || perm = .rrWh

/-- The branches: the index of the last one, and their permissions, and the mount options. -/
structure Stack where
  siBend : Nat
  brPerm : Nat → BrPerm
  shwh : Bool
  udbaNone : Bool

/-! ## au_dinfo -/

structure Dinfo where
  diBstart : Int
  diBend : Int
  diBwh : Int
  diBdiropq : Int
  diHdentry : Nat → Option HDentry

namespace Dinfo

/-- `au_alloc_dinfo` -/
def alloc : Dinfo := ⟨-1, -1, -1, -1, fun _ => none⟩

/-- `au_h_dptr` -/
def hDptr (d : Dinfo) (bindex : Nat) : Option HDentry :=
  if d.diBstart < 0 ∨ bindex < d.diBstart then none else d.diHdentry bindex

/-- `au_set_h_dptr` -/
def setHDptr (d : Dinfo) (bindex : Nat) (hDentry : Option HDentry) : Dinfo :=
  { d with diHdentry := Function.update d.diHdentry bindex hDentry }

/-- The hidden dentry found on `bindex`, with the range widened to it. -/
def found (d : Dinfo) (bindex : Nat) (hDentry : HDentry) : Dinfo :=
  { d with
    diBend := if d.diBend ≤ bindex then bindex else d.diBend
    diBstart := if d.diBstart < 0 ∨ bindex < d.diBstart then bindex else d.diBstart
    diHdentry := Function.update d.diHdentry bindex (some hDentry) }

end Dinfo

/-- `au_dbtail` -/
def auDbtail (d : Dinfo) : Int :=
  if 0 ≤ d.diBend then
    if d.diBwh = 0 then 0
    else if 0 < d.diBwh ∧ d.diBwh < d.diBend then d.diBwh - 1
    else d.diBend
  else d.diBend

/-- `au_dbtaildir` -/
def auDbtaildir (d : Dinfo) : Int :=
  let bend := auDbtail d
  if 0 ≤ bend ∧ 0 ≤ d.diBdiropq ∧ d.diBdiropq < bend then d.diBdiropq else bend

/-- The loop of `au_update_dbstart`, over `count` branches from `bindex` on. -/
def updateDbstart : Nat → Nat → Dinfo → Dinfo
  | 0, _, d => d
  | count + 1, bindex, d =>
    match d.hDptr bindex with
    | none => updateDbstart count (bindex + 1) d
    | some hDentry =>
      if hDentry.inode.isSome then { d with diBstart := bindex }
      else updateDbstart count (bindex + 1) (d.setHDptr bindex none)

/-- `au_update_dbstart`.  Below zero there is nothing. -/
def auUpdateDbstart (d : Dinfo) : Dinfo :=
  updateDbstart (d.diBend + 1 - d.diBstart).toNat d.diBstart.toNat d

/-! ## Lookup -/

/-- `au_wh_test` -/
def auWhTest (whName : Name) (hParent : HDentry) (dir : HInode) : Int :=
  match auLkupOne whName hParent dir with
  | .error err => err
  | .ok whDentry =>
    match whDentry.inode with
    | none => 0
    | some hInode => if hInode.mode = sIfreg then 1 else - EIO

/-- `au_do_lookup`, for a dentry whose `d_inode` has the mode `inode`. -/
def auDoLookup (st : Stack) (inode : Option Nat) (name : Name) (hParent : HDentry) (dir : HInode)
    (bindex : Nat) (type : Nat) (allowNeg : Bool) (d : Dinfo) : Except Int (Option HDentry) × Dinfo :=
  let whAble := auBrWhable (st.brPerm bindex)
  let whFound := if whAble then auWhTest (whPfx ++ name) hParent dir else 0
  if whFound < 0 then (.error whFound, d)
  else
    let d := if whFound = 0 then d else { d with diBwh := bindex }
    if whFound ≠ 0 ∧ !allowNeg then (.ok none, d)
    else
      match auLkupOne name hParent dir with
      | .error err => (.error err, d)
      | .ok hDentry =>
        match hDentry.inode with
        | none => if allowNeg then (.ok hDentry, d.found bindex hDentry) else (.ok none, d)
        | some hInode =>
          if whFound ≠ 0 ∨ (type ≠ 0 ∧ type ≠ hInode.mode) then (.ok none, d)
          else
            let d := d.found bindex hDentry
            if hInode.mode ≠ sIfdir ∨ !whAble ∨ inode.any (· ≠ sIfdir) then (.ok hDentry, d)
            else
              let opq := auWhTest whDiropq hDentry hInode
              if 0 < opq then (.ok hDentry, { d with diBdiropq := bindex })
              else if opq < 0 then (.error opq, d.setHDptr bindex none)
              else (.ok hDentry, d)

/-- Where the loop of `au_lkup_dentry` is. -/
structure Lkup where
  type : Nat
  allowNeg : Bool
  npositive : Nat
  d : Dinfo

/-- How a round of it ends. -/
inductive Round where
  | next (w : Lkup)
  | stop (w : Lkup)
  | fail (err : Int) (d : Dinfo)

/-- A round of the loop.  `type` is the argument of `au_lkup_dentry`, `w.type` that of `args`. -/
def lkupRound (st : Stack) (parent : Dinfo) (inode : Option Nat) (name : Name) (type bindex : Nat)
    (w : Lkup) : Round :=
  match w.d.hDptr bindex with
  | some hDentry =>
    let w := { w with npositive := if hDentry.inode.isSome then w.npositive + 1 else w.npositive }
    if type ≠ sIfdir then .stop w else .next w
  | none =>
    match parent.hDptr bindex with
    | none => .next w
    | some hParent =>
      match hParent.inode with
      | none => .next w
      | some dir =>
        if dir.mode ≠ sIfdir then .next w
        else
          let r := auDoLookup st inode name hParent dir bindex w.type w.allowNeg w.d
          match r.1 with
          | .error err => .fail err r.2
          | .ok hDentry =>
            let w := { w with allowNeg := false, d := r.2 }
            if 0 ≤ w.d.diBwh then .stop w
            else
              match hDentry.bind HDentry.inode with
              | none => .next w
              | some hInode =>
                let w := { w with
                  npositive := w.npositive + 1, type := if w.type = 0 then hInode.mode else w.type }
                if w.type ≠ sIfdir then .stop w
                else if inode.any (· = sIfdir) ∧ 0 ≤ w.d.diBdiropq ∧ w.d.diBdiropq ≤ bindex then .stop w
                else .next w

/-- The loop, over `count` branches from `bindex` on. -/
def lkupLoop (st : Stack) (parent : Dinfo) (inode : Option Nat) (name : Name) (type : Nat) :
    Nat → Nat → Lkup → Except Int Nat × Dinfo
  | 0, _, w => (.ok w.npositive, w.d)
  | count + 1, bindex, w =>
    match lkupRound st parent inode name type bindex w with
    | .next w => lkupLoop st parent inode name type count (bindex + 1) w
    | .stop w => (.ok w.npositive, w.d)
    | .fail err d => (.error err, d)

/-- `au_test_robr_shwh` -/
def auTestRobrShwh (st : Stack) (name : Name) : Int :=
  if !st.shwh ∧ whPfx.isPrefixOf name then -EPERM else 0

/-- `au_lkup_dentry`: the number of positive hidden dentries, or an error. -/
def auLkupDentry (st : Stack) (parent : Dinfo) (inode : Option Nat) (name : Name) (bstart type : Nat)
    (d : Dinfo) : Except Int Nat × Dinfo :=
  if auTestRobrShwh st name ≠ 0 then (.error (auTestRobrShwh st name), d)
  else if pathMax - whPfx.length < name.length then (.error (-ENAMETOOLONG), d)
  else
    let btail := auDbtaildir parent
    let r := lkupLoop st parent inode name type (btail + 1 - bstart).toNat bstart
      ⟨type, type = 0, 0, d⟩
    match r.1 with
    | .error err => (.error err, r.2)
    | .ok npositive =>
      let d := if npositive ≠ 0 then auUpdateDbstart r.2 else r.2
      if !st.udbaNone ∧ d.diBstart < 0 then (.error (- EIO), d) else (.ok npositive, d)

end KernelPatches.Aufs
