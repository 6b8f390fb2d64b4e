/-
  aufs: adding and deleting branches.

  Three arrays describe the branches: `si_branch` of the super block, `di_hdentry` of the root dentry and
  `ii_hinode` of the root inode.  `au_br_add` grows them one after the other, opens a gap in each with
  `memmove` and fills it; `au_br_del` closes the gap again.  The last indexes are kept three times too,
  and `s_maxbytes` is kept up to date on the side.

  * `BrConfig`                 — the width of `aufs_bindex_t`, and the largest number of branches;
  * `UnionSb`                  — the super block and its root, as far as the branches go;
  * `auNewBrId`                — the next id, of a signed counter that wraps;
  * `auBrAdd`, `auBrDel`       — the two operations, with every way they can fail.
-/
import KernelPatches.Aufs.Vdir
import KernelPatches.Aufs.Lookup
import KernelPatches.Lib.Arrays

namespace KernelPatches.Aufs

open KernelPatches.Lib

def ENOENT : Int := 2
def EBUSY : Int := 16
def EINVAL : Int := 22
def ENOSPC : Int := 28
def EROFS : Int := 30
def EDOM : Int := 33

/-! ## The branches -/

/-- CONFIG_AUFS_BRANCH_MAX_*: the bits of `aufs_bindex_t`, and AUFS_BRANCH_MAX, which is an index. -/
structure BrConfig where
  bits : Nat
  branchMax : Nat
  fits : branchMax < 2 ^ (bits - 1)
  pos : 0 < bits

/-- CONFIG_AUFS_BRANCH_MAX_127 -/
def branchMax127 : BrConfig := ⟨8, 127, by decide, by decide⟩

/-- CONFIG_AUFS_BRANCH_MAX_511 -/
def branchMax511 : BrConfig := ⟨16, 511, by decide, by decide⟩

/-- A super block of a lower file system. -/
structure HSuper where
  id : Nat
  sMaxbytes : Nat
  deriving DecidableEq, Repr

/-- The root dentry of a branch: the pointer, its inode and its super block, which is the one of the
    mount it was looked up in as well. -/
structure HRoot where
  dentry : Nat
  dInode : Nat
  iNlink : Nat
  dSb : HSuper
  deriving DecidableEq, Repr

/-- `struct au_branch`.  `brWbr` are the `wbr_bytes` of a writable branch. -/
structure AuBranch where
  brId : Int
  brPerm : BrPerm
  brMntSb : HSuper
  brWbr : Option Nat
  deriving DecidableEq, Repr

/-- `struct au_hinode` -/
structure AuHinode where
  hiInode : Option Nat
  hiId : Int
  deriving DecidableEq, Repr

/-- The super block of the union, its root dentry and its root inode. -/
structure UnionSb where
  siBend : Int
  siBranch : List (Option AuBranch)
  siLastBrId : Int
  sMaxbytes : Nat
  diBstart : Int
  diBend : Int
  diHdentry : List (Option HRoot)
  iiBstart : Int
  iiBend : Int
  iiHinode : List AuHinode
  deriving DecidableEq, Repr

/-- `au_si_alloc`, `au_alloc_dinfo`, `au_iinfo_init` and `aufs_fill_super`, before the mount options. -/
def unmounted : UnionSb :=
  { siBend := -1, siBranch := [none], siLastBrId := 0, sMaxbytes := 0
    diBstart := -1, diBend := -1, diHdentry := [none]
    iiBstart := -1, iiBend := -1, iiHinode := [⟨none, -1⟩] }

/-- What the kernel does not come back from: a null pointer, and a loop without an end. -/
inductive BrTrap where
  | null
  | endless
  deriving DecidableEq, Repr

/-- `au_sbr` -/
def auSbr (s : UnionSb) (bindex : Nat) : Except BrTrap AuBranch :=
  match s.siBranch.getD bindex none with
  | some br => .ok br
  | none => .error .null

/-- The branches of a super block are there. -/
def BranchesThere (u : UnionSb) : Prop := ∀ b : Nat, (b : Int) ≤ u.siBend → ∃ br, auSbr u b = .ok br

/-- The loop of `au_find_dbindex`. -/
def findDbindexFrom (hRoot : HRoot) : List (Option HRoot) → Int → Int
  | [], _ => -1
  | hd :: rest, bindex => if hd = some hRoot then bindex else findDbindexFrom hRoot rest (bindex + 1)

/-- `au_find_dbindex` of the root, for which `au_h_dptr` gives null as long as it has no branches. -/
def auFindDbindex (s : UnionSb) (hRoot : HRoot) : Int :=
  if s.diBstart < 0 then -1
  else
    findDbindexFrom hRoot ((s.diHdentry.take (s.diBend + 1).toNat).drop s.diBstart.toNat) s.diBstart

/-- The loop of `au_br_index`. -/
def brIndexFrom (brId : Int) : List (Option AuBranch) → Int → Except BrTrap Int
  | [], _ => .ok (-1)
  | none :: _, _ => .error .null
  | some br :: rest, bindex => if br.brId = brId then .ok bindex else brIndexFrom brId rest (bindex + 1)

/-- `au_br_index` -/
def auBrIndex (s : UnionSb) (brId : Int) : Except BrTrap Int :=
  brIndexFrom brId (s.siBranch.take (s.siBend + 1).toNat) 0

/-! ## Branch ids -/

/-- `++` on an `aufs_bindex_t`. -/
def BrConfig.succ (cfg : BrConfig) (id : Int) : Int := (id + 1).bmod (2 ^ cfg.bits)

/-- The loop of `au_new_br_id`, from the last id on. -/
def newBrIdFrom (cfg : BrConfig) (s : UnionSb) : Nat → Int → Except BrTrap Int
  | 0, _ => .error .endless
  | n + 1, last =>
    let brId := cfg.succ last
    if brId = 0 then newBrIdFrom cfg s n brId
    else
      match auBrIndex s brId with
      | .error e => .error e
      | .ok bindex => if bindex < 0 then .ok brId else newBrIdFrom cfg s n brId

/-- `au_new_br_id`, which has been through all ids after `2 ^ bits` rounds. -/
def auNewBrId (cfg : BrConfig) (s : UnionSb) : Except BrTrap (Int × UnionSb) :=
  match newBrIdFrom cfg s (2 ^ cfg.bits) s.siLastBrId with
  | .error e => .error e
  | .ok brId => .ok (brId, { s with siLastBrId := brId })

/-! ## `au_br_add` -/

/-- What the kernel says of the lower file systems. -/
structure LowerFs where
  inUnion : HSuper → Bool
  nested : HSuper → Bool
  unsupportedFs : HSuper → Bool
  unsupportedNfs : HSuper → Bool
  unsupportedNfs4 : HSuper → Bool
  isRdonly : HRoot → Bool
  overlap : HRoot → HRoot → Bool

/-- `struct au_opt_add`, with the dentry of its path. -/
structure AuOptAdd where
  bindex : Int
  perm : BrPerm
  dentry : HRoot
  deriving DecidableEq, Repr

/-- `test_br` -/
def testBr (fs : LowerFs) (dentry : HRoot) (perm : BrPerm) : Int :=
  if auBrWritable perm && fs.isRdonly dentry then -EINVAL else 0

/-- `test_add` -/
def testAdd (cfg : BrConfig) (fs : LowerFs) (s : UnionSb) (add : AuOptAdd) (remount : Bool) : Int :=
  if 0 ≤ s.siBend ∧ 0 ≤ auFindDbindex s add.dentry then (if remount then 1 else -EINVAL)
  else if cfg.branchMax ≤ add.bindex ∨ (cfg.branchMax : Int) - 1 ≤ s.siBend then -ENOSPC
  else if add.bindex < 0 ∨ s.siBend + 1 < add.bindex then -EDOM
  else if add.dentry.iNlink = 0 then -ENOENT
  else if fs.inUnion add.dentry.dSb then -EINVAL
  else if fs.nested add.dentry.dSb then -EINVAL
  else if fs.unsupportedFs add.dentry.dSb then -EINVAL
  else if fs.unsupportedNfs add.dentry.dSb then -EINVAL
  else if fs.unsupportedNfs4 add.dentry.dSb then -EINVAL
  else if testBr fs add.dentry add.perm ≠ 0 then testBr fs add.dentry add.perm
  else if s.siBend < 0 then 0
  else if (s.diHdentry.take (s.siBend + 1).toNat).any
      (fun hd => hd.any fun h => add.dentry = h || fs.overlap add.dentry h) then -EINVAL
  else 0

/-- `au_kzrealloc`, for an array of which `nused` slots are in use. -/
def auKzrealloc {α : Type*} (p : List α) (nused n : Nat) (zero : α) (mem : Kmem) :
    Option (List α) × Kmem :=
  if n ≤ nused then (some p, mem)
  else
    let q := kmalloc mem
    (if q.1.isNone then none else some (regrow p nused n zero), q.2)

/-- The arrays of `alloc_addbr`, one after the other. -/
def growArrays (s : UnionSb) (newNbranch : Nat) (mem : Kmem) : Bool × UnionSb × Kmem :=
  let sz := if newNbranch - 1 = 0 then 1 else newNbranch - 1
  let branchp := auKzrealloc s.siBranch sz newNbranch none mem
  match branchp.1 with
  | none => (false, s, branchp.2)
  | some p =>
    let s := { s with siBranch := p }
    let hdentryp := auKzrealloc s.diHdentry sz newNbranch none branchp.2
    match hdentryp.1 with
    | none => (false, s, hdentryp.2)
    | some p =>
      let s := { s with diHdentry := p }
      let hinodep := auKzrealloc s.iiHinode sz newNbranch ⟨none, 0⟩ hdentryp.2
      match hinodep.1 with
      | none => (false, s, hinodep.2)
      | some p => (true, { s with iiHinode := p }, hinodep.2)

/-- `alloc_addbr`: whether there is memory for the branch and for the arrays. -/
def allocAddbr (s : UnionSb) (newNbranch : Nat) (perm : BrPerm) (mem : Kmem) : Bool × UnionSb × Kmem :=
  let addBranch := kmalloc mem
  if addBranch.1.isNone then (false, s, addBranch.2)
  else
    let brSabr := kmalloc addBranch.2
    if brSabr.1.isNone then (false, s, brSabr.2)
    else if auBrWritable perm then
      let brWbr := kmalloc brSabr.2
      if brWbr.1.isNone then (false, s, brWbr.2) else growArrays s newNbranch brWbr.2
    else growArrays s newNbranch brSabr.2

/-- What `au_br_init` calls: the results of `au_wh_init` and of `au_xino_br`, which is called with xino
    only. -/
structure BrInit where
  whInit : Int
  xino : Bool
  xinoBr : Int

/-- `au_br_init` -/
def auBrInit (cfg : BrConfig) (s : UnionSb) (add : AuOptAdd) (env : BrInit) :
    Except BrTrap (Except Int AuBranch × UnionSb) :=
  if auBrWritable add.perm ∧ env.whInit ≠ 0 then .ok (.error env.whInit, s)
  else if env.xino ∧ env.xinoBr ≠ 0 then .ok (.error env.xinoBr, s)
  else
    match auNewBrId cfg s with
    | .error e => .error e
    | .ok (brId, s) =>
      .ok (.ok ⟨brId, add.perm, add.dentry.dSb, if auBrWritable add.perm then some 0 else none⟩, s)

/-- `au_br_add`, from the `memmove`s on. -/
def insertBranch (s : UnionSb) (addBindex : Nat) (dentry : HRoot) (addBranch : AuBranch) : UnionSb :=
  let bend := s.siBend
  let amount := (bend + 1 - addBindex).toNat
  let siBranch := (memmove s.siBranch (addBindex + 1) addBindex amount).set addBindex (some addBranch)
  -- `au_h_dentry_init` clears the slot, and `au_set_h_dptr` fills it.
  let diHdentry := (memmove s.diHdentry (addBindex + 1) addBindex amount).set addBindex (some dentry)
  let iiHinode := (memmove s.iiHinode (addBindex + 1) addBindex amount).set addBindex
    ⟨some dentry.dInode, addBranch.brId⟩
  { s with
    siBranch, diHdentry, iiHinode
    siBend := if bend < 0 then 0 else s.siBend + 1
    diBend := s.diBend + 1
    iiBend := s.iiBend + 1
    diBstart := if bend < 0 then 0 else s.diBstart
    iiBstart := if bend < 0 then 0 else s.iiBstart
    sMaxbytes := if s.sMaxbytes < dentry.dSb.sMaxbytes then dentry.dSb.sMaxbytes else s.sMaxbytes }

/-- `au_br_add` -/
def auBrAdd (cfg : BrConfig) (fs : LowerFs) (s : UnionSb) (add : AuOptAdd) (env : BrInit) (mem : Kmem)
    (remount : Bool) : Except BrTrap (Int × UnionSb) :=
  let err := testAdd cfg fs s add remount
  if err < 0 then .ok (err, s)
  else if err ≠ 0 then .ok (0, s)
  else
    let a := allocAddbr s (s.siBend + 2).toNat add.perm mem
    let s := a.2.1
    if !a.1 then .ok (negENOMEM, s)
    else
      match auBrInit cfg s add env with
      | .error e => .error e
      | .ok (.error err, s) => .ok (err, s)
      | .ok (.ok addBranch, s) => .ok (0, insertBranch s add.bindex.toNat add.dentry addBranch)

/-! ## `au_br_del` -/

/-- The loop over the branches that are left: the largest `s_maxbytes`. -/
def maxbytesOf : List (Option AuBranch) → Nat → Except BrTrap Nat
  | [], sMaxbytes => .ok sMaxbytes
  | none :: _, _ => .error .null
  | some br :: rest, sMaxbytes =>
    maxbytesOf rest (if sMaxbytes < br.brMntSb.sMaxbytes then br.brMntSb.sMaxbytes else sMaxbytes)

/-- `au_br_del`, from the first `memmove` on. -/
def removeBranch (s : UnionSb) (bindex : Nat) : UnionSb :=
  let bend := s.siBend.toNat
  let close {α : Type} (a : List α) : List α :=
    if bindex < bend then memmove a bindex (bindex + 1) (bend - bindex) else a
  let hinode := (close s.iiHinode).getD bend ⟨none, 0⟩
  { s with
    siBranch := (close s.siBranch).set bend none
    diHdentry := (close s.diHdentry).set bend none
    iiHinode := (close s.iiHinode).set bend { hinode with hiInode := none }
    siBend := s.siBend - 1
    diBend := s.diBend - 1
    iiBend := s.iiBend - 1 }

/-- `au_br_del` of the branch with the root `hRoot`: `brCount` are the files that are open on it, and
    `busy` is what `test_children_busy` answers. -/
def auBrDel (s : UnionSb) (hRoot : HRoot) (brCount : Nat) (busy : Int) (remount : Bool) :
    Except BrTrap (Int × UnionSb) :=
  let bindex := auFindDbindex s hRoot
  if bindex < 0 then .ok (if remount then 0 else -ENOENT, s)
  else if s.siBend = 0 then .ok (-EBUSY, s)
  else
    match auSbr s bindex.toNat with
    | .error e => .error e
    | .ok _ =>
      if brCount ≠ 0 then .ok (-EBUSY, s)
      else if busy ≠ 0 then .ok (busy, s)
      else
        let s := removeBranch s bindex.toNat
        if s.sMaxbytes = hRoot.dSb.sMaxbytes then
          match maxbytesOf (s.siBranch.take (s.siBend + 1).toNat) 0 with
          | .error e => .error e
          | .ok sMaxbytes => .ok (0, { s with sMaxbytes })
        else .ok (0, s)

end KernelPatches.Aufs
