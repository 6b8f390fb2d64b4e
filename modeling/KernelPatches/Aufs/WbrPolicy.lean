/-
  aufs: the policies that choose a writable branch.

  A create policy chooses the branch on which a new entry is made.  `tdp` goes top down through the
  parent's branches, `rr` goes round, `mfs` takes the branch with the most free space, `mfsrr` goes round
  when that is little, and `pmfs` takes the one of the parent's branches with the most.  The choice of `mfs`
  is kept, by its index, until it is `mfs_expire` old.

  * `auWbrCreateExp`           — the exception to the policies other than `tdp`: the branch of a whiteout
                                 or of an opaque parent;
  * `auWbrCreateTdp`, `auWbrCreateRr`, `auWbrCreateMfs`, `auWbrCreateMfsrr`, `auWbrCreatePmfs`
                               — the policies;
  * `cachedBindex`             — the index `au_wbr_create_mfs` takes from its cache and looks at.
-/
import KernelPatches.Aufs.Branch

namespace KernelPatches.Aufs

open KernelPatches.Lib

/-- AuWbrCreate_* -/
inductive WbrCreate where
  | tdp
  | rr
  | mfs
  | mfsv
  | mfsrr
  | mfsrrv
  | pmfs
  | pmfsv
  deriving DecidableEq, Repr

/-- `struct au_wbr_mfs` -/
structure WbrMfs where
  mfsJiffy : Nat
  mfsExpire : Nat
  mfsBindex : Int
  mfsrrBytes : Nat
  mfsrrWatermark : Nat
  deriving DecidableEq, Repr

/-- What the policies need of the super block. -/
structure PolicySb where
  union : UnionSb
  wbrCreate : WbrCreate
  wbrMfs : WbrMfs
  wbrRrNext : Int
  deriving DecidableEq, Repr

/-- What a call finds: the time, which lower file systems are mounted read-only, for each branch whether
    there is something to ask for its free space and what the answer is (`f_bavail` and `f_bsize`), whether
    dirperm1 is on, and what `au_test_h_perm` answers for the parent's directory on a branch, zero if it may
    be written. -/
structure WbrEnv where
  jiffies : Nat
  msRdonly : HSuper → Bool
  statfsArg : Nat → Bool
  statfs : Nat → Option (Nat × Nat)
  dirperm1 : Bool
  hPerm : Nat → Int

section

variable (A : Arch) (env : WbrEnv)

/-- `au_br_rdonly` -/
def auBrRdonly (br : AuBranch) : Bool := env.msRdonly br.brMntSb || !auBrWritable br.brPerm

/-- `au_br_rdonly(au_sbr(sb, bindex))` -/
def sbrRdonly (s : UnionSb) (bindex : Nat) : Except BrTrap Bool :=
  match auSbr s bindex with
  | .error e => .error e
  | .ok br => .ok (auBrRdonly env br)

/-- `au_wbr_bu`, from the branch above `n` on upwards. -/
def auWbrBu (s : UnionSb) : Nat → Except BrTrap Int
  | 0 => .ok (-EROFS)
  | n + 1 =>
    match sbrRdonly env s n with
    | .error e => .error e
    | .ok rdonly => if !rdonly then .ok n else auWbrBu s n

/-- A branch on which the parent has a directory. -/
def hasHDir (parent : Dinfo) (bindex : Nat) : Bool :=
  match parent.hDptr bindex with
  | none => false
  | some hParent => hParent.inode.isSome

/-- The loop of `au_wbr_create_tdp`, over `n` branches from `bindex` on. -/
def createTdpFrom (s : UnionSb) (parent : Dinfo) : Nat → Nat → Except BrTrap Int
  | 0, _ => .ok (-EROFS)
  | n + 1, bindex =>
    if !hasHDir parent bindex then createTdpFrom s parent n (bindex + 1)
    else
      match sbrRdonly env s bindex with
      | .error e => .error e
      | .ok rdonly =>
        if !rdonly && (!env.dirperm1 || env.hPerm bindex != 0) then .ok bindex
        else createTdpFrom s parent n (bindex + 1)

/-- `au_wbr_create_tdp` -/
def auWbrCreateTdp (s : UnionSb) (dentry parent : Dinfo) : Except BrTrap Int :=
  let bstart := dentry.diBstart.toNat
  match sbrRdonly env s bstart with
  | .error e => .error e
  | .ok rdonly =>
    if !rdonly then .ok bstart
    else
      match createTdpFrom env s parent (bstart - parent.diBstart.toNat) parent.diBstart.toNat with
      | .error e => .error e
      | .ok err => if err < 0 then auWbrBu env s bstart else .ok err

/-- `au_wbr_create_exp` -/
def auWbrCreateExp (s : UnionSb) (dentry parent : Dinfo) : Except BrTrap Int :=
  let bwh := dentry.diBwh
  let bdiropq := parent.diBdiropq
  let err :=
    if 0 ≤ bwh then (if 0 ≤ bdiropq then min bdiropq bwh else bwh)
    else if 0 ≤ bdiropq then bdiropq
    else -1
  if 0 ≤ err then
    match sbrRdonly env s err.toNat with
    | .error e => .error e
    | .ok rdonly => .ok (if rdonly then -1 else err)
  else .ok err

/-- `atomic_dec_return(next) + 1`, and what is left in the counter. -/
def decReturn (next : Int) : Int × Int := (wrap32 (wrap32 (next - 1) + 1), wrap32 (next - 1))

/-- The loop of `au_wbr_create_rr`, over `n` branches. -/
def createRrFrom (s : UnionSb) (isdir : Bool) : Nat → Int → Except BrTrap (Int × Int)
  | 0, next => .ok (-EROFS, next)
  | n + 1, next =>
    let d :=
      if !isdir then
        let d := decReturn next
        if d.1 = 0 then decReturn d.2 else d
      else (next, next)
    let err := d.1 % 2 ^ 32 % (s.siBend + 1)
    match sbrRdonly env s err.toNat with
    | .error e => .error e
    | .ok rdonly => if !rdonly then .ok (err, d.2) else createRrFrom s isdir n d.2

/-- `au_wbr_create_rr` -/
def auWbrCreateRr (s : PolicySb) (dentry parent : Dinfo) (isdir : Bool) :
    Except BrTrap (Int × PolicySb) :=
  match auWbrCreateExp env s.union dentry parent with
  | .error e => .error e
  | .ok err =>
    if 0 ≤ err then .ok (err, s)
    else
      match createRrFrom env s.union isdir (s.union.siBend + 1).toNat s.wbrRrNext with
      | .error e => .error e
      | .ok (err, next) => .ok (err, { s with wbrRrNext := next })

/-! ## Most free space -/

/-- The loop of `au_mfs`, over `n` branches from `bindex` on. -/
def auMfsFrom : Nat → Nat → Nat → PolicySb → Except BrTrap (Nat × PolicySb)
  | 0, _, bavail, s => .ok (bavail, s)
  | n + 1, bindex, bavail, s =>
    match auSbr s.union bindex with
    | .error e => .error e
    | .ok br =>
      if auBrRdonly env br then auMfsFrom n (bindex + 1) bavail s
      else if !env.statfsArg bindex then auMfsFrom n (bindex + 1) bavail s
      else
        match env.statfs bindex with
        | none => auMfsFrom n (bindex + 1) bavail s
        | some (fBavail, fBsize) =>
          let b := fBavail * fBsize % 2 ^ 64
          let siBranch := s.union.siBranch.set bindex (some { br with brWbr := br.brWbr.map fun _ => b })
          let s := { s with union := { s.union with siBranch } }
          -- when the available size is equal, select lower one
          if bavail ≤ b then
            auMfsFrom n (bindex + 1) b
              { s with wbrMfs := { s.wbrMfs with mfsBindex := bindex, mfsJiffy := env.jiffies } }
          else auMfsFrom n (bindex + 1) bavail s

/-- `au_mfs` -/
def auMfs (s : PolicySb) : Except BrTrap PolicySb :=
  match auMfsFrom env (s.union.siBend + 1).toNat 0 0
      { s with wbrMfs := { s.wbrMfs with mfsBindex := -EROFS, mfsrrBytes := 0 } } with
  | .error e => .error e
  | .ok (bavail, s) => .ok { s with wbrMfs := { s.wbrMfs with mfsrrBytes := bavail } }

/-- The index in the cache, if it is a branch's and has not expired: `au_wbr_create_mfs` passes it to
    `au_sbr`. -/
def cachedBindex (mfs : WbrMfs) : Option Nat :=
  if timeAfter A env.jiffies (mfs.mfsJiffy + mfs.mfsExpire) || mfs.mfsBindex < 0 then none
  else some mfs.mfsBindex.toNat

/-- `au_wbr_create_mfs`, when the exception does not apply. -/
def createMfs (s : PolicySb) : Except BrTrap (Int × PolicySb) :=
  let stale : Except BrTrap Bool :=
    match cachedBindex A env s.wbrMfs with
    | none => .ok true
    | some bindex => sbrRdonly env s.union bindex
  match stale with
  | .error e => .error e
  | .ok false => .ok (s.wbrMfs.mfsBindex, s)
  | .ok true =>
    match auMfs env s with
    | .error e => .error e
    | .ok s => .ok (s.wbrMfs.mfsBindex, s)

/-- `au_wbr_create_mfs` -/
def auWbrCreateMfs (s : PolicySb) (dentry parent : Dinfo) : Except BrTrap (Int × PolicySb) :=
  match auWbrCreateExp env s.union dentry parent with
  | .error e => .error e
  | .ok err => if 0 ≤ err then .ok (err, s) else createMfs A env s

/-- `au_wbr_create_mfsrr` -/
def auWbrCreateMfsrr (s : PolicySb) (dentry parent : Dinfo) (isdir : Bool) :
    Except BrTrap (Int × PolicySb) :=
  match auWbrCreateMfs A env s dentry parent with
  | .error e => .error e
  | .ok (err, s) =>
    if 0 ≤ err ∧ s.wbrMfs.mfsrrBytes < s.wbrMfs.mfsrrWatermark then
      auWbrCreateRr env s dentry parent isdir
    else .ok (err, s)

/-- `br->br_wbr->wbr_bytes` -/
def wbrBytes (s : UnionSb) (bindex : Nat) : Except BrTrap Nat :=
  match auSbr s bindex with
  | .error e => .error e
  | .ok br =>
    match br.brWbr with
    | none => .error .null
    | some b => .ok b

/-- The loops of `au_wbr_create_pmfs`, over `n` branches from `bindex` on: `perm` says which of the
    parent's directories they take. -/
def createPmfsFrom (s : UnionSb) (parent : Dinfo) (perm : Nat → Bool) :
    Nat → Nat → Nat × Int → Except BrTrap (Nat × Int)
  | 0, _, best => .ok best
  | n + 1, bindex, best =>
    if !hasHDir parent bindex then createPmfsFrom s parent perm n (bindex + 1) best
    else
      match sbrRdonly env s bindex with
      | .error e => .error e
      | .ok rdonly =>
        if rdonly || !perm bindex then createPmfsFrom s parent perm n (bindex + 1) best
        else
          match wbrBytes s bindex with
          | .error e => .error e
          | .ok b =>
            createPmfsFrom s parent perm n (bindex + 1) (if best.1 < b then (b, (bindex : Int)) else best)

/-- `au_wbr_create_pmfs` -/
def auWbrCreatePmfs (s : PolicySb) (dentry parent : Dinfo) : Except BrTrap (Int × PolicySb) :=
  match auWbrCreateTdp env s.union dentry parent with
  | .error e => .error e
  | .ok err =>
    let bstart := parent.diBstart
    let bend := auDbtaildir parent
    if err < 0 ∨ bstart = bend then .ok (err, s)
    else
      match auWbrCreateMfs A env s dentry parent with
      | .error e => .error e
      | .ok (e2, s) =>
        if e2 < 0 then .ok (err, s)
        else
          match wbrBytes s.union err.toNat with
          | .error e => .error e
          | .ok b =>
            let n := (bend + 1 - bstart).toNat
            let perm := if env.dirperm1 then fun b => env.hPerm b != 0 else fun _ => true
            -- With dirperm1 the first loop leaves `err` at a branch, and the second is not reached.
            match createPmfsFrom env s.union parent perm n bstart.toNat (b, err) with
            | .error e => .error e
            | .ok best => .ok (best.2, s)

/-- `AuWbrCreate` -/
def auWbrCreate (s : PolicySb) (dentry parent : Dinfo) (isdir : Bool) : Except BrTrap (Int × PolicySb) :=
  match s.wbrCreate with
  | .tdp =>
    match auWbrCreateTdp env s.union dentry parent with
    | .error e => .error e
    | .ok err => .ok (err, s)
  | .rr => auWbrCreateRr env s dentry parent isdir
  | .mfs | .mfsv => auWbrCreateMfs A env s dentry parent
  | .mfsrr | .mfsrrv => auWbrCreateMfsrr A env s dentry parent isdir
  | .pmfs | .pmfsv => auWbrCreatePmfs A env s dentry parent

/-! ## Changing the policy -/

/-- `au_wbr_create_init_mfs` -/
def auWbrCreateInitMfs (s : PolicySb) : PolicySb :=
  { s with wbrMfs := { s.wbrMfs with mfsJiffy := 0, mfsBindex := -EROFS } }

/-- `au_wbr_create_init_rr` -/
def auWbrCreateInitRr (s : PolicySb) : Except BrTrap PolicySb :=
  match auWbrBu env s.union (s.union.siBend + 1).toNat with
  | .error e => .error e
  | .ok err => .ok { s with wbrRrNext := -err }

/-- Opt_wbr_create of `au_opt_simple`: the policy, its seconds in jiffies, and its watermark. -/
def setWbrCreate (s : PolicySb) (create : WbrCreate) (expire watermark : Nat) : Except BrTrap PolicySb :=
  let s := { s with wbrCreate := create }
  let expired := { s with wbrMfs := { s.wbrMfs with mfsExpire := expire } }
  match create with
  | .tdp => .ok s
  | .rr => auWbrCreateInitRr env s
  | .mfs | .mfsv | .pmfs | .pmfsv => .ok (auWbrCreateInitMfs expired)
  | .mfsrr | .mfsrrv =>
    auWbrCreateInitRr env (auWbrCreateInitMfs
      { expired with wbrMfs := { expired.wbrMfs with mfsrrWatermark := watermark } })

end

end KernelPatches.Aufs
