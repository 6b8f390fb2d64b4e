/-
  aufs: the inodes of the union, and which one a name gets.

  An inode of the union stands for one file: for the HIDDEN INODES of it, at most one on each branch.
  When a name has been looked up, `au_new_inode` finds the inode for it by a number.  The number is the
  one the xino file of the topmost branch has for the hidden inode there, or else a new one.  What the
  inode cache has under that number is then the wanted inode only if the hidden inode is one of its own.

  * `reval_inode`  — looks for the hidden inode in the cached inode;
  * `set_inode`    — fills a new inode from the dentry;
  * `au_refresh_hinode` — moves the hidden inodes of a cached inode to the places their branches have now,
    and adds those of the dentry.

  Hidden inodes are known by their addresses.  An inode in the cache has a user besides the call which is
  modelled, so that its `iput` leaves it there; an inode the call itself has made, and could not fill, has
  none, and goes with its last `iput`.  `none` is a call that does not come back.
-/
import KernelPatches.Aufs.Branch
import KernelPatches.Aufs.Xino

namespace KernelPatches.Aufs

/-! ## Inodes -/

def ESTALE : Int := 116

/-- `S_IFMT` -/
def sIfmt : Nat := 0xf000
def sIflnk : Nat := 0xa000
def sIfblk : Nat := 0x6000
def sIfchr : Nat := 0x2000
def sIfifo : Nat := 0x1000
def sIfsock : Nat := 0xc000

/-- `struct au_iinfo` -/
structure IInfo where
  iiBstart : Int
  iiBend : Int
  iiHinode : Nat → AuHinode
  iiGeneration : Nat

/-- An inode of the union: `is_bad_inode`, `IS_DEADDIR`, and its `au_iinfo`. -/
structure Inode where
  bad : Bool
  dead : Bool
  iinfo : IInfo

/-- The numbers and the modes of the hidden inodes, by address. -/
structure Lower where
  iIno : Nat → Nat
  iMode : Nat → Nat

/-- A dentry that was looked up and is positive: its `au_dinfo`, the addresses of the inodes of its hidden
    dentries, the number of the parent directory, and its generation. -/
structure Dentry where
  dinfo : Dinfo
  addr : Nat → Nat
  parentIno : Nat
  digen : Nat
  bstart : Nat
  start : dinfo.diBstart = bstart
  positive : ∃ hd, dinfo.hDptr bstart = some hd ∧ hd.inode.isSome = true
  inRange : dinfo.diBstart ≤ dinfo.diBend ∧ dinfo.diBstart ≤ auDbtail dinfo ∧
    dinfo.diBstart ≤ auDbtaildir dinfo

/-- The super block: the inode numbers, the branches, the generation, the inode cache, and whether the
    allocations to come succeed. -/
structure ISuper where
  sb : Sbinfo
  br : UnionSb
  siGeneration : Nat
  icache : Nat → Option Inode
  allocs : List Bool

/-- The inode of the hidden dentry on `bindex`, if there is such a dentry. -/
def Dentry.hInode (d : Dentry) (bindex : Nat) : Option (Option Nat) :=
  (d.dinfo.hDptr bindex).map fun hd => hd.inode.map fun _ => d.addr bindex

/-- The topmost hidden inode. -/
def Dentry.top (d : Dentry) : Nat := d.addr d.bstart

/-- An allocation, which succeeds where no answers are left. -/
def ISuper.allocate (s : ISuper) : Bool × ISuper :=
  match s.allocs with
  | [] => (true, s)
  | ok :: allocs => (ok, { s with allocs := allocs })

/-- `au_iinfo_init` -/
def auIinfoInit (s : ISuper) : IInfo := ⟨-1, -1, fun _ => ⟨none, -1⟩, s.siGeneration⟩

/-- `au_set_h_iptr` of an inode numbered `ino`, an error of the xino file being only reported. -/
def auSetHIptr (A : Arch) (lower : Lower) (ino bindex : Nat) (hInode : Option Nat) (ii : IInfo)
    (s : ISuper) : Option (IInfo × ISuper) :=
  match hInode with
  | none =>
    let hi := { ii.iiHinode bindex with hiInode := none }
    some ({ ii with iiHinode := Function.update ii.iiHinode bindex hi }, s)
  | some h =>
    match auSbr s.br bindex with
    | .error _ => none
    | .ok br =>
      some ({ ii with iiHinode := Function.update ii.iiHinode bindex ⟨some h, br.brId⟩ },
        { s with sb := (auXinoWrite A bindex (lower.iIno h) ino s.sb).2 })

/-! ## set_inode -/

/-- The loop of `set_inode`, over `count` branches from `bindex` on. -/
def setInodeFrom (A : Arch) (lower : Lower) (ino : Nat) (d : Dentry) :
    Nat → Nat → IInfo → ISuper → Option (IInfo × ISuper)
  | 0, _, ii, s => some (ii, s)
  | count + 1, bindex, ii, s =>
    match d.hInode bindex with
    | none => setInodeFrom A lower ino d count (bindex + 1) ii s
    | some hInode =>
      match auSetHIptr A lower ino bindex hInode ii s with
      | none => none
      | some (ii, s) => setInodeFrom A lower ino d count (bindex + 1) ii s

/-- `set_inode` -/
def setInode (A : Arch) (lower : Lower) (ino : Nat) (d : Dentry) (ii : IInfo) (s : ISuper) :
    Option (Int × IInfo × ISuper) :=
  let type := lower.iMode d.top &&& sIfmt
  let fill := fun (btail : Int) =>
    match setInodeFrom A lower ino d (btail + 1 - d.bstart).toNat d.bstart
        { ii with iiBstart := d.bstart, iiBend := btail } s with
    | none => none
    | some (ii, s) => some (0, ii, s)
  if type = sIfdir then fill (auDbtaildir d.dinfo)
  else if type = sIfreg ∨ type = sIflnk ∨ type = sIfblk ∨ type = sIfchr ∨ type = sIfifo ∨
      type = sIfsock then
    fill (auDbtail d.dinfo)
  else some (- EIO, ii, s)

/-! ## au_refresh_hinode -/

/-- The loop of `au_refresh_hinode_self`: a hidden inode goes to the index its branch has now, and the one
    it displaces is looked at in its old place. -/
def refreshSelfFrom (br : UnionSb) : Nat → Nat → IInfo → Option IInfo
  | 0, _, _ => none
  | fuel + 1, bindex, ii =>
    if ii.iiBend < bindex then some ii
    else
      let p := ii.iiHinode bindex
      if p.hiInode = none then refreshSelfFrom br fuel (bindex + 1) ii
      else
        match auBrIndex br p.hiId with
        | .error _ => none
        | .ok newBindex =>
          if newBindex = bindex then refreshSelfFrom br fuel (bindex + 1) ii
          else if newBindex < 0 then
            refreshSelfFrom br fuel (bindex + 1)
              { ii with iiHinode := Function.update ii.iiHinode bindex { p with hiInode := none } }
          else
            let tmp := ii.iiHinode newBindex.toNat
            let ii := { ii with
              iiBstart := if newBindex < ii.iiBstart then newBindex else ii.iiBstart
              iiBend := if ii.iiBend < newBindex then newBindex else ii.iiBend
              iiHinode :=
                Function.update (Function.update ii.iiHinode newBindex.toNat p) bindex tmp }
            if tmp.hiInode.isSome then refreshSelfFrom br fuel bindex ii
            else refreshSelfFrom br fuel (bindex + 1) ii

/-- `au_update_brange` without `do_put_zero`: the first and the last index in use. -/
def auUpdateBrange (ii : IInfo) : IInfo :=
  if ii.iiBstart < 0 then ii
  else
    let used := (List.range (ii.iiBend + 1).toNat).filter fun b => (ii.iiHinode b).hiInode.isSome
    match used.head?, used.getLast? with
    | some bstart, some bend => { ii with iiBstart := bstart, iiBend := bend }
    | _, _ => { ii with iiBstart := -1, iiBend := -1 }

/-- `au_refresh_hinode_self` -/
def auRefreshHinodeSelf (fuel : Nat) (ii : IInfo) (s : ISuper) : Option (Int × IInfo × ISuper) :=
  let p := s.allocate
  if !p.1 then some (negENOMEM, ii, p.2)
  else
    match refreshSelfFrom s.br fuel ii.iiBstart.toNat ii with
    | none => none
    | some ii => some (0, { auUpdateBrange ii with iiGeneration := s.siGeneration }, p.2)

/-- `au_h_iptr`, of an index in the range of the inode. -/
def IInfo.hIptr (ii : IInfo) (bindex : Nat) : Option Nat :=
  if ii.iiBstart ≤ bindex ∧ bindex ≤ ii.iiBend then (ii.iiHinode bindex).hiInode else none

/-- The loop of `au_refresh_hinode`, over `count` branches of the dentry from `bindex` on. -/
def refreshFrom (A : Arch) (lower : Lower) (ino : Nat) (d : Dentry) :
    Nat → Nat → IInfo → ISuper → Option (Int × IInfo × ISuper)
  | 0, _, ii, s => some (0, ii, s)
  | count + 1, bindex, ii, s =>
    match d.hInode bindex with
    | none => refreshFrom A lower ino d count (bindex + 1) ii s
    | some none => refreshFrom A lower ino d count (bindex + 1) ii s
    | some (some hd) =>
      let hi := ii.hIptr bindex
      if hi = some hd then refreshFrom A lower ino d count (bindex + 1) ii s
      else if hi ≠ none then some (-ESTALE, ii, s)
      else
        let ii := { ii with
          iiBstart := if bindex < ii.iiBstart then bindex else ii.iiBstart
          iiBend := if ii.iiBend < bindex then bindex else ii.iiBend }
        match auSetHIptr A lower ino bindex (some hd) ii s with
        | none => none
        | some (ii, s) => refreshFrom A lower ino d count (bindex + 1) ii s

/-- `au_refresh_hinode` -/
def auRefreshHinode (A : Arch) (lower : Lower) (fuel ino : Nat) (d : Dentry) (ii : IInfo) (s : ISuper) :
    Option (Int × IInfo × ISuper) :=
  match auRefreshHinodeSelf fuel ii s with
  | none => none
  | some (err, ii, s) =>
    if err ≠ 0 then some (err, ii, s)
    else
      match refreshFrom A lower ino d (d.dinfo.diBend + 1 - d.bstart).toNat d.bstart ii s with
      | none => none
      | some (err, ii, s) =>
        let ii := auUpdateBrange ii
        if err ≠ 0 then some (err, ii, s)
        else some (0, { ii with iiGeneration := s.siGeneration }, s)

/-! ## au_new_inode -/

/-- The loop of `reval_inode`: is the hidden inode one of those of the inode? -/
def matchHinode (ii : IInfo) (hDinode : Nat) : Bool :=
  (List.range' ii.iiBstart.toNat (ii.iiBend + 1 - ii.iiBstart).toNat).any fun b =>
    (ii.iiHinode b).hiInode = some hDinode

/-- `reval_inode`: the error, `*matched`, the inode and the super block. -/
def revalInode (A : Arch) (lower : Lower) (fuel ino : Nat) (d : Dentry) (inode : Inode) (s : ISuper) :
    Option (Int × Bool × Inode × ISuper) :=
  if ino = d.parentIno then some (- EIO, false, inode, s)
  else if inode.dead then some (- EIO, false, inode, s)
  -- ii_hinode has no place for an index below zero
  else if inode.iinfo.iiBstart < 0 then none
  else if matchHinode inode.iinfo d.top then
    if inode.iinfo.iiGeneration ≠ d.digen then
      match auRefreshHinode A lower fuel ino d inode.iinfo s with
      | none => none
      | some (err, ii, s) => some (err, true, { inode with iinfo := ii }, s)
    else some (0, true, inode, s)
  else some (0, false, inode, s)

/-- One round of `au_new_inode` is over: with its result, or with a number that is of no use. -/
inductive InoRound where
  | done (ret : Except Int Nat) (s : ISuper)
  | newIno (s : ISuper)

/-- The entry of the xino file is cleared for another number. -/
def forgetIno (A : Arch) (lower : Lower) (d : Dentry) (s : ISuper) : InoRound :=
  let w := auXinoWrite0 A d.bstart (lower.iIno d.top) 0 s.sb
  if w.1 = 0 then .newIno { s with sb := w.2 } else .done (.error w.1) { s with sb := w.2 }

/-- One round of `au_new_inode`, with the number `ino`. -/
def newInodeRound (A : Arch) (lower : Lower) (fuel : Nat) (d : Dentry) (mustNew : Bool) (ino : Nat)
    (s : ISuper) : Option InoRound :=
  match s.icache ino with
  | none =>
    -- iget_locked makes an inode, and read_inode its au_iinfo
    let i := s.allocate
    let r := i.2.allocate
    if !i.1 then some (.done (.error negENOMEM) i.2)
    else if !r.1 then some (.done (.error negENOMEM) r.2)
    else
      match setInode A lower ino d (auIinfoInit s) r.2 with
      | none => none
      | some (err, ii, s) =>
        if err = 0 then
          some (.done (.ok ino)
            { s with icache := Function.update s.icache ino (some ⟨false, false, ii⟩) })
        else some (.done (.error err) s)
  | some inode =>
    if inode.bad then some (.done (.error negENOMEM) s)
    else if mustNew then some (forgetIno A lower d s)
    else
      match revalInode A lower fuel ino d inode s with
      | none => none
      | some (err, matched, inode, s) =>
        let s := { s with icache := Function.update s.icache ino (some inode) }
        if err = 0 then some (.done (.ok ino) s)
        else if matched then some (.done (.error err) s)
        else some (forgetIno A lower d s)

/-- The number for a round: the one of the xino file, or a new one, zero if there is none. -/
def pickIno (A : Arch) (xinoe : Nat) (s : ISuper) : Option (Nat × ISuper) :=
  if xinoe ≠ 0 then some (xinoe, s)
  else
    match auXinoNewIno A s.sb with
    | .error _ => none
    | .ok (ino, sb) => some (ino, { s with sb := sb })

/-- The rounds of `au_new_inode`, from `new_ino` on. -/
def newInodeFrom (A : Arch) (lower : Lower) (d : Dentry) (mustNew : Bool) :
    Nat → Nat → ISuper → Option (Except Int Nat × ISuper)
  | 0, _, _ => none
  | fuel + 1, xinoe, s =>
    match pickIno A xinoe s with
    | none => none
    | some (ino, s) =>
      if ino = 0 then some (.error (- EIO), s)
      else
        match newInodeRound A lower fuel d mustNew ino s with
        | none => none
        | some (.done ret s) => some (ret, s)
        | some (.newIno s) => newInodeFrom A lower d mustNew fuel 0 s

/-- `au_new_inode`: the number of the inode, which is the one in the cache. -/
def auNewInode (A : Arch) (lower : Lower) (fuel : Nat) (d : Dentry) (mustNew : Bool) (s : ISuper) :
    Option (Except Int Nat × ISuper) :=
  let r := auXinoRead A d.bstart (lower.iIno d.top) s.sb
  if r.1 ≠ 0 then some (.error r.1, { s with sb := r.2.2 })
  else newInodeFrom A lower d mustNew fuel r.2.1 { s with sb := r.2.2 }

end KernelPatches.Aufs
