/-
  aufs: the listing of a directory of the union (vdir.c).

  A listing is built in memory, in blocks of `AuSize_DEBLK` bytes, from the hidden directories of the
  branches, the topmost one first.  An entry is an inode number, a type, the length of the name and the
  name, and takes a multiple of the size of an inode number; a length of zero ends a block, and so does
  the lack of room for such a mark.  While a branch is read, the names listed and the names whited out
  are kept in hash lists, one pair of lists for each branch.

  * `appendDe`, `fillvdir`, `auDoReadVdir`  — building the listing of the branches;
  * `readVdir`, `copyVdir`, `auVdirInit`    — the copies an inode and its open files hold, and when
                                              they are made anew;
  * `seekVdir`, `auVdirFillDe`              — handing the entries out, from a position on.

  A hidden directory delivers its entries in chunks, one for each call of its `readdir`; a call that
  delivers nothing ends it.  Memory comes from a list of answers: `none` is a failed allocation, the
  others are the contents of what is got; a request the list has no answer for succeeds.
  `full_name_hash()` is any function.
-/
import KernelPatches.Aufs.Lookup
import KernelPatches.Lib.Buckets

namespace KernelPatches.Aufs

open KernelPatches.Lib

/-! ## Entries and blocks -/

/-- AuSize_DEBLK -/
def deblkSize : Nat := 512

/-- AuSize_NHASH -/
def nhashSize : Nat := 32

/-- What a listing says of an entry: `au_vdir_de`. -/
structure De where
  name : Name
  ino : Nat
  type : Nat
  deriving DecidableEq, Repr

/-- `struct au_vdir`: the blocks, how many there are, the block and the offset of `vd_last`. -/
structure Vdir where
  vdDeblk : Mem
  vdNblk : Nat
  lastI : Nat
  lastP : Nat
  vdVersion : Nat
  vdJiffy : Nat

/-- The answers to requests for memory. -/
abbrev Kmem := List (Option (Nat → UInt8))

def kmalloc : Kmem → Option (Nat → UInt8) × Kmem
  | [] => (some fun _ => 0, [])
  | r :: mem => (r, mem)

section Layout

variable (A : Arch)

/-- `sizeof(struct au_vdir_de)`, which is packed. -/
def deSize : Nat := inoSize A + 2

/-- `calc_size` -/
def calcSize (namelen : Nat) : Nat :=
  let sz := deSize A + namelen
  if sz % inoSize A ≠ 0 then sz + inoSize A - (sz + inoSize A) % inoSize A else sz

/-- `set_deblk_end`: the length of the name that would be at offset `p` of block `i` is zero. -/
def setDeblkEnd (m : Mem) (i p : Nat) : Option Mem :=
  if calcSize A 0 ≤ deblkSize - p then some (m.store i (p + inoSize A + 1) 1 0) else none

/-- `is_deblk_end` -/
def isDeblkEnd (m : Mem) (i p : Nat) : Bool :=
  if calcSize A 0 ≤ deblkSize - p then m i (p + inoSize A + 1) = 0 else true

/-- The entry at offset `p` of block `i`. -/
def readDe (m : Mem) (i p : Nat) : De :=
  ⟨m.copyOut i (p + deSize A) (m i (p + inoSize A + 1)).toNat, m.load i p (inoSize A),
    (m i (p + inoSize A)).toNat⟩

/-- An entry is written there. -/
def writeDe (m : Mem) (i p : Nat) (e : De) : Mem :=
  let m := m.store i p (inoSize A) e.ino
  let m := m.store i (p + inoSize A) 1 e.type
  let m := m.store i (p + inoSize A + 1) 1 e.name.length
  m.copyIn i (p + deSize A) e.name

/-- `append_deblk` -/
def appendDeblk (v : Vdir) (mem : Kmem) : Int × Vdir × Kmem :=
  let o := kmalloc mem
  if o.1.isNone then (negENOMEM, v, o.2)
  else
    let deblk := kmalloc o.2
    match deblk.1 with
    | none => (negENOMEM, v, deblk.2)
    | some bytes =>
      let i := v.vdNblk
      let m := Function.update v.vdDeblk i bytes
      let v := { v with vdDeblk := m, vdNblk := i + 1, lastI := i, lastP := 0 }
      match setDeblkEnd A m i 0 with
      | none => (-1, v, deblk.2)
      | some m => (0, { v with vdDeblk := m }, deblk.2)

/-- `alloc_vdir` -/
def allocVdir (mem : Kmem) : Except Int Vdir × Kmem :=
  let vdir := kmalloc mem
  if vdir.1.isNone then (.error negENOMEM, vdir.2)
  else
    let deblk := kmalloc vdir.2
    if deblk.1.isNone then (.error negENOMEM, deblk.2)
    else
      let a := appendDeblk A ⟨fun _ _ => 0, 0, 0, 0, 0, 0⟩ deblk.2
      (if a.1 = 0 then .ok a.2.1 else .error a.1, a.2.2)

/-- `reinit_vdir`, whose first block has room for the mark. -/
def reinitVdir (v : Vdir) : Vdir :=
  { v with
    vdNblk := if 1 < v.vdNblk then 1 else v.vdNblk
    vdDeblk := (setDeblkEnd A v.vdDeblk 0 0).getD v.vdDeblk
    vdVersion := 0, vdJiffy := 0, lastI := 0, lastP := 0 }

end Layout

/-! ## Hash lists -/

/-- A whited out name: `au_vdir_wh`. -/
structure Wh where
  name : Name
  bindex : Nat
  ino : Nat
  type : Nat
  deriving DecidableEq, Repr

/-- `au_name_hash` -/
def auNameHash (fullNameHash : Name → Nat) (name : Name) : Nat := fullNameHash name % nhashSize

/-- `test_known` -/
def testKnown (fullNameHash : Name → Nat) (delist : Buckets Name) (name : Name) : Bool :=
  delist.known (auNameHash fullNameHash) id name

/-- `au_nhash_test_known_wh` -/
def auNhashTestKnownWh (fullNameHash : Name → Nat) (whlist : Buckets Wh) (name : Name) : Bool :=
  whlist.known (auNameHash fullNameHash) Wh.name name

/-- `au_nhash_append_wh` -/
def auNhashAppendWh (fullNameHash : Name → Nat) (whlist : Buckets Wh) (wh : Wh) (mem : Kmem) :
    Int × Buckets Wh × Kmem :=
  let p := kmalloc mem
  if p.1.isNone then (negENOMEM, whlist, p.2)
  else (0, whlist.add (auNameHash fullNameHash) Wh.name wh, p.2)

/-! ## Building a listing -/

/-- An entry as a hidden directory delivers it, and the directory as it is opened: the result of
    seeking to its start, and what each call of its `readdir` delivers and returns. -/
structure DirEnt where
  name : Name
  ino : Nat
  type : Nat
  deriving DecidableEq, Repr

structure HFile where
  llseek : Int
  chunks : List (List DirEnt × Int)

/-- A function handed to `vfsub_readdir`, with the parts of its argument that matter to the loops: the
    error, whether it was called, and how both are cleared. -/
structure Filldir (σ : Type) where
  call : DirEnt → σ → Except Trap σ
  err : σ → Int
  called : σ → Bool
  clear : σ → σ

section Readdir

variable {σ : Type} (f : Filldir σ)

/-- `vfsub_readdir`, for one chunk: its entries, up to an error. -/
def vfsubReaddir : List DirEnt → σ → Except Trap σ
  | [], arg => .ok arg
  | e :: es, arg =>
    match f.call e arg with
    | .error t => .error t
    | .ok arg => if f.err arg ≠ 0 then .ok arg else vfsubReaddir es arg

/-- The loop around it: `do { … } while (!err && CALLED)`. -/
def readAll : List (List DirEnt × Int) → σ → Except Trap (Int × σ)
  | [], arg => .ok (0, f.clear arg)
  | (es, r) :: chunks, arg =>
    match vfsubReaddir f es (f.clear arg) with
    | .error t => .error t
    | .ok arg =>
      let err := if 0 ≤ r then f.err arg else r
      if err = 0 ∧ f.called arg then readAll chunks arg else .ok (err, arg)

end Readdir

/-- `struct fillvdir_arg`, with the memory and the inode numbers it draws on. -/
structure FillvdirArg where
  vdir : Vdir
  delist : Nat → Buckets Name
  whlist : Nat → Buckets Wh
  bindex : Nat
  called : Bool
  shwh : Bool
  err : Int
  sb : Sbinfo
  mem : Kmem

section Fill

variable (A : Arch) (fullNameHash : Name → Nat) (jiffies : Nat)

/-- `append_de`.  The list holds the name, where the source has a pointer to it in the block. -/
def appendDe (v : Vdir) (e : De) (delist : Buckets Name) (mem : Kmem) :
    Int × Vdir × Buckets Name × Kmem :=
  let sz := calcSize A e.name.length
  let room := if deblkSize - v.lastP < sz then appendDeblk A v mem else (0, v, mem)
  if room.1 ≠ 0 then (room.1, room.2.1, delist, room.2.2)
  else
    let v := room.2.1
    let dehstr := kmalloc room.2.2
    if dehstr.1.isNone then (negENOMEM, v, delist, dehstr.2)
    else
      let delist := delist.add (auNameHash fullNameHash) id e.name
      let m := writeDe A v.vdDeblk v.lastI v.lastP e
      let v := { v with vdDeblk := m, lastP := v.lastP + sz }
      match setDeblkEnd A m v.lastI v.lastP with
      | some m => (0, { v with vdDeblk := m }, delist, dehstr.2)
      | none =>
        let a := appendDeblk A v dehstr.2
        (a.1, a.2.1, delist, a.2.2)

/-- `namelen <= AUFS_WH_PFX_LEN || memcmp(name, AUFS_WH_PFX, AUFS_WH_PFX_LEN)`, negated. -/
def isWhName (name : Name) : Bool := whPfx.length < name.length && whPfx.isPrefixOf name

/-- `fillvdir`, whose result is `arg.err`. -/
def fillvdir (e : DirEnt) (arg : FillvdirArg) : Except Trap FillvdirArg :=
  let bend := arg.bindex
  let arg := { arg with err := 0, called := true }
  let done := fun (arg : FillvdirArg) =>
    if arg.err = 0 then { arg with vdir := { arg.vdir with vdJiffy := jiffies } } else arg
  if !isWhName e.name then
    if (List.range bend).any fun bindex => testKnown fullNameHash (arg.delist bindex) e.name ||
        auNhashTestKnownWh fullNameHash (arg.whlist bindex) e.name then .ok (done arg)
    else
      match auIno A bend e.ino arg.sb with
      | .error t => .error t
      | .ok (err, ino, sb) =>
        let arg := { arg with err := err, sb := sb }
        if arg.err ≠ 0 then .ok (done arg)
        else
          let a := appendDe A fullNameHash arg.vdir ⟨e.name, ino, e.type⟩ (arg.delist bend) arg.mem
          .ok (done { arg with
            err := a.1, vdir := a.2.1, delist := Function.update arg.delist bend a.2.2.1, mem := a.2.2.2 })
  else
    let name := e.name.drop whPfx.length
    if (List.range bend).any fun _ => auNhashTestKnownWh fullNameHash (arg.whlist bend) name then
      .ok (done arg)
    else
      match (if arg.shwh then auIno A bend e.ino arg.sb else .ok (0, 1, arg.sb)) with
      | .error t => .error t
      | .ok (err, ino, sb) =>
        let arg := { arg with err := err, sb := sb }
        if arg.err ≠ 0 then .ok (done arg)
        else
          let a := auNhashAppendWh fullNameHash (arg.whlist bend) ⟨name, bend, ino, e.type⟩ arg.mem
          .ok (done { arg with
            err := a.1, whlist := Function.update arg.whlist bend a.2.1, mem := a.2.2 })

/-- `fillvdir`, for `vfsub_readdir`. -/
def fillvdirFilldir : Filldir FillvdirArg where
  call := fillvdir A fullNameHash jiffies
  err := FillvdirArg.err
  called := FillvdirArg.called
  clear arg := { arg with err := 0, called := false }

/-- The loop over the branches, `count` of them from `bindex` on. -/
def readBranches (hFptr : Nat → Option HFile) : Nat → Nat → FillvdirArg →
    Except Trap (Int × FillvdirArg)
  | 0, _, arg => .ok (0, arg)
  | count + 1, bindex, arg =>
    match hFptr bindex with
    | none => readBranches hFptr count (bindex + 1) arg
    | some hf =>
      if hf.llseek ≠ 0 then .ok (hf.llseek, arg)
      else
        match readAll (fillvdirFilldir A fullNameHash jiffies) hf.chunks { arg with bindex := bindex } with
        | .error t => .error t
        | .ok (err, arg) =>
          if err ≠ 0 then .ok (err, arg) else readBranches hFptr count (bindex + 1) arg

/-- The whiteouts of a branch are listed, in the order of the hash lists. -/
def appendWhs (bindex : Nat) : List Wh → FillvdirArg → Int × FillvdirArg
  | [], arg => (0, arg)
  | wh :: whs, arg =>
    let a := appendDe A fullNameHash arg.vdir ⟨whPfx ++ wh.name, wh.ino, wh.type⟩ (arg.delist bindex)
      arg.mem
    let arg := { arg with
      vdir := a.2.1, delist := Function.update arg.delist bindex a.2.2.1, mem := a.2.2.2 }
    if a.1 ≠ 0 then (a.1, arg) else appendWhs bindex whs arg

/-- The loop of `au_handle_shwh`. -/
def handleShwh : Nat → Nat → FillvdirArg → Int × FillvdirArg
  | 0, _, arg => (0, arg)
  | count + 1, bindex, arg =>
    let whs := (List.range nhashSize).flatMap (arg.whlist bindex)
    let a := appendWhs A fullNameHash bindex whs arg
    if a.1 ≠ 0 then a else handleShwh count (bindex + 1) a.2

/-- `au_handle_shwh` -/
def auHandleShwh (bstart bend : Nat) (arg : FillvdirArg) : Int × FillvdirArg :=
  let o := kmalloc arg.mem
  let arg := { arg with mem := o.2 }
  if o.1.isNone then (negENOMEM, arg) else handleShwh A fullNameHash (bend + 1 - bstart) bstart arg

/-- What `au_do_read_vdir` reads: the range of an open directory, and its hidden files. -/
structure DirFile where
  fbstart : Nat
  fbend : Nat
  hFptr : Nat → Option HFile

/-- `au_do_read_vdir`: the error, the listing, and what was drawn on. -/
def auDoReadVdir (shwh : Bool) (file : DirFile) (v : Vdir) (sb : Sbinfo) (mem : Kmem) :
    Except Trap (Int × Vdir × Sbinfo × Kmem) :=
  let delist := kmalloc mem
  if delist.1.isNone then .ok (negENOMEM, v, sb, delist.2)
  else
    let whlist := kmalloc delist.2
    if whlist.1.isNone then .ok (negENOMEM, v, sb, whlist.2)
    else
      let arg : FillvdirArg := ⟨v, fun _ => .empty, fun _ => .empty, 0, false, shwh, 0, sb, whlist.2⟩
      match readBranches A fullNameHash jiffies file.hFptr (file.fbend + 1 - file.fbstart) file.fbstart
        arg with
      | .error t => .error t
      | .ok (err, arg) =>
        let r := if err = 0 ∧ shwh then auHandleShwh A fullNameHash file.fbstart file.fbend arg
          else (err, arg)
        .ok (r.1, r.2.vdir, r.2.sb, r.2.mem)

end Fill

/-! ## The copies of a listing -/

/-- The loop of `copy_vdir` over the blocks `i` to `n - 1`, `count` of them: the blocks, and whether all
    of them are copied. -/
def copyDeblks (src : Mem) : Nat → Nat → Mem → Kmem → Bool × Mem × Kmem
  | 0, _, tgt, mem => (true, tgt, mem)
  | count + 1, i, tgt, mem =>
    let p := kmalloc mem
    if p.1.isNone then (false, tgt, p.2)
    else copyDeblks src count (i + 1) (Function.update tgt i (src i)) p.2

/-- `copy_vdir` -/
def copyVdir (A : Arch) (tgt src : Vdir) (mem : Kmem) : Int × Vdir × Kmem :=
  let p := if tgt.vdNblk < src.vdNblk then kmalloc mem else (some fun _ => 0, mem)
  if p.1.isNone then (negENOMEM, reinitVdir A tgt, p.2)
  else
    let tgt := { tgt with
      vdNblk := src.vdNblk, vdDeblk := Function.update tgt.vdDeblk 0 (src.vdDeblk 0),
      vdVersion := src.vdVersion, vdJiffy := src.vdJiffy }
    let c := copyDeblks src.vdDeblk (src.vdNblk - 1) 1 tgt.vdDeblk p.2
    let tgt := { tgt with vdDeblk := c.2.1 }
    if c.1 then (0, tgt, c.2.2) else (negENOMEM, reinitVdir A tgt, c.2.2)

/-- `time_after(a, b)`: the difference, as a signed number, is positive. -/
def timeAfter (A : Arch) (a b : Nat) : Bool :=
  let d := (a + 2 ^ A.bitsPerLong - b % 2 ^ A.bitsPerLong) % 2 ^ A.bitsPerLong
  0 < d && d ≤ 2 ^ (A.bitsPerLong - 1)

/-- What the listings of a directory need of its inode, and of the file system: `i_version`,
    `au_ivdir()` and `si_rdcache`. -/
structure DirInode where
  iVersion : Nat
  ivdir : Option Vdir
  siRdcache : Nat

/-- An open directory: `f_pos`, `f_version`, `au_fvdir_cache()`. -/
structure RdFile where
  fPos : Nat
  fVersion : Nat
  fvdirCache : Option Vdir

section Read

variable (A : Arch) (fullNameHash : Name → Nat) (jiffies : Nat)

/-- A listing that was read to the end.  `vd_version` is narrower than `i_version` may be. -/
def completed (vdir : Vdir) (inode : DirInode) : Vdir :=
  { vdir with vdVersion := inode.iVersion % 2 ^ A.bitsPerLong, lastI := 0, lastP := 0 }

/-- `read_vdir` -/
def readVdir (shwh : Bool) (file : DirFile) (mayRead : Bool) (inode : DirInode) (sb : Sbinfo)
    (mem : Kmem) : Except Trap (Int × DirInode × Sbinfo × Kmem) :=
  match inode.ivdir with
  | none =>
    match allocVdir A mem with
    | (.error err, mem) => .ok (err, inode, sb, mem)
    | (.ok vdir, mem) =>
      match auDoReadVdir A fullNameHash jiffies shwh file vdir sb mem with
      | .error t => .error t
      | .ok (err, vdir, sb, mem) =>
        if err = 0 then
          .ok (0, { inode with ivdir := some (completed A vdir inode) }, sb, mem)
        else .ok (err, inode, sb, mem)
  | some vdir =>
    if mayRead && (inode.iVersion != vdir.vdVersion ||
        timeAfter A jiffies (vdir.vdJiffy + inode.siRdcache)) then
      match auDoReadVdir A fullNameHash jiffies shwh file (reinitVdir A vdir) sb mem with
      | .error t => .error t
      | .ok (err, vdir, sb, mem) =>
        let vdir := if err = 0 then completed A vdir inode else vdir
        .ok (err, { inode with ivdir := some vdir }, sb, mem)
    else .ok (0, inode, sb, mem)

/-- The rest of `au_vdir_init`: the inode's listing is copied to `vdirCache`, which a file that has no
    copy yet is given only if it is complete. -/
def copyToFile (vdirCache src : Vdir) (inode : DirInode) (f : RdFile) (mem : Kmem) :
    Int × RdFile × Kmem :=
  let c := copyVdir A vdirCache src mem
  if c.1 = 0 then (0, { f with fVersion := inode.iVersion, fvdirCache := some c.2.1 }, c.2.2)
  else (c.1, { f with fvdirCache := f.fvdirCache.map fun _ => c.2.1 }, c.2.2)

/-- `au_vdir_init` -/
def auVdirInit (shwh : Bool) (file : DirFile) (f : RdFile) (inode : DirInode) (sb : Sbinfo) (mem : Kmem) :
    Except Trap (Int × RdFile × DirInode × Sbinfo × Kmem) :=
  match readVdir A fullNameHash jiffies shwh file (f.fPos == 0) inode sb mem with
  | .error t => .error t
  | .ok (err, inode, sb, mem) =>
    if err ≠ 0 then .ok (err, f, inode, sb, mem)
    else
      match inode.ivdir, f.fvdirCache with
      | none, _ => .error .wild
      | some src, none =>
        match allocVdir A mem with
        | (.error err, mem) => .ok (err, f, inode, sb, mem)
        | (.ok vdirCache, mem) =>
          let c := copyToFile A vdirCache src inode f mem
          .ok (c.1, c.2.1, inode, sb, c.2.2)
      | some src, some vdirCache =>
        if f.fPos = 0 ∧ vdirCache.vdVersion ≠ f.fVersion then
          let c := copyToFile A (reinitVdir A vdirCache) src inode f mem
          .ok (c.1, c.2.1, inode, sb, c.2.2)
        else .ok (0, f, inode, sb, mem)

end Read

/-! ## Handing out the entries -/

section Seek

variable (A : Arch)

/-- `calc_offset` -/
def calcOffset (v : Vdir) : Nat := v.lastP + deblkSize * v.lastI

/-- The walk of `seek_vdir` through block `i`, from offset `p` of it on: where it stops. -/
def seekBlock (m : Mem) (i fPos : Nat) : Nat → Nat → Nat
  | 0, p => p
  | fuel + 1, p =>
    if !isDeblkEnd A m i p && i * deblkSize + p < fPos then
      seekBlock m i fPos fuel (p + calcSize A (readDe A m i p).name.length)
    else p

/-- The loop of `seek_vdir` over the blocks, `count` of them from `i` on. -/
def seekBlocks (fPos : Nat) : Nat → Nat → Vdir → Bool × Vdir
  | 0, _, v => (false, v)
  | count + 1, i, v =>
    let p := seekBlock A v.vdDeblk i fPos deblkSize 0
    if !isDeblkEnd A v.vdDeblk i p then (true, { v with lastI := i, lastP := p })
    else seekBlocks fPos count (i + 1) v

/-- `i = file->f_pos / AuSize_DEBLK`, an `int`. -/
def seekIndex (fPos : Nat) : Int := wrap32 (fPos / deblkSize : Nat)

/-- `seek_vdir`.  There is no block with a negative index. -/
def seekVdir (fPos : Nat) (v : Vdir) : Except Trap (Bool × Vdir) :=
  if fPos = calcOffset v then .ok (true, v)
  else
    let v := { v with lastI := 0, lastP := 0 }
    if fPos = 0 then .ok (true, v)
    else
      let i := seekIndex fPos
      if v.vdNblk ≤ i then .ok (false, v)
      else if i < 0 then .error .wild
      else .ok (seekBlocks A fPos (v.vdNblk - i.toNat) i.toNat v)

/-- The loops of `au_vdir_fill_de`, with a `filldir` that takes `n` entries and refuses the next one.
    What it takes, with the offsets; whether it refused one; `vd_last` and `f_pos` at the end. -/
def fillDe : Nat → Nat → Vdir → Nat → List (De × Nat) × Bool × Vdir × Nat
  | 0, _, v, fPos => ([], false, v, fPos)
  | fuel + 1, n, v, fPos =>
    if isDeblkEnd A v.vdDeblk v.lastI v.lastP then
      if v.lastI < v.vdNblk - 1 then
        fillDe fuel n { v with lastI := v.lastI + 1, lastP := 0 } (deblkSize * (v.lastI + 1))
      else ([], false, v, fPos)
    else
      match n with
      | 0 => ([], true, v, fPos)
      | n + 1 =>
        let de := readDe A v.vdDeblk v.lastI v.lastP
        let l := calcSize A de.name.length
        let r := fillDe fuel n { v with lastP := v.lastP + l } (fPos + l)
        ((de, fPos) :: r.1, r.2)

/-- `au_vdir_fill_de`.  An entry takes a byte of its block at least. -/
def auVdirFillDe (n : Nat) (v : Vdir) (fPos : Nat) :
    Except Trap (List (De × Nat) × Bool × Vdir × Nat) :=
  match seekVdir A fPos v with
  | .error t => .error t
  | .ok s =>
    .ok (if !s.1 then ([], false, s.2, fPos) else fillDe A (s.2.vdNblk * (deblkSize + 1)) n s.2 fPos)

end Seek

end KernelPatches.Aufs
