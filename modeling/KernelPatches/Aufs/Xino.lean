/-
  aufs: inode numbers of the union, and where they are kept.

  Every branch has a XINO FILE which maps the inode numbers of the branch to those of the union:
  entry `h_ino` holds the union's number, zero for none; branches on one file system share the file.
  Which numbers are taken is a BITMAP.  One page of it is in memory (`si_xib_buf`, the page with index
  `si_xib_last_pindex`), the others are in the xib file, and the page in memory is written back when
  another one is wanted (`xib_pindex`).

  The model follows `xino.c` function by function.  The lower file systems answer through lists, one
  answer for each request they are sent, in the order of the requests: `xibIo` the transfers of the
  xib file, `io` all other requests.

  * a request of `n` bytes answered with `r` transfers `min r n` bytes and returns that number, or
    returns `r` and transfers nothing if `r` is negative;
  * `-EAGAIN` and `-EINTR` are asked again, as the code does;
  * creating a file or getting a page of memory succeeds unless its answer is negative;
  * where no answers are left everything succeeds, so that `[]` means no failures.

  `BUG()` and an access outside of the page buffer are no result but a `Trap`.
-/
import KernelPatches.Arch
import KernelPatches.Lib.Files

namespace KernelPatches.Aufs

open KernelPatches.Lib

/-! ## Constants -/

def EINTR : Int := 4
def EIO : Int := 5
def EAGAIN : Int := 11
def EFBIG : Int := 27

/-- AUFS_FIRST_INO -/
def firstIno : Nat := 11

/-- `page_bits` -/
def pageBits : Nat := pageSize * 8

@[simp] theorem pageBits_eq : pageBits = 32768 := rfl

/-- Au_LOFF_MAX -/
def loffMax : Nat := 2 ^ 63 - 1

/-- `sizeof(ino_t)`, which is also the size of an `au_xino_entry` and of a pointer. -/
def inoSize (A : Arch) : Nat := A.bitsPerLong / 8

theorem inoSize_eq (A : Arch) : inoSize A = 4 ∨ inoSize A = 8 := by
  cases A
  · exact Or.inl rfl
  · exact Or.inr rfl

theorem inoSize_pow (A : Arch) : 256 ^ inoSize A = 2 ^ A.bitsPerLong := by
  cases A <;> rfl

/-- `int` arithmetic wraps. -/
def wrap32 (x : Int) : Int := (x + 2 ^ 31) % 2 ^ 32 - 2 ^ 31

/-! ## State -/

/-- What the inode numbers need of an `au_branch`: the branch's file system and its xino file. -/
structure XinoBr where
  brSb : Nat
  xiFile : Nat
  deriving DecidableEq, Repr

/-- The part of `au_sbinfo` the inode numbers live in, and the answers to come.  `uniq` are the
    numbers `iunique()` is going to give. -/
structure Sbinfo where
  xino : Bool
  siBend : Nat
  siBranch : Nat → XinoBr
  xinoFiles : Nat → File
  siXib : File
  siXibBuf : Nat → UInt8
  siXibLastPindex : Nat
  siXibNextBit : Int
  uniq : Nat → Nat
  io : List Int
  xibIo : List Int

/-- What ends the kernel. -/
inductive Trap where
  | bug
  | wild
  deriving DecidableEq, Repr

/-! ## Transfers -/

/-- The answer to a request of `n` bytes, the ones to be asked again left out. -/
def answer (n : Nat) : List Int → Int × List Int
  | [] => (n, [])
  | r :: io => if r = -EAGAIN ∨ r = -EINTR then answer n io else (min r n, io)

/-- `xino_fwrite` -/
def xinoFwrite (file : File) (buf : Nat → UInt8) (size pos : Nat) (io : List Int) :
    Int × File × List Int :=
  let a := answer size io
  (a.1, file.write pos a.1.toNat buf, a.2)

/-- `xino_fread`, which stops at the end of the file. -/
def xinoFread (file : File) (buf : Nat → UInt8) (size pos : Nat) (io : List Int) :
    Int × (Nat → UInt8) × List Int :=
  let a := answer (min size (file.size - pos)) io
  (a.1, fun i => if i < a.1.toNat then file.data (pos + i) else buf i, a.2)

/-- What a transfer of the wrong size is reported as. -/
def transferErr (sz : Int) : Int := if 0 ≤ sz then - EIO else sz

/-- A request that only succeeds or fails. -/
def request (s : Sbinfo) : Int × Sbinfo :=
  let a := answer 0 s.io
  (a.1, { s with io := a.2 })

/-! ## Xino files -/

/-- `au_xino_do_write` -/
def auXinoDoWrite (A : Arch) (file : File) (hIno ino : Nat) (io : List Int) :
    Int × File × List Int :=
  if loffMax / inoSize A - 1 < hIno then (-EFBIG, file, io)
  else
    let w := xinoFwrite file (bytesOf ino) (inoSize A) (hIno * inoSize A) io
    if w.1 = inoSize A then (0, w.2) else (- EIO, w.2)

/-- `au_xino_write` -/
def auXinoWrite (A : Arch) (bindex hIno ino : Nat) (s : Sbinfo) : Int × Sbinfo :=
  if !s.xino then (0, s)
  else
    let file := (s.siBranch bindex).xiFile
    let w := auXinoDoWrite A (s.xinoFiles file) hIno ino s.io
    let s := { s with xinoFiles := Function.update s.xinoFiles file w.2.1, io := w.2.2 }
    if w.1 = 0 then (0, s) else (- EIO, s)

/-- `au_xino_read`: the error and the number, zero for none. -/
def auXinoRead (A : Arch) (bindex hIno : Nat) (s : Sbinfo) : Int × Nat × Sbinfo :=
  if !s.xino then (0, 0, s)
  else if loffMax / inoSize A - 1 < hIno then (-EFBIG, 0, s)
  else
    let pos := hIno * inoSize A
    let file := s.xinoFiles (s.siBranch bindex).xiFile
    if file.size < pos + inoSize A then (0, 0, s)
    else
      let r := xinoFread file (fun _ => 0) (inoSize A) pos s.io
      let s := { s with io := r.2.2 }
      if r.1 = inoSize A then (0, num r.2.1 0 (inoSize A), s) else (transferErr r.1, 0, s)

/-! ## The bitmap -/

/-- `xib_calc_ino` -/
def xibCalcIno (A : Arch) (pindex bit : Nat) : Nat :=
  (firstIno + pindex * pageBits + bit) % 2 ^ A.bitsPerLong

/-- `ino - AUFS_FIRST_INO`, the number of a bit of the bitmap. -/
def xibBit (A : Arch) (ino : Nat) : Nat := (ino + 2 ^ A.bitsPerLong - firstIno) % 2 ^ A.bitsPerLong

/-- `xib_calc_bit`: the page and the bit in it. -/
def xibCalcBit (A : Arch) (ino : Nat) : Nat × Nat := (xibBit A ino / pageBits, xibBit A ino % pageBits)

/-- The page in memory is written back.  The size written. -/
def xibFlush (s : Sbinfo) : Int × Sbinfo :=
  let w := xinoFwrite s.siXib s.siXibBuf pageSize (s.siXibLastPindex * pageSize) s.xibIo
  (w.1, { s with siXib := w.2.1, xibIo := w.2.2 })

/-- Page `pindex` is read, or made if the file does not reach so far.  The size read or written. -/
def xibLoad (pindex : Nat) (s : Sbinfo) : Int × Sbinfo :=
  let pos := pindex * pageSize
  if pos + pageSize ≤ s.siXib.size then
    let r := xinoFread s.siXib s.siXibBuf pageSize pos s.xibIo
    (r.1, { s with siXibBuf := r.2.1, xibIo := r.2.2 })
  else
    let w := xinoFwrite s.siXib (fun _ => 0) pageSize pos s.xibIo
    (w.1, { s with siXibBuf := fun _ => 0, siXib := w.2.1, xibIo := w.2.2 })

/-- `xib_pindex` -/
def xibPindex (pindex : Nat) (s : Sbinfo) : Int × Sbinfo :=
  if pindex = s.siXibLastPindex then (0, s)
  else
    let f := xibFlush s
    if f.1 ≠ pageSize then (transferErr f.1, f.2)
    else
      let l := xibLoad pindex f.2
      if l.1 = pageSize then (0, { l.2 with siXibLastPindex := pindex })
      else (transferErr l.1, l.2)

/-- `au_xino_write0` -/
def auXinoWrite0 (A : Arch) (bindex hIno ino : Nat) (s : Sbinfo) : Int × Sbinfo :=
  if !s.xino then (0, s)
  else if ino = 0 then auXinoWrite A bindex hIno 0 s
  else
    let c := xibCalcBit A ino
    let l := xibPindex c.1 s
    if l.1 ≠ 0 then l
    else
      auXinoWrite A bindex hIno 0
        { l.2 with siXibBuf := clearBitAt l.2.siXibBuf c.2, siXibNextBit := c.2 }

/-- How a search through the pages ends. -/
inductive Search where
  | found (freeBit : Nat)
  | error
  | exhausted
  | outOfFuel
  deriving DecidableEq, Repr

/-- The two page loops of `au_xino_new_ino`: `for (ul = …; cond ul; ul = next ul)`. -/
def xibSearch (cond : Nat → Bool) (next : Nat → Nat) : Nat → Nat → Sbinfo → Search × Sbinfo
  | 0, _, s => (.outOfFuel, s)
  | fuel + 1, ul, s =>
    if cond ul then
      let l := xibPindex ul s
      if l.1 ≠ 0 then (.error, l.2)
      else
        let freeBit := findFirstZeroBit l.2.siXibBuf pageBits
        if freeBit < pageBits then (.found freeBit, l.2) else xibSearch cond next fuel (next ul) l.2
    else (.exhausted, s)

/-- `ul = pindex - 1; ul < ULONG_MAX; ul--` -/
def xibSearchDown (A : Arch) (pindex : Nat) (s : Sbinfo) : Search × Sbinfo :=
  let dec := fun ul => (ul + 2 ^ A.bitsPerLong - 1) % 2 ^ A.bitsPerLong
  xibSearch (fun ul => ul < 2 ^ A.bitsPerLong - 1) dec (pindex + 1) (dec pindex) s

/-- `ul = pindex + 1; ul <= pend; ul++` -/
def xibSearchUp (A : Arch) (pindex : Nat) (s : Sbinfo) : Search × Sbinfo :=
  let pend := s.siXib.size / pageSize
  let inc := fun ul => (ul + 1) % 2 ^ A.bitsPerLong
  xibSearch (fun ul => ul ≤ pend) inc (pend + 2) (inc pindex) s

/-- `test_bit(free_bit, p)`, asked only for a hint below `page_bits`. -/
def hintFree (s : Sbinfo) : Except Trap Bool :=
  if s.siXibNextBit < pageBits then
    if s.siXibNextBit < 0 then .error .wild else .ok (!bitAt s.siXibBuf s.siXibNextBit.toNat)
  else .ok false

/-- The search of `au_xino_new_ino`: the page in memory, first at the hint, then the pages below,
    then those above. -/
def xibFindFree (A : Arch) (s : Sbinfo) : Except Trap (Search × Sbinfo) :=
  match hintFree s with
  | .error t => .error t
  | .ok true => .ok (.found s.siXibNextBit.toNat, s)
  | .ok false =>
    let freeBit := findFirstZeroBit s.siXibBuf pageBits
    if freeBit < pageBits then .ok (.found freeBit, s)
    else
      let d := xibSearchDown A s.siXibLastPindex s
      if d.1 = .exhausted then .ok (xibSearchUp A s.siXibLastPindex d.2) else .ok d

/-- `au_xino_new_ino`: the number, or zero. -/
def auXinoNewIno (A : Arch) (s : Sbinfo) : Except Trap (Nat × Sbinfo) :=
  if !s.xino then .ok (s.uniq 0, { s with uniq := fun n => s.uniq (n + 1) })
  else
    match xibFindFree A s with
    | .error t => .error t
    | .ok (.found freeBit, s) =>
      .ok (xibCalcIno A s.siXibLastPindex freeBit,
        { s with siXibBuf := setBitAt s.siXibBuf freeBit, siXibNextBit := wrap32 (s.siXibNextBit + 1) })
    | .ok (.error, s) => .ok (0, s)
    | .ok (_, _) => .error .bug

/-- `au_ino` (vdir.c): the error and the union's number for `h_ino` of a branch. -/
def auIno (A : Arch) (bindex hIno : Nat) (s : Sbinfo) : Except Trap (Int × Nat × Sbinfo) :=
  let r := auXinoRead A bindex hIno s
  if r.1 ≠ 0 then .ok (r.1, 0, r.2.2)
  else if r.2.1 ≠ 0 then .ok (0, r.2.1, r.2.2)
  else
    match auXinoNewIno A r.2.2 with
    | .error t => .error t
    | .ok (ino, s) =>
      if ino = 0 then .ok (- EIO, 0, s)
      else
        let w := auXinoWrite A bindex hIno ino s
        .ok (w.1, ino, w.2)

/-! ## Rebuilding the bitmap -/

/-- `is_sb_shared`: a branch on the file system of `btgt`, the branches below it looked at first and
    then those above it up to `bend`. -/
def isSbShared (s : Sbinfo) (btgt bend : Nat) : Option Nat :=
  (List.range btgt ++ List.range' (btgt + 1) (bend - btgt)).find?
    fun b => (s.siBranch b).brSb = (s.siBranch btgt).brSb

/-- The entries in a page of a xino file, `count` of them from entry `k` on. -/
def restoreEntries (A : Arch) (page : Nat → UInt8) : Nat → Nat → Sbinfo → Int × Sbinfo
  | 0, _, s => (0, s)
  | count + 1, k, s =>
    let ino := num page (k * inoSize A) (inoSize A)
    if ino < firstIno then restoreEntries A page count (k + 1) s
    else
      let c := xibCalcBit A ino
      let l := xibPindex c.1 s
      if l.1 ≠ 0 then l
      else restoreEntries A page count (k + 1) { l.2 with siXibBuf := setBitAt l.2.siXibBuf c.2 }

/-- The loop of `do_xib_restore` over the pages of a xino file, each read into `page`.  The entries in
    `sz` bytes are counted in steps of the size of a pointer, the last one may be cut short. -/
def restoreFile (A : Arch) (file : File) :
    Nat → Nat → (Nat → UInt8) → Sbinfo → Int × (Nat → UInt8) × Sbinfo
  | 0, _, page, s => (0, page, s)
  | fuel + 1, pos, page, s =>
    if pos < file.size then
      let r := xinoFread file page pageSize pos s.io
      let s := { s with io := r.2.2 }
      if r.1 ≤ 0 then (r.1, r.2.1, s)
      else
        let e := restoreEntries A r.2.1 ((r.1.toNat + inoSize A - 1) / inoSize A) 0 s
        if e.1 ≠ 0 then (e.1, r.2.1, e.2)
        else restoreFile A file fuel (pos + r.1.toNat) r.2.1 e.2
    else (0, page, s)

/-- `do_xib_restore`.  Every round of its loop reads a byte at least. -/
def doXibRestore (A : Arch) (file : File) (page : Nat → UInt8) (s : Sbinfo) :
    Int × (Nat → UInt8) × Sbinfo :=
  restoreFile A file (file.size + 1) 0 page s

/-- The loop of `xib_restore`, over `count` branches from `bindex` on. -/
def restoreBranches (A : Arch) : Nat → Nat → (Nat → UInt8) → Sbinfo → Int × Sbinfo
  | 0, _, _, s => (0, s)
  | count + 1, bindex, page, s =>
    if bindex = 0 ∨ isSbShared s bindex (bindex - 1) = none then
      let r := doXibRestore A (s.xinoFiles (s.siBranch bindex).xiFile) page s
      if r.1 ≠ 0 then (r.1, r.2.2) else restoreBranches A count (bindex + 1) r.2.1 r.2.2
    else restoreBranches A count (bindex + 1) page s

/-- `xib_restore`.  Nothing clears the page it gets. -/
def xibRestore (A : Arch) (page : Nat → UInt8) (s : Sbinfo) : Int × Sbinfo :=
  let free := request s
  if free.1 < 0 then (negENOMEM, free.2) else restoreBranches A (free.2.siBend + 1) 0 page free.2

/-- `au_xib_trunc`.  `page` is the memory `xib_restore` gets. -/
def auXibTrunc (A : Arch) (page : Nat → UInt8) (s : Sbinfo) : Int × Sbinfo :=
  if !s.xino then (0, s)
  else if s.siXib.size ≤ pageSize then (0, s)
  else
    let file := request s
    if file.1 < 0 then file
    else
      let w := xinoFwrite .empty (fun _ => 0) pageSize 0 file.2.xibIo
      let s := { file.2 with siXib := w.2.1, siXibBuf := fun _ => 0, xibIo := w.2.2 }
      if w.1 ≠ pageSize then (transferErr w.1, s) else xibRestore A page s

end KernelPatches.Aufs
