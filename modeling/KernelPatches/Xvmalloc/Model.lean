/-
  xvmalloc: the allocator as the code computes it.

  A POOL hands out objects of any size up to a page.  It grows by whole pages.  Each page is cut into
  BLOCKS laid end to end; a block is a 4-byte header (its size, and the offset of the block before it
  with two flag bits in the low bits) followed by its data.  Free blocks of at least 32 bytes are
  chained, through a 12-byte link record at the start of their data, into one of 508 free lists by
  size, and a two-level bitmap says which lists are non-empty.

  Headers and links live in the very pages the objects live in, so the model's memory is bytes
  (`Lib.Bytes`) and every field is a load or a store at its C offset:

      header + 0   u16 size            header + 4   u32 link.prev_pagenum
      header + 2   u16 prev            header + 8   u32 link.next_pagenum
                                       header + 12  u16 link.prev_offset
                                       header + 14  u16 link.next_offset

  Sections follow the source: header fields, list indices, `find_block`, the free-list edits,
  `grow_pool`, `xv_malloc`, `xv_free`.  What the kernel supplies is an argument or a state component:

  * `page : Option Nat` — the answer `alloc_page` gives, `none` for NULL;
  * `pages`             — the pages taken with `alloc_page` and not yet given back with `__free_page`;
  * `nowait`            — the value of `flags & GFP_NOWAIT`.

  The spin lock is not modelled: requests on one pool are serialised by it.
-/
import KernelPatches.Arch
import KernelPatches.Lib.Bits
import KernelPatches.Lib.Bytes

namespace KernelPatches.Xvmalloc

open KernelPatches.Lib

/-! ## Configuration (xvmalloc_int.h) -/

def xvMinAllocSize : Nat := 32
def xvAlignShift : Nat := 2
def xvAlign : Nat := 1 <<< xvAlignShift
def xvAlignMask : Nat := xvAlign - 1
def xvMaxAllocSize : Nat := pageSize - xvAlign
def flDeltaShift : Nat := 3
def flDelta : Nat := 1 <<< flDeltaShift
def flDeltaMask : Nat := flDelta - 1
def numFreeLists : Nat := (xvMaxAllocSize - xvMinAllocSize) / flDelta + 1
/-- `DIV_ROUND_UP(NUM_FREE_LISTS, BITS_PER_LONG)`. -/
def maxFli (A : Arch) : Nat := (numFreeLists + A.bitsPerLong - 1) / A.bitsPerLong
def flagsMask : Nat := xvAlignMask

@[simp] theorem xvMinAllocSize_eq : xvMinAllocSize = 32 := rfl
@[simp] theorem xvAlign_eq : xvAlign = 4 := rfl
@[simp] theorem xvMaxAllocSize_eq : xvMaxAllocSize = 4092 := rfl
@[simp] theorem flDelta_eq : flDelta = 8 := rfl
@[simp] theorem flDeltaMask_eq : flDeltaMask = 7 := rfl
@[simp] theorem numFreeLists_eq : numFreeLists = 508 := rfl
@[simp] theorem flagsMask_eq : flagsMask = 3 := rfl

/-- `enum blockflags`. -/
inductive BlockFlag where
  | blockFree
  | prevFree
  deriving DecidableEq, Repr

/-- `flag` as a bit number. -/
def BlockFlag.bit : BlockFlag → Nat
  | .blockFree => 0
  | .prevFree => 1

/-! ## Data -/

/-- A `<pagenum, offset>` pair: a place in a page, also the entry type of the free-list table and of
    the links.  Page number 0 stands for "none". -/
structure Loc where
  pagenum : Nat
  offset : Nat
  deriving DecidableEq, Repr

/-- The pair `<0, 0>`. -/
def Loc.null : Loc := ⟨0, 0⟩

/-- Pointer arithmetic in bytes. -/
def Loc.plus (l : Loc) (n : Nat) : Loc := ⟨l.pagenum, l.offset + n⟩

/-- `struct xv_pool`, less its lock. -/
structure XvPool where
  flbitmap : Nat
  slbitmap : Nat → Nat
  freelist : Nat → Loc
  totalPages : Nat

/-- The pool, the memory it works in, and the pages it holds from the page allocator. -/
structure XvState where
  pool : XvPool
  mem : Mem
  pages : List Nat

/-! ## Header fields -/

def blockSize (m : Mem) (b : Loc) : Nat := m.load b.pagenum b.offset 2
def blockPrev (m : Mem) (b : Loc) : Nat := m.load b.pagenum (b.offset + 2) 2

def setSize (m : Mem) (b : Loc) (v : Nat) : Mem := m.store b.pagenum b.offset 2 v
def setPrev (m : Mem) (b : Loc) (v : Nat) : Mem := m.store b.pagenum (b.offset + 2) 2 v

/-- The pair `link.prev_pagenum`, `link.prev_offset`. -/
def linkPrev (m : Mem) (b : Loc) : Loc :=
  ⟨m.load b.pagenum (b.offset + 4) 4, m.load b.pagenum (b.offset + 12) 2⟩

/-- The pair `link.next_pagenum`, `link.next_offset`. -/
def linkNext (m : Mem) (b : Loc) : Loc :=
  ⟨m.load b.pagenum (b.offset + 8) 4, m.load b.pagenum (b.offset + 14) 2⟩

def setLinkPrev (m : Mem) (b l : Loc) : Mem :=
  (m.store b.pagenum (b.offset + 4) 4 l.pagenum).store b.pagenum (b.offset + 12) 2 l.offset

def setLinkNext (m : Mem) (b l : Loc) : Mem :=
  (m.store b.pagenum (b.offset + 8) 4 l.pagenum).store b.pagenum (b.offset + 14) 2 l.offset

def testFlag (m : Mem) (b : Loc) (flag : BlockFlag) : Bool := (blockPrev m b).testBit flag.bit

def setFlag (m : Mem) (b : Loc) (flag : BlockFlag) : Mem :=
  setPrev m b (setBit (blockPrev m b) flag.bit)

def clearFlag (m : Mem) (b : Loc) (flag : BlockFlag) : Mem :=
  setPrev m b (clearBit 16 (blockPrev m b) flag.bit)

/-- `block->prev & PREV_MASK`. -/
def getBlockprev (m : Mem) (b : Loc) : Nat := andNot 32 (blockPrev m b) flagsMask

def setBlockprev (m : Mem) (b : Loc) (newOffset : Nat) : Mem :=
  setPrev m b (newOffset ||| (blockPrev m b &&& flagsMask))

/-- `BLOCK_NEXT(block)`. -/
def blockNext (m : Mem) (b : Loc) : Loc := b.plus (blockSize m b + xvAlign)

/-! ## Free-list indices -/

/-- Index of the free list for blocks of the given size: sizes are rounded DOWN. -/
def getIndexForInsert (size : Nat) : Nat :=
  let size := if size > xvMaxAllocSize then xvMaxAllocSize else size
  let size := andNot 32 size flDeltaMask
  (size - xvMinAllocSize) >>> flDeltaShift

/-- Index of the first free list whose blocks all have the requested size: sizes are rounded UP. -/
def getIndex (size : Nat) : Nat :=
  let size := if size < xvMinAllocSize then xvMinAllocSize else size
  let size := align size flDelta
  (size - xvMinAllocSize) >>> flDeltaShift

/-! ## Searching: `find_block` -/

/-- `find_block`: the list index, and the `<pagenum, offset>` of its head, which is left as it was
    when nothing is found. -/
def findBlock (A : Arch) (pool : XvPool) (size : Nat) (out : Loc) : Nat × Loc :=
  if pool.flbitmap = 0 then (0, out)
  else
    let slindex := getIndex size
    let slbitmap := pool.slbitmap (slindex / A.bitsPerLong)
    let slbitstart := slindex % A.bitsPerLong
    if slbitmap.testBit slbitstart then (slindex, pool.freelist slindex)
    else
      let slbitstart := slbitstart + 1
      let slbitmap := slbitmap >>> slbitstart
      if slbitstart ≠ A.bitsPerLong ∧ slbitmap ≠ 0 then
        let slindex := slindex + (ffs A.bitsPerLong slbitmap + 1)
        (slindex, pool.freelist slindex)
      else
        let flindex := slindex / A.bitsPerLong
        let flbitmap := pool.flbitmap >>> (flindex + 1)
        if flbitmap = 0 then (0, out)
        else
          let flindex := flindex + (ffs A.bitsPerLong flbitmap + 1)
          let slbitmap := pool.slbitmap flindex
          let slindex := flindex * A.bitsPerLong + ffs A.bitsPerLong slbitmap
          (slindex, pool.freelist slindex)

/-! ## Free-list edits -/

/-- `insert_block`: `block` is the pointer to `<pagenum, offset>`. -/
def insertBlock (A : Arch) (pagenum offset : Nat) (block : Loc) (s : XvState) : XvState :=
  let slindex := getIndexForInsert (blockSize s.mem block)
  let flindex := slindex / A.bitsPerLong
  let mem := setLinkPrev s.mem block Loc.null
  let mem := setLinkNext mem block (s.pool.freelist slindex)
  let freelist := Function.update s.pool.freelist slindex ⟨pagenum, offset⟩
  let next := linkNext mem block
  let mem := if next.pagenum ≠ 0 then setLinkPrev mem next ⟨pagenum, offset⟩ else mem
  let slbitmap := Function.update s.pool.slbitmap flindex
    (setBit (s.pool.slbitmap flindex) (slindex % A.bitsPerLong))
  let flbitmap := setBit s.pool.flbitmap flindex
  { s with mem := mem, pool := { s.pool with flbitmap, slbitmap, freelist } }

/-- `remove_block_head`: `block` is the head of free list `slindex`. -/
def removeBlockHead (A : Arch) (block : Loc) (slindex : Nat) (s : XvState) : XvState :=
  let flindex := slindex / A.bitsPerLong
  let head := linkNext s.mem block
  let freelist := Function.update s.pool.freelist slindex head
  let mem := setLinkPrev s.mem block Loc.null
  if head.pagenum = 0 then
    let word := clearBit A.bitsPerLong (s.pool.slbitmap flindex) (slindex % A.bitsPerLong)
    let slbitmap := Function.update s.pool.slbitmap flindex word
    let flbitmap :=
      if word = 0 then clearBit A.bitsPerLong s.pool.flbitmap flindex else s.pool.flbitmap
    { s with mem := mem, pool := { s.pool with flbitmap, slbitmap, freelist } }
  else
    { s with mem := setLinkPrev mem head Loc.null, pool := { s.pool with freelist } }

/-- `remove_block`: `block` is the pointer to `<pagenum, offset>`, a member of list `slindex`. -/
def removeBlock (A : Arch) (pagenum offset : Nat) (block : Loc) (slindex : Nat) (s : XvState) :
    XvState :=
  if (s.pool.freelist slindex).pagenum = pagenum ∧ (s.pool.freelist slindex).offset = offset then
    removeBlockHead A block slindex s
  else
    let mem := s.mem
    let prev := linkPrev mem block
    let mem := if prev.pagenum ≠ 0 then setLinkNext mem prev (linkNext mem block) else mem
    let next := linkNext mem block
    let mem := if next.pagenum ≠ 0 then setLinkPrev mem next (linkPrev mem block) else mem
    { s with mem := mem }

/-! ## Pages -/

/-- `stat_inc` on a `u64`. -/
def statInc (value : Nat) : Nat := (value + 1) % 2 ^ 64

/-- `stat_dec` on a `u64`. -/
def statDec (value : Nat) : Nat := (value + 2 ^ 64 - 1) % 2 ^ 64

/-- `xv_alloc_page`: page number 0 when the page allocator has none. -/
def xvAllocPage (page : Option Nat) (s : XvState) : Nat × XvState :=
  match page with
  | none => (0, s)
  | some p => (p, { s with pages := p :: s.pages })

/-- `xv_free_page`. -/
def xvFreePage (pagenum : Nat) (s : XvState) : XvState :=
  { s with pages := s.pages.erase pagenum }

/-- `grow_pool`. -/
def growPool (A : Arch) (page : Option Nat) (s : XvState) : Int × XvState :=
  let (pagenum, s) := xvAllocPage page s
  if pagenum = 0 then (negENOMEM, s)
  else
    let s := { s with pool := { s.pool with totalPages := statInc s.pool.totalPages } }
    let block : Loc := ⟨pagenum, 0⟩
    let mem := setSize s.mem block (pageSize - xvAlign)
    let mem := setFlag mem block .blockFree
    let mem := clearFlag mem block .prevFree
    let mem := setBlockprev mem block 0
    (0, insertBlock A pagenum 0 block { s with mem := mem })

/-- The pool `xv_create_pool` returns (zeroed), over any memory. -/
def xvCreatePool (mem : Mem) : XvState where
  pool := { flbitmap := 0, slbitmap := fun _ => 0, freelist := fun _ => Loc.null, totalPages := 0 }
  mem := mem
  pages := []

/-! ## `xv_malloc` -/

/-- `xv_malloc`, lines 410 to 434: cut the free block at `out` down to `size` bytes and mark it used.
    `size` is the aligned request, `origsize` the request itself. -/
def splitBlock (A : Arch) (out : Loc) (size origsize : Nat) (s : XvState) : XvState :=
  let block := out
  let tmpoffset := out.offset + size + xvAlign
  let tmpsize := blockSize s.mem block - size
  let tmpblock := block.plus (size + xvAlign)
  let s :=
    if tmpsize ≠ 0 then
      let mem := setSize s.mem tmpblock (tmpsize - xvAlign)
      let mem := setFlag mem tmpblock .blockFree
      let mem := clearFlag mem tmpblock .prevFree
      let mem := setBlockprev mem tmpblock out.offset
      let s := { s with mem := mem }
      let s :=
        if blockSize s.mem tmpblock ≥ xvMinAllocSize then
          insertBlock A out.pagenum tmpoffset tmpblock s
        else s
      if tmpoffset + xvAlign + blockSize s.mem tmpblock ≠ pageSize then
        { s with mem := setBlockprev s.mem (blockNext s.mem tmpblock) tmpoffset }
      else s
    else
      -- this block is an exact fit
      if tmpoffset ≠ pageSize then { s with mem := clearFlag s.mem tmpblock .prevFree } else s
  let mem := setSize s.mem block origsize
  let mem := clearFlag mem block .blockFree
  { s with mem := mem }

/-- `xv_malloc`: the return code, the pair `*pagenum`, `*offset`, and the new state. -/
def xvMalloc (A : Arch) (size : Nat) (nowait : Bool) (page : Option Nat) (s : XvState) :
    Int × Loc × XvState :=
  let out := Loc.null
  let origsize := size
  if size = 0 ∨ size > xvMaxAllocSize then (negENOMEM, out, s)
  else
    let size := align size xvAlign
    let (index, out) := findBlock A s.pool size out
    if out.pagenum = 0 ∧ nowait = true then (negENOMEM, out, s)
    else
      let (error, s) := if out.pagenum = 0 then growPool A page s else (0, s)
      if error ≠ 0 then (negENOMEM, out, s)
      else
        let (index, out) := if out.pagenum = 0 then findBlock A s.pool size out else (index, out)
        if out.pagenum = 0 then (negENOMEM, out, s)
        else
          let s := removeBlockHead A out index s
          let s := splitBlock A out size origsize s
          (0, out.plus xvAlign, s)

/-! ## `xv_free` -/

/-- `xv_free`, lines 463 to 481: round the size up and merge the next block if it is free. -/
def mergeNext (A : Arch) (pagenum offset : Nat) (block : Loc) (s : XvState) : XvState :=
  let s := { s with mem := setSize s.mem block (align (blockSize s.mem block) xvAlign) }
  let tmpblock := blockNext s.mem block
  if offset + blockSize s.mem block + xvAlign = pageSize then s
  else if testFlag s.mem tmpblock .blockFree then
    let s :=
      if blockSize s.mem tmpblock ≥ xvMinAllocSize then
        removeBlock A pagenum (offset + blockSize s.mem block + xvAlign) tmpblock
          (getIndexForInsert (blockSize s.mem tmpblock)) s
      else s
    { s with mem := setSize s.mem block (blockSize s.mem block +
        (blockSize s.mem tmpblock + xvAlign)) }
  else s

/-- `xv_free`, lines 483 to 495: merge into the previous block if it is free.  Returns the offset and
    the pointer of the merged block. -/
def mergePrev (A : Arch) (pagenum offset : Nat) (block : Loc) (s : XvState) :
    Nat × Loc × XvState :=
  if testFlag s.mem block .prevFree then
    let tmpblock : Loc := ⟨pagenum, getBlockprev s.mem block⟩
    let offset := offset - blockSize s.mem tmpblock - xvAlign
    let s :=
      if blockSize s.mem tmpblock ≥ xvMinAllocSize then
        removeBlock A pagenum offset tmpblock (getIndexForInsert (blockSize s.mem tmpblock)) s
      else s
    let mem := setSize s.mem tmpblock (blockSize s.mem tmpblock +
      (blockSize s.mem block + xvAlign))
    (offset, tmpblock, { s with mem := mem })
  else (offset, block, s)

/-- `xv_free`, lines 497 to 515: give the page back if nothing in it is used, else mark the block
    free, chain it and tell the block after it. -/
def releaseBlock (A : Arch) (pagenum offset : Nat) (block : Loc) (s : XvState) : XvState :=
  if blockSize s.mem block = pageSize - xvAlign then
    let s := xvFreePage pagenum s
    { s with pool := { s.pool with totalPages := statDec s.pool.totalPages } }
  else
    let s := { s with mem := setFlag s.mem block .blockFree }
    let s :=
      if blockSize s.mem block ≥ xvMinAllocSize then insertBlock A pagenum offset block s else s
    if offset + blockSize s.mem block + xvAlign ≠ pageSize then
      let tmpblock := blockNext s.mem block
      let mem := setFlag s.mem tmpblock .prevFree
      let mem := setBlockprev mem tmpblock offset
      { s with mem := mem }
    else s

/-- `xv_free`; `none` is the `BUG_ON` that catches a double free. -/
def xvFree (A : Arch) (pagenum offset : Nat) (s : XvState) : Option XvState :=
  let offset := offset - xvAlign
  let block : Loc := ⟨pagenum, offset⟩
  if testFlag s.mem block .blockFree then none
  else
    let s := mergeNext A pagenum offset block s
    let (offset, block, s) := mergePrev A pagenum offset block s
    some (releaseBlock A pagenum offset block s)

/-! ## Queries -/

/-- `xv_get_object_size` of the object at `obj`. -/
def xvGetObjectSize (m : Mem) (obj : Loc) : Nat := blockSize m ⟨obj.pagenum, obj.offset - xvAlign⟩

/-- `xv_get_total_size_bytes`. -/
def xvGetTotalSizeBytes (pool : XvPool) : Nat := pool.totalPages <<< pageShift % 2 ^ 64

end KernelPatches.Xvmalloc
