/-
  ramzswap: a block device of pages kept compressed in memory.

  One table entry for each page of the device says where the page is: nowhere, a page of zeros (only a
  flag), an object of the pool holding it compressed, or a whole page holding it as it is.  Pages the
  memory is not worth spending on are forwarded to a backing swap device, if there is one.

  The model follows `ramzswap.c` function by function.  What the code gets from outside is an argument:

  * `page : Option Nat`  — the page allocator's answer in the request, `none` for NULL;
  * `compressed`         — what `lzo1x_1_compress` makes of the page, `none` for an error;
  * `decompress`         — `lzo1x_decompress_safe`;
  * `junk`               — the memory behind the table, which nothing initialises.

  Table indices are `size_t` in the write path and `u32` in the read path and in the flag helpers, as
  in the source.  Statistics wrap at their C widths.  Requests are handled one at a time.

  A BUG_ON that fires is `none`.
-/
import KernelPatches.Xvmalloc.Client

namespace KernelPatches.Ramzswap

open KernelPatches.Lib KernelPatches.Xvmalloc

/-! ## Configuration (ramzswap.h) -/

def defaultDisksizePercRam : Nat := 25
def defaultMemlimitPercRam : Nat := 15
def maxCpageSizeBdev : Nat := pageSize / 2
def maxCpageSizeNobdev : Nat := pageSize / 4 * 3
def sectorShift : Nat := 9
def sectorsPerPageShift : Nat := pageShift - sectorShift
def sectorsPerPage : Nat := 1 <<< sectorsPerPageShift

@[simp] theorem sectorsPerPage_eq : sectorsPerPage = 8 := rfl

/-- `enum rzs_pageflags`. -/
inductive RzsPageflags where
  | uncompressed
  | zero
  deriving DecidableEq, Repr

def RzsPageflags.bit : RzsPageflags → Nat
  | .uncompressed => 0
  | .zero => 1

/-! ## Data -/

/-- `struct table`, less the reference count nothing uses. -/
structure TableEntry where
  pagenum : Nat
  offset : Nat
  flags : Nat
  deriving DecidableEq, Repr

def TableEntry.empty : TableEntry := ⟨0, 0, 0⟩

/-- The fields of `struct ramzswap_stats`. -/
inductive StatField where
  | comprSize
  | numReads
  | numWrites
  | failedReads
  | failedWrites
  | invalidIo
  | notifyFree
  | pagesZero
  | pagesStored
  | goodCompress
  | pagesExpand
  | bdevNumReads
  | bdevNumWrites
  deriving DecidableEq, Repr

/-- The width of a field: `size_t`, `u64` or `u32`. -/
def StatField.width (A : Arch) : StatField → Nat
  | comprSize => A.bitsPerLong
  | numReads | numWrites | failedReads | failedWrites | invalidIo | notifyFree => 64
  | pagesZero | pagesStored | goodCompress | pagesExpand => 32
  | bdevNumReads | bdevNumWrites => 64

/-- `struct ramzswap_stats`. -/
abbrev RamzswapStats := StatField → Nat

/-- `rzs`, `stats` and MAX_CPAGE_SIZE, with the pool's state and what is in use for storage: the
    objects of the pool that were not freed (`objects`) and the whole pages (`store`). -/
structure Rzs where
  memPool : XvState
  objects : List Obj
  table : Nat → TableEntry
  memlimit : Nat
  disksize : Nat
  backingSwap : Bool
  maxCpageSize : Nat
  stats : RamzswapStats
  store : List Nat

/-- A request, and what its page holds. -/
structure Bio where
  biSector : Nat
  biVcnt : Nat
  biSize : Nat
  bvOffset : Nat
  data : List UInt8
  data_length : data.length = pageSize

/-- `bio_data_dir`. -/
inductive DataDir where
  | read
  | write
  deriving DecidableEq, Repr

/-- How a request ends: done, with this in the page; failed; or passed on to the backing device. -/
inductive IoResult where
  | endio (data : List UInt8)
  | ioError
  | forward
  deriving DecidableEq, Repr

/-! ## Statistics -/

/-- `a - b` at `w` bits, for `b` at most `2 ^ w`. -/
def sub (w a b : Nat) : Nat := (a + 2 ^ w - b) % 2 ^ w

/-- `stat += x`. -/
def statAdd (A : Arch) (stat : StatField) (x : Nat) (r : Rzs) : Rzs :=
  { r with stats := Function.update r.stats stat ((r.stats stat + x) % 2 ^ stat.width A) }

/-- `stat -= x`. -/
def statSub (A : Arch) (stat : StatField) (x : Nat) (r : Rzs) : Rzs :=
  { r with stats := Function.update r.stats stat (sub (stat.width A) (r.stats stat) x) }

/-- `stat_inc`. -/
def statInc (A : Arch) (stat : StatField) (r : Rzs) : Rzs := statAdd A stat 1 r

/-- `stat_dec`. -/
def statDec (A : Arch) (stat : StatField) (r : Rzs) : Rzs := statSub A stat 1 r

/-- `stat_inc_if_less`. -/
def statIncIfLess (A : Arch) (stat : StatField) (val1 val2 : Nat) (r : Rzs) : Rzs :=
  statAdd A stat (if val1 < val2 then 1 else 0) r

/-- `stat_dec_if_less`. -/
def statDecIfLess (A : Arch) (stat : StatField) (val1 val2 : Nat) (r : Rzs) : Rzs :=
  statSub A stat (if val1 < val2 then 1 else 0) r

/-! ## Table flags -/

/-- A table index as the flag helpers and `ramzswap_read` take it: a `u32`. -/
def u32 (index : Nat) : Nat := index % 2 ^ 32

def testFlag (r : Rzs) (index : Nat) (flag : RzsPageflags) : Bool :=
  (r.table (u32 index)).flags.testBit flag.bit

def modifyEntry (r : Rzs) (index : Nat) (f : TableEntry → TableEntry) : Rzs :=
  { r with table := Function.update r.table index (f (r.table index)) }

def setFlag (r : Rzs) (index : Nat) (flag : RzsPageflags) : Rzs :=
  modifyEntry r (u32 index) fun e => { e with flags := setBit e.flags flag.bit }

def clearFlag (r : Rzs) (index : Nat) (flag : RzsPageflags) : Rzs :=
  modifyEntry r (u32 index) fun e => { e with flags := clearBit 8 e.flags flag.bit }

/-- `page_zero_filled`: 64-bit word by word. -/
def pageZeroFilled (data : List UInt8) : Bool :=
  (List.range (pageSize / 8)).all fun pos => ((data.drop (8 * pos)).take 8).all (· == 0)

/-! ## Requests -/

/-- The page index in the write path: a `size_t`. -/
def writeIndex (A : Arch) (bio : Bio) : Nat :=
  bio.biSector >>> sectorsPerPageShift % 2 ^ A.bitsPerLong

/-- The page index in the read path: a `u32`. -/
def readIndex (bio : Bio) : Nat := u32 (bio.biSector >>> sectorsPerPageShift)

/-- `valid_swap_request`: is the request within bounds and page aligned? -/
def validSwapRequest (r : Rzs) (bio : Bio) : Bool :=
  ¬ (bio.biSector ≥ r.disksize >>> sectorShift ∨ bio.biSector &&& (sectorsPerPage - 1) ≠ 0 ∨
    bio.biVcnt ≠ 1 ∨ bio.biSize ≠ pageSize ∨ bio.bvOffset ≠ 0)

/-- `ramzswap_free_page`, from the label `out` on. -/
def freeOut (A : Arch) (index clen : Nat) (r : Rzs) : Rzs :=
  let r := statSub A .comprSize clen r
  let r := statDec A .pagesStored r
  modifyEntry r index fun e => { e with pagenum := 0, offset := 0 }

/-- `ramzswap_free_page`. -/
def ramzswapFreePage (A : Arch) (index : Nat) (r : Rzs) : Option Rzs :=
  let pagenum := (r.table index).pagenum
  let offset := (r.table index).offset
  if pagenum = 0 then
    if testFlag r index .zero then
      some (statDec A .pagesZero (clearFlag r index .zero))
    else some r
  else if testFlag r index .uncompressed then
    let r := { r with store := r.store.erase pagenum }
    let r := clearFlag r index .uncompressed
    let r := statDec A .pagesExpand r
    some (freeOut A index pageSize r)
  else
    let clen := xvGetObjectSize r.memPool.mem ⟨pagenum, offset⟩
    match xvFree A pagenum offset r.memPool with
    | none => none
    | some pool =>
      let r := { r with memPool := pool, objects := r.objects.erase ⟨⟨pagenum, offset⟩, clen⟩ }
      let r := statDecIfLess A .goodCompress clen (pageSize / 2 + 1) r
      some (freeOut A index clen r)

/-- `ramzswap_slot_free_notify`. -/
def ramzswapSlotFreeNotify (A : Arch) (index : Nat) (r : Rzs) : Option Rzs :=
  match ramzswapFreePage A index r with
  | none => none
  | some r => some (statInc A .notifyFree r)

/-- `handle_zero_page`. -/
def handleZeroPage : IoResult := .endio (List.replicate pageSize 0)

/-- `handle_uncompressed_page`. -/
def handleUncompressedPage (bio : Bio) (r : Rzs) : IoResult :=
  let index := readIndex bio
  .endio (r.memPool.mem.copyOut (r.table index).pagenum (r.table index).offset pageSize)

/-- `handle_ramzswap_fault`. -/
def handleRamzswapFault (A : Arch) (r : Rzs) : IoResult × Rzs :=
  if r.backingSwap then (.forward, statInc A .bdevNumReads (statDec A .numReads r))
  else (.endio (List.replicate pageSize 0), r)

/-- `ramzswap_read`. -/
def ramzswapRead (A : Arch) (decompress : List UInt8 → Option (List UInt8)) (bio : Bio) (r : Rzs) :
    IoResult × Rzs :=
  let r := statInc A .numReads r
  let index := readIndex bio
  if testFlag r index .zero then (handleZeroPage, r)
  else if (r.table index).pagenum = 0 then handleRamzswapFault A r
  else if testFlag r index .uncompressed then (handleUncompressedPage bio r, r)
  else
    let cmem : Loc := ⟨(r.table index).pagenum, (r.table index).offset⟩
    match decompress (r.memPool.mem.copyOut cmem.pagenum cmem.offset
      (xvGetObjectSize r.memPool.mem cmem)) with
    | some data => (.endio data, r)
    | none => (.ioError, statInc A .failedReads r)

/-- `ramzswap_write`, from the label `memstore` on: `src` is what is stored. -/
def memstore (A : Arch) (bio : Bio) (index offset : Nat) (src : List UInt8) (r : Rzs) :
    IoResult × Rzs :=
  let r := modifyEntry r index fun e => { e with offset := offset % 2 ^ 16 }
  let mem := r.memPool.mem.copyIn (r.table index).pagenum (r.table index).offset src
  let r := { r with memPool := { r.memPool with mem := mem } }
  let r := statAdd A .comprSize src.length r
  let r := statInc A .pagesStored r
  (.endio bio.data, statIncIfLess A .goodCompress src.length (pageSize / 2 + 1) r)

/-- `ramzswap_write`, from the label `out` on, when the request is forwarded. -/
def forwardWrite (A : Arch) (r : Rzs) : IoResult × Rzs := (.forward, statInc A .bdevNumWrites r)

/-- `ramzswap_write`, once the page is compressed to `src` and short enough. -/
def storeCompressed (A : Arch) (bio : Bio) (index : Nat) (src : List UInt8) (page : Option Nat)
    (r : Rzs) : IoResult × Rzs :=
  let (err, loc, pool) := xvMalloc A src.length false page r.memPool
  let objects := if err = 0 then ⟨loc, src.length⟩ :: r.objects else r.objects
  let r := { r with memPool := pool, objects := objects }
  let r := modifyEntry r index fun e => { e with pagenum := loc.pagenum }
  if err ≠ 0 then
    let r := statInc A .failedWrites r
    if r.backingSwap then forwardWrite A r else (.ioError, r)
  else memstore A bio index loc.offset src r

/-- `ramzswap_write`, once the page is known not to compress: `p` is the page for it. -/
def storeUncompressed (A : Arch) (bio : Bio) (index p : Nat) (r : Rzs) : IoResult × Rzs :=
  let r := { r with store := p :: r.store }
  let r := setFlag r index .uncompressed
  let r := statInc A .pagesExpand r
  let r := modifyEntry r index fun e => { e with pagenum := p }
  memstore A bio index 0 bio.data r

/-- `ramzswap_write`, once the entry is empty. -/
def storePage (A : Arch) (bio : Bio) (index : Nat) (compressed : Option (List UInt8))
    (page : Option Nat) (r : Rzs) : IoResult × Rzs :=
  if pageZeroFilled bio.data then
    (.endio bio.data, setFlag (statInc A .pagesZero r) index .zero)
  else if r.backingSwap ∧ r.stats .comprSize > sub A.bitsPerLong r.memlimit pageSize then
    forwardWrite A r
  else
    match compressed with
    | none => (.ioError, statInc A .failedWrites r)
    | some src =>
      if src.length > r.maxCpageSize then
        if r.backingSwap then forwardWrite A r
        else
          match page with
          | none => (.ioError, statInc A .failedWrites r)
          | some p => storeUncompressed A bio index p r
      else storeCompressed A bio index src page r

/-- `ramzswap_write`, up to where the entry is empty: the page is being overwritten. -/
def beginWrite (A : Arch) (bio : Bio) (r : Rzs) : Option Rzs :=
  let r := statInc A .numWrites r
  let index := writeIndex A bio
  match if (r.table index).pagenum ≠ 0 then ramzswapFreePage A index r else some r with
  | none => none
  | some r =>
    if testFlag r index .zero then
      some (clearFlag (statDec A .pagesZero r) index .zero)
    else some r

/-- `ramzswap_write`. -/
def ramzswapWrite (A : Arch) (bio : Bio) (compressed : Option (List UInt8)) (page : Option Nat)
    (r : Rzs) : Option (IoResult × Rzs) :=
  match beginWrite A bio r with
  | none => none
  | some r => some (storePage A bio (writeIndex A bio) compressed page r)

/-- `ramzswap_make_request`. -/
def ramzswapMakeRequest (A : Arch) (decompress : List UInt8 → Option (List UInt8)) (dir : DataDir)
    (bio : Bio) (compressed : Option (List UInt8)) (page : Option Nat) (r : Rzs) :
    Option (IoResult × Rzs) :=
  if validSwapRequest r bio then
    match dir with
    | .read => some (ramzswapRead A decompress bio r)
    | .write => ramzswapWrite A bio compressed page r
  else some (.ioError, statInc A .invalidIo r)

/-! ## Initialisation -/

/-- The module parameters, the size of RAM, and the byte size of the backing device if one is given. -/
structure ModuleParams where
  disksizeKb : Nat
  memlimitKb : Nat
  totalramPages : Nat
  backingSwap : Option Nat

/-- `& PAGE_MASK`. -/
def pageMask (x : Nat) : Nat := x / pageSize * pageSize

/-- `setup_backing_swap`, given a block device of `size` bytes: the disk size. -/
def setupBackingSwap (A : Arch) (size : Nat) : Option Nat :=
  let disksize := size % 2 ^ A.bitsPerLong
  if disksize = 0 then none else some disksize

/-- `ramzswap_set_disksize`. -/
def ramzswapSetDisksize (A : Arch) (params : ModuleParams) (totalramBytes : Nat) : Nat :=
  let disksize := (params.disksizeKb <<< 10) % 2 ^ A.bitsPerLong
  let disksize :=
    if params.disksizeKb = 0 then
      defaultDisksizePercRam * (totalramBytes / 100) % 2 ^ A.bitsPerLong
    else disksize
  pageMask disksize

/-- `ramzswap_set_memlimit`. -/
def ramzswapSetMemlimit (A : Arch) (params : ModuleParams) (totalramBytes disksize : Nat) :
    Option Nat :=
  let memlimit := (params.memlimitKb <<< 10) % 2 ^ A.bitsPerLong
  let memlimit :=
    if memlimit = 0 ∨ memlimit > disksize then
      let mempart := defaultMemlimitPercRam * (totalramBytes / 100) % 2 ^ A.bitsPerLong
      if mempart > disksize then disksize else mempart
    else memlimit
  let memlimit := pageMask memlimit
  if memlimit = 0 then none else some memlimit

/-- The number of table entries. -/
def numPages (disksize : Nat) : Nat := disksize >>> pageShift

/-- `ramzswap_init`, from the table on: `page` is the page for the swap header, `granted` says that
    every other allocation and registration succeeds and the backing device's header is acceptable,
    `mem` is memory as init leaves it, the header written. -/
def initTable (disksize memlimit : Nat) (backingSwap : Bool) (page : Option Nat) (granted : Bool)
    (mem : Mem) (junk : Nat → TableEntry) : Option Rzs :=
  -- vmalloc(0) is NULL
  if numPages disksize = 0 ∨ granted = false then none
  else
    match page with
    | none => none
    | some p =>
      let table := fun i => if i < numPages disksize then TableEntry.empty else junk i
      let r : Rzs :=
        { memPool := xvCreatePool mem
          objects := []
          table := Function.update table 0 { table 0 with pagenum := p }
          memlimit := memlimit
          disksize := disksize
          backingSwap := backingSwap
          maxCpageSize := if backingSwap then maxCpageSizeBdev else maxCpageSizeNobdev
          stats := fun _ => 0
          store := [p] }
      some (setFlag r 0 .uncompressed)

/-- `ramzswap_init`; `none` if it fails or a BUG_ON fires. -/
def ramzswapInit (A : Arch) (params : ModuleParams) (page : Option Nat) (granted : Bool) (mem : Mem)
    (junk : Nat → TableEntry) : Option Rzs :=
  let totalramBytes := (params.totalramPages <<< pageShift) % 2 ^ A.bitsPerLong
  match params.backingSwap with
  | some size =>
    match setupBackingSwap A size with
    | none => none
    | some disksize =>
      match ramzswapSetMemlimit A params totalramBytes disksize with
      | none => none
      | some memlimit => initTable disksize memlimit true page granted mem junk
  | none =>
    initTable (ramzswapSetDisksize A params totalramBytes) 0 false page granted mem junk

end KernelPatches.Ramzswap
