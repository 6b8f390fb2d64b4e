/-
  The device in use: requests, notifications, and memory changing around it.

  `Dev` is the driver with its backing device.  An event is a read or a write that passes
  `valid_swap_request`, a request that does not, a slot-free notification, or a change of memory the
  driver does not own.  Every allocation may fail; the page a write gets is any page free at the time.

  `valid_swap_request` lets requests through that index past the table (see `Bounds`), and nothing is
  known about what they find there.  `InTable` says that an event stays inside, at an index a `u32`
  can hold.

  * `Effect`      — everything an event inside the table can do, in terms of slots;
  * `step_effect` — the one case analysis of the code: every such event has its effect;
  * `run_slots`   — what every effect keeps holds of the slots after any run inside the table.
-/
import KernelPatches.Ramzswap.Setup

namespace KernelPatches.Ramzswap

open KernelPatches.Lib KernelPatches.Lib.Mem KernelPatches.Xvmalloc

/-- What a read of the slot is answered with. -/
def Slot.answer (decompress : List UInt8 → Option (List UInt8)) (backingSwap : Bool) :
    Slot → IoResult
  | absent => if backingSwap then .forward else .endio (List.replicate pageSize 0)
  | zero => .endio (List.replicate pageSize 0)
  | whole _ d => .endio d
  | packed _ c =>
    match decompress c with
    | some data => .endio data
    | none => .ioError

/-! ## The parts of a request -/

section Parts

variable {A : Arch} {n i : Nat} {r r' : Rzs} {g : Nat → Slot} {bio : Bio} {page : Option Nat}

theorem Rep.quiet (h : Rep A n r g) (hq : Quiet r r') : Rep A n r' g := by
  obtain ⟨_, st, rfl⟩ := hq
  exact h.stats st

theorem Quiet.config (hq : Quiet r r') : SameConfig r r' := by
  obtain ⟨_, st, rfl⟩ := hq
  exact ⟨rfl, rfl, rfl, rfl⟩

/-- Counting a request first makes no difference to freeing a slot. -/
theorem Freed.of_quiet {r0 : Rzs} (hq : Quiet r r0) (h : Freed A n i r0 g r') :
    Freed A n i r g r' := by
  obtain ⟨hst, st, rfl⟩ := hq
  refine ⟨h.rep, fun k => ?_, fun hr => h.range fun k => (hst k).symm ▸ hr k, h.config, h.pool,
    h.store⟩
  have hk := h.stats k
  rwa [hst k] at hk

/-- **The first half of a write** empties the entry: `ramzswap_free_page` does it if there is a page,
    and the code clears the flag of a zero page by hand, as `ramzswap_free_page` would. -/
theorem beginWrite_spec (h : Rep A n r g) (hi : writeIndex A bio < n) (h32 : writeIndex A bio < 2 ^ 32) :
    ∃ r', beginWrite A bio r = some r' ∧ Freed A n (writeIndex A bio) r g r' := by
  obtain ⟨r0, hr0, hq⟩ : ∃ r0, r0 = statInc A .numWrites r ∧ Quiet r r0 :=
    ⟨_, rfl, quiet_stats (by decide)⟩
  obtain ⟨r1, hfree, hfreed⟩ := freePage_spec (h.quiet hq) hi h32
  refine ⟨r1, ?_, hfreed.of_quiet hq⟩
  unfold beginWrite
  rw [← hr0]
  by_cases hpage : (r0.table (writeIndex A bio)).pagenum = 0
  · rw [ramzswapFreePage, if_pos hpage] at hfree
    simp only [if_neg (not_not_intro hpage)]
    by_cases hflag : testFlag r0 (writeIndex A bio) .zero = true
    · rw [if_pos hflag] at hfree ⊢
      exact hfree
    · rw [if_neg hflag] at hfree ⊢
      exact hfree
  · have hflag : ¬ testFlag r1 (writeIndex A bio) .zero = true := by
      rw [hfreed.rep.testFlag_zero hi h32, Function.update_self]
      exact fun hc => nomatch hc
    simp only [if_pos hpage, hfree]
    exact if_neg hflag

/-- **A write** empties the entry and fills it again. -/
theorem write_spec (compressed : Option (List UInt8)) (h : Rep A n r g) (hi : writeIndex A bio < n)
    (h32 : writeIndex A bio < 2 ^ 32)
    (hpage : ∀ r1 p, beginWrite A bio r = some r1 → page = some p → FreshPage r1 p)
    (hmax : r.maxCpageSize ≤ 4088) :
    ∃ r1 s res, ramzswapWrite A bio compressed page r = some res ∧
      Freed A n (writeIndex A bio) r g r1 ∧
      Filled A n (writeIndex A bio) bio compressed r1 (Function.update g (writeIndex A bio) .absent) s
        res := by
  obtain ⟨r1, hbegin, hfreed⟩ := beginWrite_spec h hi h32
  have hmax1 : r1.maxCpageSize ≤ 4088 := hfreed.config.2.2.2.symm ▸ hmax
  obtain ⟨s, hfilled⟩ := storePage_spec bio compressed hfreed.rep hi h32
    (Function.update_self _ _ _) (fun p hp => hpage r1 p hbegin hp) hmax1
  refine ⟨r1, s, _, ?_, hfreed, hfilled⟩
  unfold ramzswapWrite
  rw [hbegin]

/-- **A read** is answered from the slot, and changes nothing but statistics. -/
theorem read_spec (bio : Bio) (decompress : List UInt8 → Option (List UInt8)) (h : Rep A n r g)
    (hi : readIndex bio < n) :
    ∃ r', ramzswapRead A decompress bio r =
      ((g (readIndex bio)).answer decompress r.backingSwap, r') ∧ Quiet r r' := by
  have h32 : readIndex bio < 2 ^ 32 := Nat.mod_lt _ (by decide)
  obtain ⟨r0, hr0, hq⟩ : ∃ r0, r0 = statInc A .numReads r ∧ Quiet r r0 :=
    ⟨_, rfl, quiet_stats (by decide)⟩
  have h0 := h.quiet hq
  have hback : r0.backingSwap = r.backingSwap := hq.config.2.2.1
  have hzero := h0.testFlag_zero hi h32
  have hpage := h0.pagenum_eq_zero hi
  have hunc := h0.testFlag_uncompressed hi h32
  have hentry := h0.table _ hi
  have hdata := h0.data _ hi
  unfold ramzswapRead
  rw [← hr0, ← hback]
  rcases hg : g (readIndex bio) with _ | _ | ⟨p, d⟩ | ⟨a, c⟩ <;>
    simp only [hg, reduceCtorEq, iff_false, or_false, or_true, iff_true, exists_false] at hzero hpage hunc
  · -- nothing stored
    by_cases hb : r0.backingSwap = true
    · refine ⟨statInc A .bdevNumReads (statDec A .numReads r0), ?_, (hq.trans
        (quiet_stats (by decide))).trans (quiet_stats (by decide))⟩
      refine (if_neg hzero).trans ((if_pos hpage).trans ((if_pos hb).trans ?_))
      rw [Slot.answer, if_pos hb]
    · refine ⟨r0, (if_neg hzero).trans ((if_pos hpage).trans ((if_neg hb).trans ?_)), hq⟩
      rw [Slot.answer, if_neg hb]
  · -- a page of zeros
    exact ⟨r0, if_pos hzero, hq⟩
  · -- a whole page
    refine ⟨r0, (if_neg hzero).trans ((if_neg hpage).trans ((if_pos (hunc.mpr ⟨p, d, rfl⟩)).trans ?_)),
      hq⟩
    rw [hg] at hdata hentry
    rw [handleUncompressedPage, hentry]
    exact congrArg (fun d => (IoResult.endio d, r0)) hdata.2
  · -- an object
    rw [hg] at hdata hentry
    have hsize := (live_loc h0.pool (h0.objects.mem hi (congrArg Slot.obj hg))).2.2.2.2
    have hcopy : r0.memPool.mem.copyOut a.pagenum a.offset
        (xvGetObjectSize r0.memPool.mem ⟨a.pagenum, a.offset⟩) = c := by
      rw [hsize]
      exact hdata
    cases hd : decompress c with
    | some data =>
      refine ⟨r0, (if_neg hzero).trans ((if_neg hpage).trans ((if_neg hunc).trans ?_)), hq⟩
      rw [hentry]
      simp only [Slot.entry, hcopy, hd, Slot.answer]
    | none =>
      refine ⟨statInc A .failedReads r0,
        (if_neg hzero).trans ((if_neg hpage).trans ((if_neg hunc).trans ?_)),
        hq.trans (quiet_stats (by decide))⟩
      rw [hentry]
      simp only [Slot.entry, hcopy, hd, Slot.answer]

/-- **A notification** empties the entry. -/
theorem notify_spec (h : Rep A n r g) (hi : i < n) (h32 : i < 2 ^ 32) :
    ∃ r', ramzswapSlotFreeNotify A i r = some r' ∧ Freed A n i r g r' := by
  obtain ⟨r1, hfree, hfreed⟩ := freePage_spec h hi h32
  have hq : Quiet r1 (statInc A .notifyFree r1) := quiet_stats (by decide)
  refine ⟨statInc A .notifyFree r1, ?_, hfreed.rep.quiet hq, fun k => ?_,
    fun hr => InRange.statAdd A _ _ _ (hfreed.range hr), ?_, hfreed.pool, hfreed.store⟩
  · unfold ramzswapSlotFreeNotify
    rw [hfree]
  · rw [hq.1 k]
    exact hfreed.stats k
  · exact hfreed.config.trans hq.config

/-- Memory outside the pool and the storage pages may change. -/
theorem Rep.other (h : Rep A n r g) {m : Mem}
    (hm : AgreeOff (fun q _ => q ∉ r.memPool.pages ∧ q ∉ r.store) r.memPool.mem m) :
    Rep A n { r with memPool := { r.memPool with mem := m } } g := by
  refine ⟨h.pool.write (hm.mono fun q _ hq => Or.inl hq.1), h.table, h.objects, h.pages, h.apart,
    fun i hi => (h.data i hi).congr fun q k hk => hm q k fun hq => ?_⟩
  rcases h.area_page hi hk with ⟨hc, _⟩ | ⟨hc, _⟩
  · exact hq.1 hc
  · exact hq.2 hc

end Parts

/-! ## The system -/

/-- The driver and the backing device's pages. -/
structure Dev where
  rzs : Rzs
  bdev : Nat → List UInt8

/-- The page a request is for. -/
def pageIndex (bio : Bio) : Nat := bio.biSector >>> sectorsPerPageShift

/-- An event, with what the compressor and the page allocator answer, and how the request ends. -/
inductive Event where
  | read (bio : Bio) (res : IoResult)
  | write (bio : Bio) (compressed : Option (List UInt8)) (page : Option Nat) (res : IoResult)
  | invalid (dir : DataDir) (bio : Bio)
  | notify (index : Nat)
  | other (mem : Mem)

/-- The page an event is about. -/
def Event.index : Event → Option Nat
  | read bio _ => some (pageIndex bio)
  | write bio _ _ _ => some (pageIndex bio)
  | notify index => some index
  | _ => none

/-- The backing device after a write: it gets the page if the request is passed on. -/
def Dev.passOn (d : Dev) (bio : Bio) (res : IoResult) : Nat → List UInt8 :=
  if res = .forward then Function.update d.bdev (pageIndex bio) bio.data else d.bdev

/-- One event. -/
inductive Step (A : Arch) (decompress : List UInt8 → Option (List UInt8)) (d : Dev) :
    Event → Dev → Prop
  | read {bio : Bio} {res : IoResult} {r' : Rzs} (hvalid : validSwapRequest d.rzs bio = true)
      (h : ramzswapMakeRequest A decompress .read bio none none d.rzs = some (res, r')) :
      Step A decompress d (.read bio res) ⟨r', d.bdev⟩
  | write {bio : Bio} {compressed : Option (List UInt8)} {page : Option Nat} {res : IoResult}
      {r' : Rzs} (hvalid : validSwapRequest d.rzs bio = true)
      (hlzo : ∀ c, compressed = some c → decompress c = some bio.data)
      (hpage : ∀ r1 p, beginWrite A bio d.rzs = some r1 → page = some p → FreshPage r1 p)
      (h : ramzswapMakeRequest A decompress .write bio compressed page d.rzs = some (res, r')) :
      Step A decompress d (.write bio compressed page res) ⟨r', d.passOn bio res⟩
  | invalid {dir : DataDir} {bio : Bio} {res : IoResult} {r' : Rzs}
      (hvalid : validSwapRequest d.rzs bio = false)
      (h : ramzswapMakeRequest A decompress dir bio none none d.rzs = some (res, r')) :
      Step A decompress d (.invalid dir bio) ⟨r', d.bdev⟩
  | notify {index : Nat} {r' : Rzs} (h : ramzswapSlotFreeNotify A index d.rzs = some r') :
      Step A decompress d (.notify index) ⟨r', d.bdev⟩
  | other {mem : Mem} (hmem : AgreeOff (fun q _ => q ∉ d.rzs.memPool.pages ∧ q ∉ d.rzs.store)
      d.rzs.memPool.mem mem) :
      Step A decompress d (.other mem)
        ⟨{ d.rzs with memPool := { d.rzs.memPool with mem := mem } }, d.bdev⟩

/-- The event stays inside the table. -/
def InTable (d : Dev) (e : Event) : Prop :=
  ∀ i, e.index = some i → i < numPages d.rzs.disksize ∧ i < 2 ^ 32

/-- What an event does to slots. -/
inductive Effect (A : Arch) (decompress : List UInt8 → Option (List UInt8)) (n : Nat) (d : Dev)
    (g : Nat → Slot) : Event → Dev → (Nat → Slot) → Prop
  | read {bio : Bio} {r' : Rzs} (hq : Quiet d.rzs r') :
      Effect A decompress n d g
        (.read bio ((g (pageIndex bio)).answer decompress d.rzs.backingSwap)) ⟨r', d.bdev⟩ g
  | write {bio : Bio} {compressed : Option (List UInt8)} {page : Option Nat} {res : IoResult}
      {r1 r' : Rzs} {s : Slot} (hlzo : ∀ c, compressed = some c → decompress c = some bio.data)
      (hfreed : Freed A n (pageIndex bio) d.rzs g r1)
      (hfilled : Filled A n (pageIndex bio) bio compressed r1
        (Function.update g (pageIndex bio) .absent) s (res, r')) :
      Effect A decompress n d g (.write bio compressed page res) ⟨r', d.passOn bio res⟩
        (Function.update g (pageIndex bio) s)
  | invalid {dir : DataDir} {bio : Bio} {r' : Rzs} (hq : Quiet d.rzs r') :
      Effect A decompress n d g (.invalid dir bio) ⟨r', d.bdev⟩ g
  | notify {index : Nat} {r' : Rzs} (hfreed : Freed A n index d.rzs g r') :
      Effect A decompress n d g (.notify index) ⟨r', d.bdev⟩ (Function.update g index .absent)
  | other {mem : Mem} {r' : Rzs} (hst : SameStored d.rzs r') (hconfig : SameConfig d.rzs r') :
      Effect A decompress n d g (.other mem) ⟨r', d.bdev⟩ g

section System

variable {A : Arch} {decompress : List UInt8 → Option (List UInt8)} {n : Nat} {d d' : Dev}
  {g g' : Nat → Slot} {e : Event}

theorem writeIndex_eq (A : Arch) {bio : Bio} (h : pageIndex bio < 2 ^ 32) :
    writeIndex A bio = pageIndex bio := by
  refine Nat.mod_eq_of_lt (Nat.lt_of_lt_of_le h (Nat.pow_le_pow_right (by decide) ?_))
  rcases A.bitsPerLong_eq with hA | hA <;> rw [hA]
  decide

theorem readIndex_eq {bio : Bio} (h : pageIndex bio < 2 ^ 32) : readIndex bio = pageIndex bio :=
  Nat.mod_eq_of_lt h

theorem makeRequest_read {bio : Bio} (hvalid : validSwapRequest d.rzs bio = true) :
    ramzswapMakeRequest A decompress .read bio none none d.rzs =
      some (ramzswapRead A decompress bio d.rzs) := if_pos hvalid

theorem makeRequest_write {bio : Bio} {compressed : Option (List UInt8)} {page : Option Nat}
    (hvalid : validSwapRequest d.rzs bio = true) :
    ramzswapMakeRequest A decompress .write bio compressed page d.rzs =
      ramzswapWrite A bio compressed page d.rzs := if_pos hvalid

/-- No effect changes the settings. -/
theorem Effect.config (h : Effect A decompress n d g e d' g') : SameConfig d.rzs d'.rzs := by
  cases h with
  | read hq => exact hq.config
  | write _ hfreed hfilled => exact hfreed.config.trans hfilled.config
  | invalid hq => exact hq.config
  | notify hfreed => exact hfreed.config
  | other _ hconfig => exact hconfig

/-- **Every event inside the table has its effect.** -/
theorem step_effect (h : Rep A (numPages d.rzs.disksize) d.rzs g) (hmax : d.rzs.maxCpageSize ≤ 4088)
    (hin : InTable d e) (hs : Step A decompress d e d') :
    ∃ g', Effect A decompress (numPages d.rzs.disksize) d g e d' g' ∧
      Rep A (numPages d.rzs.disksize) d'.rzs g' := by
  cases hs with
  | @read bio res r' hvalid hr =>
    obtain ⟨hi, h32⟩ := hin _ rfl
    have hindex := readIndex_eq h32
    obtain ⟨r1, hread, hq⟩ := read_spec bio decompress h (hindex.symm ▸ hi)
    rw [makeRequest_read hvalid, hread, hindex] at hr
    obtain ⟨rfl, rfl⟩ := Prod.mk.inj (Option.some.inj hr)
    exact ⟨g, .read hq, h.quiet hq⟩
  | @write bio compressed page res r' hvalid hlzo hpage hr =>
    obtain ⟨hi, h32⟩ := hin _ rfl
    have hindex := writeIndex_eq A h32
    obtain ⟨r1, s, res', hwrite, hfreed, hfilled⟩ := write_spec compressed h
      (hindex.symm ▸ hi) (hindex.symm ▸ h32) hpage hmax
    rw [makeRequest_write hvalid, hwrite] at hr
    obtain rfl := Option.some.inj hr
    rw [hindex] at hfreed hfilled
    refine ⟨_, .write hlzo hfreed hfilled, ?_⟩
    have hrep := hfilled.rep
    rwa [Function.update_idem] at hrep
  | @invalid dir bio res r' hvalid hr =>
    have hq : Quiet d.rzs (statInc A .invalidIo d.rzs) := quiet_stats (by decide)
    have hans : ramzswapMakeRequest A decompress dir bio none none d.rzs =
        some (.ioError, statInc A .invalidIo d.rzs) := if_neg (by rw [hvalid]; exact Bool.noConfusion)
    rw [hans] at hr
    obtain ⟨rfl, rfl⟩ := Prod.mk.inj (Option.some.inj hr)
    exact ⟨g, .invalid hq, h.quiet hq⟩
  | @notify index r' hr =>
    obtain ⟨hi, h32⟩ := hin _ rfl
    obtain ⟨r1, hnotify, hfreed⟩ := notify_spec h hi h32
    obtain rfl := Option.some.inj (hnotify.symm.trans hr)
    exact ⟨_, .notify hfreed, hfreed.rep⟩
  | other hmem =>
    exact ⟨g, .other (fun _ => rfl) ⟨rfl, rfl, rfl, rfl⟩, h.other hmem⟩

/-- **Invariants of slots.**  What holds of the start's slots and is kept by every effect holds, of some
    slots the state represents, after every run inside the table. -/
theorem run_slots {params : ModuleParams} {r : Rzs} {bdev : Nat → List UInt8} {es : List Event}
    {P : Dev → Event → Prop} {I : List Event → Dev → (Nat → Slot) → Prop} {p : Nat} {mem : Mem}
    (hstart : StartState A params p mem r) (hp0 : p ≠ 0) (hp : p < 2 ^ 32)
    (hP : ∀ d e, P d e → InTable d e) (h0 : I [] ⟨r, bdev⟩ (headerSlots p mem))
    (hstep : ∀ es d e d' g g', SameConfig r d.rzs → Rep A (numPages r.disksize) d.rzs g →
      P d e → Effect A decompress (numPages r.disksize) d g e d' g' → I es d g → I (es ++ [e]) d' g')
    (hrun : Run (Guarded (Step A decompress) P) ⟨r, bdev⟩ es d) :
    SameConfig r d.rzs ∧ ∃ g, Rep A (numPages r.disksize) d.rzs g ∧ I es d g := by
  induction hrun with
  | nil => exact ⟨SameConfig.refl r, _, hstart.rep hp0 hp, h0⟩
  | @snoc es d d' e _ hs ih =>
    obtain ⟨hconfig, g, hrep, hI⟩ := ih
    obtain ⟨hPe, hs⟩ := hs
    have hdisk : d.rzs.disksize = r.disksize := hconfig.2.1
    have hmax : d.rzs.maxCpageSize ≤ 4088 := hconfig.2.2.2.symm ▸ hstart.max_le
    rw [← hdisk] at hrep
    obtain ⟨g', heffect, hrep'⟩ := step_effect hrep hmax (hP d e hPe) hs
    rw [hdisk] at hrep hrep' heffect
    exact ⟨hconfig.trans heffect.config, g', hrep', hstep es d e d' g g' hconfig hrep hPe heffect hI⟩

end System

/-! ## Two small devices

One with two whole pages, and one with a sector after its only page; the entry behind the table is
`junk`. -/

def smallDev (size : Nat) (junk : TableEntry) : Dev :=
  ⟨(ramzswapInit .lp64 (smallParams size) (some 1) true (fun _ _ => 0) (fun _ => junk)).getD
    ⟨xvCreatePool fun _ _ => 0, [], fun _ => .empty, 0, 0, false, 0, fun _ => 0, []⟩,
    fun _ => List.replicate pageSize 0⟩

theorem even_started : Started .lp64 (smallParams 8192) (smallDev 8192 .empty).rzs :=
  ⟨some 1, true, _, _, fun _ h => by obtain rfl := Option.some.inj h; decide, rfl⟩

theorem odd_started (junk : TableEntry) : Started .lp64 (smallParams 4608) (smallDev 4608 junk).rzs :=
  ⟨some 1, true, _, _, fun _ h => by obtain rfl := Option.some.inj h; decide, rfl⟩

/-- A page of ones. -/
def ones : List UInt8 := List.replicate pageSize 1

/-- A compressor's inverse, for a page of ones. -/
def onesLzo (_ : List UInt8) : Option (List UInt8) := some ones

/-- A request for page 1, and the page of ones for it. -/
def onesBio : Bio := ⟨8, 1, pageSize, 0, ones, List.length_replicate⟩

/-- The page of ones, compressed to one byte, written to page 1. -/
def onesWrite : Event := .write onesBio (some [1]) (some 2) (.endio ones)

theorem onesWrite_index : onesWrite.index = some 1 := by
  unfold onesWrite
  rfl

/-- A write of the page of ones is a step, if it finds no page but the header's in use. -/
theorem ones_step {d : Dev} {r' : Rzs} (hvalid : validSwapRequest d.rzs onesBio = true)
    (hpages : (beginWrite .lp64 onesBio d.rzs).map (fun r => (r.memPool.pages, r.store)) =
      some ([], [1]))
    (h : ramzswapWrite .lp64 onesBio (some [1]) (some 2) d.rzs = some (.endio ones, r')) :
    Step .lp64 onesLzo d onesWrite ⟨r', d.bdev⟩ := by
  refine Step.write hvalid (fun c _ => rfl) ?_ ((if_pos hvalid).trans h)
  rintro r1 p hbegin hp
  rw [hbegin, Option.map_some, Option.some.injEq, Prod.mk.injEq] at hpages
  obtain rfl := Option.some.inj hp
  rw [FreshPage, hpages.1, hpages.2]
  decide

set_option maxRecDepth 10000 in
/-- The write to page 1 of the device of two pages. -/
theorem even_write : ∃ d, Guarded (Step .lp64 onesLzo) InTable (smallDev 8192 .empty) onesWrite d ∧
    d.rzs.disksize = 8192 := by
  have hres : (ramzswapWrite .lp64 onesBio (some [1]) (some 2) (smallDev 8192 .empty).rzs).map
      (fun x => (x.1, x.2.disksize)) = some (.endio ones, 8192) := by decide +kernel
  obtain ⟨⟨res, r'⟩, hw, heq⟩ := Option.map_eq_some_iff.mp hres
  obtain ⟨rfl, hdisk⟩ := Prod.mk.inj heq
  refine ⟨_, ⟨fun i hi => ?_, ones_step (by decide) (by decide +kernel) hw⟩, hdisk⟩
  obtain rfl := Option.some.inj hi
  decide

set_option maxRecDepth 10000 in
/-- The write to the page past the table of the other device: an object is allocated for it. -/
theorem odd_write : ∃ d, Step .lp64 onesLzo (smallDev 4608 .empty) onesWrite d ∧
    d.rzs.objects = [⟨⟨2, 4⟩, 1⟩] ∧ d.rzs.table 0 = ⟨1, 0, 1⟩ ∧ d.rzs.disksize = 4608 := by
  have hres : (ramzswapWrite .lp64 onesBio (some [1]) (some 2) (smallDev 4608 .empty).rzs).map
      (fun x => (x.1, x.2.objects, x.2.table 0, x.2.disksize)) =
        some (.endio ones, [⟨⟨2, 4⟩, 1⟩], ⟨1, 0, 1⟩, 4608) := by decide +kernel
  obtain ⟨⟨res, r'⟩, hw, heq⟩ := Option.map_eq_some_iff.mp hres
  simp only [Prod.mk.injEq] at heq
  obtain ⟨rfl, hobjects, htable, hdisk⟩ := heq
  exact ⟨_, ones_step (by decide) (by decide +kernel) hw, hobjects, htable, hdisk⟩

end KernelPatches.Ramzswap
