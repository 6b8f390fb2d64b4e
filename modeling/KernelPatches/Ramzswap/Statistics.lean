/-
  The statistics against the table.

  `Counter.ofEntry` is what a table entry should contribute to a counter, read off the entry and the
  pool; `StatsMatch` says that the counters are the sums over the table.

  They never are: init installs the swap header's page without counting it, and `ramzswap_free_page`
  counts it out like any other page.  After every run inside the table each counter is the table's
  sum less the header's share, modulo its width (`run_stats`).

  With a backing device, and page 0 left alone, that share is never counted out, `compr_size` is exact,
  and the test before compression keeps it within the limit (`run_memlimit`).
-/
import KernelPatches.Ramzswap.Ownership
import Mathlib.Algebra.BigOperators.Group.Finset.Piecewise
import Mathlib.Algebra.Order.BigOperators.Group.Finset

namespace KernelPatches.Ramzswap

open KernelPatches.Lib KernelPatches.Lib.Mem KernelPatches.Xvmalloc

/-! ## Sums over the table -/

/-- The length of what the entry stores. -/
def storedLength (r : Rzs) (e : TableEntry) : Nat :=
  if e.pagenum = 0 then 0
  else if e.flagged .uncompressed then pageSize
  else xvGetObjectSize r.memPool.mem ⟨e.pagenum, e.offset⟩

/-- What the entry should contribute to a counter. -/
def Counter.ofEntry (r : Rzs) (e : TableEntry) : Counter → Nat
  | comprSize => storedLength r e
  | pagesStored => if e.pagenum ≠ 0 then 1 else 0
  | pagesZero => if e.flagged .zero then 1 else 0
  | pagesExpand => if e.flagged .uncompressed then 1 else 0
  | goodCompress =>
    if e.pagenum ≠ 0 ∧ e.flagged .uncompressed = false ∧ storedLength r e ≤ pageSize / 2 then 1 else 0

/-- The counters are what the table says. -/
def StatsMatch (n : Nat) (r : Rzs) : Prop :=
  ∀ k : Counter, r.stats k.field = ∑ i ∈ Finset.range n, k.ofEntry r (r.table i)

/-- What the page of the swap header should contribute. -/
def Counter.header : Counter → Nat
  | comprSize => pageSize
  | pagesStored => 1
  | pagesExpand => 1
  | _ => 0

/-- The sum of the slots' weights. -/
def total (n : Nat) (g : Nat → Slot) (k : Counter) : Nat := ∑ i ∈ Finset.range n, (g i).weight k

section Totals

variable {A : Arch} {n i K : Nat} {r r' : Rzs} {g : Nat → Slot} {k : Counter}

theorem total_update (hi : i < n) (s : Slot) :
    total n (Function.update g i s) k + (g i).weight k = total n g k + s.weight k := by
  have hmem : i ∈ Finset.range n := Finset.mem_range.mpr hi
  have hnew := Finset.sum_update_of_mem hmem (fun j => (g j).weight k) (s.weight k)
  have hold := Finset.sum_update_of_mem hmem (fun j => (g j).weight k) ((g i).weight k)
  rw [Function.update_eq_self] at hold
  rw [← slot_update (Slot.weight k)] at hnew
  unfold total
  rw [hnew, hold]
  omega

theorem total_empty : total n (fun _ => .absent) k = 0 := by
  refine Finset.sum_eq_zero fun i _ => ?_
  exact Slot.weight_absent k

/-- Two slots together weigh at most the total. -/
theorem weight_add_le (h0 : 0 < n) (hi : i < n) (hi0 : i ≠ 0) :
    (g 0).weight k + (g i).weight k ≤ total n g k := by
  have hle : (Function.update g i .absent 0).weight k ≤ total n (Function.update g i .absent) k :=
    Finset.single_le_sum (f := fun j => (Function.update g i .absent j).weight k)
      (fun _ _ => Nat.zero_le _) (Finset.mem_range.mpr h0)
  rw [Function.update_of_ne (Ne.symm hi0)] at hle
  have htotal := total_update (g := g) (k := k) hi .absent
  rw [Slot.weight_absent] at htotal
  omega

theorem Rep.storedLength (h : Rep A n r g) (hi : i < n) :
    storedLength r (r.table i) = (g i).len := by
  have hunc := Slot.entry_uncompressed_iff (g i)
  have hpage := h.pagenum_eq_zero hi
  rw [h.table i hi] at hpage ⊢
  unfold Ramzswap.storedLength TableEntry.flagged
  rcases hg : g i with _ | _ | ⟨p, d⟩ | ⟨a, c⟩
  · rfl
  · rfl
  · rw [hg] at hpage hunc
    rw [if_neg (fun hc => (hpage.mp hc).elim (fun hc => nomatch hc) (fun hc => nomatch hc)),
      if_pos (hunc.mpr ⟨p, d, rfl⟩)]
    rfl
  · rw [hg] at hpage hunc
    rw [if_neg (fun hc => (hpage.mp hc).elim (fun hc => nomatch hc) (fun hc => nomatch hc)),
      if_neg (fun hc => by obtain ⟨_, _, hc⟩ := hunc.mp hc; exact nomatch hc)]
    exact (live_loc h.pool (h.objects.mem hi (congrArg Slot.obj hg))).2.2.2.2

/-- The slots' weights are what the entries should contribute. -/
theorem Rep.ofEntry (h : Rep A n r g) (hi : i < n) : k.ofEntry r (r.table i) = (g i).weight k := by
  have hlen := h.storedLength hi
  have hpage := h.pagenum_eq_zero hi
  rw [h.table i hi] at hpage hlen ⊢
  have h00 : Nat.testBit 0 0 = false := by decide
  have h01 : Nat.testBit 0 1 = false := by decide
  have h10 : Nat.testBit 1 0 = true := by decide
  have h11 : Nat.testBit 1 1 = false := by decide
  rcases hg : g i with _ | _ | ⟨p, d⟩ | ⟨a, c⟩ <;> rw [hg] at hpage hlen
  · cases k with
    | comprSize => exact hlen
    | _ => rfl
  · cases k with
    | comprSize => exact hlen
    | _ => rfl
  · have hp : ¬ (Slot.whole p d).entry.pagenum = 0 := by simp [hpage]
    cases k with
    | comprSize => exact hlen
    | pagesStored => exact if_pos hp
    | pagesZero => exact if_neg fun hc => Bool.noConfusion (h11.symm.trans hc)
    | pagesExpand => exact if_pos h10
    | goodCompress => exact if_neg fun hc => Bool.noConfusion (h10.symm.trans hc.2.1)
  · have hp : ¬ (Slot.packed a c).entry.pagenum = 0 := by simp [hpage]
    cases k with
    | comprSize => exact hlen
    | pagesStored => exact if_pos hp
    | pagesZero => exact if_neg fun hc => Bool.noConfusion (h01.symm.trans hc)
    | pagesExpand => exact if_neg fun hc => Bool.noConfusion (h00.symm.trans hc)
    | goodCompress =>
      rw [Counter.ofEntry, hlen, Slot.weight]
      refine if_congr ?_ rfl rfl
      rw [Nat.lt_succ_iff]
      exact ⟨fun hc => hc.2.2, fun hc => ⟨hp, h00, hc⟩⟩

/-- The sum over the table is the sum over the slots. -/
theorem Rep.sum_ofEntry (h : Rep A n r g) (k : Counter) :
    ∑ i ∈ Finset.range n, k.ofEntry r (r.table i) = total n g k :=
  Finset.sum_congr rfl fun _ hi => h.ofEntry (Finset.mem_range.mp hi)

/-- Freeing a slot keeps a counter level with the total. -/
theorem Freed.level (h : Freed A n i r g r') (hi : i < n)
    (hk : r.stats k.field + K ≡ total n g k [MOD k.mod A]) :
    r'.stats k.field + K ≡ total n (Function.update g i .absent) k [MOD k.mod A] := by
  have htotal := total_update (g := g) (k := k) hi .absent
  rw [Slot.weight_absent, Nat.add_zero] at htotal
  refine Nat.ModEq.add_right_cancel' ((g i).weight k) ?_
  calc r'.stats k.field + K + (g i).weight k
      = r'.stats k.field + (g i).weight k + K := Nat.add_right_comm _ _ _
    _ ≡ r.stats k.field + K [MOD k.mod A] := (h.stats k).add_right K
    _ ≡ total n g k [MOD k.mod A] := hk
    _ = total n (Function.update g i .absent) k + (g i).weight k := htotal.symm

/-- Filling a slot keeps a counter level with the total. -/
theorem Filled.level {bio : Bio} {compressed : Option (List UInt8)} {s : Slot} {res : IoResult × Rzs}
    (h : Filled A n i bio compressed r g s res) (hi : i < n) (hg : g i = .absent)
    (hk : r.stats k.field + K ≡ total n g k [MOD k.mod A]) :
    res.2.stats k.field + K ≡ total n (Function.update g i s) k [MOD k.mod A] := by
  have htotal := total_update (g := g) (k := k) hi s
  rw [hg, Slot.weight_absent, Nat.add_zero] at htotal
  calc res.2.stats k.field + K
      ≡ r.stats k.field + s.weight k + K [MOD k.mod A] := (h.stats k).add_right K
    _ = r.stats k.field + K + s.weight k := Nat.add_right_comm _ _ _
    _ ≡ total n g k + s.weight k [MOD k.mod A] := hk.add_right _
    _ = total n (Function.update g i s) k := htotal.symm

end Totals

/-! ## The header's page is never counted in -/

section Run

variable {A : Arch} {decompress : List UInt8 → Option (List UInt8)} {params : ModuleParams} {r : Rzs}
  {bdev : Nat → List UInt8} {es : List Event} {d d' : Dev} {n : Nat} {g g' : Nat → Slot} {e : Event}

/-- Every effect keeps the counters level with the totals. -/
theorem Effect.level (h : Effect A decompress n d g e d' g') (hin : ∀ i, e.index = some i → i < n)
    {K : Nat} {k : Counter} (hk : d.rzs.stats k.field + K ≡ total n g k [MOD k.mod A]) :
    d'.rzs.stats k.field + K ≡ total n g' k [MOD k.mod A] := by
  cases h with
  | read hq => rwa [hq.1 k]
  | write _ hfreed hfilled =>
    have hi := hin _ rfl
    have hlevel := hfilled.level hi (Function.update_self _ _ _) (hfreed.level hi hk)
    rwa [Function.update_idem] at hlevel
  | invalid hq => rwa [hq.1 k]
  | notify hfreed => exact hfreed.level (hin _ rfl) hk
  | other hst _ => rwa [hst k]

theorem total_header {p : Nat} {mem : Mem} (hn : n ≠ 0) (k : Counter) :
    total n (headerSlots p mem) k = k.header := by
  have htotal := total_update (g := fun _ => .absent) (k := k) (Nat.pos_of_ne_zero hn)
    (.whole p (mem.copyOut p 0 pageSize))
  rw [Slot.weight_absent, total_empty, Nat.add_zero, Nat.zero_add] at htotal
  rw [headerSlots, htotal]
  cases k <;> rfl

/-- **The statistics never match the table**: after every run inside the table, the start itself
    included, each counter is the table's sum less the header's share. -/
theorem run_stats (hstart : Started A params r)
    (hrun : Run (Guarded (Step A decompress) InTable) ⟨r, bdev⟩ es d) :
    ¬ StatsMatch (numPages d.rzs.disksize) d.rzs ∧
      ∀ k : Counter, d.rzs.stats k.field + k.header ≡
        ∑ i ∈ Finset.range (numPages d.rzs.disksize), k.ofEntry d.rzs (d.rzs.table i)
          [MOD k.mod A] := by
  obtain ⟨p, mem, hp0, hp, hs⟩ := hstart.start
  obtain ⟨hconfig, g, hrep, hlevel⟩ := run_slots
    (I := fun _ d g => ∀ k : Counter, d.rzs.stats k.field + k.header ≡
      total (numPages r.disksize) g k [MOD k.mod A]) hs hp0 hp (fun _ _ h => h)
    (fun k => by
      have h0 : r.stats k.field = 0 := hs.stats _
      rw [h0, Nat.zero_add, total_header hs.size])
    (fun es d e d' g g' hconfig _ hin heffect hlevel k => heffect.level (fun i hi => by
      have hlt := (hin i hi).1
      have hdisk : d.rzs.disksize = r.disksize := hconfig.2.1
      rwa [hdisk] at hlt) (hlevel k)) hrun
  have hdisk : d.rzs.disksize = r.disksize := hconfig.2.1
  have hdrift : ∀ k : Counter, d.rzs.stats k.field + k.header ≡
      ∑ i ∈ Finset.range (numPages d.rzs.disksize), k.ofEntry d.rzs (d.rzs.table i)
        [MOD k.mod A] := by
    intro k
    rw [hdisk, hrep.sum_ofEntry]
    exact hlevel k
  refine ⟨fun hmatch => ?_, hdrift⟩
  -- one page too few
  have hone := hdrift .pagesStored
  rw [← hmatch .pagesStored] at hone
  have hzero : 1 ≡ 0 [MOD 2 ^ 32] := Nat.ModEq.add_left_cancel' _ hone
  exact absurd hzero (by decide)

/-- The statistics after a write inside the table. -/
theorem run_stats_write : ∃ d, Run (Guarded (Step .lp64 onesLzo) InTable) (smallDev 8192 .empty)
    [onesWrite] d ∧ ¬ StatsMatch (numPages d.rzs.disksize) d.rzs ∧
      ∀ k : Counter, d.rzs.stats k.field + k.header ≡
        ∑ i ∈ Finset.range (numPages d.rzs.disksize), k.ofEntry d.rzs (d.rzs.table i)
          [MOD k.mod .lp64] := by
  obtain ⟨d, hs, _⟩ := even_write
  have hrun := Run.nil.snoc hs
  exact ⟨d, hrun, run_stats even_started hrun⟩

/-- **`compr_size` wraps**: a notification for page 0 counts out what was never counted in. -/
theorem header_notify_wraps : ∃ d, Started .lp64 (smallParams 8192) (smallDev 8192 .empty).rzs ∧
    Run (Step .lp64 onesLzo) (smallDev 8192 .empty) [.notify 0] d ∧
      ¬ StatsMatch (numPages d.rzs.disksize) d.rzs ∧
      d.rzs.stats .comprSize = 18446744073709547520 := by
  have hres : (ramzswapSlotFreeNotify .lp64 0 (smallDev 8192 .empty).rzs).map
      (fun r => (r.stats .comprSize, r.stats .pagesStored, r.disksize, r.table 0, r.table 1)) =
        some (18446744073709547520, 4294967295, 8192, ⟨0, 0, 0⟩, ⟨0, 0, 0⟩) := by
    decide +kernel
  obtain ⟨r', hn, heq⟩ := Option.map_eq_some_iff.mp hres
  obtain ⟨hcompr, heq⟩ := Prod.mk.inj heq
  obtain ⟨hstored, heq⟩ := Prod.mk.inj heq
  obtain ⟨hdisk, heq⟩ := Prod.mk.inj heq
  obtain ⟨h0, h1⟩ := Prod.mk.inj heq
  refine ⟨_, even_started, Run.nil.snoc (Step.notify hn), fun hmatch => ?_, hcompr⟩
  have hn : numPages r'.disksize = 2 := by rw [hdisk]; rfl
  have hsum := hmatch .pagesStored
  rw [hn, Finset.sum_range_succ, Finset.sum_range_one, h0, h1] at hsum
  have hempty : ∀ r : Rzs, Counter.ofEntry r ⟨0, 0, 0⟩ .pagesStored = 0 := fun _ => rfl
  rw [hempty] at hsum
  exact absurd (hstored.symm.trans hsum) (by decide)

end Run

/-! ## The memory limit -/

section Limit

variable {A : Arch} {decompress : List UInt8 → Option (List UInt8)} {params : ModuleParams} {r : Rzs}
  {bdev : Nat → List UInt8} {es : List Event} {d : Dev}

/-- The event stays inside the table and leaves page 0 alone. -/
def PastHeader (d : Dev) (e : Event) : Prop := InTable d e ∧ ∀ i, e.index = some i → 1 ≤ i

/-- The limit of a backing device is a number of whole pages, and not none. -/
theorem Configured.memlimit_ge {disksize memlimit : Nat}
    (h : Configured A params disksize memlimit true) :
    pageSize ≤ memlimit ∧ memlimit < 2 ^ A.bitsPerLong := by
  obtain ⟨hdisk, _⟩ := h.rest
  cases h with
  | backing _ _ hmem =>
    have hpos : 0 < 2 ^ A.bitsPerLong := Nat.two_pow_pos _
    obtain ⟨x, hx, hlim⟩ : ∃ x, x < 2 ^ A.bitsPerLong ∧
        (if pageMask x = 0 then none else some (pageMask x)) = some memlimit := by
      refine ⟨_, ?_, hmem⟩
      split
      · dsimp only
        split
        · exact hdisk
        · exact Nat.mod_lt _ hpos
      · exact Nat.mod_lt _ hpos
    split at hlim
    case isTrue => exact nomatch hlim
    case isFalse hne =>
      obtain rfl := Option.some.inj hlim
      rw [pageMask, pageSize_eq] at hne ⊢
      have hle : x / 4096 * 4096 ≤ x := Nat.div_mul_le_self _ _
      exact ⟨by omega, Nat.lt_of_le_of_lt hle hx⟩

/-- The state of a device whose page 0 is left alone: `compr_size` is what is stored past the header,
    and within the limit. -/
structure WithinLimit (A : Arch) (n : Nat) (d : Dev) (g : Nat → Slot) : Prop where
  header : (g 0).len = pageSize
  exact_size : d.rzs.stats .comprSize + pageSize = total n g .comprSize
  range : InRange A d.rzs.stats
  limit : d.rzs.stats .comprSize ≤ d.rzs.memlimit

/-- `compr_size` after page `i` is freed, if it is not the header's. -/
theorem Freed.comprSize_eq {n i : Nat} {g : Nat → Slot} {r' : Rzs} (hfreed : Freed A n i d.rzs g r')
    (h : WithinLimit A n d g) (hi : i < n) (hi0 : i ≠ 0) :
    r'.stats .comprSize + (g i).len = d.rzs.stats .comprSize := by
  have hle := weight_add_le (g := g) (k := .comprSize) (Nat.zero_lt_of_lt hi) hi hi0
  have hsum : (g 0).len + (g i).len ≤ total n g .comprSize := hle
  rw [h.header, ← h.exact_size] at hsum
  have hk : r'.stats .comprSize + (g i).len ≡ d.rzs.stats .comprSize [MOD 2 ^ A.bitsPerLong] :=
    hfreed.stats .comprSize
  have hlt : r'.stats .comprSize < 2 ^ A.bitsPerLong := hfreed.range h.range .comprSize
  have hlt0 : d.rzs.stats .comprSize < 2 ^ A.bitsPerLong := h.range .comprSize
  have hsub : d.rzs.stats .comprSize - (g i).len + (g i).len = d.rzs.stats .comprSize := by omega
  have hcancel : r'.stats .comprSize ≡ d.rzs.stats .comprSize - (g i).len [MOD 2 ^ A.bitsPerLong] := by
    refine Nat.ModEq.add_right_cancel' (g i).len ?_
    rwa [hsub]
  have heq := hcancel.eq_of_lt_of_lt hlt (by omega)
  omega

/-- Freeing a page past the header keeps within the limit. -/
theorem WithinLimit.freed {n i : Nat} {g : Nat → Slot} {r' : Rzs} (h : WithinLimit A n d g)
    (hfreed : Freed A n i d.rzs g r') (hi : i < n) (hi0 : i ≠ 0) (bdev : Nat → List UInt8) :
    WithinLimit A n ⟨r', bdev⟩ (Function.update g i .absent) := by
  have hsize := hfreed.comprSize_eq h hi hi0
  have htotal := total_update (g := g) (k := .comprSize) hi .absent
  have hlim : r'.memlimit = d.rzs.memlimit := hfreed.config.1
  have hexact := h.exact_size
  have hlimit := h.limit
  refine ⟨?_, ?_, hfreed.range h.range, ?_⟩
  · rw [Function.update_of_ne (Ne.symm hi0)]
    exact h.header
  · change r'.stats .comprSize + pageSize = _
    change _ + (g i).len = _ + 0 at htotal
    omega
  · change r'.stats .comprSize ≤ r'.memlimit
    omega

/-- Filling a page past the header keeps within the limit: it was tested before compression. -/
theorem WithinLimit.filled {n i : Nat} {g : Nat → Slot} {bio : Bio} {compressed : Option (List UInt8)}
    {s : Slot} {res : IoResult × Rzs} (h : WithinLimit A n d g)
    (hfilled : Filled A n i bio compressed d.rzs g s res) (hg : g i = .absent) (hi : i < n)
    (hi0 : i ≠ 0) (hback : d.rzs.backingSwap = true) (hmax : d.rzs.maxCpageSize ≤ pageSize)
    (hge : pageSize ≤ d.rzs.memlimit) (hlt : d.rzs.memlimit < 2 ^ A.bitsPerLong)
    (bdev : Nat → List UInt8) : WithinLimit A n ⟨res.2, bdev⟩ (Function.update g i s) := by
  have hlim : res.2.memlimit = d.rzs.memlimit := hfilled.config.1
  have hexact := h.exact_size
  have hlimit := h.limit
  have hbound : d.rzs.stats .comprSize + s.len ≤ d.rzs.memlimit := by
    have hwritten := hfilled.written
    generalize res.1 = answer at hwritten
    cases hwritten with
    | zero => exact hlimit
    | whole hno => exact Bool.noConfusion (hno.symm.trans hback)
    | @packed a c hc hlen hle =>
      have hle := hle hback
      have hsub : sub A.bitsPerLong d.rzs.memlimit pageSize = d.rzs.memlimit - pageSize := by
        rw [sub, Nat.add_comm, Nat.add_sub_assoc hge, Nat.add_mod_left,
          Nat.mod_eq_of_lt (Nat.lt_of_le_of_lt (Nat.sub_le _ _) hlt)]
      rw [hsub] at hle
      change _ + c.length ≤ _
      omega
    | forwarded => exact hlimit
    | failed => exact hlimit
  have hsize : res.2.stats .comprSize = d.rzs.stats .comprSize + s.len := by
    have hk : res.2.stats .comprSize ≡ d.rzs.stats .comprSize + s.len [MOD 2 ^ A.bitsPerLong] :=
      hfilled.stats .comprSize
    exact hk.eq_of_lt_of_lt (hfilled.range h.range .comprSize) (Nat.lt_of_le_of_lt hbound hlt)
  have htotal := total_update (g := g) (k := .comprSize) hi s
  rw [hg] at htotal
  change _ + 0 = _ + s.len at htotal
  refine ⟨?_, ?_, hfilled.range h.range, ?_⟩
  · rw [Function.update_of_ne (Ne.symm hi0)]
    exact h.header
  · change res.2.stats .comprSize + pageSize = _
    omega
  · change res.2.stats .comprSize ≤ res.2.memlimit
    omega

/-- Statistics of requests make no difference. -/
theorem WithinLimit.same {n : Nat} {g : Nat → Slot} {r' : Rzs} (h : WithinLimit A n d g)
    (hst : SameStored d.rzs r') (hconfig : SameConfig d.rzs r') (bdev : Nat → List UInt8) :
    WithinLimit A n ⟨r', bdev⟩ g where
  header := h.header
  exact_size := (congrArg (· + pageSize) (hst .comprSize)).trans h.exact_size
  range := fun k => (hst k).symm ▸ h.range k
  limit := by
    have hc : r'.stats .comprSize = d.rzs.stats .comprSize := hst .comprSize
    have hl : r'.memlimit = d.rzs.memlimit := hconfig.1
    change r'.stats .comprSize ≤ r'.memlimit
    rw [hc, hl]
    exact h.limit

/-- Every effect past the header keeps within the limit. -/
theorem WithinLimit.effect {n : Nat} {g g' : Nat → Slot} {e : Event} {d' : Dev}
    (h : WithinLimit A n d g) (heffect : Effect A decompress n d g e d' g')
    (hin : ∀ i, e.index = some i → i < n ∧ i ≠ 0) (hback : d.rzs.backingSwap = true)
    (hmax : d.rzs.maxCpageSize ≤ pageSize) (hge : pageSize ≤ d.rzs.memlimit)
    (hlt : d.rzs.memlimit < 2 ^ A.bitsPerLong) : WithinLimit A n d' g' := by
  cases heffect with
  | read hq => exact h.same hq.1 hq.config _
  | @write bio _ _ res _ _ _ _ hfreed hfilled =>
    obtain ⟨hi, hi0⟩ := hin _ rfl
    obtain ⟨hlim, _, hback', hmax'⟩ := hfreed.config
    have hfree := h.freed hfreed hi hi0 d.bdev
    have hfill := hfree.filled hfilled (Function.update_self _ _ _) hi hi0 (hback'.trans hback)
      (hmax'.symm ▸ hmax) (hlim.symm ▸ hge) (hlim.symm ▸ hlt) (d.passOn bio res)
    rwa [Function.update_idem] at hfill
  | invalid hq => exact h.same hq.1 hq.config _
  | notify hfreed =>
    obtain ⟨hi, hi0⟩ := hin _ rfl
    exact h.freed hfreed hi hi0 _
  | other hst hconfig => exact h.same hst hconfig _

/-- **With a backing device, and page 0 left alone, `compr_size` stays within the limit** after every run
    inside the table, and `rzs.memlimit - PAGE_SIZE` does not wrap. -/
theorem run_memlimit (hstart : Started A params r) (hback : params.backingSwap.isSome = true)
    (hrun : Run (Guarded (Step A decompress) PastHeader) ⟨r, bdev⟩ es d) :
    d.rzs.stats .comprSize ≤ d.rzs.memlimit ∧
      sub A.bitsPerLong d.rzs.memlimit pageSize + pageSize = d.rzs.memlimit := by
  obtain ⟨p, mem, hp0, hp, hs⟩ := hstart.start
  have hbacking : r.backingSwap = true := hs.configured.backing_eq.trans hback
  obtain ⟨hge, hlt⟩ : pageSize ≤ r.memlimit ∧ r.memlimit < 2 ^ A.bitsPerLong := by
    have hc := hs.configured
    rw [hbacking] at hc
    exact hc.memlimit_ge
  have hmax : r.maxCpageSize ≤ pageSize := by
    rw [hs.max]
    split <;> decide
  have hzero : r.stats .comprSize = 0 := hs.stats _
  have h0 : WithinLimit A (numPages r.disksize) ⟨r, bdev⟩ (headerSlots p mem) := by
    refine ⟨?_, ?_, fun k => ?_, ?_⟩
    · rw [headerSlots, Function.update_self]
      rfl
    · rw [total_header hs.size]
      exact (congrArg (· + pageSize) hzero).trans (Nat.zero_add _)
    · exact (hs.stats k.field).symm ▸ Nat.two_pow_pos _
    · exact hzero.symm ▸ Nat.zero_le _
  obtain ⟨hconfig, g, _, hlimit⟩ := run_slots (I := fun _ d g => WithinLimit A (numPages r.disksize) d g)
    hs hp0 hp (fun _ _ h => h.1) h0 (fun _ d e d' g g' hconfig _ hP heffect h => by
      obtain ⟨hin, hpast⟩ := hP
      obtain ⟨hlim, hdisk, hback', hmax'⟩ := hconfig
      refine h.effect heffect (fun i hi => ⟨?_, ?_⟩) (hback'.trans hbacking) (hmax'.symm ▸ hmax)
        (hlim.symm ▸ hge) (hlim.symm ▸ hlt)
      · exact hdisk ▸ (hin i hi).1
      · exact Nat.one_le_iff_ne_zero.mp (hpast i hi)) hrun
  have hlim : d.rzs.memlimit = r.memlimit := hconfig.1
  refine ⟨hlimit.limit, ?_⟩
  rw [hlim, sub, Nat.add_comm r.memlimit, Nat.add_sub_assoc hge, Nat.add_mod_left,
    Nat.mod_eq_of_lt (Nat.lt_of_le_of_lt (Nat.sub_le _ _) hlt), Nat.sub_add_cancel hge]

/-- The limit after a write inside the table. -/
theorem run_memlimit_write : ∃ d, Run (Guarded (Step .lp64 onesLzo) PastHeader)
    (smallDev 8192 .empty) [onesWrite] d ∧ d.rzs.stats .comprSize ≤ d.rzs.memlimit ∧
      sub Arch.lp64.bitsPerLong d.rzs.memlimit pageSize + pageSize = d.rzs.memlimit := by
  obtain ⟨d, ⟨hin, hs⟩, _⟩ := even_write
  have hrun : Run (Guarded (Step .lp64 onesLzo) PastHeader) (smallDev 8192 .empty) [onesWrite] d :=
    Run.nil.snoc ⟨⟨hin, fun i hi => by
      rw [onesWrite_index] at hi
      exact Nat.le_of_eq (Option.some.inj hi)⟩, hs⟩
  exact ⟨d, hrun, run_memlimit even_started rfl hrun⟩

/-- **A write past the table breaks the limit**: it frees the whole page it takes the memory behind the
    table for, and `compr_size` wraps. -/
theorem write_past_table_wraps : ∃ d,
    Started .lp64 (smallParams 4608) (smallDev 4608 ⟨7, 0, 1⟩).rzs ∧
      Run (Step .lp64 onesLzo) (smallDev 4608 ⟨7, 0, 1⟩) [.write onesBio none none .forward] d ∧
      (∀ i, Event.index (.write onesBio none none .forward) = some i → 1 ≤ i) ∧
      ¬ d.rzs.stats .comprSize ≤ d.rzs.memlimit := by
  have hres : (ramzswapWrite .lp64 onesBio none none (smallDev 4608 ⟨7, 0, 1⟩).rzs).map
      (fun x => (x.1, x.2.stats .comprSize, x.2.memlimit)) =
        some (.forward, 18446744073709547520, 4096) := by
    decide +kernel
  obtain ⟨⟨res, r'⟩, hw, heq⟩ := Option.map_eq_some_iff.mp hres
  obtain ⟨rfl, heq⟩ := Prod.mk.inj heq
  obtain ⟨hcompr, hlim⟩ := Prod.mk.inj heq
  have hvalid : validSwapRequest (smallDev 4608 ⟨7, 0, 1⟩).rzs onesBio = true := by decide
  have hs : Step .lp64 onesLzo (smallDev 4608 ⟨7, 0, 1⟩) (.write onesBio none none .forward) _ :=
    Step.write hvalid (fun _ hc => nomatch hc) (fun _ _ _ hc => nomatch hc) ((if_pos hvalid).trans hw)
  refine ⟨_, odd_started _, Run.nil.snoc hs, fun i hi => ?_, fun hle => ?_⟩
  · obtain rfl := Option.some.inj hi
    decide
  · have hbad : r'.stats .comprSize ≤ r'.memlimit := hle
    have hcompr : r'.stats .comprSize = 18446744073709547520 := hcompr
    have hlim : r'.memlimit = 4096 := hlim
    omega

end Limit

end KernelPatches.Ramzswap
