/-
  What initialisation leaves, and whether requests stay inside the table.

  `ramzswap_init` gets the disk size on two paths: from a module parameter, rounded to pages
  (`ramzswap_set_disksize`), or from the backing device, as it is (`setup_backing_swap`).  The table
  has one entry for each whole page; `valid_swap_request` compares with the size in sectors.

  * `Configured`     — the sizes a configuration leads to;
  * `StartState`     — the state init leaves: an empty table but for the swap header in entry 0;
  * `index_lt_iff`   — requests stay inside the table exactly if the backing device ends less than a
    sector after a whole page;
  * `StartState.rep` — the slots of the start state.
-/
import KernelPatches.Ramzswap.Slots

namespace KernelPatches.Ramzswap

open KernelPatches.Lib KernelPatches.Lib.Mem KernelPatches.Xvmalloc

/-! ## Init -/

/-- The size of RAM in bytes, as a `size_t`. -/
def ModuleParams.totalramBytes (A : Arch) (params : ModuleParams) : Nat :=
  (params.totalramPages <<< pageShift) % 2 ^ A.bitsPerLong

/-- The disk size and the memory limit a configuration leads to, and whether it is a backing device. -/
inductive Configured (A : Arch) (params : ModuleParams) : Nat → Nat → Bool → Prop
  | backing {size disksize memlimit : Nat} (hsize : params.backingSwap = some size)
      (hdisk : setupBackingSwap A size = some disksize)
      (hmem : ramzswapSetMemlimit A params (params.totalramBytes A) disksize = some memlimit) :
      Configured A params disksize memlimit true
  | alone (hnone : params.backingSwap = none) :
      Configured A params (ramzswapSetDisksize A params (params.totalramBytes A)) 0 false

/-- The state `ramzswap_init` leaves, with the swap header in page `p`. -/
structure StartState (A : Arch) (params : ModuleParams) (p : Nat) (mem : Mem) (r : Rzs) : Prop where
  configured : Configured A params r.disksize r.memlimit r.backingSwap
  size : numPages r.disksize ≠ 0
  header : r.table 0 = ⟨p, 0, 1⟩
  empty : ∀ i < numPages r.disksize, i ≠ 0 → r.table i = ⟨0, 0, 0⟩
  memPool : r.memPool = xvCreatePool mem
  objects : r.objects = []
  store : r.store = [p]
  stats : ∀ f, r.stats f = 0
  max : r.maxCpageSize = if r.backingSwap then maxCpageSizeBdev else maxCpageSizeNobdev

section Init

variable {A : Arch} {params : ModuleParams} {page : Option Nat} {granted : Bool} {mem : Mem}
  {junk : Nat → TableEntry} {r : Rzs}

theorem initTable_some {disksize memlimit : Nat} {backingSwap : Bool}
    (h : initTable disksize memlimit backingSwap page granted mem junk = some r)
    (hc : Configured A params disksize memlimit backingSwap) :
    ∃ p, page = some p ∧ StartState A params p mem r := by
  unfold initTable at h
  by_cases hfail : numPages disksize = 0 ∨ granted = false
  · rw [if_pos hfail] at h
    exact nomatch h
  rw [if_neg hfail] at h
  obtain ⟨hsize, _⟩ := not_or.mp hfail
  cases page with
  | none => exact nomatch h
  | some p =>
    obtain rfl := Option.some.inj h
    have hentry : (if 0 < numPages disksize then TableEntry.empty else junk 0) = ⟨0, 0, 0⟩ :=
      if_pos (Nat.pos_of_ne_zero hsize)
    refine ⟨p, rfl, hc, hsize, ?_, ?_, rfl, rfl, rfl, fun _ => rfl, rfl⟩
    · simp only [setFlag, modifyEntry, u32, Nat.zero_mod, Function.update_self, hentry]
      rfl
    · intro i hi hi0
      simp only [setFlag, modifyEntry, u32, Nat.zero_mod, Function.update_of_ne hi0]
      exact if_pos hi

/-- **What init leaves.** -/
theorem init_some (h : ramzswapInit A params page granted mem junk = some r) :
    ∃ p, page = some p ∧ StartState A params p mem r := by
  unfold ramzswapInit at h
  cases hback : params.backingSwap with
  | none =>
    simp only [hback] at h
    exact initTable_some h (.alone hback)
  | some size =>
    simp only [hback] at h
    cases hdisk : setupBackingSwap A size with
    | none =>
      rw [hdisk] at h
      exact nomatch h
    | some disksize =>
      simp only [hdisk] at h
      cases hmem : ramzswapSetMemlimit A params (params.totalramBytes A) disksize with
      | none =>
        unfold ModuleParams.totalramBytes at hmem
        rw [hmem] at h
        exact nomatch h
      | some memlimit =>
        have hc : Configured A params disksize memlimit true := .backing hback hdisk hmem
        unfold ModuleParams.totalramBytes at hmem
        rw [hmem] at h
        exact initTable_some h hc

end Init

/-! ## Do valid requests stay inside the table? -/

section Bounds

variable {A : Arch} {params : ModuleParams} {disksize memlimit : Nat} {backing : Bool}

theorem pageSize_dvd_two_pow (A : Arch) : pageSize ∣ 2 ^ A.bitsPerLong := by
  rcases A.bitsPerLong_eq with hA | hA <;> rw [hA] <;> decide

/-- The disk size is a `size_t`, and what is left of it after the whole pages is what is left of the
    backing device's size. -/
theorem Configured.rest (h : Configured A params disksize memlimit backing) :
    disksize < 2 ^ A.bitsPerLong ∧
      ((∀ size, params.backingSwap = some size → size % pageSize < 1 <<< sectorShift) ↔
        disksize % pageSize < 1 <<< sectorShift) := by
  have hpos : 0 < 2 ^ A.bitsPerLong := Nat.two_pow_pos _
  cases h with
  | @backing size _ _ hsize hdisk _ =>
    simp only [setupBackingSwap] at hdisk
    split at hdisk
    · exact nomatch hdisk
    · obtain rfl := Option.some.inj hdisk
      refine ⟨Nat.mod_lt _ hpos, ?_⟩
      rw [hsize, Nat.mod_mod_of_dvd _ (pageSize_dvd_two_pow A)]
      exact ⟨fun hall => hall size rfl, fun hlt s hs => Option.some.inj hs ▸ hlt⟩
  | alone hnone =>
    refine ⟨?_, iff_of_true (fun s hs => nomatch hnone.symm.trans hs) ?_⟩
    · unfold ramzswapSetDisksize pageMask
      refine Nat.lt_of_le_of_lt (Nat.div_mul_le_self _ _) ?_
      split
      · exact Nat.mod_lt _ hpos
      · exact Nat.mod_lt _ hpos
    · rw [ramzswapSetDisksize, pageMask, Nat.mul_mod_left]
      decide

theorem Configured.backing_eq (h : Configured A params disksize memlimit backing) :
    backing = params.backingSwap.isSome := by
  cases h with
  | backing hsize _ _ => rw [hsize]; rfl
  | alone hnone => rw [hnone]; rfl

/-- A request for sector `s`. -/
def Bio.at (s : Nat) : Bio := ⟨s, 1, pageSize, 0, List.replicate pageSize 0, List.length_replicate⟩

theorem validSwapRequest_iff (r : Rzs) (bio : Bio) : validSwapRequest r bio = true ↔
    bio.biSector < r.disksize / 512 ∧ bio.biSector % 8 = 0 ∧ bio.biVcnt = 1 ∧
      bio.biSize = pageSize ∧ bio.bvOffset = 0 := by
  have hand : bio.biSector &&& (sectorsPerPage - 1) = bio.biSector % 8 :=
    Nat.and_two_pow_sub_one_eq_mod bio.biSector 3
  have hshift : r.disksize >>> sectorShift = r.disksize / 512 := Nat.shiftRight_eq_div_pow _ _
  rw [validSwapRequest, decide_eq_true_iff, hand, hshift]
  simp only [not_or, Nat.not_le, ge_iff_le, ne_eq, not_not]

/-- **Valid requests index the table exactly if the backing device, if there is one, ends less than a
    sector after a whole page.** -/
theorem index_lt_iff {page : Option Nat} {granted : Bool} {mem : Mem} {junk : Nat → TableEntry}
    {r : Rzs} (h : ramzswapInit A params page granted mem junk = some r) :
    (∀ bio, validSwapRequest r bio = true →
        readIndex bio < numPages r.disksize ∧ writeIndex A bio < numPages r.disksize) ↔
      ∀ size, params.backingSwap = some size → size % pageSize < 1 <<< sectorShift := by
  obtain ⟨p, _, hstart⟩ := init_some h
  obtain ⟨hlt, hrest⟩ := hstart.configured.rest
  have hpages : numPages r.disksize = r.disksize / 4096 := Nat.shiftRight_eq_div_pow _ _
  have hindex : ∀ bio : Bio, bio.biSector >>> sectorsPerPageShift = bio.biSector / 8 :=
    fun bio => Nat.shiftRight_eq_div_pow _ _
  rw [hrest]
  have hsector : (1 : Nat) <<< sectorShift = 512 := rfl
  rw [hsector, pageSize_eq]
  constructor
  · intro hall
    by_contra hge
    -- the request for the sectors after the last whole page
    have hvalid : validSwapRequest r (Bio.at (8 * numPages r.disksize)) = true := by
      rw [validSwapRequest_iff, hpages]
      have hs : (Bio.at (8 * (r.disksize / 4096))).biSector = 8 * (r.disksize / 4096) := rfl
      rw [hs]
      exact ⟨by omega, by omega, rfl, rfl, rfl⟩
    have hw := (hall _ hvalid).2
    have hs : (Bio.at (8 * numPages r.disksize)).biSector = 8 * numPages r.disksize := rfl
    have hn : numPages r.disksize < 2 ^ A.bitsPerLong := by
      rw [hpages]
      omega
    rw [writeIndex, hindex, hs, Nat.mul_div_cancel_left _ (by decide), Nat.mod_eq_of_lt hn] at hw
    exact Nat.lt_irrefl _ hw
  · intro hlt bio hvalid
    obtain ⟨hs, _⟩ := (validSwapRequest_iff r bio).mp hvalid
    have hi : bio.biSector / 8 < numPages r.disksize := by
      rw [hpages]
      omega
    rw [readIndex, writeIndex, hindex, u32]
    exact ⟨Nat.lt_of_le_of_lt (Nat.mod_le _ _) hi, Nat.lt_of_le_of_lt (Nat.mod_le _ _) hi⟩

/-- A backing device of `size` bytes, and one page of memory. -/
def smallParams (size : Nat) : ModuleParams := ⟨0, 4, 1, some size⟩

theorem index_lt_iff_odd : ∃ r,
    ramzswapInit .lp64 (smallParams 4608) (some 1) true (fun _ _ => 0) (fun _ => ⟨0, 0, 0⟩) = some r ∧
      ((∀ bio, validSwapRequest r bio = true →
          readIndex bio < numPages r.disksize ∧ writeIndex .lp64 bio < numPages r.disksize) ↔
        ∀ size, (smallParams 4608).backingSwap = some size → size % pageSize < 1 <<< sectorShift) := by
  obtain ⟨r, hr⟩ : ∃ r, ramzswapInit .lp64 (smallParams 4608) (some 1) true (fun _ _ => 0)
      (fun _ => ⟨0, 0, 0⟩) = some r := ⟨_, rfl⟩
  exact ⟨r, hr, index_lt_iff hr⟩

/-- A valid request for the page behind the table. -/
theorem valid_past_table : ∃ r,
    ramzswapInit .lp64 (smallParams 4608) (some 1) true (fun _ _ => 0) (fun _ => ⟨0, 0, 0⟩) = some r ∧
      ∃ bio, validSwapRequest r bio = true ∧ numPages r.disksize ≤ readIndex bio ∧
        numPages r.disksize ≤ writeIndex .lp64 bio :=
  ⟨_, rfl, Bio.at 8, by decide, by decide, by decide⟩

end Bounds

/-! ## The slots of the start state -/

/-- The swap header in slot 0, nothing else. -/
def headerSlots (p : Nat) (mem : Mem) : Nat → Slot :=
  Function.update (fun _ => .absent) 0 (.whole p (mem.copyOut p 0 pageSize))

/-- `ramzswap_init` accepted the configuration, with whatever page the allocator gave it and whatever
    was in memory. -/
def Started (A : Arch) (params : ModuleParams) (r : Rzs) : Prop :=
  ∃ page granted mem junk, (∀ p, page = some p → p ≠ 0 ∧ p < 2 ^ 32) ∧
    ramzswapInit A params page granted mem junk = some r

theorem Started.start {A : Arch} {params : ModuleParams} {r : Rzs} (h : Started A params r) :
    ∃ p mem, p ≠ 0 ∧ p < 2 ^ 32 ∧ StartState A params p mem r := by
  obtain ⟨page, granted, mem, junk, hp, hinit⟩ := h
  obtain ⟨p, hpage, hstart⟩ := init_some hinit
  exact ⟨p, mem, (hp p hpage).1, (hp p hpage).2, hstart⟩

namespace StartState

variable {A : Arch} {params : ModuleParams} {p : Nat} {mem : Mem} {r : Rzs}

theorem rep (h : StartState A params p mem r) (hp0 : p ≠ 0) (hp : p < 2 ^ 32) :
    Rep A (numPages r.disksize) r (headerSlots p mem) := by
  have hpos : 0 < numPages r.disksize := Nat.pos_of_ne_zero h.size
  have hmem : r.memPool.mem = mem := by rw [h.memPool]; rfl
  refine ⟨?_, ?_, ?_, ?_, ?_, ?_⟩
  · rw [h.memPool, h.objects]
    exact Ok.fresh A mem
  · intro i hi
    rcases eq_or_ne i 0 with rfl | hi0
    · rw [h.header, headerSlots, Function.update_self]
      rfl
    · rw [h.empty i hi hi0, headerSlots, Function.update_of_ne hi0]
      rfl
  · rw [h.objects, headerSlots, slot_update]
    exact (Ledger.empty _).keep rfl
  · rw [h.store, headerSlots, slot_update]
    exact (Ledger.empty _).put hpos rfl List.not_mem_nil
  · rw [h.store, h.memPool]
    intro q hq
    obtain rfl := List.mem_singleton.mp hq
    exact ⟨hp0, hp, List.not_mem_nil⟩
  · intro i _
    rw [hmem, headerSlots]
    rcases eq_or_ne i 0 with rfl | hi0
    · rw [Function.update_self]
      exact ⟨length_copyOut _ _ _ _, rfl⟩
    · rw [Function.update_of_ne hi0]
      trivial

theorem max_le (h : StartState A params p mem r) : r.maxCpageSize ≤ 4088 := by
  rw [h.max]
  split <;> decide

end StartState

end KernelPatches.Ramzswap
