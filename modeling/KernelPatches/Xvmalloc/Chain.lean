/-
  The pieces `xv_malloc`, `xv_free` and `grow_pool` are put together from.

  Each of the three writes the header of a block, puts a free block on a list if it is large enough
  for one, and takes a block off its list if it is large enough to be on one.  The source repeats
  these few lines; here each is stated once, with its footprint:

  * `freshHdr` — the four header writes that turn any four bytes into the header of a free block;
  * `chain`    — "if the size is at least XV_MIN_ALLOC_SIZE, insert the block";
  * `unchain`  — "if the size is at least XV_MIN_ALLOC_SIZE, remove the block".
-/
import KernelPatches.Xvmalloc.Layout

namespace KernelPatches.Xvmalloc

open KernelPatches.Lib KernelPatches.Lib.Mem

variable {A : Arch} {s : XvState} {L : Nat → List Loc} {a : Loc}

/-! ## A new header -/

/-- The header writes of `grow_pool` and of the split in `xv_malloc`. -/
def freshHdr (m : Mem) (b : Loc) (size prev : Nat) : Mem :=
  setBlockprev (clearFlag (setFlag (setSize m b size) b .blockFree) b .prevFree) b prev

/-- Whatever was there before, the header is now that of a free block after a used one. -/
theorem freshHdr_hdr (m : Mem) (b : Loc) {size prev : Nat} (hs : size < 2 ^ 16)
    (hp : prev % 4 = 0) (hlt : prev < 2 ^ 16) : Hdr (freshHdr m b size prev) b size prev false true :=
  ((((Hdr.self m b).setSize hs).setFree).clearPrevFree).setBlockprev hp hlt

theorem freshHdr_agreeOff (m : Mem) (b : Loc) (size prev : Nat) :
    AgreeOff (InHdr b) m (freshHdr m b size prev) :=
  (((agreeOff_setSize m b size).trans (agreeOff_setPrev _ b _)).trans
    (agreeOff_setPrev _ b _)).trans (agreeOff_setPrev _ b _)

/-! ## On the list -/

/-- The lists after a block of size `v` is put on its list, if it is large enough for one. -/
def chainList (L : Nat → List Loc) (v : Nat) (a : Loc) : Nat → List Loc :=
  if 32 ≤ v then pushList L (getIndexForInsert v) a else L

theorem mem_chainList {v j : Nat} {b : Loc} : b ∈ chainList L v a j ↔
    b ∈ L j ∨ (32 ≤ v ∧ b = a ∧ j = getIndexForInsert v) := by
  by_cases hv : 32 ≤ v
  · rw [chainList, if_pos hv, mem_pushList]
    constructor
    · rintro (⟨rfl, rfl⟩ | h)
      · exact Or.inr ⟨hv, rfl, rfl⟩
      · exact Or.inl h
    · rintro (h | ⟨_, rfl, rfl⟩)
      · exact Or.inr h
      · exact Or.inl ⟨rfl, rfl⟩
  · rw [chainList, if_neg hv]
    exact ⟨Or.inl, fun h => h.resolve_right (fun hc => hv hc.1)⟩

/-- Putting a free block on the list of its size. -/
def chain (A : Arch) (a : Loc) (s : XvState) : XvState :=
  if blockSize s.mem a ≥ xvMinAllocSize then insertBlock A a.pagenum a.offset a s else s

theorem chain_pages (a : Loc) (s : XvState) : (chain A a s).pages = s.pages := by
  unfold chain
  split <;> rfl

theorem chain_totalPages (a : Loc) (s : XvState) :
    (chain A a s).pool.totalPages = s.pool.totalPages := by
  unfold chain
  split <;> rfl

/-- What chaining a block of size `v` may write. -/
def ChainArea (L : Nat → List Loc) (v : Nat) (a : Loc) (q k : Nat) : Prop :=
  LinkArea L q k ∨ (32 ≤ v ∧ InLink a q k)

theorem chain_spec (h : FreeLists A s L) {v : Nat} (hsize : blockSize s.mem a = v) (hv : v ≤ 4092)
    (h0 : a.pagenum ≠ 0) (ha : a.Fits) (hsep : 32 ≤ v → ∀ j, ∀ b ∈ L j, Sep b a) :
    FreeLists A (chain A a s) (chainList L v a) ∧
      AgreeOff (ChainArea L v a) s.mem (chain A a s).mem := by
  by_cases h32 : 32 ≤ v
  · have hge : blockSize s.mem a ≥ xvMinAllocSize := by rwa [hsize]
    obtain ⟨h1, h2⟩ := insertBlock_spec h (congrArg getIndexForInsert hsize)
      (getIndexForInsert_lt hv) h0 ha (hsep h32)
    rw [chain, if_pos hge, chainList, if_pos h32]
    refine ⟨h1, h2.mono ?_⟩
    rintro q k ⟨j, b, hb, hk⟩
    rcases mem_pushList.mp hb with ⟨_, rfl⟩ | hb
    · exact Or.inr ⟨h32, hk⟩
    · exact Or.inl ⟨j, b, hb, hk⟩
  · have hlt : ¬ blockSize s.mem a ≥ xvMinAllocSize := by rwa [hsize]
    rw [chain, if_neg hlt, chainList, if_neg h32]
    exact ⟨h, AgreeOff.refl _ _⟩

/-! ## Off the list -/

/-- The lists after a block of size `v` is taken off its list, if it is large enough to be on one. -/
def unchainList (L : Nat → List Loc) (v : Nat) (a : Loc) : Nat → List Loc :=
  if 32 ≤ v then dropList L (getIndexForInsert v) a else L

theorem FreeLists.mem_unchainList (h : FreeLists A s L) {v : Nat}
    (ha : ∀ j, a ∈ L j ↔ 32 ≤ v ∧ j = getIndexForInsert v) {j : Nat} {b : Loc} :
    b ∈ unchainList L v a j ↔ b ≠ a ∧ b ∈ L j := by
  by_cases hv : 32 ≤ v
  · rw [unchainList, if_pos hv]
    exact h.mem_dropList ((ha _).mpr ⟨hv, rfl⟩)
  · rw [unchainList, if_neg hv]
    exact ⟨fun hb => ⟨fun he => hv ((ha j).mp (he ▸ hb)).1, hb⟩, And.right⟩

/-- Taking a free block off the list of its size; `offset` is the block's offset as computed. -/
def unchain (A : Arch) (pagenum offset : Nat) (a : Loc) (s : XvState) : XvState :=
  if blockSize s.mem a ≥ xvMinAllocSize then
    removeBlock A pagenum offset a (getIndexForInsert (blockSize s.mem a)) s
  else s

theorem removeBlock_pages (p o i : Nat) (a : Loc) (s : XvState) :
    (removeBlock A p o a i s).pages = s.pages := by
  unfold removeBlock removeBlockHead
  split
  · dsimp only
    split <;> rfl
  · rfl

theorem removeBlock_totalPages (p o i : Nat) (a : Loc) (s : XvState) :
    (removeBlock A p o a i s).pool.totalPages = s.pool.totalPages := by
  unfold removeBlock removeBlockHead
  split
  · dsimp only
    split <;> rfl
  · rfl

theorem unchain_pages (p o : Nat) (a : Loc) (s : XvState) :
    (unchain A p o a s).pages = s.pages := by
  unfold unchain
  split
  · exact removeBlock_pages _ _ _ _ _
  · rfl

theorem unchain_totalPages (p o : Nat) (a : Loc) (s : XvState) :
    (unchain A p o a s).pool.totalPages = s.pool.totalPages := by
  unfold unchain
  split
  · exact removeBlock_totalPages _ _ _ _ _
  · rfl

theorem unchain_spec (h : FreeLists A s L) {v : Nat} (hsize : blockSize s.mem a = v)
    (ha : ∀ j, a ∈ L j ↔ 32 ≤ v ∧ j = getIndexForInsert v) :
    FreeLists A (unchain A a.pagenum a.offset a s) (unchainList L v a) ∧
      AgreeOff (LinkArea L) s.mem (unchain A a.pagenum a.offset a s).mem := by
  by_cases h32 : 32 ≤ v
  · have hge : blockSize s.mem a ≥ xvMinAllocSize := by rwa [hsize]
    rw [unchain, if_pos hge, unchainList, if_pos h32, hsize]
    exact removeBlock_spec h ((ha _).mpr ⟨h32, rfl⟩)
  · have hlt : ¬ blockSize s.mem a ≥ xvMinAllocSize := by rwa [hsize]
    rw [unchain, if_neg hlt, unchainList, if_neg h32]
    exact ⟨h, AgreeOff.refl _ _⟩

end KernelPatches.Xvmalloc
