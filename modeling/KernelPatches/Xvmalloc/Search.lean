/-
  xvmalloc: `find_block` against a plain scan of the free lists, and what it touches on the way.

  The search looks at the bit of the list asked for, then at the rest of that word of the bitmap, then at the
  summary.  The shift for the second look is made BEFORE the test whether there is a rest of the word: at the
  last bit of a word it shifts by the whole width, and what that gives is up to the machine.  The test behind
  it keeps the answer from mattering.

  * `findBlockTrace`    — `find_block`, with the places it reads and the distances it shifts by, and the
                          machine's answer to a shift that is too wide;
  * `linearScan`        — the lists one after the other, from the lookup index upward;
  * `findBlock_scan`    — the two find the same, whatever that answer is;
  * `find_block_iff`    — and all is in bounds unless the lookup index is the last of its word and its list
                          is empty, in a pool that is not.
-/
import KernelPatches.Xvmalloc.Objects

namespace KernelPatches.Xvmalloc

open KernelPatches.Lib

/-! ## The search, access by access -/

/-- What `find_block` does that has bounds: it reads a word of the bitmap or an entry of the list table, or
    shifts a word. -/
inductive Access where
  | slbitmap (i : Nat)
  | freelist (i : Nat)
  | shift (n : Nat)
  deriving DecidableEq, Repr

/-- Within the arrays of `struct xv_pool`; by less than the width of a word. -/
def Access.Within (A : Arch) : Access → Prop
  | .slbitmap i => i < maxFli A
  | .freelist i => i < numFreeLists
  | .shift n => n < A.bitsPerLong

/-- `w >> n`; a shift by the width of the word or more gives what the machine makes of it. -/
def shiftRight (A : Arch) (wide : Nat → Nat → Nat) (w n : Nat) : Nat :=
  if n < A.bitsPerLong then w >>> n else wide w n

/-- `find_block`, with what it reads and shifts by, in order. -/
def findBlockTrace (A : Arch) (wide : Nat → Nat → Nat) (pool : XvPool) (size : Nat) (out : Loc) :
    (Nat × Loc) × List Access :=
  if pool.flbitmap = 0 then ((0, out), [])
  else
    let slindex := getIndex size
    let slbitmap := pool.slbitmap (slindex / A.bitsPerLong)
    let slbitstart := slindex % A.bitsPerLong
    let seen := [Access.slbitmap (slindex / A.bitsPerLong)]
    if slbitmap.testBit slbitstart then
      ((slindex, pool.freelist slindex), seen ++ [.freelist slindex])
    else
      let slbitstart := slbitstart + 1
      let slbitmap := shiftRight A wide slbitmap slbitstart
      let seen := seen ++ [.shift slbitstart]
      if slbitstart ≠ A.bitsPerLong ∧ slbitmap ≠ 0 then
        let slindex := slindex + (ffs A.bitsPerLong slbitmap + 1)
        ((slindex, pool.freelist slindex), seen ++ [.freelist slindex])
      else
        let flindex := slindex / A.bitsPerLong
        let flbitmap := shiftRight A wide pool.flbitmap (flindex + 1)
        let seen := seen ++ [.shift (flindex + 1)]
        if flbitmap = 0 then ((0, out), seen)
        else
          let flindex := flindex + (ffs A.bitsPerLong flbitmap + 1)
          let slbitmap := pool.slbitmap flindex
          let slindex := flindex * A.bitsPerLong + ffs A.bitsPerLong slbitmap
          ((slindex, pool.freelist slindex), seen ++ [.slbitmap flindex, .freelist slindex])

/-- The head of the first non-empty list from index `get_index(size)` upward. -/
def linearScan (pool : XvPool) (size : Nat) (out : Loc) : Nat × Loc :=
  match (List.range' (getIndex size) (numFreeLists - getIndex size)).find?
      fun i => (pool.freelist i).pagenum ≠ 0 with
  | some i => (i, pool.freelist i)
  | none => (0, out)

variable {A : Arch} {s : XvState} {lay : Nat → List Blk} {L : Nat → List Loc} {wide : Nat → Nat → Nat}
  {size : Nat}

/-! ## The scan -/

/-- What the scan finds, told by the lists. -/
theorem linearScan_first (h : FreeLists A s L) (out : Loc) {i : Nat} {a : Loc} {t : List Loc}
    (hL : L i = a :: t) (hle : getIndex size ≤ i) (hleast : ∀ k, getIndex size ≤ k → k < i → L k = []) :
    linearScan s.pool size out = (i, a) := by
  have hi : i < numFreeLists := h.range i (hL ▸ List.cons_ne_nil a t)
  have hfind : (List.range' (getIndex size) (numFreeLists - getIndex size)).find?
      (fun i => decide ((s.pool.freelist i).pagenum ≠ 0)) = some i := by
    rw [List.find?_range'_eq_some]
    refine ⟨decide_eq_true ?_, List.mem_range'_1.mpr ⟨hle, by omega⟩, fun k hk hki => ?_⟩
    · rw [Ne, h.head_pagenum_eq_zero_iff, hL]
      exact List.cons_ne_nil a t
    · rw [decide_eq_false (not_not.mpr ((h.head_pagenum_eq_zero_iff k).mpr (hleast k hk hki)))]
      rfl
  rw [linearScan, hfind, ← h.freelist_eq hL]

theorem linearScan_none (h : FreeLists A s L) (out : Loc) (hnone : ∀ k, getIndex size ≤ k → L k = []) :
    linearScan s.pool size out = (0, out) := by
  have hfind : (List.range' (getIndex size) (numFreeLists - getIndex size)).find?
      (fun i => decide ((s.pool.freelist i).pagenum ≠ 0)) = none := by
    rw [List.find?_range'_eq_none]
    intro k hk _
    rw [decide_eq_false (not_not.mpr ((h.head_pagenum_eq_zero_iff k).mpr (hnone k hk)))]
    rfl
  rw [linearScan, hfind]

/-- **`find_block` is the scan.** -/
theorem findBlock_scan (h : FreeLists A s L) (size : Nat) (out : Loc) :
    findBlock A s.pool size out = linearScan s.pool size out := by
  rcases findBlock_spec h size out with ⟨heq, hnone⟩ | ⟨i, a, t, heq, hL, hle, hleast⟩
  · rw [heq, linearScan_none h out hnone]
  · rw [heq, linearScan_first h out hL hle hleast]

/-! ## What is touched -/

/-- The lookup index of a size that can be asked for, and the word its bit is in. -/
theorem getIndex_le (hsize : size ≤ xvMaxAllocSize) : getIndex size ≤ numFreeLists := by
  rw [getIndex_eq]
  rw [xvMaxAllocSize_eq] at hsize
  rw [numFreeLists_eq]
  omega

/-- Every list up to the one past the last has a word in the bitmap, and the word behind it is no further
    than a shift goes. -/
theorem word_within {i : Nat} (hi : i ≤ numFreeLists) :
    i / A.bitsPerLong < maxFli A ∧ i / A.bitsPerLong + 1 < A.bitsPerLong := by
  rw [maxFli]
  rw [numFreeLists_eq] at *
  rcases A.bitsPerLong_eq with hW | hW <;> rw [hW] <;> omega

/-- The word of a list is in the bitmap. -/
theorem slbitmap_within {w k : Nat} (h : Access.Within A (.freelist (w * A.bitsPerLong + k))) :
    Access.Within A (.slbitmap w) := by
  have hlt : w * A.bitsPerLong + k < numFreeLists := h
  have hw : w ≤ (w * A.bitsPerLong + k) / A.bitsPerLong :=
    (Nat.le_div_iff_mul_le A.bitsPerLong_pos).mpr (Nat.le_add_right _ k)
  exact Nat.lt_of_le_of_lt hw (word_within (Nat.le_of_lt hlt)).1

/-- A shift that is not too wide is a shift. -/
theorem shiftRight_of_lt {w n : Nat} (hn : n < A.bitsPerLong) : shiftRight A wide w n = w >>> n :=
  if_pos hn

/-- **The answer to a shift that is too wide does not matter.** -/
theorem findBlockTrace_fst (hsize : size ≤ xvMaxAllocSize) (pool : XvPool) (out : Loc) :
    (findBlockTrace A wide pool size out).1 = findBlock A pool size out := by
  have hfar := (word_within (A := A) (getIndex_le hsize)).2
  have hmod : getIndex size % A.bitsPerLong < A.bitsPerLong := Nat.mod_lt _ A.bitsPerLong_pos
  rw [findBlockTrace, findBlock]
  by_cases h0 : pool.flbitmap = 0
  · rw [if_pos h0, if_pos h0]
  · rw [if_neg h0, if_neg h0]
    dsimp only
    rw [shiftRight_of_lt hfar]
    by_cases hb : (pool.slbitmap (getIndex size / A.bitsPerLong)).testBit (getIndex size % A.bitsPerLong) = true
    · rw [if_pos hb, if_pos hb]
    · rw [if_neg hb, if_neg hb]
      by_cases hlast : getIndex size % A.bitsPerLong + 1 = A.bitsPerLong
      · have hno : ∀ w : Nat, ¬ (getIndex size % A.bitsPerLong + 1 ≠ A.bitsPerLong ∧ w ≠ 0) :=
          fun w hc => hc.1 hlast
        rw [if_neg (hno _), if_neg (hno _)]
        split <;> rfl
      · rw [shiftRight_of_lt (Nat.lt_of_le_of_ne hmod hlast)]
        split
        · rfl
        · split <;> rfl

/-- All that `find_block` touches is in bounds, but for the shift by the whole width. -/
theorem findBlockTrace_within (h : FreeLists A s L) (hsize : size ≤ xvMaxAllocSize) (out : Loc) :
    (∀ x ∈ (findBlockTrace A wide s.pool size out).2, x.Within A) ↔
      ¬ (s.pool.flbitmap ≠ 0 ∧ (s.pool.freelist (getIndex size)).pagenum = 0 ∧
        getIndex size % A.bitsPerLong + 1 = A.bitsPerLong) := by
  have hg := word_within (A := A) (getIndex_le hsize)
  have hmod : getIndex size % A.bitsPerLong < A.bitsPerLong := Nat.mod_lt _ A.bitsPerLong_pos
  have hlist : ∀ i, L i ≠ [] → Access.Within A (.freelist i) := h.range
  have hword : Access.Within A (.slbitmap (getIndex size / A.bitsPerLong)) := hg.1
  have hnext : Access.Within A (.shift (getIndex size / A.bitsPerLong + 1)) := hg.2
  rw [findBlockTrace]
  by_cases h0 : s.pool.flbitmap = 0
  · rw [if_pos h0]
    exact iff_of_true (fun x hx => absurd hx List.not_mem_nil) fun hc => hc.1 h0
  · rw [if_neg h0]
    dsimp only
    rw [shiftRight_of_lt hg.2, h.head_pagenum_eq_zero_iff]
    rcases hb : (s.pool.slbitmap (getIndex size / A.bitsPerLong)).testBit (getIndex size % A.bitsPerLong)
      with _ | _
    · have hempty : L (getIndex size) = [] := by
        by_contra hne
        rw [(h.bits.bit _).mpr hne] at hb
        cases hb
      rw [if_neg Bool.false_ne_true]
      by_cases hlast : getIndex size % A.bitsPerLong + 1 = A.bitsPerLong
      · -- the word has no rest, and was shifted by all it has
        refine iff_of_false (fun hall => ?_) fun hc => hc ⟨h0, hempty, hlast⟩
        have hshift : Access.Within A (.shift (getIndex size % A.bitsPerLong + 1)) := by
          apply hall
          rw [if_neg (fun hc => hc.1 hlast)]
          split <;> simp
        rw [hlast] at hshift
        exact Nat.lt_irrefl _ hshift
      · have hlt : getIndex size % A.bitsPerLong + 1 < A.bitsPerLong := Nat.lt_of_le_of_ne hmod hlast
        have hrest : Access.Within A (.shift (getIndex size % A.bitsPerLong + 1)) := hlt
        refine iff_of_true ?_ fun hc => hlast hc.2.2
        rw [shiftRight_of_lt hlt]
        by_cases hc : s.pool.slbitmap (getIndex size / A.bitsPerLong) >>>
            (getIndex size % A.bitsPerLong + 1) = 0
        · rw [if_neg (fun hc' => hc'.2 hc)]
          by_cases hf : s.pool.flbitmap >>> (getIndex size / A.bitsPerLong + 1) = 0
          · rw [if_pos hf]
            simpa using ⟨hword, hrest, hnext⟩
          · rw [if_neg hf]
            have hfar := hlist _ (h.bits.least_far A.bitsPerLong_pos hb hc hf).2.1
            rw [Nat.add_assoc (getIndex size / A.bitsPerLong)] at hfar
            have hfl := slbitmap_within hfar
            simpa using ⟨hword, hrest, hnext, hfl, hfar⟩
        · rw [if_pos ⟨hlast, hc⟩]
          have hchunk := hlist _ (h.bits.least_chunk hb hc).2.1
          rw [Nat.add_assoc] at hchunk
          simpa using ⟨hword, hrest, hchunk⟩
    · rw [if_pos rfl]
      have hne : L (getIndex size) ≠ [] := (h.bits.bit _).mp hb
      refine iff_of_true ?_ fun hc => hne hc.2.1
      simpa using ⟨hword, hlist _ hne⟩

/-! ## What the search should do -/

/-- The search for a block of at least `size` bytes finds what the scan finds: a block that is large enough,
    or none when the lists from its index upward are all empty; and it stays in bounds. -/
structure SearchOk (A : Arch) (wide : Nat → Nat → Nat) (s : XvState) (size : Nat) : Prop where
  scan : (findBlockTrace A wide s.pool size Loc.null).1 = linearScan s.pool size Loc.null
  none : (findBlockTrace A wide s.pool size Loc.null).1.2.pagenum = 0 ↔
    ∀ i, getIndex size ≤ i → i < numFreeLists → (s.pool.freelist i).pagenum = 0
  fits : (findBlockTrace A wide s.pool size Loc.null).1.2.pagenum ≠ 0 →
    size ≤ blockSize s.mem (findBlockTrace A wide s.pool size Loc.null).1.2
  within : ∀ x ∈ (findBlockTrace A wide s.pool size Loc.null).2, x.Within A

/-- A block is found exactly when there is one. -/
theorem findBlock_none_iff (h : FreeLists A s L) (size : Nat) :
    (findBlock A s.pool size Loc.null).2.pagenum = 0 ↔
      ∀ i, getIndex size ≤ i → i < numFreeLists → (s.pool.freelist i).pagenum = 0 := by
  rcases findBlock_spec h size Loc.null with ⟨heq, hnone⟩ | ⟨i, a, t, heq, hL, hle, -⟩
  · rw [heq]
    apply iff_of_true rfl
    intro i hi _
    exact (h.head_pagenum_eq_zero_iff i).mpr (hnone i hi)
  · have ha : a ∈ L i := hL ▸ List.mem_cons_self
    rw [heq]
    refine iff_of_false (h.fits i a ha).1 fun hall => ?_
    have hnull := hall i hle (h.index_lt ha)
    rw [h.freelist_eq hL] at hnull
    exact (h.fits i a ha).1 hnull

/-- The block found is as large as was asked for. -/
theorem findBlock_fits (h : Inv A s lay L) {n : Nat}
    (h0 : (findBlock A s.pool (align n xvAlign) Loc.null).2.pagenum ≠ 0) :
    align n xvAlign ≤ blockSize s.mem (findBlock A s.pool (align n xvAlign) Loc.null).2 := by
  rcases findBlock_spec h.lists (align n xvAlign) Loc.null with ⟨heq, -⟩ | ⟨i, a, t, heq, hL, hle, -⟩
  · rw [heq] at h0
    exact absurd rfl h0
  · have ha : a ∈ L i := hL ▸ List.mem_cons_self
    obtain ⟨b, hb, -⟩ := h.shape.member_at h.sub ha
    rw [heq, (h.shape.hdr hb).1]
    exact fits_of_found h ha hle hb

end KernelPatches.Xvmalloc
