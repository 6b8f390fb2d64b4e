/-
  The fields of a block, read back after writes.

  Every function of the allocator works through a handful of field accesses.  This file says once, for
  each of them, what a write does to each read, so that no later proof goes down to bytes:

  * `Hdr m b size prev pf fr` — what the 4-byte header of block `b` says: its size, the offset of the
    block before it, and the two flags.  Each setter changes one component (`Hdr.setSize`,
    `Hdr.setFree`, …), and memory with garbage in it has some header too (`Hdr.self`).
  * `linkNext`/`linkPrev` after `setLinkNext`/`setLinkPrev`, at the same block or at one whose link
    record does not overlap (`Sep`).
  * `InHdr b`, `InLink b` — the bytes of the header and of the link record: the footprints of the
    setters.
-/
import KernelPatches.Xvmalloc.Model

namespace KernelPatches.Xvmalloc

open KernelPatches.Lib KernelPatches.Lib.Mem

/-! ## Footprints -/

/-- The bytes of the header of `b`. -/
def InHdr (b : Loc) (q k : Nat) : Prop := q = b.pagenum ∧ b.offset ≤ k ∧ k < b.offset + 4

/-- The bytes of the link record of `b`. -/
def InLink (b : Loc) (q k : Nat) : Prop := q = b.pagenum ∧ b.offset + 4 ≤ k ∧ k < b.offset + 16

/-- The link records of `a` and `b` (and their headers) do not overlap. -/
def Sep (a b : Loc) : Prop :=
  a.pagenum ≠ b.pagenum ∨ a.offset + 16 ≤ b.offset ∨ b.offset + 16 ≤ a.offset

theorem Sep.symm {a b : Loc} (h : Sep a b) : Sep b a := by
  unfold Sep at *
  omega

theorem agreeOff_setSize (m : Mem) (b : Loc) (v : Nat) : AgreeOff (InHdr b) m (setSize m b v) :=
  AgreeOff.store (fun k h1 h2 => ⟨rfl, h1, by omega⟩)

theorem agreeOff_setPrev (m : Mem) (b : Loc) (v : Nat) : AgreeOff (InHdr b) m (setPrev m b v) :=
  AgreeOff.store (fun k h1 h2 => ⟨rfl, by omega, by omega⟩)

theorem agreeOff_setLinkPrev (m : Mem) (b l : Loc) : AgreeOff (InLink b) m (setLinkPrev m b l) :=
  (AgreeOff.store (fun _ _ _ => ⟨rfl, by omega, by omega⟩)).trans
    (AgreeOff.store (fun _ _ _ => ⟨rfl, by omega, by omega⟩))

theorem agreeOff_setLinkNext (m : Mem) (b l : Loc) : AgreeOff (InLink b) m (setLinkNext m b l) :=
  (AgreeOff.store (fun _ _ _ => ⟨rfl, by omega, by omega⟩)).trans
    (AgreeOff.store (fun _ _ _ => ⟨rfl, by omega, by omega⟩))

/-! ## Headers -/

/-- What the header of block `b` says. -/
structure Hdr (m : Mem) (b : Loc) (size prev : Nat) (pf fr : Bool) : Prop where
  size : blockSize m b = size
  prev : getBlockprev m b = prev
  prevFree : testFlag m b .prevFree = pf
  free : testFlag m b .blockFree = fr

/-- Any memory holds some header. -/
theorem Hdr.self (m : Mem) (b : Loc) :
    Hdr m b (blockSize m b) (getBlockprev m b) (testFlag m b .prevFree) (testFlag m b .blockFree) :=
  ⟨rfl, rfl, rfl, rfl⟩

/-- The header depends on its own bytes only. -/
theorem Hdr.frame {m m' : Mem} {b : Loc} {size prev : Nat} {pf fr : Bool} {F : Nat → Nat → Prop}
    (h : Hdr m b size prev pf fr) (hag : AgreeOff F m m')
    (hF : ∀ q k, InHdr b q k → ¬ F q k) : Hdr m' b size prev pf fr := by
  have hs : blockSize m' b = blockSize m b :=
    hag.load (fun k h1 h2 => hF _ _ ⟨rfl, h1, by omega⟩)
  have hp : blockPrev m' b = blockPrev m b :=
    hag.load (fun k h1 h2 => hF _ _ ⟨rfl, by omega, by omega⟩)
  refine ⟨hs.trans h.size, ?_, ?_, ?_⟩
  · rw [← h.prev, getBlockprev, getBlockprev, hp]
  · rw [← h.prevFree, testFlag, testFlag, hp]
  · rw [← h.free, testFlag, testFlag, hp]

theorem blockPrev_lt (m : Mem) (b : Loc) : blockPrev m b < 2 ^ 16 := load_lt m b.pagenum 2 _

theorem blockSize_setPrev (m : Mem) (b : Loc) (v : Nat) :
    blockSize (setPrev m b v) b = blockSize m b :=
  load_store_off (Or.inl (Nat.le_refl _))

theorem blockPrev_setSize (m : Mem) (b : Loc) (v : Nat) :
    blockPrev (setSize m b v) b = blockPrev m b :=
  load_store_off (Or.inr (Nat.le_refl _))

theorem blockPrev_setPrev {m : Mem} {b : Loc} {v : Nat} (hv : v < 2 ^ 16) :
    blockPrev (setPrev m b v) b = v :=
  load_store_of_lt hv

theorem getBlockprev_eq (m : Mem) (b : Loc) : getBlockprev m b = blockPrev m b / 4 * 4 :=
  andNot_low (k := 2) (Nat.lt_trans (blockPrev_lt m b) (by decide))

section Setters

variable {m : Mem} {b : Loc} {size prev : Nat} {pf fr : Bool}

theorem Hdr.setSize (h : Hdr m b size prev pf fr) {v : Nat} (hv : v < 2 ^ 16) :
    Hdr (setSize m b v) b v prev pf fr := by
  have hp := blockPrev_setSize m b v
  refine ⟨load_store_of_lt hv, ?_, ?_, ?_⟩
  · rw [← h.prev, getBlockprev, getBlockprev, hp]
  · rw [← h.prevFree, testFlag, testFlag, hp]
  · rw [← h.free, testFlag, testFlag, hp]

/-- Changing a flag bit leaves the offset part of `prev` alone. -/
theorem div_setBit_flag (w : Nat) (flag : BlockFlag) : setBit w flag.bit / 4 * 4 = w / 4 * 4 := by
  have hbit : ∀ j, (setBit w flag.bit / 2 ^ 2).testBit j = (w / 2 ^ 2).testBit j := by
    intro j
    rw [Nat.testBit_div_two_pow, Nat.testBit_div_two_pow, testBit_setBit]
    cases flag <;> simp [BlockFlag.bit]
  rw [show (4 : Nat) = 2 ^ 2 by rfl, Nat.eq_of_testBit_eq hbit]

theorem div_clearBit_flag {w : Nat} (hw : w < 2 ^ 16) (flag : BlockFlag) :
    clearBit 16 w flag.bit / 4 * 4 = w / 4 * 4 := by
  have hbit : ∀ j, (clearBit 16 w flag.bit / 2 ^ 2).testBit j = (w / 2 ^ 2).testBit j := by
    intro j
    rw [Nat.testBit_div_two_pow, Nat.testBit_div_two_pow, testBit_clearBit]
    rcases hj : w.testBit (j + 2) with _ | _
    · simp
    · have hlt : j + 2 < 16 := lt_of_testBit hw hj
      cases flag <;> simp [BlockFlag.bit, hlt]
  rw [show (4 : Nat) = 2 ^ 2 by rfl, Nat.eq_of_testBit_eq hbit]

theorem setBit_flag_lt {w : Nat} (hw : w < 2 ^ 16) (flag : BlockFlag) :
    setBit w flag.bit < 2 ^ 16 := by
  refine setBit_lt hw ?_
  cases flag <;> decide

/-- `set_flag(block, BLOCK_FREE)`. -/
theorem Hdr.setFree (h : Hdr m b size prev pf fr) :
    Hdr (setFlag m b .blockFree) b size prev pf true := by
  have hw := blockPrev_lt m b
  have hp := blockPrev_setPrev (m := m) (b := b) (setBit_flag_lt hw .blockFree)
  refine ⟨(blockSize_setPrev _ _ _).trans h.size, ?_, ?_, ?_⟩
  · rw [setFlag, getBlockprev_eq, hp, div_setBit_flag, ← getBlockprev_eq, h.prev]
  · rw [← h.prevFree, testFlag, setFlag, hp, testBit_setBit, testFlag]
    simp [BlockFlag.bit]
  · rw [testFlag, setFlag, hp, testBit_setBit]
    simp

/-- `set_flag(block, PREV_FREE)`. -/
theorem Hdr.setPrevFree (h : Hdr m b size prev pf fr) :
    Hdr (setFlag m b .prevFree) b size prev true fr := by
  have hw := blockPrev_lt m b
  have hp := blockPrev_setPrev (m := m) (b := b) (setBit_flag_lt hw .prevFree)
  refine ⟨(blockSize_setPrev _ _ _).trans h.size, ?_, ?_, ?_⟩
  · rw [setFlag, getBlockprev_eq, hp, div_setBit_flag, ← getBlockprev_eq, h.prev]
  · rw [testFlag, setFlag, hp, testBit_setBit]
    simp
  · rw [← h.free, testFlag, setFlag, hp, testBit_setBit, testFlag]
    simp [BlockFlag.bit]

/-- `clear_flag(block, BLOCK_FREE)`. -/
theorem Hdr.clearFree (h : Hdr m b size prev pf fr) :
    Hdr (clearFlag m b .blockFree) b size prev pf false := by
  have hw := blockPrev_lt m b
  have hp := blockPrev_setPrev (m := m) (b := b) (clearBit_lt (n := 16) (i := 0) hw)
  refine ⟨(blockSize_setPrev _ _ _).trans h.size, ?_, ?_, ?_⟩
  · rw [clearFlag, getBlockprev_eq, BlockFlag.bit, hp]
    exact (div_clearBit_flag hw .blockFree).trans ((getBlockprev_eq m b).symm.trans h.prev)
  · rw [← h.prevFree, testFlag, clearFlag, BlockFlag.bit, BlockFlag.bit, hp, testBit_clearBit,
      testFlag]
    simp [BlockFlag.bit]
  · rw [testFlag, clearFlag, BlockFlag.bit, hp, testBit_clearBit]
    simp

/-- `clear_flag(block, PREV_FREE)`. -/
theorem Hdr.clearPrevFree (h : Hdr m b size prev pf fr) :
    Hdr (clearFlag m b .prevFree) b size prev false fr := by
  have hw := blockPrev_lt m b
  have hp := blockPrev_setPrev (m := m) (b := b) (clearBit_lt (n := 16) (i := 1) hw)
  refine ⟨(blockSize_setPrev _ _ _).trans h.size, ?_, ?_, ?_⟩
  · rw [clearFlag, getBlockprev_eq, BlockFlag.bit, hp]
    exact (div_clearBit_flag hw .prevFree).trans ((getBlockprev_eq m b).symm.trans h.prev)
  · rw [testFlag, clearFlag, BlockFlag.bit, hp, testBit_clearBit]
    simp
  · rw [← h.free, testFlag, clearFlag, BlockFlag.bit, BlockFlag.bit, hp, testBit_clearBit, testFlag]
    simp [BlockFlag.bit]

/-- `set_blockprev(block, new_offset)`, for an aligned offset. -/
theorem Hdr.setBlockprev (h : Hdr m b size prev pf fr) {o : Nat} (ho : o % 4 = 0)
    (hlt : o < 2 ^ 16) : Hdr (setBlockprev m b o) b size o pf fr := by
  obtain ⟨a, rfl⟩ : ∃ a, o = 2 ^ 2 * a := ⟨o / 4, by omega⟩
  have hlow : blockPrev m b &&& flagsMask < 2 ^ 2 := Nat.and_lt_two_pow _ (by decide)
  have hbits : ∀ j, j < 2 → (2 ^ 2 * a ||| (blockPrev m b &&& flagsMask)).testBit j =
      (blockPrev m b).testBit j := by
    intro j hj
    rw [Nat.testBit_or, Nat.testBit_and, flagsMask_eq, show (3 : Nat) = 2 ^ 2 - 1 by rfl,
      Nat.testBit_two_pow_sub_one, Nat.testBit_two_pow_mul]
    have hge : ¬ j ≥ 2 := by omega
    simp [hj, hge]
  have hp := blockPrev_setPrev (m := m) (b := b)
    (v := 2 ^ 2 * a ||| (blockPrev m b &&& flagsMask))
    (Nat.or_lt_two_pow hlt (Nat.lt_of_lt_of_le hlow (by decide)))
  refine ⟨(blockSize_setPrev _ _ _).trans h.size, ?_, ?_, ?_⟩
  · rw [Xvmalloc.setBlockprev, getBlockprev_eq, hp]
    exact or_low_div hlow
  · rw [← h.prevFree, testFlag, Xvmalloc.setBlockprev, hp, testFlag]
    exact hbits 1 (by omega)
  · rw [← h.free, testFlag, Xvmalloc.setBlockprev, hp, testFlag]
    exact hbits 0 (by omega)

end Setters

/-! ## Links -/

/-- The place a pair stands for: none if its page number is 0. -/
def Loc.toOption (l : Loc) : Option Loc := if l.pagenum = 0 then none else some l

def nextOf (m : Mem) (b : Loc) : Option Loc := (linkNext m b).toOption

def prevOf (m : Mem) (b : Loc) : Option Loc := (linkPrev m b).toOption

@[simp] theorem toOption_null : Loc.null.toOption = none := rfl

theorem toOption_of_ne {l : Loc} (h : l.pagenum ≠ 0) : l.toOption = some l := if_neg h

theorem toOption_eq_some {l a : Loc} (h : l.toOption = some a) : l = a := by
  unfold Loc.toOption at h
  split at h
  · cases h
  · exact Option.some.inj h

theorem toOption_eq_none_iff {l : Loc} : l.toOption = none ↔ l.pagenum = 0 := by
  unfold Loc.toOption
  split
  · exact ⟨fun _ => ‹_›, fun _ => rfl⟩
  · exact ⟨fun h => (nomatch h), fun h => absurd h ‹_›⟩

/-- The pair fits the fields it is stored in. -/
def Loc.Fits (l : Loc) : Prop := l.pagenum < 2 ^ 32 ∧ l.offset < 2 ^ 16

theorem linkNext_fits (m : Mem) (b : Loc) : (linkNext m b).Fits :=
  ⟨load_lt m b.pagenum 4 _, load_lt m b.pagenum 2 _⟩

theorem linkPrev_fits (m : Mem) (b : Loc) : (linkPrev m b).Fits :=
  ⟨load_lt m b.pagenum 4 _, load_lt m b.pagenum 2 _⟩

theorem null_fits : Loc.null.Fits := ⟨by decide, by decide⟩

/-- The links depend on the bytes of the link record only. -/
theorem link_frame {m m' : Mem} {b : Loc} {F : Nat → Nat → Prop} (hag : AgreeOff F m m')
    (hF : ∀ q k, InLink b q k → ¬ F q k) :
    linkNext m' b = linkNext m b ∧ linkPrev m' b = linkPrev m b := by
  have hload : ∀ o n, b.offset + 4 ≤ o → o + n ≤ b.offset + 16 →
      m'.load b.pagenum o n = m.load b.pagenum o n := fun o n h1 h2 =>
    hag.load (fun k hk1 hk2 => hF _ _ ⟨rfl, by omega, by omega⟩)
  constructor
  · rw [linkNext, linkNext, hload _ _ (by omega) (by omega), hload _ _ (by omega) (by omega)]
  · rw [linkPrev, linkPrev, hload _ _ (by omega) (by omega), hload _ _ (by omega) (by omega)]

theorem sep_not_inLink {a b : Loc} (h : Sep a b) : ∀ q k, InLink a q k → ¬ InLink b q k := by
  rintro q k ⟨rfl, h1, h2⟩ ⟨h3, h4, h5⟩
  unfold Sep at h
  omega

theorem linkPrev_setLinkPrev_self {m : Mem} {b l : Loc} (hl : l.Fits) :
    linkPrev (setLinkPrev m b l) b = l := by
  have h1 : (setLinkPrev m b l).load b.pagenum (b.offset + 4) 4 = l.pagenum := by
    rw [setLinkPrev, load_store_off (Or.inl (by omega)), load_store_of_lt hl.1]
  have h2 : (setLinkPrev m b l).load b.pagenum (b.offset + 12) 2 = l.offset := by
    rw [setLinkPrev, load_store_of_lt hl.2]
  rw [linkPrev, h1, h2]

theorem linkNext_setLinkNext_self {m : Mem} {b l : Loc} (hl : l.Fits) :
    linkNext (setLinkNext m b l) b = l := by
  have h1 : (setLinkNext m b l).load b.pagenum (b.offset + 8) 4 = l.pagenum := by
    rw [setLinkNext, load_store_off (Or.inl (by omega)), load_store_of_lt hl.1]
  have h2 : (setLinkNext m b l).load b.pagenum (b.offset + 14) 2 = l.offset := by
    rw [setLinkNext, load_store_of_lt hl.2]
  rw [linkNext, h1, h2]

theorem linkNext_setLinkPrev_self (m : Mem) (b l : Loc) :
    linkNext (setLinkPrev m b l) b = linkNext m b := by
  rw [linkNext, linkNext, setLinkPrev, load_store_off (Or.inl (by omega)),
    load_store_off (Or.inr (by omega)), load_store_off (Or.inr (by omega)),
    load_store_off (Or.inr (by omega))]

theorem linkPrev_setLinkNext_self (m : Mem) (b l : Loc) :
    linkPrev (setLinkNext m b l) b = linkPrev m b := by
  rw [linkPrev, linkPrev, setLinkNext, load_store_off (Or.inl (by omega)),
    load_store_off (Or.inl (by omega)), load_store_off (Or.inl (by omega)),
    load_store_off (Or.inr (by omega))]

/-- Two blocks whose link records are either the same or apart. -/
def Apart (b c : Loc) : Prop := b = c ∨ Sep b c

section LinkWrites

variable {m : Mem} {b c l : Loc}

theorem linkNext_setLinkPrev (h : Apart b c) : linkNext (setLinkPrev m c l) b = linkNext m b := by
  rcases h with rfl | h
  · exact linkNext_setLinkPrev_self m b l
  · exact (link_frame (agreeOff_setLinkPrev m c l) (sep_not_inLink h)).1

theorem linkPrev_setLinkNext (h : Apart b c) : linkPrev (setLinkNext m c l) b = linkPrev m b := by
  rcases h with rfl | h
  · exact linkPrev_setLinkNext_self m b l
  · exact (link_frame (agreeOff_setLinkNext m c l) (sep_not_inLink h)).2

theorem linkPrev_setLinkPrev (h : Apart b c) (hl : l.Fits) :
    linkPrev (setLinkPrev m c l) b = if b = c then l else linkPrev m b := by
  by_cases hbc : b = c
  · rw [if_pos hbc, hbc, linkPrev_setLinkPrev_self hl]
  · rw [if_neg hbc]
    exact (link_frame (agreeOff_setLinkPrev m c l) (sep_not_inLink (h.resolve_left hbc))).2

theorem linkNext_setLinkNext (h : Apart b c) (hl : l.Fits) :
    linkNext (setLinkNext m c l) b = if b = c then l else linkNext m b := by
  by_cases hbc : b = c
  · rw [if_pos hbc, hbc, linkNext_setLinkNext_self hl]
  · rw [if_neg hbc]
    exact (link_frame (agreeOff_setLinkNext m c l) (sep_not_inLink (h.resolve_left hbc))).1

end LinkWrites

end KernelPatches.Xvmalloc
