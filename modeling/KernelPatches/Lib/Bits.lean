/-
  Bits of a machine word, and the two-level bitmap that finds the next member of a set of indices.

  A set of small indices is kept as an array of `W`-bit words, one bit an index, plus ONE summary
  word with a bit for each non-zero word of the array.  The point is the search: "the least member
  that is at least `i`" looks at one word of the array, then at the summary, then at one more word,
  and never loops over the indices.

  * `setBit`/`clearBit`  — a word with one bit changed; `andNot` — a word with a mask taken off;
  * `ffs`                — the position of the lowest set bit;
  * `TwoLevel W fl sl S` — the words `fl` (summary) and `sl` (array) represent the set `S`;
  * `TwoLevel.insert`/`TwoLevel.erase` — the two updates keep the representation;
  * `TwoLevel.least_same`/`least_chunk`/`least_far`/`least_none` — the four ways the search ends.
-/
import Mathlib.Data.Nat.Bitwise
import Mathlib.Tactic.Common

namespace KernelPatches.Lib

/-! ## One word -/

/-- The word with bit `i` set. -/
def setBit (w i : Nat) : Nat := w ||| 1 <<< i

/-- `w & ~m` on `n`-bit words. -/
def andNot (n w m : Nat) : Nat := w &&& ((2 ^ n - 1) ^^^ m)

/-- The `n`-bit word with bit `i` cleared. -/
def clearBit (n w i : Nat) : Nat := andNot n w (1 <<< i)

@[simp] theorem testBit_setBit (w i j : Nat) :
    (setBit w i).testBit j = (w.testBit j || decide (i = j)) := by
  rw [setBit, Nat.testBit_or, Nat.one_shiftLeft, Nat.testBit_two_pow]

theorem testBit_andNot (n w m j : Nat) :
    (andNot n w m).testBit j = (w.testBit j && (decide (j < n) ^^ m.testBit j)) := by
  rw [andNot, Nat.testBit_and, Nat.testBit_xor, Nat.testBit_two_pow_sub_one]

@[simp] theorem testBit_clearBit (n w i j : Nat) :
    (clearBit n w i).testBit j = (w.testBit j && (decide (j < n) ^^ decide (i = j))) := by
  rw [clearBit, testBit_andNot, Nat.one_shiftLeft, Nat.testBit_two_pow]

/-- Masking off the low `k` bits rounds down to a multiple of `2 ^ k`. -/
theorem andNot_low {n w k : Nat} (hw : w < 2 ^ n) :
    andNot n w (2 ^ k - 1) = w / 2 ^ k * 2 ^ k := by
  apply Nat.eq_of_testBit_eq
  intro j
  rw [testBit_andNot, Nat.testBit_two_pow_sub_one, Nat.testBit_mul_two_pow, Nat.testBit_div_two_pow]
  rcases Nat.lt_or_ge j n with hn | hn
  · rcases Nat.lt_or_ge j k with hk | hk
    · simp [hn, hk]
    · have hjk : ¬ j < k := by omega
      simp [hn, hk, hjk]
  · have hlt : w < 2 ^ j := Nat.lt_of_lt_of_le hw (Nat.pow_le_pow_right (by omega) hn)
    have hlt' : k ≤ j → w.testBit (j - k + k) = false := fun hk => by
      rw [Nat.sub_add_cancel hk, Nat.testBit_lt_two_pow hlt]
    rcases Nat.lt_or_ge j k with hk | hk
    · have hjk : ¬ k ≤ j := by omega
      simp [Nat.testBit_lt_two_pow hlt, hjk]
    · simp [Nat.testBit_lt_two_pow hlt, hlt' hk]

/-- Writing the low bits of `w` under a number whose low bits are clear. -/
theorem or_low_div {k a w : Nat} (h : w < 2 ^ k) : (2 ^ k * a ||| w) / 2 ^ k * 2 ^ k = 2 ^ k * a := by
  rw [← Nat.two_pow_add_eq_or_of_lt h, Nat.mul_add_div (Nat.two_pow_pos k), Nat.div_eq_of_lt h,
    Nat.add_zero, Nat.mul_comm]

theorem setBit_lt {n w i : Nat} (hw : w < 2 ^ n) (hi : i < n) : setBit w i < 2 ^ n := by
  refine Nat.or_lt_two_pow hw ?_
  rw [Nat.one_shiftLeft]
  exact Nat.pow_lt_pow_right (by omega) hi

theorem clearBit_lt {n w i : Nat} (hw : w < 2 ^ n) : clearBit n w i < 2 ^ n :=
  Nat.lt_of_le_of_lt Nat.and_le_left hw

theorem setBit_ne_zero (w i : Nat) : setBit w i ≠ 0 := by
  intro h
  have hbit : (setBit w i).testBit i = true := by simp
  rw [h, Nat.zero_testBit] at hbit
  exact Bool.noConfusion hbit

/-- Bits beyond the word's width are clear. -/
theorem lt_of_testBit {n w j : Nat} (hw : w < 2 ^ n) (h : w.testBit j = true) : j < n := by
  rcases Nat.lt_or_ge j n with hj | hj
  · exact hj
  · have hlt : w < 2 ^ j := Nat.lt_of_lt_of_le hw (Nat.pow_le_pow_right (by omega) hj)
    rw [Nat.testBit_lt_two_pow hlt] at h
    exact Bool.noConfusion h

/-- The position of the lowest set bit of an `n`-bit word (`0` for the zero word). -/
def ffs (n w : Nat) : Nat := ((List.range n).find? (fun i => w.testBit i)).getD 0

theorem ffs_spec {n w : Nat} (hw : w < 2 ^ n) (h0 : w ≠ 0) :
    w.testBit (ffs n w) = true ∧ ∀ j, j < ffs n w → w.testBit j = false := by
  obtain ⟨i, hi⟩ := Nat.exists_testBit_of_ne_zero h0
  have hin : i < n := lt_of_testBit hw hi
  rcases hf : (List.range n).find? (fun i => w.testBit i) with _ | k
  · rw [List.find?_eq_none] at hf
    exact absurd hi (hf i (List.mem_range.mpr hin))
  · have hk : ffs n w = k := by rw [ffs, hf, Option.getD_some]
    rw [List.find?_range_eq_some] at hf
    rw [hk]
    exact ⟨hf.1, fun j hj => by simpa using hf.2.2 j hj⟩

/-- A word shifted right until nothing is left has no bit at or above the shift. -/
theorem testBit_of_shiftRight_eq_zero {w s j : Nat} (h : w >>> s = 0) (hj : s ≤ j) :
    w.testBit j = false := by
  have hb : (w >>> s).testBit (j - s) = w.testBit (s + (j - s)) := Nat.testBit_shiftRight w
  rw [h, Nat.zero_testBit, Nat.add_sub_cancel' hj] at hb
  exact hb.symm

/-- The lowest set bit at or above position `s`. -/
theorem ffs_shiftRight {n w s : Nat} (hw : w < 2 ^ n) (h0 : w >>> s ≠ 0) :
    w.testBit (s + ffs n (w >>> s)) = true ∧
      ∀ j, s ≤ j → j < s + ffs n (w >>> s) → w.testBit j = false := by
  have hlt : w >>> s < 2 ^ n := Nat.lt_of_le_of_lt (Nat.shiftRight_le w s) hw
  obtain ⟨h1, h2⟩ := ffs_spec hlt h0
  rw [Nat.testBit_shiftRight] at h1
  refine ⟨h1, fun j hs hj => ?_⟩
  have h3 := h2 (j - s) (by omega)
  rw [Nat.testBit_shiftRight, Nat.add_sub_cancel' hs] at h3
  exact h3

/-! ## The two-level bitmap -/

/-- `fl` (summary word) and `sl` (array of words) represent the index set `S`. -/
structure TwoLevel (W fl : Nat) (sl : Nat → Nat) (S : Nat → Prop) : Prop where
  bit : ∀ i, (sl (i / W)).testBit (i % W) = true ↔ S i
  word : ∀ j, sl j < 2 ^ W
  top : ∀ j, fl.testBit j = true ↔ sl j ≠ 0
  topWord : fl < 2 ^ W

namespace TwoLevel

variable {W fl : Nat} {sl : Nat → Nat} {S : Nat → Prop}

theorem empty (W : Nat) : TwoLevel W 0 (fun _ => 0) (fun _ => False) where
  bit := fun i => by simp
  word := fun _ => Nat.two_pow_pos W
  top := fun j => by simp
  topWord := Nat.two_pow_pos W

theorem congr {S' : Nat → Prop} (h : TwoLevel W fl sl S) (hS : ∀ i, S i ↔ S' i) :
    TwoLevel W fl sl S' :=
  ⟨fun i => (h.bit i).trans (hS i), h.word, h.top, h.topWord⟩

/-- Bit `k` of word `j` is the index `j * W + k`. -/
theorem bit_at (h : TwoLevel W fl sl S) {j k : Nat} (hk : k < W) :
    (sl j).testBit k = true ↔ S (j * W + k) := by
  have hW : 0 < W := by omega
  have hdiv : (j * W + k) / W = j := by
    rw [Nat.mul_comm, Nat.mul_add_div hW, Nat.div_eq_of_lt hk, Nat.add_zero]
  have hmod : (j * W + k) % W = k := by
    rw [Nat.mul_comm, Nat.mul_add_mod, Nat.mod_eq_of_lt hk]
  have hb := h.bit (j * W + k)
  rwa [hdiv, hmod] at hb

/-- A non-zero summary word means a member, and conversely. -/
theorem top_ne_zero_iff (h : TwoLevel W fl sl S) : fl ≠ 0 ↔ ∃ i, S i := by
  constructor
  · intro h0
    obtain ⟨j, hj⟩ := Nat.exists_testBit_of_ne_zero h0
    obtain ⟨k, hk⟩ := Nat.exists_testBit_of_ne_zero ((h.top j).mp hj)
    exact ⟨j * W + k, (h.bit_at (lt_of_testBit (h.word j) hk)).mp hk⟩
  · rintro ⟨i, hi⟩ h0
    have hb := (h.bit i).mpr hi
    have hne : sl (i / W) ≠ 0 := by
      intro hz
      rw [hz, Nat.zero_testBit] at hb
      exact Bool.noConfusion hb
    have ht := (h.top (i / W)).mpr hne
    rw [h0, Nat.zero_testBit] at ht
    exact Bool.noConfusion ht

/-- Setting the bit of `i`, in the array and in the summary, adds `i`. -/
theorem insert (h : TwoLevel W fl sl S) {i : Nat} (hW : 0 < W) (hi : i / W < W) :
    TwoLevel W (setBit fl (i / W)) (Function.update sl (i / W) (setBit (sl (i / W)) (i % W)))
      (fun k => k = i ∨ S k) where
  bit := by
    intro k
    by_cases hj : k / W = i / W
    · rw [hj, Function.update_self, testBit_setBit, Bool.or_eq_true, decide_eq_true_iff, ← hj,
        h.bit k]
      have hki : i % W = k % W ↔ k = i := by
        constructor
        · intro hm
          rw [← Nat.div_add_mod k W, ← Nat.div_add_mod i W, hj, hm]
        · rintro rfl
          rfl
      rw [hki]
      exact or_comm
    · rw [Function.update_of_ne hj, h.bit k]
      exact ⟨Or.inr, fun hk => hk.elim (fun he => absurd (he ▸ rfl) hj) id⟩
  word := by
    intro j
    rcases eq_or_ne j (i / W) with rfl | hj
    · rw [Function.update_self]
      exact setBit_lt (h.word _) (Nat.mod_lt i hW)
    · rw [Function.update_of_ne hj]
      exact h.word j
  top := by
    intro j
    rw [testBit_setBit, Bool.or_eq_true, decide_eq_true_iff]
    rcases eq_or_ne j (i / W) with rfl | hj
    · rw [Function.update_self]
      exact ⟨fun _ => setBit_ne_zero _ _, fun _ => Or.inr rfl⟩
    · rw [Function.update_of_ne hj, h.top j]
      exact ⟨fun hk => hk.elim id (fun he => absurd he.symm hj), Or.inl⟩
  topWord := setBit_lt h.topWord hi

/-- Clearing the bit of `i` in the array, and the summary bit when the word becomes zero,
    removes `i`. -/
theorem erase (h : TwoLevel W fl sl S) {i : Nat} (hW : 0 < W) :
    TwoLevel W
      (if clearBit W (sl (i / W)) (i % W) = 0 then clearBit W fl (i / W) else fl)
      (Function.update sl (i / W) (clearBit W (sl (i / W)) (i % W)))
      (fun k => k ≠ i ∧ S k) where
  bit := by
    intro k
    by_cases hj : k / W = i / W
    · have hki : i % W = k % W ↔ k = i := by
        constructor
        · intro hm
          rw [← Nat.div_add_mod k W, ← Nat.div_add_mod i W, hj, hm]
        · rintro rfl
          rfl
      rw [hj, Function.update_self, testBit_clearBit, Bool.and_eq_true, ← hj, h.bit k,
        decide_eq_true (Nat.mod_lt k hW), Bool.true_xor, Bool.not_eq_true',
        decide_eq_false_iff_not, hki]
      exact and_comm
    · rw [Function.update_of_ne hj, h.bit k]
      exact ⟨fun hk => ⟨fun he => hj (he ▸ rfl), hk⟩, And.right⟩
  word := by
    intro j
    rcases eq_or_ne j (i / W) with rfl | hj
    · rw [Function.update_self]
      exact clearBit_lt (h.word _)
    · rw [Function.update_of_ne hj]
      exact h.word j
  top := by
    intro j
    rcases eq_or_ne j (i / W) with rfl | hj
    · rw [Function.update_self]
      by_cases hz : clearBit W (sl (i / W)) (i % W) = 0
      · rw [if_pos hz, testBit_clearBit, hz]
        rcases hb : fl.testBit (i / W) with _ | _
        · simp
        · have hlt := lt_of_testBit h.topWord hb
          simp [hlt]
      · rw [if_neg hz, h.top]
        refine ⟨fun _ => hz, fun _ hs => hz ?_⟩
        rw [hs, clearBit, andNot, Nat.zero_and]
    · rw [Function.update_of_ne hj, ← h.top j]
      by_cases hz : clearBit W (sl (i / W)) (i % W) = 0
      · rw [if_pos hz, testBit_clearBit]
        rcases hb : fl.testBit j with _ | _
        · simp
        · have hlt := lt_of_testBit h.topWord hb
          have hji : ¬ i / W = j := fun he => hj he.symm
          simp [hlt, hji]
      · rw [if_neg hz]
  topWord := by
    split
    · exact clearBit_lt h.topWord
    · exact h.topWord

/-! ## The search for the least member at or above `i` -/

/-- `n` is the least member of `S` that is at least `i`. -/
def Least (S : Nat → Prop) (i n : Nat) : Prop := i ≤ n ∧ S n ∧ ∀ k, i ≤ k → k < n → ¬ S k

/-- The bit of `i` itself is set. -/
theorem least_same (h : TwoLevel W fl sl S) {i : Nat}
    (hb : (sl (i / W)).testBit (i % W) = true) : Least S i i :=
  ⟨Nat.le_refl i, (h.bit i).mp hb, fun k h1 h2 => absurd h1 (by omega)⟩

/-- An index of the same word, decomposed. -/
theorem eq_of_div_eq {i k : Nat} (hj : k / W = i / W) : k + i % W = i + k % W := by
  have hk := Nat.div_add_mod k W
  have hi := Nat.div_add_mod i W
  rw [hj] at hk
  omega

/-- The bit of `i` is clear and a higher bit of its word is set. -/
theorem least_chunk (h : TwoLevel W fl sl S) {i : Nat}
    (hb : (sl (i / W)).testBit (i % W) = false) (hc : sl (i / W) >>> (i % W + 1) ≠ 0) :
    Least S i (i + ffs W (sl (i / W) >>> (i % W + 1)) + 1) := by
  obtain ⟨h1, h2⟩ := ffs_shiftRight (h.word (i / W)) hc
  generalize ffs W (sl (i / W) >>> (i % W + 1)) = f at h1 h2 ⊢
  have hlt : i % W + 1 + f < W := lt_of_testBit (h.word _) h1
  have hn : i / W * W + (i % W + 1 + f) = i + f + 1 := by
    have := Nat.div_add_mod' i W
    omega
  refine ⟨by omega, ?_, fun k hik hkn hk => ?_⟩
  · rw [← hn]
    exact (h.bit_at hlt).mp h1
  · have hj : k / W = i / W := by
      apply Nat.div_eq_of_lt_le
      · have := Nat.div_mul_le_self i W
        omega
      · rw [Nat.succ_mul]
        omega
    have hkb := (h.bit k).mpr hk
    rw [hj] at hkb
    have hke := eq_of_div_eq hj
    rcases Nat.eq_or_lt_of_le hik with rfl | hlt'
    · rw [hb] at hkb
      exact Bool.noConfusion hkb
    · rw [h2 (k % W) (by omega) (by omega)] at hkb
      exact Bool.noConfusion hkb

/-- No member in the rest of `i`'s word. -/
theorem not_mem_chunk (h : TwoLevel W fl sl S) {i k : Nat}
    (hb : (sl (i / W)).testBit (i % W) = false) (hc : sl (i / W) >>> (i % W + 1) = 0)
    (hik : i ≤ k) (hj : k / W = i / W) : ¬ S k := by
  intro hk
  have hkb := (h.bit k).mpr hk
  rw [hj] at hkb
  have hke := eq_of_div_eq hj
  rcases Nat.eq_or_lt_of_le hik with rfl | hlt
  · rw [hb] at hkb
    exact Bool.noConfusion hkb
  · rw [testBit_of_shiftRight_eq_zero hc (by omega)] at hkb
    exact Bool.noConfusion hkb

/-- The rest of `i`'s word is empty and the summary shows a later word. -/
theorem least_far (h : TwoLevel W fl sl S) {i : Nat} (hW : 0 < W)
    (hb : (sl (i / W)).testBit (i % W) = false) (hc : sl (i / W) >>> (i % W + 1) = 0)
    (hf : fl >>> (i / W + 1) ≠ 0) :
    Least S i ((i / W + ffs W (fl >>> (i / W + 1)) + 1) * W +
      ffs W (sl (i / W + ffs W (fl >>> (i / W + 1)) + 1))) := by
  obtain ⟨h1, h2⟩ := ffs_shiftRight h.topWord hf
  generalize ffs W (fl >>> (i / W + 1)) = f at h1 h2 ⊢
  rw [show i / W + 1 + f = i / W + f + 1 by omega] at h1 h2
  obtain ⟨h3, h4⟩ := ffs_spec (h.word (i / W + f + 1)) ((h.top _).mp h1)
  generalize ffs W (sl (i / W + f + 1)) = g at h3 h4 ⊢
  have hg : g < W := lt_of_testBit (h.word _) h3
  have hile : i ≤ (i / W + f + 1) * W + g := by
    have hi := Nat.lt_div_mul_add hW (a := i)
    have hm : (i / W + 1) * W ≤ (i / W + f + 1) * W := Nat.mul_le_mul_right W (by omega)
    rw [Nat.succ_mul] at hm
    omega
  refine ⟨hile, (h.bit_at hg).mp h3, fun k hik hkn hk => ?_⟩
  have hkj : i / W ≤ k / W := Nat.div_le_div_right hik
  have hkb := (h.bit k).mpr hk
  rcases Nat.lt_trichotomy (k / W) (i / W + f + 1) with hlt | heq | hgt
  · rcases Nat.eq_or_lt_of_le hkj with he | hl
    · exact h.not_mem_chunk hb hc hik he.symm hk
    · have hz : fl.testBit (k / W) = false := h2 (k / W) (by omega) hlt
      have hne : sl (k / W) ≠ 0 := by
        intro hs
        rw [hs, Nat.zero_testBit] at hkb
        exact Bool.noConfusion hkb
      rw [(h.top _).mpr hne] at hz
      exact Bool.noConfusion hz
  · have hkd := Nat.div_add_mod' k W
    rw [heq] at hkd hkb
    rw [h4 (k % W) (by omega)] at hkb
    exact Bool.noConfusion hkb
  · have hkd := Nat.div_add_mod' k W
    have hm : (i / W + f + 1 + 1) * W ≤ k / W * W := Nat.mul_le_mul_right W hgt
    rw [Nat.succ_mul] at hm
    omega

/-- Neither the rest of the word nor the summary shows anything. -/
theorem least_none (h : TwoLevel W fl sl S) {i : Nat}
    (hb : (sl (i / W)).testBit (i % W) = false) (hc : sl (i / W) >>> (i % W + 1) = 0)
    (hf : fl >>> (i / W + 1) = 0) : ∀ k, i ≤ k → ¬ S k := by
  intro k hik hk
  have hkj : i / W ≤ k / W := Nat.div_le_div_right hik
  rcases Nat.eq_or_lt_of_le hkj with he | hl
  · exact h.not_mem_chunk hb hc hik he.symm hk
  · have hkb := (h.bit k).mpr hk
    have hne : sl (k / W) ≠ 0 := by
      intro hs
      rw [hs, Nat.zero_testBit] at hkb
      exact Bool.noConfusion hkb
    have ht := (h.top _).mpr hne
    rw [testBit_of_shiftRight_eq_zero hf hl] at ht
    exact Bool.noConfusion ht

end TwoLevel

end KernelPatches.Lib
