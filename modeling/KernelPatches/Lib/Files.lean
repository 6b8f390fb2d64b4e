/-
  Files of bytes, and the bits of a byte array.

  A `File` is a size and a byte for every position; from the size on the bytes are zero, and it is part
  of the type that they are, so that a write past the end leaves a hole of zeros behind and no one has
  to say so.

  * `File.write f pos n src` — the file after writing the bytes `src 0 … src (n - 1)` at `pos`;
  * `num d pos n`            — the `n`-byte little-endian number at `pos` of the byte array `d`;
  * `bitAt d i`                — bit `i` of the byte array `d`, eight bits to a byte, low bit first;
  * `setBitAt`, `clearBitAt`     — change one bitAt (`bitAt_setBitAt`, `bitAt_clearBitAt`);
  * `findFirstZeroBit d n`   — the first clear bit below `n`, or `n` (`findFirstZeroBit_spec`).

  Bits and bytes move together: copying whole bytes copies their bits (`bitAt_congr`).
-/
import KernelPatches.Lib.Bits
import KernelPatches.Lib.Bytes

namespace KernelPatches.Lib

/-! ## Files -/

/-- A file: its size and its bytes, zero from the size on. -/
@[ext] structure File where
  size : Nat
  data : Nat → UInt8
  beyond : ∀ i, size ≤ i → data i = 0

namespace File

/-- A file just created. -/
def empty : File := ⟨0, fun _ => 0, fun _ _ => rfl⟩

@[simp] theorem empty_size : empty.size = 0 := rfl

@[simp] theorem empty_data (i : Nat) : empty.data i = 0 := rfl

/-- Write `n` bytes at `pos`.  Writing nothing does not extend the file. -/
def write (f : File) (pos n : Nat) (src : Nat → UInt8) : File where
  size := if n = 0 then f.size else max f.size (pos + n)
  data i := if pos ≤ i ∧ i < pos + n then src (i - pos) else f.data i
  beyond := by
    intro i hi
    by_cases hn : n = 0
    · rw [if_pos hn] at hi
      rw [if_neg (by omega)]
      exact f.beyond i hi
    · rw [if_neg hn] at hi
      rw [if_neg (by omega)]
      exact f.beyond i (by omega)

theorem write_size {f : File} {pos n : Nat} {src : Nat → UInt8} (hn : n ≠ 0) :
    (f.write pos n src).size = max f.size (pos + n) := if_neg hn

theorem size_le_write (f : File) (pos n : Nat) (src : Nat → UInt8) :
    f.size ≤ (f.write pos n src).size := by
  by_cases hn : n = 0
  · exact Nat.le_of_eq (if_pos hn).symm
  · rw [write_size hn]
    omega

/-- What was written. -/
theorem write_data_in (f : File) {pos n : Nat} (src : Nat → UInt8) {k : Nat} (hk : k < n) :
    (f.write pos n src).data (pos + k) = src k := by
  have h : (f.write pos n src).data (pos + k) = src (pos + k - pos) := if_pos ⟨by omega, by omega⟩
  rw [h, Nat.add_sub_cancel_left]

/-- What was not. -/
theorem write_data_out (f : File) {pos n : Nat} (src : Nat → UInt8) {i : Nat}
    (hi : i < pos ∨ pos + n ≤ i) : (f.write pos n src).data i = f.data i :=
  if_neg (by omega)

theorem write_zero (f : File) (pos : Nat) (src : Nat → UInt8) : f.write pos 0 src = f := by
  refine File.ext rfl (funext fun i => ?_)
  show (if pos ≤ i ∧ i < pos + 0 then src (i - pos) else f.data i) = f.data i
  exact if_neg (by omega)

/-- Two writes, the second where the first one ended. -/
theorem write_append (f : File) (pos a b : Nat) (src : Nat → UInt8) :
    (f.write pos a src).write (pos + a) b (fun i => src (a + i)) = f.write pos (a + b) src := by
  refine File.ext ?_ (funext fun i => ?_)
  · show (if b = 0 then (if a = 0 then f.size else max f.size (pos + a))
        else max (if a = 0 then f.size else max f.size (pos + a)) (pos + a + b))
      = if a + b = 0 then f.size else max f.size (pos + (a + b))
    split_ifs <;> omega
  · show (if pos + a ≤ i ∧ i < pos + a + b then src (a + (i - (pos + a)))
        else if pos ≤ i ∧ i < pos + a then src (i - pos) else f.data i)
      = if pos ≤ i ∧ i < pos + (a + b) then src (i - pos) else f.data i
    by_cases h : pos + a ≤ i ∧ i < pos + a + b
    · rw [if_pos h, if_pos (by omega), show a + (i - (pos + a)) = i - pos by omega]
    · rw [if_neg h]
      by_cases h' : pos ≤ i ∧ i < pos + a
      · rw [if_pos h', if_pos (by omega)]
      · rw [if_neg h', if_neg (by omega)]

/-- Cut or extend the file to `n` bytes. -/
def truncate (f : File) (n : Nat) : File where
  size := n
  data i := if i < n then f.data i else 0
  beyond := fun i hi => if_neg (by omega)

end File

/-! ## Numbers in a byte array -/

/-- The `n`-byte little-endian number at `pos`. -/
def num (d : Nat → UInt8) (pos n : Nat) : Nat := Mem.load (fun _ => d) 0 pos n

/-- The bytes of a number, low byte first. -/
def bytesOf (v : Nat) (i : Nat) : UInt8 := UInt8.ofNat (v / 256 ^ i)

theorem num_congr {d d' : Nat → UInt8} {pos n : Nat}
    (h : ∀ k, pos ≤ k → k < pos + n → d' k = d k) : num d' pos n = num d pos n :=
  Mem.load_congr h

theorem num_lt (d : Nat → UInt8) (pos n : Nat) : num d pos n < 256 ^ n := Mem.load_lt _ _ _ _

theorem num_zero {d : Nat → UInt8} {pos n : Nat} (h : ∀ k, pos ≤ k → k < pos + n → d k = 0) :
    num d pos n = 0 := by
  have hd : num d pos n = 0 % 256 ^ n := by
    refine Mem.load_digits (fun i hi => ?_)
    rw [h (pos + i) (by omega) (by omega), Nat.zero_div]
    rfl
  rw [hd, Nat.zero_mod]

/-- A number in a part of the array. -/
theorem num_shift (d : Nat → UInt8) (pos : Nat) : ∀ (n o : Nat),
    num (fun k => d (pos + k)) o n = num d (pos + o) n := by
  intro n
  induction n with
  | zero => intro o; rfl
  | succ n ih =>
    intro o
    have htail : num (fun k => d (pos + k)) (o + 1) n = num d (pos + o + 1) n := ih (o + 1)
    exact congrArg (fun t => (d (pos + o)).toNat + 256 * t) htail

/-- Reading back a number that was written to a file. -/
theorem num_write (f : File) (pos : Nat) {n v : Nat} (hv : v < 256 ^ n) :
    num (f.write pos n (bytesOf v)).data pos n = v := by
  have h : num (f.write pos n (bytesOf v)).data pos n = v % 256 ^ n :=
    Mem.load_digits fun i hi => f.write_data_in (bytesOf v) hi
  rw [h, Nat.mod_eq_of_lt hv]

/-- A number elsewhere in the file stays. -/
theorem num_write_out (f : File) {pos n pos' n' : Nat} (src : Nat → UInt8)
    (h : pos' + n' ≤ pos ∨ pos + n ≤ pos') :
    num (f.write pos n src).data pos' n' = num f.data pos' n' :=
  num_congr fun k h1 h2 => f.write_data_out src (by omega)

/-- The bytes of a number in the array. -/
theorem bytesOf_num (d : Nat → UInt8) (pos : Nat) {n i : Nat} (hi : i < n) :
    bytesOf (num d pos n) i = d (pos + i) := Mem.load_byte _ 0 hi

/-- Two numbers differ iff some byte of them does. -/
theorem num_ne_iff {d d' : Nat → UInt8} {pos n : Nat} :
    num d' pos n ≠ num d pos n ↔ ∃ i < n, d' (pos + i) ≠ d (pos + i) := by
  constructor
  · intro hne
    by_contra hall
    apply hne
    refine num_congr fun k h1 h2 => ?_
    by_contra hk
    refine hall ⟨k - pos, by omega, ?_⟩
    rwa [Nat.add_sub_cancel' h1]
  · rintro ⟨i, hi, hne⟩ heq
    apply hne
    rw [← bytesOf_num d' pos hi, heq, bytesOf_num d pos hi]

/-! ## Bits of a byte array -/

/-- Bit `i`, eight bits to a byte, low bit first. -/
def bitAt (d : Nat → UInt8) (i : Nat) : Bool := (d (i / 8)).toNat.testBit (i % 8)

/-- `set_bit` -/
def setBitAt (d : Nat → UInt8) (i : Nat) : Nat → UInt8 :=
  Function.update d (i / 8) (UInt8.ofNat (setBit (d (i / 8)).toNat (i % 8)))

/-- `clear_bit` -/
def clearBitAt (d : Nat → UInt8) (i : Nat) : Nat → UInt8 :=
  Function.update d (i / 8) (UInt8.ofNat (clearBit 8 (d (i / 8)).toNat (i % 8)))

/-- Bits are read from their own byte only. -/
theorem bitAt_congr {d d' : Nat → UInt8} {i j : Nat} (hb : d (i / 8) = d' (j / 8))
    (hm : i % 8 = j % 8) : bitAt d i = bitAt d' j := by
  rw [bitAt, bitAt, hb, hm]

@[simp] theorem bitAt_zero (i : Nat) : bitAt (fun _ => 0) i = false := by
  show Nat.testBit 0 (i % 8) = false
  exact Nat.zero_testBit _

/-- One byte replaced: the bits of that byte are the new byte's, the others stay. -/
theorem bitAt_update {d : Nat → UInt8} {i v : Nat} (hv : v < 2 ^ 8) (j : Nat) :
    bitAt (Function.update d (i / 8) (UInt8.ofNat v)) j
      = if j / 8 = i / 8 then v.testBit (j % 8) else bitAt d j := by
  by_cases hb : j / 8 = i / 8
  · rw [if_pos hb, bitAt, hb, Function.update_self, UInt8.toNat_ofNat', Nat.mod_eq_of_lt hv]
  · rw [if_neg hb, bitAt, Function.update_of_ne hb, bitAt]

theorem bitAt_setBitAt (d : Nat → UInt8) (i j : Nat) :
    bitAt (setBitAt d i) j = (decide (i = j) || bitAt d j) := by
  have hlt : setBit (d (i / 8)).toNat (i % 8) < 2 ^ 8 :=
    setBit_lt (d (i / 8)).toNat_lt (Nat.mod_lt _ (by omega))
  rw [setBitAt, bitAt_update hlt]
  by_cases hb : j / 8 = i / 8
  · have hij : (i % 8 = j % 8) ↔ i = j := by omega
    rw [if_pos hb, testBit_setBit, bitAt, hb, Bool.or_comm]
    simp only [hij]
  · have hij : i ≠ j := fun h => hb (by rw [h])
    rw [if_neg hb, decide_eq_false hij, Bool.false_or]

theorem bitAt_clearBitAt (d : Nat → UInt8) (i j : Nat) :
    bitAt (clearBitAt d i) j = (decide (i ≠ j) && bitAt d j) := by
  have hlt : clearBit 8 (d (i / 8)).toNat (i % 8) < 2 ^ 8 := clearBit_lt (d (i / 8)).toNat_lt
  rw [clearBitAt, bitAt_update hlt]
  by_cases hb : j / 8 = i / 8
  · have hij : (i % 8 = j % 8) ↔ i = j := by omega
    have hj : j % 8 < 8 := Nat.mod_lt _ (by omega)
    rw [if_pos hb, testBit_clearBit, bitAt, hb, Bool.and_comm]
    simp [hij, hj]
  · have hij : i ≠ j := fun h => hb (by rw [h])
    rw [if_neg hb, decide_eq_true hij, Bool.true_and]

/-- `find_first_zero_bit`: the first clear bit below `n`, or `n` if there is none. -/
def findFirstZeroBit (d : Nat → UInt8) (n : Nat) : Nat :=
  ((List.range n).find? fun i => !bitAt d i).getD n

/-- It finds a clear bit if there is one. -/
theorem findFirstZeroBit_spec (d : Nat → UInt8) (n : Nat) :
    (findFirstZeroBit d n < n ∧ bitAt d (findFirstZeroBit d n) = false) ∨
      (findFirstZeroBit d n = n ∧ ∀ i < n, bitAt d i = true) := by
  rw [findFirstZeroBit]
  cases hf : (List.range n).find? fun i => !bitAt d i with
  | some i =>
    left
    have hmem : i < n := List.mem_range.mp (List.mem_of_find?_eq_some hf)
    have hbit : (!bitAt d i) = true := List.find?_some (p := fun i => !bitAt d i) hf
    exact ⟨hmem, by simpa using hbit⟩
  | none =>
    right
    refine ⟨rfl, fun i hi => ?_⟩
    have hbit := List.find?_eq_none.mp hf i (List.mem_range.mpr hi)
    simpa using hbit

/-- Bit 0 is the first looked at. -/
theorem findFirstZeroBit_clear {d : Nat → UInt8} {n : Nat} (hn : n ≠ 0) (h : bitAt d 0 = false) :
    findFirstZeroBit d n = 0 := by
  obtain ⟨k, rfl⟩ := Nat.exists_eq_succ_of_ne_zero hn
  have h0 : (fun i => !bitAt d i) 0 = true := by
    show (!bitAt d 0) = true
    rw [h]
    rfl
  rw [findFirstZeroBit, List.range_succ_eq_map, List.find?_cons_of_pos (p := fun i => !bitAt d i) h0]
  rfl

end KernelPatches.Lib
