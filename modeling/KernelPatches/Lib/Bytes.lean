/-
  Byte-addressed, paged memory: loads, stores and what a store leaves alone.

  Code that keeps its own records INSIDE memory it also hands out (an allocator's block headers and
  list links, a table of packed entries) is only correct because the records and the client's data
  never share a byte.  To be able to say so, the memory here is bytes and nothing else: a page number
  and an offset name one byte, and a field of `n` bytes is read and written little-endian.

  * `load m p o n`    — the `n`-byte number stored at offset `o` of page `p`;
  * `store m p o n v` — the memory after writing the low `n` bytes of `v` there;
  * `copyIn m p o bs` — the memory after writing the byte string `bs` there (a `memcpy`).

  The two facts every proof uses: a load of what was just stored gives the stored number
  (`load_store_same`), and a load depends only on the bytes it covers (`load_congr`), so that a store
  elsewhere does not matter (`load_store_page`, `load_store_off`).  What an operation writes is
  summarised by a FOOTPRINT: `AgreeOff F m m'` says that `m'` differs from `m` on bytes of `F` only,
  and footprints compose (`AgreeOff.trans`).
-/
import Mathlib.Algebra.Group.Nat.Defs
import Mathlib.Tactic.Common

namespace KernelPatches.Lib

/-- Paged memory: page number, offset in the page, byte. -/
abbrev Mem := Nat → Nat → UInt8

namespace Mem

/-! ## Loads and stores -/

/-- The `n`-byte little-endian number at offset `o` of page `p`. -/
def load (m : Mem) (p : Nat) : Nat → Nat → Nat
  | _, 0 => 0
  | o, n + 1 => (m p o).toNat + 256 * load m p (o + 1) n

/-- Write the low `n` bytes of `v` at offset `o` of page `p`, little-endian. -/
def store (m : Mem) (p o n v : Nat) : Mem := fun q k =>
  if q = p ∧ o ≤ k ∧ k < o + n then UInt8.ofNat (v / 256 ^ (k - o)) else m q k

/-- Write a byte string at offset `o` of page `p`. -/
def copyIn (m : Mem) (p o : Nat) (bs : List UInt8) : Mem := fun q k =>
  if q = p ∧ o ≤ k ∧ k < o + bs.length then bs.getD (k - o) 0 else m q k

/-- The `n` bytes at offset `o` of page `p`. -/
def copyOut (m : Mem) (p o n : Nat) : List UInt8 := (List.range n).map fun i => m p (o + i)

/-- A load reads only the bytes it covers. -/
theorem load_congr {m m' : Mem} {p : Nat} : ∀ {n o : Nat},
    (∀ k, o ≤ k → k < o + n → m' p k = m p k) → load m' p o n = load m p o n := by
  intro n
  induction n with
  | zero => intro o _; rfl
  | succ n ih =>
    intro o h
    have hhead : m' p o = m p o := h o (Nat.le_refl o) (by omega)
    have htail : load m' p (o + 1) n = load m p (o + 1) n :=
      ih (fun k h1 h2 => h k (by omega) (by omega))
    rw [load, load, hhead, htail]

/-- If the bytes at `o` are the digits of `v`, the load gives `v`, cut to `n` bytes. -/
theorem load_digits {m : Mem} {p : Nat} : ∀ {n o v : Nat},
    (∀ i, i < n → m p (o + i) = UInt8.ofNat (v / 256 ^ i)) → load m p o n = v % 256 ^ n := by
  intro n
  induction n with
  | zero => intro o v _; rw [load, Nat.pow_zero, Nat.mod_one]
  | succ n ih =>
    intro o v h
    have hhead : (m p o).toNat = v % 256 := by
      have h0 := h 0 (by omega)
      rw [Nat.add_zero, Nat.pow_zero, Nat.div_one] at h0
      rw [h0]
      exact UInt8.toNat_ofNat'
    have htail : load m p (o + 1) n = v / 256 % 256 ^ n := by
      refine ih (fun i hi => ?_)
      have hs := h (i + 1) (by omega)
      rw [show o + (i + 1) = o + 1 + i by omega] at hs
      rw [hs, Nat.div_div_eq_div_mul, Nat.pow_succ, Nat.mul_comm 256]
    rw [load, hhead, htail, Nat.pow_succ, Nat.mul_comm (256 ^ n) 256, Nat.mod_mul]

/-- Reading back what was stored. -/
theorem load_store_same (m : Mem) (p o n v : Nat) : load (store m p o n v) p o n = v % 256 ^ n := by
  refine load_digits (fun i hi => ?_)
  rw [store, if_pos ⟨rfl, by omega, by omega⟩, Nat.add_sub_cancel_left]

theorem load_store_of_lt {m : Mem} {p o n v : Nat} (h : v < 256 ^ n) :
    load (store m p o n v) p o n = v := by
  rw [load_store_same, Nat.mod_eq_of_lt h]

/-- A store to disjoint offsets does not matter. -/
theorem load_store_off {m : Mem} {p q o o' n n' v : Nat} (h : o' + n' ≤ o ∨ o + n ≤ o') :
    load (store m p o n v) q o' n' = load m q o' n' :=
  load_congr (fun _ _ _ => if_neg (fun hc => by omega))

theorem load_lt (m : Mem) (p : Nat) : ∀ n o, load m p o n < 256 ^ n := by
  intro n
  induction n with
  | zero => intro o; rw [load]; exact Nat.one_pos
  | succ n ih =>
    intro o
    have hb : (m p o).toNat < 256 := (m p o).toNat_lt
    have hr := ih (o + 1)
    rw [load, Nat.pow_succ]
    omega

/-- The digits of a number that was loaded are the bytes it was loaded from. -/
theorem load_byte (m : Mem) (p : Nat) : ∀ {n o i : Nat}, i < n →
    UInt8.ofNat (load m p o n / 256 ^ i) = m p (o + i)
  | n + 1, o, 0, _ => by
    have hlt : (m p o).toNat < 256 := (m p o).toNat_lt
    apply UInt8.toNat_inj.mp
    show _ = (m p o).toNat
    rw [UInt8.toNat_ofNat', load, Nat.pow_zero, Nat.div_one]
    omega
  | n + 1, o, i + 1, h => by
    have hlt : (m p o).toNat < 256 := (m p o).toNat_lt
    have htail := load_byte m p (n := n) (o := o + 1) (Nat.lt_of_succ_lt_succ h)
    have hdiv : ((m p o).toNat + 256 * load m p (o + 1) n) / 256 = load m p (o + 1) n := by omega
    rw [load, Nat.pow_succ, Nat.mul_comm (256 ^ i) 256, ← Nat.div_div_eq_div_mul, hdiv, htail,
      Nat.add_assoc, Nat.add_comm 1 i]

/-! ## Byte strings -/

@[simp] theorem length_copyOut (m : Mem) (p o n : Nat) : (copyOut m p o n).length = n := by
  simp [copyOut]

theorem copyOut_congr {m m' : Mem} {p o n : Nat}
    (h : ∀ k, o ≤ k → k < o + n → m' p k = m p k) : copyOut m' p o n = copyOut m p o n := by
  refine List.map_congr_left (fun i hi => ?_)
  have hi' : i < n := List.mem_range.mp hi
  exact h (o + i) (by omega) (by omega)

/-- Reading back a copied byte string. -/
theorem copyOut_copyIn (m : Mem) (p o : Nat) (bs : List UInt8) :
    copyOut (copyIn m p o bs) p o bs.length = bs := by
  apply List.ext_getElem
  · exact length_copyOut _ _ _ _
  · intro i h1 h2
    have hbyte : copyIn m p o bs p (o + i) = bs.getD (o + i - o) 0 :=
      if_pos ⟨rfl, by omega, by omega⟩
    simp only [copyOut, List.getElem_map, List.getElem_range, hbyte]
    rw [Nat.add_sub_cancel_left, List.getD_eq_getElem?_getD, List.getElem?_eq_getElem h2,
      Option.getD_some]

/-! ## Footprints -/

/-- `m'` differs from `m` on bytes of the footprint `F` only. -/
def AgreeOff (F : Nat → Nat → Prop) (m m' : Mem) : Prop := ∀ q k, ¬ F q k → m' q k = m q k

theorem AgreeOff.refl (F : Nat → Nat → Prop) (m : Mem) : AgreeOff F m m := fun _ _ _ => rfl

theorem AgreeOff.mono {F G : Nat → Nat → Prop} {m m' : Mem} (h : AgreeOff F m m')
    (hFG : ∀ q k, F q k → G q k) : AgreeOff G m m' :=
  fun q k hk => h q k (fun hF => hk (hFG q k hF))

theorem AgreeOff.trans {F : Nat → Nat → Prop} {m m' m'' : Mem} (h : AgreeOff F m m')
    (h' : AgreeOff F m' m'') : AgreeOff F m m'' :=
  fun q k hk => (h' q k hk).trans (h q k hk)

theorem AgreeOff.store {F : Nat → Nat → Prop} {m : Mem} {p o n v : Nat}
    (h : ∀ k, o ≤ k → k < o + n → F p k) : AgreeOff F m (store m p o n v) := by
  intro q k hk
  refine if_neg ?_
  rintro ⟨rfl, h1, h2⟩
  exact hk (h k h1 h2)

theorem AgreeOff.copyIn {F : Nat → Nat → Prop} {m : Mem} {p o : Nat} {bs : List UInt8}
    (h : ∀ k, o ≤ k → k < o + bs.length → F p k) : AgreeOff F m (copyIn m p o bs) := by
  intro q k hk
  refine if_neg ?_
  rintro ⟨rfl, h1, h2⟩
  exact hk (h k h1 h2)

/-- A load outside the footprint sees nothing. -/
theorem AgreeOff.load {F : Nat → Nat → Prop} {m m' : Mem} (h : AgreeOff F m m') {p o n : Nat}
    (hF : ∀ k, o ≤ k → k < o + n → ¬ F p k) : m'.load p o n = m.load p o n :=
  load_congr (fun k h1 h2 => h p k (hF k h1 h2))

theorem AgreeOff.copyOut {F : Nat → Nat → Prop} {m m' : Mem} (h : AgreeOff F m m') {p o n : Nat}
    (hF : ∀ k, o ≤ k → k < o + n → ¬ F p k) : m'.copyOut p o n = m.copyOut p o n :=
  copyOut_congr (fun k h1 h2 => h p k (hF k h1 h2))

end Mem

end KernelPatches.Lib
