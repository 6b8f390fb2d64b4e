/-
  The statistics of what is stored, as counters.

  Five fields of `struct ramzswap_stats` go up when a page is stored and down when it is freed.  They
  wrap at their C widths, so what the code does to them is stated as congruences: `+=` adds, and `-=`
  undoes an addition, whatever the values are.

  A `Counter` is one of the five, with its field; the other fields only count requests.
-/
import KernelPatches.Ramzswap.Model
import Mathlib.Data.Nat.ModEq

namespace KernelPatches.Ramzswap

theorem sub_modEq {w b : Nat} (a : Nat) (hb : b ≤ 2 ^ w) : sub w a b + b ≡ a [MOD 2 ^ w] := by
  have hsub : sub w a b + b ≡ a + 2 ^ w - b + b [MOD 2 ^ w] := (Nat.mod_modEq _ _).add_right b
  rw [Nat.sub_add_cancel (hb.trans (Nat.le_add_left _ _))] at hsub
  exact hsub.trans Nat.add_modEq_right

/-- The statistics of what is stored. -/
inductive Counter where
  | comprSize
  | pagesStored
  | pagesZero
  | pagesExpand
  | goodCompress

def Counter.field : Counter → StatField
  | comprSize => .comprSize
  | pagesStored => .pagesStored
  | pagesZero => .pagesZero
  | pagesExpand => .pagesExpand
  | goodCompress => .goodCompress

/-- The modulus of a counter. -/
def Counter.mod (A : Arch) (k : Counter) : Nat := 2 ^ k.field.width A

/-- The counters of what is stored are the same. -/
def SameStored (r r' : Rzs) : Prop := ∀ k : Counter, r'.stats k.field = r.stats k.field

theorem SameStored.refl (r : Rzs) : SameStored r r := fun _ => rfl

theorem SameStored.trans {r r' r'' : Rzs} (h : SameStored r r') (h' : SameStored r' r'') :
    SameStored r r'' := fun k => (h' k).trans (h k)

section Stat

variable (A : Arch) (f f' : StatField) (x : Nat) (r : Rzs)

theorem statAdd_apply : (statAdd A f x r).stats f' =
    if f' = f then (r.stats f + x) % 2 ^ f.width A else r.stats f' :=
  Function.update_apply _ _ _ _

theorem statSub_apply : (statSub A f x r).stats f' =
    if f' = f then sub (f.width A) (r.stats f) x else r.stats f' :=
  Function.update_apply _ _ _ _

/-- The counters fit their widths. -/
def InRange (A : Arch) (st : RamzswapStats) : Prop := ∀ k : Counter, st k.field < k.mod A

theorem InRange.statAdd (h : InRange A r.stats) : InRange A (statAdd A f x r).stats := by
  intro k
  rw [statAdd_apply]
  split
  case isTrue hk =>
    rw [Counter.mod, hk]
    exact Nat.mod_lt _ (Nat.two_pow_pos _)
  case isFalse => exact h k

theorem InRange.statSub (h : InRange A r.stats) : InRange A (statSub A f x r).stats := by
  intro k
  rw [statSub_apply]
  split
  case isTrue hk =>
    rw [Counter.mod, hk]
    exact Nat.mod_lt _ (Nat.two_pow_pos _)
  case isFalse => exact h k

theorem sameStored_stats {f : StatField} {r : Rzs} {x : Nat}
    (h : f ∉ [StatField.comprSize, .pagesStored, .pagesZero, .pagesExpand, .goodCompress]) :
    SameStored r { r with stats := Function.update r.stats f x } := by
  intro k
  refine Function.update_of_ne ?_ _ _
  rintro rfl
  cases k <;> simp [Counter.field] at h

end Stat

/-- Only statistics of requests differ. -/
def Quiet (r r' : Rzs) : Prop := SameStored r r' ∧ ∃ st, r' = { r with stats := st }

theorem Quiet.refl (r : Rzs) : Quiet r r := ⟨SameStored.refl r, r.stats, rfl⟩

theorem Quiet.trans {r r' r'' : Rzs} (h : Quiet r r') (h' : Quiet r' r'') : Quiet r r'' := by
  obtain ⟨hst, st, rfl⟩ := h
  obtain ⟨hst', st', rfl⟩ := h'
  exact ⟨hst.trans hst', st', rfl⟩

/-- A field that only counts requests. -/
theorem quiet_stats {f : StatField} {r : Rzs} {x : Nat}
    (h : f ∉ [StatField.comprSize, .pagesStored, .pagesZero, .pagesExpand, .goodCompress]) :
    Quiet r { r with stats := Function.update r.stats f x } :=
  ⟨sameStored_stats h, _, rfl⟩

end KernelPatches.Ramzswap
