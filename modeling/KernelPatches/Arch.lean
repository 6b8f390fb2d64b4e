/-
  What the modelled code takes from the machine and the kernel headers.

  The modules are built for 32-bit ARM handhelds, and the same sources build for 64-bit kernels.  The
  two differ in the width of `unsigned long` (`ulong`, `size_t`); everything else here is the same:
  pages of 4096 bytes, sectors of 512.  Results about the code are stated for both (`A : Arch`).
-/
import Mathlib.Tactic.Common

namespace KernelPatches

/-- The data models the sources are built for. -/
inductive Arch where
  | ilp32
  | lp64
  deriving DecidableEq, Repr

/-- `BITS_PER_LONG`, also the width of `size_t`. -/
def Arch.bitsPerLong : Arch → Nat
  | .ilp32 => 32
  | .lp64 => 64

theorem Arch.bitsPerLong_eq (A : Arch) : A.bitsPerLong = 32 ∨ A.bitsPerLong = 64 := by
  cases A
  · exact Or.inl rfl
  · exact Or.inr rfl

theorem Arch.bitsPerLong_pos (A : Arch) : 0 < A.bitsPerLong := by
  rcases A.bitsPerLong_eq with h | h <;> omega

def pageShift : Nat := 12

def pageSize : Nat := 1 <<< pageShift

@[simp] theorem pageSize_eq : pageSize = 4096 := rfl

@[simp] theorem pageShift_eq : pageShift = 12 := rfl

/-- `-ENOMEM`. -/
def negENOMEM : Int := -12

theorem negENOMEM_ne_zero : negENOMEM ≠ 0 := by decide

/-- `ALIGN(x, a)`: `x` rounded up to a multiple of `a`. -/
def align (x a : Nat) : Nat := (x + (a - 1)) / a * a

end KernelPatches
