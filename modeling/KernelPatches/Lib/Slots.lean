/-
  Arrays of slots, and how often they refer to something.

  A slot is empty or refers to one thing, its key.  `refs key a l` counts the slots that refer to `a`; what an
  assignment does to the count is `refs_set`, and two slots that change places do nothing to it (`refs_swap`).
  Counters of references are right when they agree with `refs`; `refs_eq_zero_iff` says when that is zero.
-/
import Mathlib.Data.List.Basic

namespace KernelPatches.Lib

variable {α β : Type*} [DecidableEq α] {key : β → α} {a : α} {l : List (Option β)} {i j : Nat}

/-- How many slots refer to `a`. -/
def refs (key : β → α) (a : α) (l : List (Option β)) : Nat := l.countP fun x => x.any (key · = a)

/-- What one slot counts for. -/
def refOf (key : β → α) (a : α) (x : Option β) : Nat := if x.any (key · = a) then 1 else 0

theorem refOf_none : refOf key a none = 0 := rfl

theorem refOf_some {y : β} : refOf key a (some y) = if key y = a then 1 else 0 := by simp [refOf]

theorem refs_cons (x : Option β) : refs key a (x :: l) = refOf key a x + refs key a l := by
  rw [refs, refs, refOf, List.countP_cons, Nat.add_comm]

theorem refs_append (l₁ l₂ : List (Option β)) : refs key a (l₁ ++ l₂) = refs key a l₁ + refs key a l₂ :=
  List.countP_append

theorem refs_replicate_none (n : Nat) : refs key a (List.replicate n none) = 0 := by
  rw [refs, List.countP_replicate]
  rfl

/-- **An assignment.**  The slot counts for what it holds. -/
theorem refs_set (h : i < l.length) (x : Option β) :
    refs key a (l.set i x) + refOf key a (l.getD i none) = refs key a l + refOf key a x := by
  induction l generalizing i with
  | nil => exact absurd h (Nat.not_lt_zero i)
  | cons y l ih =>
    cases i with
    | zero =>
      rw [List.set_cons_zero, refs_cons, refs_cons, List.getD_cons_zero]
      omega
    | succ i =>
      have := ih (Nat.lt_of_succ_lt_succ h)
      rw [List.set_cons_succ, refs_cons, refs_cons, List.getD_cons_succ]
      omega

/-- Two slots change places. -/
theorem refs_swap (hi : i < l.length) (hj : j < l.length) (hne : i ≠ j) :
    refs key a ((l.set j (l.getD i none)).set i (l.getD j none)) = refs key a l := by
  have h₁ : refs key a (l.set j (l.getD i none)) + refOf key a (l.getD j none) =
      refs key a l + refOf key a (l.getD i none) := refs_set hj _
  have h₂ : refs key a ((l.set j (l.getD i none)).set i (l.getD j none)) +
      refOf key a ((l.set j (l.getD i none)).getD i none) =
      refs key a (l.set j (l.getD i none)) + refOf key a (l.getD j none) :=
    refs_set (by rw [List.length_set]; exact hi) _
  have hget : (l.set j (l.getD i none)).getD i none = l.getD i none := by
    rw [List.getD_eq_getElem?_getD, List.getElem?_set_ne (Ne.symm hne), List.getD_eq_getElem?_getD]
  rw [hget] at h₂
  omega

/-- **Nothing refers to `a`** iff no slot does. -/
theorem refs_eq_zero_iff : refs key a l = 0 ↔ ∀ y, some y ∈ l → key y ≠ a := by
  rw [refs, List.countP_eq_zero]
  constructor
  · intro h y hy hk
    exact h (some y) hy (by simp [hk])
  · intro h x hx
    cases x with
    | none => simp
    | some y => simpa using h y hx

/-- The slots behind the first `n` are empty, and may be left out. -/
theorem refs_take {n : Nat} (h : ∀ y, some y ∉ l.drop n) : refs key a (l.take n) = refs key a l := by
  have hdrop : refs key a (l.drop n) = 0 := refs_eq_zero_iff.mpr fun y hy => absurd hy (h y)
  conv_rhs => rw [← List.take_append_drop n l]
  rw [refs_append, hdrop, Nat.add_zero]

end KernelPatches.Lib
