/-
  Names and what stands under them.

  The contents of a place are a function from names to what stands there, if anything does.  `put` enters
  something under a name, `drop` removes what is there, and `move` gives it another name, where it replaces
  what was there.  None of them tells what was replaced, so each is undone by another one only where nothing
  was:

  * `drop_put`, `put_put` — of two changes of one name the later one counts;
  * `move_back`           — moving back leaves all as before but the name that was moved to, which is free;
  * `drop_eq_self_iff`    — so the undoing is right iff that name was free before.
-/
import Mathlib.Logic.Function.Basic

namespace KernelPatches.Lib

/-- What stands under each name. -/
abbrev Contents (κ ν : Type*) := κ → Option ν

namespace Contents

variable {κ ν : Type*} [DecidableEq κ] {c : Contents κ ν} {k k' l : κ} {v w : ν}

def put (c : Contents κ ν) (k : κ) (v : ν) : Contents κ ν := Function.update c k (some v)

def drop (c : Contents κ ν) (k : κ) : Contents κ ν := Function.update c k none

def move (c : Contents κ ν) (k k' : κ) : Contents κ ν :=
  Function.update (Function.update c k none) k' (c k)

/-! ## Reading -/

@[simp] theorem put_self : c.put k v k = some v := Function.update_self _ _ _

theorem put_of_ne (h : l ≠ k) : c.put k v l = c l := Function.update_of_ne h _ _

@[simp] theorem drop_self : c.drop k k = none := Function.update_self _ _ _

theorem drop_of_ne (h : l ≠ k) : c.drop k l = c l := Function.update_of_ne h _ _

@[simp] theorem move_dst : c.move k k' k' = c k := Function.update_self _ _ _

theorem move_src (h : k ≠ k') : c.move k k' k = none := by
  rw [move, Function.update_of_ne h, Function.update_self]

theorem move_of_ne (h : l ≠ k) (h' : l ≠ k') : c.move k k' l = c l := by
  rw [move, Function.update_of_ne h', Function.update_of_ne h]

/-! ## Undoing -/

theorem drop_put : (c.put k v).drop k = c.drop k := Function.update_idem _ _ _

theorem put_put : (c.put k v).put k w = c.put k w := Function.update_idem _ _ _

theorem put_eq_self (h : c k = some v) : c.put k v = c := by
  rw [put, ← h, Function.update_eq_self]

/-- **Dropping a name** changes nothing iff nothing is there. -/
theorem drop_eq_self_iff : c.drop k = c ↔ c k = none := by
  constructor
  · intro h
    rw [← h, drop_self]
  · intro h
    rw [drop, ← h, Function.update_eq_self]

/-- **Moving there and back**: what was replaced is lost, and nothing else. -/
theorem move_back (h : k ≠ k') : (c.move k k').move k' k = c.drop k' := by
  funext l
  by_cases hk : l = k
  · subst hk
    rw [move_dst, move_dst, drop_of_ne h]
  by_cases hk' : l = k'
  · subst hk'
    rw [move_src hk, drop_self]
  · rw [move_of_ne hk' hk, move_of_ne hk hk', drop_of_ne hk']

/-! ## Changes of other names -/

theorem put_drop_comm (h : k ≠ l) : (c.put k v).drop l = (c.drop l).put k v :=
  Function.update_comm (Ne.symm h) _ _ _ |>.symm

theorem drop_comm : (c.drop k).drop l = (c.drop l).drop k := by
  by_cases h : k = l
  · rw [h]
  · exact Function.update_comm (Ne.symm h) _ _ _ |>.symm

theorem move_drop_comm (h : k ≠ l) (h' : k' ≠ l) : (c.move k k').drop l = (c.drop l).move k k' := by
  rw [move, move, drop_of_ne h]
  funext n
  by_cases hl : n = l
  · subst hl
    rw [drop_self, Function.update_of_ne (Ne.symm h'), Function.update_of_ne (Ne.symm h), drop_self]
  rw [drop_of_ne hl]
  by_cases hk' : n = k'
  · rw [hk', Function.update_self, Function.update_self]
  rw [Function.update_of_ne hk', Function.update_of_ne hk']
  by_cases hk : n = k
  · rw [hk, Function.update_self, Function.update_self]
  · rw [Function.update_of_ne hk, Function.update_of_ne hk, drop_of_ne hl]

end Contents

end KernelPatches.Lib
