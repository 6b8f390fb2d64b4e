/-
  Settings that are written one after the other, where the last one counts.

  Each operation of a list belongs to a group, or to none, and what is seen of a group is only changed by its own
  operations.  Then what is seen of it after all of them is what its last operation left, and if there is none, what
  was there before.

  * `lastOf`       — the last operation of a group;
  * `foldl_last`   — what it left is seen in the end;
  * `foldl_none`   — without one, what was there before.
-/
import Mathlib.Data.List.Induction
import Mathlib.Tactic.Common

namespace KernelPatches.Lib

variable {σ ι κ β : Type*} [DecidableEq κ] {group : ι → Option κ} {g : κ} {step : σ → ι → σ} {seen : σ → β} {o : ι}

/-- The last operation of a group. -/
def lastOf (group : ι → Option κ) (g : κ) (ops : List ι) : Option ι :=
  (ops.filter fun o => group o = some g).getLast?

theorem lastOf_concat (ops : List ι) (o : ι) :
    lastOf group g (ops ++ [o]) = if group o = some g then some o else lastOf group g ops := by
  unfold lastOf
  rw [List.filter_append]
  by_cases h : group o = some g
  · have hone : ([o].filter fun o => group o = some g) = [o] := by simp [h]
    rw [if_pos h, hone]
    exact List.getLast?_concat
  · have hone : ([o].filter fun o => group o = some g) = [] := by simp [h]
    rw [if_neg h, hone, List.append_nil]

theorem group_of_lastOf {ops : List ι} (h : lastOf group g ops = some o) : group o = some g :=
  of_decide_eq_true (List.mem_filter.mp (List.mem_of_getLast? h)).2

section

variable (hstep : ∀ s o, group o ≠ some g → seen (step s o) = seen s)
include hstep

/-- **The last one counts**: what it left, in the state it was done in. -/
theorem foldl_last (ops : List ι) (s : σ) (h : lastOf group g ops = some o) :
    ∃ s', seen (ops.foldl step s) = seen (step s' o) := by
  induction ops using List.reverseRecOn with
  | nil => cases h
  | append_singleton ops x ih =>
    rw [lastOf_concat] at h
    rw [List.foldl_append, List.foldl_cons, List.foldl_nil]
    split at h
    · obtain rfl := Option.some.inj h
      exact ⟨_, rfl⟩
    · rename_i hx
      rw [hstep _ _ hx]
      exact ih h

/-- **Without one**, what was there before is still there. -/
theorem foldl_none (ops : List ι) (s : σ) (h : lastOf group g ops = none) : seen (ops.foldl step s) = seen s := by
  induction ops using List.reverseRecOn with
  | nil => rfl
  | append_singleton ops x ih =>
    rw [lastOf_concat] at h
    rw [List.foldl_append, List.foldl_cons, List.foldl_nil]
    split at h
    · cases h
    · rename_i hx
      rw [hstep _ _ hx]
      exact ih h

end

end KernelPatches.Lib
