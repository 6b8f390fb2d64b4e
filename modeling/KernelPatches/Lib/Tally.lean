/-
  Tallies: how many of the parties are where.

  Finitely many parties, each somewhere; `tally f w` counts them with the weight `w` of the place each is in.
  One party moving changes a tally by the weights of its two places (`tally_update`), and so a law of
  conservation comes to one sum for each kind of move.

  Runs of guarded steps are taken a step further by `Run.go`, and hold under weaker guards (`Run.weaken`).

  What is not in the state — how often something has happened — is metered: `Metered step m` are the steps
  with a meter that each step moves on by what `m` says, and every run has its metered run (`Run.metered`).
-/
import KernelPatches.Lib.Runs
import Mathlib.Algebra.BigOperators.Group.Finset.Basic
import Mathlib.Algebra.Order.BigOperators.Group.Finset
import Mathlib.Data.Fintype.BigOperators

namespace KernelPatches.Lib

open Finset

/-! ## Counting -/

section Tally

variable {τ α : Type*} [Fintype τ]

/-- The parties, each counted with the weight of its place. -/
def tally (f : τ → α) (w : α → ℕ) : ℕ := ∑ t, w (f t)

/-- **One party moves.** -/
theorem tally_update [DecidableEq τ] (f : τ → α) (w : α → ℕ) (t : τ) (v : α) :
    tally (Function.update f t v) w + w (f t) = tally f w + w v := by
  have hnew := add_sum_erase univ (fun u => w (Function.update f t v u)) (mem_univ t)
  have hold := add_sum_erase univ (fun u => w (f u)) (mem_univ t)
  have hrest : ∑ u ∈ univ.erase t, w (Function.update f t v u) = ∑ u ∈ univ.erase t, w (f u) := by
    refine sum_congr rfl fun u hu => ?_
    rw [Function.update_of_ne (ne_of_mem_erase hu)]
  simp only [Function.update_self] at hnew
  rw [tally, tally, ← hnew, ← hold, hrest]
  omega

/-- Nobody is anywhere that counts. -/
theorem tally_eq_zero {f : τ → α} {w : α → ℕ} : tally f w = 0 ↔ ∀ t, w (f t) = 0 := by
  rw [tally, sum_eq_zero_iff]
  exact ⟨fun h t => h t (mem_univ t), fun h t _ => h t⟩

/-- Somebody is where it counts. -/
theorem exists_of_tally {f : τ → α} {w : α → ℕ} (h : 0 < tally f w) : ∃ t, 0 < w (f t) := by
  by_contra hc
  push Not at hc
  exact h.ne' (tally_eq_zero.mpr fun t => Nat.le_zero.mp (hc t))

/-- One of the parties. -/
theorem le_tally (f : τ → α) (w : α → ℕ) (t : τ) : w (f t) ≤ tally f w :=
  single_le_sum (f := fun t => w (f t)) (fun _ _ => Nat.zero_le _) (mem_univ t)

end Tally

/-! ## Runs of guarded steps -/

section Guarded

variable {σ ε : Type*} {step : σ → ε → σ → Prop} {P P' : σ → ε → Prop} {s0 s s' : σ} {es : List ε}

/-- One step more. -/
theorem Run.go {e : ε} (h : Run (Guarded step P) s0 es s) (hs : step s e s') (hP : P s e) :
    Run (Guarded step P) s0 (es ++ [e]) s' := h.snoc ⟨hP, hs⟩

/-- A run under a weaker guard. -/
theorem Run.weaken (h : Run (Guarded step P) s0 es s) (hP : ∀ s e, P s e → P' s e) :
    Run (Guarded step P') s0 es s := by
  induction h with
  | nil => exact .nil
  | snoc _ hs ih => exact ih.snoc ⟨hP _ _ hs.1, hs.2⟩

/-- A run of guarded steps is a run. -/
theorem Run.unguarded (h : Run (Guarded step P) s0 es s) : Run step s0 es s := by
  induction h with
  | nil => exact .nil
  | snoc _ hs ih => exact ih.snoc hs.2

end Guarded

/-! ## Meters -/

section Metered

variable {σ ε M : Type*} [AddMonoid M]

/-- The steps with a meter. -/
def Metered (step : σ → ε → σ → Prop) (m : σ → ε → M) (s : σ × M) (e : ε) (s' : σ × M) : Prop :=
  step s.1 e s'.1 ∧ s'.2 = s.2 + m s.1 e

/-- Every run can be metered. -/
theorem Run.metered {step : σ → ε → σ → Prop} {s0 s : σ} {es : List ε} (h : Run step s0 es s)
    (m : σ → ε → M) : ∃ n, Run (Metered step m) (s0, 0) es (s, n) := by
  induction h with
  | nil => exact ⟨0, .nil⟩
  | snoc _ hs ih =>
    obtain ⟨n, hrun⟩ := ih
    exact ⟨n + m _ _, hrun.snoc ⟨hs, rfl⟩⟩

end Metered

end KernelPatches.Lib
