/-
  Runs of a transition system.

  `step s e s'` says that event `e` may take state `s` to `s'`.  `Run step s0 es s` is a finite run
  from `s0` to `s` with the events `es`, and the one induction over runs is `Run.inv`: what holds at
  the start and is kept by every step holds at the end.

  `Guarded step P` are the steps whose event meets the condition `P` in the state it is taken in; a
  run of guarded steps is a run (`Run.of_guarded`).
-/
import Mathlib.Tactic.Common

namespace KernelPatches.Lib

variable {σ ε : Type*}

/-- A finite run from `s0`, with its events. -/
inductive Run (step : σ → ε → σ → Prop) (s0 : σ) : List ε → σ → Prop
  | nil : Run step s0 [] s0
  | snoc {es : List ε} {s s' : σ} {e : ε} (h : Run step s0 es s) (hs : step s e s') :
      Run step s0 (es ++ [e]) s'

/-- The steps whose event meets a condition. -/
def Guarded (step : σ → ε → σ → Prop) (P : σ → ε → Prop) (s : σ) (e : ε) (s' : σ) : Prop :=
  P s e ∧ step s e s'

namespace Run

variable {step : σ → ε → σ → Prop} {s0 s : σ} {es : List ε}

/-- **Invariants.**  What holds at the start and is kept by every step holds at the end. -/
theorem inv {I : σ → Prop} (h : Run step s0 es s) (h0 : I s0)
    (hstep : ∀ s e s', I s → step s e s' → I s') : I s := by
  induction h with
  | nil => exact h0
  | snoc _ hs ih => exact hstep _ _ _ ih hs

/-- The same, when the events are known to meet a condition. -/
theorem inv_of {I : σ → Prop} {P : ε → Prop} (h : Run step s0 es s) (hP : ∀ e ∈ es, P e)
    (h0 : I s0) (hstep : ∀ s e s', P e → I s → step s e s' → I s') : I s := by
  induction h with
  | nil => exact h0
  | snoc _ hs ih =>
    refine hstep _ _ _ (hP _ (List.mem_append_right _ List.mem_cons_self)) (ih fun e he => ?_) hs
    exact hP e (List.mem_append_left _ he)

/-- A run goes on. -/
theorem append {s' : σ} {es' : List ε} (h : Run step s0 es s) (h' : Run step s es' s') :
    Run step s0 (es ++ es') s' := by
  induction h' with
  | nil =>
    rw [List.append_nil]
    exact h
  | snoc _ hs ih =>
    rw [← List.append_assoc]
    exact ih.snoc hs

end Run

end KernelPatches.Lib
