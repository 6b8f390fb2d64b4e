/-
  Custody: what a program has taken and not yet given back.

  A program takes locks and references and gives them back on many exits.  Here it is a sequence of such steps,
  with the answers of everything else already in it, and is run from the list of what is held.  It goes wrong,
  and the run is `none`, where it gives back, or relies on, what it does not hold.

  So a run that comes back with what was held before has given back everything it took, each thing once, and
  only while it was held.

  * `Prog`, `Prog.run`       — the steps, and what is held after them;
  * `run_bind`               — one program after another;
  * `run_give`, `run_need`, `run_lapse` — a step, by what is held;
  * `run_perm`               — in what order things are held is of no matter;
  * `run_eq_none`            — a program that gives back what is neither held nor taken goes wrong.
-/
import Mathlib.Data.List.Basic
import Mathlib.Tactic.Common

namespace KernelPatches.Lib

/-- A program that takes and gives back things of the type `ρ`.  `need` stands where it relies on one of a
    few being held, `lapse` where what was known is known no more. -/
inductive Prog (ρ : Type) (α : Type) where
  | done (a : α)
  | take (r : ρ) (next : Prog ρ α)
  | give (r : ρ) (next : Prog ρ α)
  | need (rs : List ρ) (next : Prog ρ α)
  | lapse (r : ρ) (next : Prog ρ α)

namespace Prog

variable {ρ α β : Type}

/-- One program after another. -/
def andThen : Prog ρ α → (α → Prog ρ β) → Prog ρ β
  | done a, k => k a
  | take r p, k => take r (p.andThen k)
  | give r p, k => give r (p.andThen k)
  | need rs p, k => need rs (p.andThen k)
  | lapse r p, k => lapse r (p.andThen k)

instance : Monad (Prog ρ) where
  pure := done
  bind := andThen

/-- The steps as programs of their own. -/
def taking (r : ρ) : Prog ρ Unit := take r (done ())
def giving (r : ρ) : Prog ρ Unit := give r (done ())
def needing (rs : List ρ) : Prog ρ Unit := need rs (done ())
def lapsing (r : ρ) : Prog ρ Unit := lapse r (done ())

/-- What the steps come to, and what they take and give. -/
def result : Prog ρ α → α
  | done a => a
  | take _ p => p.result
  | give _ p => p.result
  | need _ p => p.result
  | lapse _ p => p.result

def taken : Prog ρ α → List ρ
  | done _ => []
  | take r p => r :: p.taken
  | give _ p => p.taken
  | need _ p => p.taken
  | lapse _ p => p.taken

def given : Prog ρ α → List ρ
  | done _ => []
  | take _ p => p.given
  | give r p => r :: p.given
  | need _ p => p.given
  | lapse _ p => p.given

@[simp] theorem taken_pure (a : α) : (pure a : Prog ρ α).taken = [] := rfl
@[simp] theorem given_pure (a : α) : (pure a : Prog ρ α).given = [] := rfl
@[simp] theorem result_pure (a : α) : (pure a : Prog ρ α).result = a := rfl
@[simp] theorem taken_taking (r : ρ) : (taking r).taken = [r] := rfl
@[simp] theorem given_taking (r : ρ) : (taking r).given = [] := rfl
@[simp] theorem taken_giving (r : ρ) : (giving r).taken = [] := rfl
@[simp] theorem given_giving (r : ρ) : (giving r).given = [r] := rfl
@[simp] theorem taken_needing (rs : List ρ) : (needing rs).taken = [] := rfl
@[simp] theorem given_needing (rs : List ρ) : (needing rs).given = [] := rfl

@[simp] theorem result_bind (p : Prog ρ α) (k : α → Prog ρ β) : (p >>= k).result = (k p.result).result := by
  show (p.andThen k).result = _
  induction p with
  | done a => rfl
  | take r p ih => exact ih
  | give r p ih => exact ih
  | need rs p ih => exact ih
  | lapse r p ih => exact ih

@[simp] theorem taken_bind (p : Prog ρ α) (k : α → Prog ρ β) :
    (p >>= k).taken = p.taken ++ (k p.result).taken := by
  show (p.andThen k).taken = _
  induction p with
  | done a => rfl
  | take r p ih => exact congrArg (r :: ·) ih
  | give r p ih => exact ih
  | need rs p ih => exact ih
  | lapse r p ih => exact ih

@[simp] theorem given_bind (p : Prog ρ α) (k : α → Prog ρ β) :
    (p >>= k).given = p.given ++ (k p.result).given := by
  show (p.andThen k).given = _
  induction p with
  | done a => rfl
  | take r p ih => exact ih
  | give r p ih => exact congrArg (r :: ·) ih
  | need rs p ih => exact ih
  | lapse r p ih => exact ih

variable [DecidableEq ρ]

/-- The run of a program from what is held: its answer and what is held then, if nothing goes wrong. -/
def run : Prog ρ α → List ρ → Option (α × List ρ)
  | done a, held => some (a, held)
  | take r p, held => p.run (r :: held)
  | give r p, held => if r ∈ held then p.run (held.erase r) else none
  | need rs p, held => if ∃ r ∈ rs, r ∈ held then p.run held else none
  | lapse r p, held => p.run (held.filter (· ≠ r))

variable {held : List ρ} {r : ρ}

@[simp] theorem run_pure (a : α) : (pure a : Prog ρ α).run held = some (a, held) := rfl

/-- **One program after another**: the second runs from what the first has left. -/
@[simp] theorem run_bind (p : Prog ρ α) (k : α → Prog ρ β) :
    (p >>= k).run held = (p.run held).bind fun r => (k r.1).run r.2 := by
  show (p.andThen k).run held = _
  induction p generalizing held with
  | done a => rfl
  | take r p ih => exact ih
  | give r p ih =>
    show (if r ∈ held then (p.andThen k).run (held.erase r) else none) =
      (if r ∈ held then p.run (held.erase r) else none).bind fun r => (k r.1).run r.2
    split
    · exact ih
    · rfl
  | need rs p ih =>
    show (if ∃ r ∈ rs, r ∈ held then (p.andThen k).run held else none) =
      (if ∃ r ∈ rs, r ∈ held then p.run held else none).bind fun r => (k r.1).run r.2
    split
    · exact ih
    · rfl
  | lapse r p ih => exact ih

@[simp] theorem run_map (f : α → β) (p : Prog ρ α) :
    (f <$> p).run held = (p.run held).map fun r => (f r.1, r.2) := by
  show (p >>= fun a => pure (f a)).run held = _
  rw [run_bind]
  cases p.run held with
  | none => rfl
  | some r => rfl

@[simp] theorem run_taking : (taking r).run held = some ((), r :: held) := rfl

/-- What is held can be given back. -/
theorem run_give (h : r ∈ held) : (giving r).run held = some ((), held.erase r) := if_pos h

/-- What was taken last is given back. -/
@[simp] theorem run_give_head : (giving r).run (r :: held) = some ((), held) := by
  rw [run_give (List.mem_cons_self ..), List.erase_cons_head]

/-- What is held below something else. -/
theorem run_give_tail {s : ρ} (hne : s ≠ r) :
    (giving r).run (s :: held) = ((giving r).run held).map fun p => (p.1, s :: p.2) := by
  unfold giving run
  by_cases hmem : r ∈ held
  · rw [if_pos (List.mem_cons_of_mem s hmem), if_pos hmem, List.erase_cons_tail (by simpa using hne)]
    rfl
  · rw [if_neg (by rw [List.mem_cons, not_or]; exact ⟨fun h => hne h.symm, hmem⟩), if_neg hmem]
    rfl

/-- **In what order things are held is of no matter.** -/
theorem run_perm {p : Prog ρ α} {held' out : List ρ} {a : α} (hp : held.Perm held')
    (h : p.run held = some (a, out)) : ∃ out', p.run held' = some (a, out') ∧ out.Perm out' := by
  induction p generalizing held held' with
  | done b =>
    obtain ⟨rfl, rfl⟩ := Prod.mk.inj (Option.some.inj h)
    exact ⟨held', rfl, hp⟩
  | take s p ih => exact ih (hp.cons s) h
  | give s p ih =>
    unfold run at h ⊢
    by_cases hs : s ∈ held
    · rw [if_pos hs] at h
      rw [if_pos (hp.mem_iff.mp hs)]
      exact ih (hp.erase s) h
    · rw [if_neg hs] at h
      cases h
  | need rs p ih =>
    unfold run at h ⊢
    by_cases hs : ∃ r ∈ rs, r ∈ held
    · rw [if_pos hs] at h
      rw [if_pos (hs.imp fun r hr => ⟨hr.1, hp.mem_iff.mp hr.2⟩)]
      exact ih hp h
    · rw [if_neg hs] at h
      cases h
  | lapse s p ih => exact ih (hp.filter _) h

/-- A run that leaves nothing leaves nothing from the same things in another order. -/
theorem run_perm_nil {p : Prog ρ α} {held' : List ρ} {a : α} (hp : held.Perm held')
    (h : p.run held = some (a, [])) : p.run held' = some (a, []) := by
  obtain ⟨out, hrun, hout⟩ := run_perm hp h
  rwa [hout.nil_eq.symm] at hrun

/-- **Giving back what is neither held nor taken goes wrong.** -/
theorem run_eq_none {p : Prog ρ α} (hheld : r ∉ held) (htaken : r ∉ p.taken) (hgiven : r ∈ p.given) :
    p.run held = none := by
  induction p generalizing held with
  | done a => exact absurd hgiven List.not_mem_nil
  | take s p ih =>
    obtain ⟨hne, hrest⟩ : r ≠ s ∧ r ∉ p.taken := by simpa [taken] using htaken
    exact ih (by rw [List.mem_cons, not_or]; exact ⟨hne, hheld⟩) hrest hgiven
  | give s p ih =>
    unfold run
    by_cases hs : s ∈ held
    · rw [if_pos hs]
      have hne : r ≠ s := fun h => hheld (h ▸ hs)
      exact ih (fun h => hheld (List.mem_of_mem_erase h)) htaken ((List.mem_cons.mp hgiven).resolve_left hne)
    · exact if_neg hs
  | need rs p ih =>
    unfold run
    split
    · exact ih hheld htaken hgiven
    · rfl
  | lapse s p ih => exact ih (fun h => hheld (List.mem_of_mem_filter h)) htaken hgiven

/-- Giving back what is not held goes wrong. -/
theorem run_give_none (h : r ∉ held) : (giving r).run held = none := if_neg h

theorem run_need {rs : List ρ} (h : ∃ r ∈ rs, r ∈ held) : (needing rs).run held = some ((), held) := if_pos h

@[simp] theorem run_lapse : (lapsing r).run held = some ((), held.filter (· ≠ r)) := rfl

end Prog

end KernelPatches.Lib
