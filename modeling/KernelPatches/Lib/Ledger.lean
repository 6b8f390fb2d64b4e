/-
  Ledgers: who owns what.

  A `Ledger n f l` says that the slots `0 … n-1` own, through `f`, exactly the things on the list `l`,
  each thing by one slot: nothing on the list is without an owner (no leak), and no two slots own the
  same thing (no double use).

  * `Ledger.put`  — a slot that owns nothing takes a new thing;
  * `Ledger.take` — a slot gives its thing back.
-/
import Mathlib.Data.List.Basic
import Mathlib.Logic.Function.Basic
import Mathlib.Tactic.Common

namespace KernelPatches.Lib

variable {α : Type*}

/-- The slots below `n` own exactly the things on `l`, each by one slot. -/
structure Ledger (n : Nat) (f : Nat → Option α) (l : List α) : Prop where
  nodup : l.Nodup
  mem_iff : ∀ a, a ∈ l ↔ ∃ i < n, f i = some a
  inj : ∀ i < n, ∀ j < n, ∀ a, f i = some a → f j = some a → i = j

namespace Ledger

variable {n i : Nat} {f : Nat → Option α} {l : List α} {a : α}

/-- Nobody owns anything. -/
theorem empty (n : Nat) : Ledger (α := α) n (fun _ => none) [] where
  nodup := List.nodup_nil
  mem_iff := fun a => by simp
  inj := fun _ _ _ _ _ h => nomatch h

theorem mem (h : Ledger n f l) (hi : i < n) (ha : f i = some a) : a ∈ l :=
  (h.mem_iff a).mpr ⟨i, hi, ha⟩

/-- A slot that owns nothing goes on owning nothing. -/
theorem keep (h : Ledger n f l) (hnone : f i = none) : Ledger n (Function.update f i none) l := by
  rwa [← hnone, Function.update_eq_self]

/-- A slot that owns nothing takes a new thing. -/
theorem put (h : Ledger n f l) (hi : i < n) (hnone : f i = none) (ha : a ∉ l) :
    Ledger n (Function.update f i (some a)) (a :: l) where
  nodup := List.nodup_cons.mpr ⟨ha, h.nodup⟩
  mem_iff := by
    intro b
    rw [List.mem_cons, h.mem_iff]
    constructor
    · rintro (rfl | ⟨j, hj, hb⟩)
      · exact ⟨i, hi, Function.update_self _ _ _⟩
      · refine ⟨j, hj, ?_⟩
        rw [Function.update_of_ne]
        · exact hb
        · rintro rfl
          exact nomatch hnone.symm.trans hb
    · rintro ⟨j, hj, hb⟩
      rcases eq_or_ne j i with rfl | hji
      · rw [Function.update_self] at hb
        exact Or.inl (Option.some.inj hb).symm
      · rw [Function.update_of_ne hji] at hb
        exact Or.inr ⟨j, hj, hb⟩
  inj := by
    intro j hj k hk b hb hc
    have hnew : ∀ j < n, j ≠ i → Function.update f i (some a) j ≠ some a := by
      intro j hj hji hb
      rw [Function.update_of_ne hji] at hb
      exact ha (h.mem hj hb)
    rcases eq_or_ne j i with rfl | hji
    · rcases eq_or_ne k j with rfl | hkj
      · rfl
      · rw [Function.update_self] at hb
        exact absurd (hb ▸ hc) (hnew k hk hkj)
    · rcases eq_or_ne k i with rfl | hki
      · rw [Function.update_self] at hc
        exact absurd (hc ▸ hb) (hnew j hj hji)
      · rw [Function.update_of_ne hji] at hb
        rw [Function.update_of_ne hki] at hc
        exact h.inj j hj k hk b hb hc

/-- A slot gives its thing back. -/
theorem take [DecidableEq α] (h : Ledger n f l) (hi : i < n) (ha : f i = some a) :
    Ledger n (Function.update f i none) (l.erase a) where
  nodup := h.nodup.erase a
  mem_iff := by
    intro b
    rw [h.nodup.mem_erase_iff, h.mem_iff]
    constructor
    · rintro ⟨hne, j, hj, hb⟩
      refine ⟨j, hj, ?_⟩
      rw [Function.update_of_ne]
      · exact hb
      · rintro rfl
        exact hne (Option.some.inj (hb.symm.trans ha))
    · rintro ⟨j, hj, hb⟩
      rcases eq_or_ne j i with rfl | hji
      · rw [Function.update_self] at hb
        exact nomatch hb
      · rw [Function.update_of_ne hji] at hb
        refine ⟨?_, j, hj, hb⟩
        rintro rfl
        exact hji (h.inj j hj i hi b hb ha)
  inj := by
    intro j hj k hk b hb hc
    have hold : ∀ j, Function.update f i none j = some b → f j = some b := by
      intro j hb
      rcases eq_or_ne j i with rfl | hji
      · rw [Function.update_self] at hb
        exact nomatch hb
      · rwa [Function.update_of_ne hji] at hb
    exact h.inj j hj k hk b (hold j hb) (hold k hc)

end Ledger

end KernelPatches.Lib
