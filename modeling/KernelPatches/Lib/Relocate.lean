/-
  Things that are moved to the slots they belong in, in place.

  A slot is empty or holds one thing, and a thing may belong in a slot.  To put one where it belongs, it is
  swapped with what is there; a loop that goes on like this comes to an end, as each swap leaves one slot less
  that does not hold what belongs there, if no two things belong in one slot.

  * `Rearranged`             — the slots hold the same things, each once, in other places;
  * `unplaced_swap_lt`       — a swap that puts something where it belongs;
  * `Rearranged.placed_iff`  — where everything is in the end.
-/
import Mathlib.Data.Finset.Card
import Mathlib.Logic.Equiv.Basic
import Mathlib.Tactic.Common

namespace KernelPatches.Lib

variable {α : Type*} {target : α → Option Nat} {slots slots₀ : Nat → Option α} {m i n : Nat} {a : α}

/-- The slots hold the same things, each once, in other places. -/
def Rearranged (slots₀ slots : Nat → Option α) : Prop := ∃ σ : Equiv.Perm Nat, ∀ k, slots k = slots₀ (σ k)

/-- No two things belong in one slot. -/
def TargetsDistinct (target : α → Option Nat) (slots : Nat → Option α) : Prop :=
  ∀ i j a b n, slots i = some a → slots j = some b → target a = some n → target b = some n → i = j

/-- The slot holds what belongs there. -/
def PlacedAt (target : α → Option Nat) (slots : Nat → Option α) (i : Nat) : Prop :=
  (slots i).bind target = some i

instance (target : α → Option Nat) (slots : Nat → Option α) (i : Nat) : Decidable (PlacedAt target slots i) :=
  inferInstanceAs (Decidable (_ = _))

/-- The slots below `m` that do not. -/
def unplaced (target : α → Option Nat) (slots : Nat → Option α) (m : Nat) : Finset Nat :=
  (Finset.range m).filter fun i => ¬ PlacedAt target slots i

theorem placedAt_iff : PlacedAt target slots i ↔ ∃ a, slots i = some a ∧ target a = some i := Option.bind_eq_some_iff

theorem mem_unplaced : i ∈ unplaced target slots m ↔ i < m ∧ ¬ PlacedAt target slots i := by
  unfold unplaced
  rw [Finset.mem_filter, Finset.mem_range]

theorem Rearranged.refl (slots : Nat → Option α) : Rearranged slots slots := ⟨Equiv.refl Nat, fun _ => rfl⟩

theorem Rearranged.swap (h : Rearranged slots₀ slots) (i n : Nat) {slots' : Nat → Option α}
    (hs : ∀ k, slots' k = slots (Equiv.swap i n k)) : Rearranged slots₀ slots' := by
  obtain ⟨σ, hσ⟩ := h
  exact ⟨(Equiv.swap i n).trans σ, fun k => by rw [hs, hσ]; rfl⟩

theorem Rearranged.distinct (h : Rearranged slots₀ slots) (hd : TargetsDistinct target slots₀) :
    TargetsDistinct target slots := by
  obtain ⟨σ, hσ⟩ := h
  intro i j a b n hi hj ha hb
  rw [hσ] at hi hj
  exact σ.injective (hd _ _ a b n hi hj ha hb)

/-- What is there comes from somewhere. -/
theorem Rearranged.comes (h : Rearranged slots₀ slots) (hi : slots i = some a) : ∃ j, slots₀ j = some a := by
  obtain ⟨σ, hσ⟩ := h
  exact ⟨σ i, by rw [← hσ, hi]⟩

/-- **A swap that puts something where it belongs** leaves one slot less that does not hold what belongs
    there. -/
theorem unplaced_swap_lt (hd : TargetsDistinct target slots) (hi : slots i = some a) (hn : target a = some n)
    (hne : n ≠ i) (hm : n < m) {slots' : Nat → Option α} (hs : ∀ k, slots' k = slots (Equiv.swap i n k)) :
    (unplaced target slots' m).card < (unplaced target slots m).card := by
  -- what is at `n` does not belong there, as the thing at `i` does
  have hforeign : ¬ PlacedAt target slots n := by
    intro h
    obtain ⟨b, hb, hbn⟩ := placedAt_iff.mp h
    exact hne (hd n i b a n hb hi hbn hn)
  have hplaced : PlacedAt target slots' n :=
    placedAt_iff.mpr ⟨a, by rw [hs, Equiv.swap_apply_right, hi], hn⟩
  have hkeeps : ∀ k, PlacedAt target slots k → PlacedAt target slots' k := by
    intro k hk
    obtain ⟨b, hb, hbk⟩ := placedAt_iff.mp hk
    have hkn : k ≠ n := by
      rintro rfl
      exact hforeign hk
    have hki : k ≠ i := by
      rintro rfl
      rw [hi] at hb
      rw [← Option.some.inj hb, hn] at hbk
      exact hne (Option.some.inj hbk)
    exact placedAt_iff.mpr ⟨b, by rw [hs, Equiv.swap_apply_of_ne_of_ne hki hkn, hb], hbk⟩
  apply Finset.card_lt_card
  refine ⟨fun k hk => ?_, fun hsub => ?_⟩
  · obtain ⟨hlt, hno⟩ := mem_unplaced.mp hk
    exact mem_unplaced.mpr ⟨hlt, fun h => hno (hkeeps k h)⟩
  · exact (mem_unplaced.mp (hsub (mem_unplaced.mpr ⟨hm, hforeign⟩))).2 hplaced

/-- **Where everything is in the end**, when each slot in use holds what belongs there. -/
theorem Rearranged.placed_iff (h : Rearranged slots₀ slots) (hp : ∀ i a, slots i = some a → target a = some i) :
    slots i = some a ↔ (∃ j, slots₀ j = some a) ∧ target a = some i := by
  constructor
  · exact fun hi => ⟨h.comes hi, hp i a hi⟩
  · rintro ⟨⟨j, hj⟩, ha⟩
    obtain ⟨σ, hσ⟩ := h
    have hback : slots (σ.symm j) = some a := by rw [hσ, Equiv.apply_symm_apply, hj]
    have hat := hp _ a hback
    rw [ha] at hat
    rw [Option.some.inj hat]
    exact hback

end KernelPatches.Lib
