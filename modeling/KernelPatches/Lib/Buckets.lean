/-
  A hash table of lists: what is in it does not depend on the hash.

  A table is a list for each bucket; an element goes to the front of the bucket its key hashes to, and
  a key is looked for in its own bucket only.  As long as every element is in the bucket of its key
  (`Placed`), the key is found iff some element of the table has it, whatever the hash function.

  * `add`, `known`   — put an element in, ask for a key;
  * `Placed`         — kept by `add` (`placed_add`);
  * `known_iff`      — the key is found iff an element has it;
  * `elems`          — what is in the buckets, one bucket after the other (`elems_add`).
-/
import Mathlib.Data.List.Basic
import Mathlib.Logic.Function.Basic

namespace KernelPatches.Lib

/-- The buckets, by number. -/
abbrev Buckets (α : Type) := Nat → List α

namespace Buckets

section

variable {α κ : Type} (hash : κ → Nat) (key : α → κ)

def empty : Buckets α := fun _ => []

/-- The element goes to the front of its bucket. -/
def add (t : Buckets α) (x : α) : Buckets α :=
  Function.update t (hash (key x)) (x :: t (hash (key x)))

/-- The key is looked for in its bucket. -/
def known [BEq κ] (t : Buckets α) (k : κ) : Bool := (t (hash k)).any fun x => key x == k

/-- The table holds the element. -/
def Holds (t : Buckets α) (x : α) : Prop := ∃ b, x ∈ t b

/-- Every element is in the bucket of its key. -/
def Placed (t : Buckets α) : Prop := ∀ b x, x ∈ t b → b = hash (key x)

theorem placed_empty : Placed hash key (empty : Buckets α) := fun _ _ h => absurd h List.not_mem_nil

theorem holds_empty (x : α) : ¬ Holds (empty : Buckets α) x := fun ⟨_, h⟩ => List.not_mem_nil h

variable {hash key}

theorem holds_add {t : Buckets α} {x y : α} : Holds (add hash key t x) y ↔ y = x ∨ Holds t y := by
  constructor
  · rintro ⟨b, hy⟩
    rw [add] at hy
    by_cases hb : b = hash (key x)
    · rw [hb, Function.update_self] at hy
      rcases List.mem_cons.mp hy with rfl | hy
      · exact Or.inl rfl
      · exact Or.inr ⟨_, hy⟩
    · rw [Function.update_of_ne hb] at hy
      exact Or.inr ⟨b, hy⟩
  · rintro (rfl | ⟨b, hy⟩)
    · exact ⟨hash (key y), by rw [add, Function.update_self]; exact List.mem_cons_self⟩
    · refine ⟨b, ?_⟩
      rw [add]
      by_cases hb : b = hash (key x)
      · rw [hb, Function.update_self]
        rw [hb] at hy
        exact List.mem_cons_of_mem x hy
      · rw [Function.update_of_ne hb]
        exact hy

theorem placed_add {t : Buckets α} (h : Placed hash key t) (x : α) :
    Placed hash key (add hash key t x) := by
  intro b y hy
  rw [add] at hy
  by_cases hb : b = hash (key x)
  · rw [hb, Function.update_self] at hy
    rcases List.mem_cons.mp hy with rfl | hy
    · exact hb
    · rw [hb]
      exact h _ y hy
  · rw [Function.update_of_ne hb] at hy
    exact h b y hy

/-- **A key is found** iff an element of the table has it. -/
theorem known_iff [BEq κ] [LawfulBEq κ] {t : Buckets α} (h : Placed hash key t) {k : κ} :
    known hash key t k = true ↔ ∃ x, Holds t x ∧ key x = k := by
  rw [known, List.any_eq_true]
  constructor
  · rintro ⟨x, hx, hk⟩
    exact ⟨x, ⟨_, hx⟩, eq_of_beq hk⟩
  · rintro ⟨x, ⟨b, hx⟩, rfl⟩
    refine ⟨x, ?_, beq_self_eq_true _⟩
    rw [← h b x hx]
    exact hx

/-! ## All elements -/

/-- The elements of the first `n` buckets, in order. -/
def elems (n : Nat) (t : Buckets α) : List α := (List.range n).flatMap t

theorem elems_empty (n : Nat) : elems n (empty : Buckets α) = [] :=
  List.flatMap_eq_nil_iff.mpr fun _ _ => rfl

theorem flatMap_update_perm {t : Buckets α} {x : α} {b : Nat} : ∀ {l : List Nat}, l.Nodup → b ∈ l →
    (l.flatMap (Function.update t b (x :: t b))).Perm (x :: l.flatMap t)
  | c :: l, hnodup, hb => by
    obtain ⟨hc, hl⟩ := List.nodup_cons.mp hnodup
    rw [List.flatMap_cons, List.flatMap_cons]
    by_cases hcb : c = b
    · have hrest : l.flatMap (Function.update t b (x :: t b)) = l.flatMap t :=
        List.flatMap_congr fun d hd => Function.update_of_ne (fun h => hc (by rwa [hcb, ← h])) _ _
      rw [hcb, Function.update_self, hrest]
      exact List.Perm.refl _
    · have hrest := flatMap_update_perm (t := t) (x := x) hl
        ((List.mem_cons.mp hb).resolve_left fun h => hcb h.symm)
      rw [Function.update_of_ne hcb]
      exact (hrest.append_left (t c)).trans List.perm_middle

/-- An element added is one more. -/
theorem elems_add {n : Nat} {t : Buckets α} {x : α} (hx : hash (key x) < n) :
    (elems n (add hash key t x)).Perm (x :: elems n t) :=
  flatMap_update_perm List.nodup_range (List.mem_range.mpr hx)

end

end Buckets

end KernelPatches.Lib
