/-
  Tilings: pieces laid end to end, and where each one starts.

  `place len o bs` lays the pieces `bs` end to end from position `o`, piece `b` taking `len b` units,
  and lists each piece with its start; `span len bs` is the length they take together.  The facts:

  * a piece lies inside the whole (`mem_place_bounds`);
  * of two pieces, the one that starts first ends before the other starts (`place_disjoint`), and no
    two start at the same place (`place_unique`);
  * to find a piece is to split the list at it (`mem_place_iff`).

  They hold of any pieces with lengths: blocks of a page, entries of a directory block, extents.
-/
import Mathlib.Data.List.Basic
import Mathlib.Tactic.Common

namespace KernelPatches.Lib

variable {β : Type} (len : β → Nat)

/-- The pieces, each with the position it starts at, laid end to end from `o`. -/
def place : Nat → List β → List (Nat × β)
  | _, [] => []
  | o, b :: bs => (o, b) :: place (o + len b) bs

/-- The length of the pieces together. -/
def span : List β → Nat
  | [] => 0
  | b :: bs => len b + span bs

variable {len}

@[simp] theorem place_nil (o : Nat) : place len o [] = [] := rfl

@[simp] theorem place_cons (o : Nat) (b : β) (bs : List β) :
    place len o (b :: bs) = (o, b) :: place len (o + len b) bs := rfl

@[simp] theorem span_nil : span len [] = 0 := rfl

@[simp] theorem span_cons (b : β) (bs : List β) : span len (b :: bs) = len b + span len bs := rfl

@[simp] theorem span_append (l r : List β) : span len (l ++ r) = span len l + span len r := by
  induction l with
  | nil => simp
  | cons b l ih => simp only [List.cons_append, span_cons, ih, Nat.add_assoc]

theorem place_append (l r : List β) : ∀ o : Nat,
    place len o (l ++ r) = place len o l ++ place len (o + span len l) r := by
  induction l with
  | nil => intro o; simp
  | cons b l ih => intro o; simp only [List.cons_append, place_cons, ih, span_cons, Nat.add_assoc]

/-- A piece lies inside the whole. -/
theorem mem_place_bounds {k : Nat} {b : β} : ∀ {bs : List β} {o : Nat}, (k, b) ∈ place len o bs →
    o ≤ k ∧ k + len b ≤ o + span len bs := by
  intro bs
  induction bs with
  | nil => intro o h; exact absurd h List.not_mem_nil
  | cons c bs ih =>
    intro o h
    rw [place_cons] at h
    rcases List.mem_cons.mp h with he | h
    · obtain ⟨rfl, rfl⟩ := Prod.mk.inj he
      exact ⟨Nat.le_refl _, by rw [span_cons]; omega⟩
    · obtain ⟨h1, h2⟩ := ih h
      exact ⟨by omega, by rw [span_cons]; omega⟩

theorem mem_of_mem_place {k : Nat} {b : β} : ∀ {bs : List β} {o : Nat},
    (k, b) ∈ place len o bs → b ∈ bs := by
  intro bs
  induction bs with
  | nil => intro o h; exact absurd h List.not_mem_nil
  | cons c bs ih =>
    intro o h
    rcases List.mem_cons.mp h with he | h
    · exact (Prod.mk.inj he).2 ▸ List.mem_cons_self
    · exact List.mem_cons_of_mem c (ih h)

/-- Of two pieces, the one that starts first ends before the other starts. -/
theorem place_disjoint {k k' : Nat} {b b' : β} : ∀ {bs : List β} {o : Nat},
    (k, b) ∈ place len o bs → (k', b') ∈ place len o bs → k < k' → k + len b ≤ k' := by
  intro bs
  induction bs with
  | nil => intro o h; exact absurd h List.not_mem_nil
  | cons c bs ih =>
    intro o h h' hlt
    rw [place_cons] at h h'
    rcases List.mem_cons.mp h with he | h <;> rcases List.mem_cons.mp h' with he' | h'
    · obtain ⟨rfl, rfl⟩ := Prod.mk.inj he
      obtain ⟨rfl, rfl⟩ := Prod.mk.inj he'
      exact absurd hlt (Nat.lt_irrefl _)
    · obtain ⟨rfl, rfl⟩ := Prod.mk.inj he
      exact (mem_place_bounds h').1
    · obtain ⟨rfl, rfl⟩ := Prod.mk.inj he'
      have := (mem_place_bounds h).1
      omega
    · exact ih h h' hlt

/-- Two pieces that start at the same place are the same piece, if pieces are not empty. -/
theorem place_unique (hpos : ∀ b, 0 < len b) {k : Nat} {b b' : β} : ∀ {bs : List β} {o : Nat},
    (k, b) ∈ place len o bs → (k, b') ∈ place len o bs → b = b' := by
  intro bs
  induction bs with
  | nil => intro o h; exact absurd h List.not_mem_nil
  | cons c bs ih =>
    intro o h h'
    rw [place_cons] at h h'
    have hc := hpos c
    rcases List.mem_cons.mp h with he | h <;> rcases List.mem_cons.mp h' with he' | h'
    · exact (Prod.mk.inj he).2.trans (Prod.mk.inj he').2.symm
    · have := (mem_place_bounds h').1
      have := (Prod.mk.inj he).1
      omega
    · have := (mem_place_bounds h).1
      have := (Prod.mk.inj he').1
      omega
    · exact ih h h'

/-- To find a piece is to split the list at it. -/
theorem mem_place_iff {k : Nat} {b : β} : ∀ {bs : List β} {o : Nat},
    (k, b) ∈ place len o bs ↔ ∃ l r, bs = l ++ b :: r ∧ k = o + span len l := by
  intro bs o
  constructor
  · induction bs generalizing o with
    | nil => intro h; exact absurd h List.not_mem_nil
    | cons c bs ih =>
      intro h
      rw [place_cons] at h
      rcases List.mem_cons.mp h with he | h
      · obtain ⟨rfl, rfl⟩ := Prod.mk.inj he
        exact ⟨[], bs, rfl, rfl⟩
      · obtain ⟨l, r, rfl, rfl⟩ := ih h
        exact ⟨c :: l, r, rfl, by rw [span_cons, Nat.add_assoc]⟩
  · rintro ⟨l, r, rfl, rfl⟩
    rw [place_append, place_cons]
    exact List.mem_append_right _ List.mem_cons_self

end KernelPatches.Lib
