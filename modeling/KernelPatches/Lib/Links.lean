/-
  Doubly linked lists: what it means to be well linked, and the two edits.

  A list threaded through its own nodes is given by two partial functions, `next` and `prev`, from
  nodes to nodes.  `Linked next prev p l` says that `l` is such a list whose first node has
  predecessor `p` (`none` for a whole list): each node's `prev` is the node before it and its `next`
  the node after it, `none` at the ends.  A duplicate-free `l` is then acyclic and is determined by
  its first node (`Linked.unique`).

  The two edits are stated by what the new functions are on the nodes that remain, so that any code
  that produces such functions (by a write to a head pointer, by two writes to the neighbours) can
  use them:

  * `Linked.push`   — a new first node: whoever had no predecessor now has the new node;
  * `Linked.unlink` — a node leaves: whoever pointed to it now points where it pointed.

  `Linked.unlink` covers the first node, a middle one and the last one alike.
-/
import Mathlib.Data.List.Basic
import Mathlib.Tactic.Common

namespace KernelPatches.Lib

/-- `l` is well linked by `next` and `prev`, its first node having predecessor `p`. -/
def Linked {α : Type} (next prev : α → Option α) : Option α → List α → Prop
  | _, [] => True
  | p, a :: l => prev a = p ∧ next a = l.head? ∧ Linked next prev (some a) l

namespace Linked

variable {α : Type} {next prev next' prev' : α → Option α}

@[simp] theorem nil (p : Option α) : Linked next prev p [] := trivial

/-- Only the links of the members matter. -/
theorem congr : ∀ {l : List α} {p : Option α}, Linked next prev p l →
    (∀ a ∈ l, next' a = next a ∧ prev' a = prev a) → Linked next' prev' p l
  | [], _, _, _ => trivial
  | a :: l, p, ⟨h1, h2, h3⟩, hag => by
    obtain ⟨hn, hp⟩ := hag a List.mem_cons_self
    exact ⟨hp.trans h1, hn.trans h2, h3.congr (fun b hb => hag b (List.mem_cons_of_mem a hb))⟩

/-- The links lead from a member to members. -/
theorem next_mem : ∀ {l : List α} {p : Option α}, Linked next prev p l →
    ∀ a ∈ l, ∀ b, next a = some b → b ∈ l
  | a :: l, p, ⟨_, h2, h3⟩, c, hc, b, hb => by
    rcases List.mem_cons.mp hc with rfl | hc
    · rw [h2] at hb
      exact List.mem_cons_of_mem _ (List.mem_of_mem_head? hb)
    · exact List.mem_cons_of_mem _ (h3.next_mem c hc b hb)

theorem prev_mem : ∀ {l : List α} {p : Option α}, Linked next prev p l →
    ∀ a ∈ l, ∀ b, prev a = some b → p = some b ∨ b ∈ l
  | a :: l, p, ⟨h1, _, h3⟩, c, hc, b, hb => by
    rcases List.mem_cons.mp hc with rfl | hc
    · exact Or.inl (h1.symm.trans hb)
    · rcases h3.prev_mem c hc b hb with h | h
      · exact Or.inr (by rw [Option.some.inj h]; exact List.mem_cons_self)
      · exact Or.inr (List.mem_cons_of_mem _ h)

/-- Behind a node, every node has a predecessor. -/
theorem prev_ne_none : ∀ {l : List α} {q : α}, Linked next prev (some q) l →
    ∀ b ∈ l, prev b ≠ none
  | a :: l, q, ⟨h1, _, h3⟩, b, hb => by
    rcases List.mem_cons.mp hb with rfl | hb
    · rw [h1]
      exact Option.some_ne_none q
    · exact h3.prev_ne_none b hb

/-- In a duplicate-free list, `a` points forward to `b` exactly when `b` points back to `a`. -/
theorem next_iff_prev : ∀ {l : List α} {p : Option α}, Linked next prev p l → l.Nodup →
    (∀ q, p = some q → q ∉ l) →
    ∀ a ∈ l, ∀ b ∈ l, next a = some b ↔ prev b = some a
  | x :: l, p, ⟨h1, h2, h3⟩, hnd, hp, a, ha, b, hb => by
    have hx : x ∉ l := (List.nodup_cons.mp hnd).1
    have hrec := h3.next_iff_prev (List.nodup_cons.mp hnd).2 (fun q hq => Option.some.inj hq ▸ hx)
    rcases List.mem_cons.mp ha with rfl | ha' <;> rcases List.mem_cons.mp hb with rfl | hb'
    · constructor
      · intro h
        exact absurd (List.mem_of_mem_head? (h2.symm.trans h)) hx
      · intro h
        exact absurd List.mem_cons_self (hp _ (h1.symm.trans h))
    · -- `a` is the first node: its successor is the first node of the rest
      rw [h2]
      cases l with
      | nil => exact absurd hb' List.not_mem_nil
      | cons y l =>
        constructor
        · intro h
          rw [← Option.some.inj h]
          exact h3.1
        · intro h
          rcases List.mem_cons.mp hb' with rfl | hb''
          · rfl
          · rcases h3.2.2.prev_mem b hb'' a h with h' | h'
            · exact absurd (Option.some.inj h' ▸ List.mem_cons_self) hx
            · exact absurd (List.mem_cons_of_mem _ h') hx
    · constructor
      · intro h
        exact absurd (h3.next_mem a ha' b h) hx
      · intro h
        exact absurd ha (hp a (h1.symm.trans h))
    · exact hrec a ha' b hb'

/-- No node of a duplicate-free list is its own successor. -/
theorem next_ne_self : ∀ {l : List α} {p : Option α}, Linked next prev p l → l.Nodup →
    ∀ a ∈ l, next a ≠ some a
  | x :: l, p, ⟨_, h2, h3⟩, hnd, a, ha => by
    obtain ⟨hx, hl⟩ := List.nodup_cons.mp hnd
    rcases List.mem_cons.mp ha with rfl | ha
    · intro hc
      exact hx (List.mem_of_mem_head? (h2.symm.trans hc))
    · exact h3.next_ne_self hl a ha

/-- The list is determined by its first node. -/
theorem unique : ∀ {l l' : List α} {p p' : Option α}, Linked next prev p l →
    Linked next' prev' p' l' → l.head? = l'.head? →
    (∀ a ∈ l, next' a = next a) → l = l'
  | [], [], _, _, _, _, _, _ => rfl
  | [], b :: l', _, _, _, _, h, _ => by cases h
  | a :: l, [], _, _, _, _, h, _ => by cases h
  | a :: l, b :: l', p, p', ⟨_, h2, h3⟩, ⟨_, h2', h3'⟩, hh, hag => by
    obtain rfl : a = b := Option.some.inj hh
    have hnext : l.head? = l'.head? := by
      rw [← h2, ← h2', hag a List.mem_cons_self]
    rw [h3.unique h3' hnext (fun c hc => hag c (List.mem_cons_of_mem _ hc))]

/-! ## The two edits -/

/-- A new first node `a`: its successor is the old first node, and whoever had no predecessor now
    has `a`. -/
theorem push {l : List α} {a : α} (h : Linked next prev none l) (hnext : next' a = l.head?)
    (hprev : prev' a = none) (hn : ∀ b ∈ l, next' b = next b)
    (hp : ∀ b ∈ l, prev' b = if prev b = none then some a else prev b) :
    Linked next' prev' none (a :: l) := by
  refine ⟨hprev, hnext, ?_⟩
  cases l with
  | nil => trivial
  | cons x l =>
    obtain ⟨h1, h2, h3⟩ := h
    refine ⟨?_, ?_, ?_⟩
    · rw [hp x List.mem_cons_self, if_pos h1]
    · rw [hn x List.mem_cons_self, h2]
    · refine h3.congr (fun b hb => ⟨hn b (List.mem_cons_of_mem _ hb), ?_⟩)
      rw [hp b (List.mem_cons_of_mem _ hb), if_neg (h3.prev_ne_none b hb)]

/-- The first node of a list that starts with predecessor `some q` is the only one whose `prev` is
    `some q`, if `q` is not a member. -/
theorem unlink_tail [DecidableEq α] {l : List α} {a : α} {p : Option α}
    (h : Linked next prev (some a) l) (ha : a ∉ l) (hnd : l.Nodup)
    (hn : ∀ b ∈ l, next' b = next b)
    (hp : ∀ b ∈ l, prev' b = if prev b = some a then p else prev b) :
    Linked next' prev' p l := by
  cases l with
  | nil => trivial
  | cons x l =>
    obtain ⟨h1, h2, h3⟩ := h
    refine ⟨?_, ?_, h3.congr (fun b hb => ⟨hn b (List.mem_cons_of_mem _ hb), ?_⟩)⟩
    · rw [hp x List.mem_cons_self, if_pos h1]
    · rw [hn x List.mem_cons_self, h2]
    · have hne : prev b ≠ some a := by
        intro hb'
        rcases h3.prev_mem b hb a hb' with h' | h'
        · exact ha (Option.some.inj h' ▸ List.mem_cons_self)
        · exact ha (List.mem_cons_of_mem _ h')
      rw [hp b (List.mem_cons_of_mem _ hb), if_neg hne]

/-- A node leaves the list: whoever pointed to it now points where it pointed. -/
theorem unlink [DecidableEq α] {a : α} : ∀ {l r : List α} {p : Option α},
    Linked next prev p (l ++ a :: r) → (l ++ a :: r).Nodup → p ≠ some a →
    (∀ b ∈ l ++ r, next' b = if next b = some a then next a else next b) →
    (∀ b ∈ l ++ r, prev' b = if prev b = some a then prev a else prev b) →
    Linked next' prev' p (l ++ r)
  | [], r, p, ⟨h1, h2, h3⟩, hnd, hpa, hn, hp => by
    obtain ⟨har, hr⟩ := List.nodup_cons.mp hnd
    refine h3.unlink_tail har hr (fun b hb => ?_) (fun b hb => h1 ▸ hp b hb)
    -- nothing after `a` points forward to `a`
    have hne : next b ≠ some a := fun hb' => har (h3.next_mem b hb a hb')
    rw [hn b hb, if_neg hne]
  | x :: l, r, p, ⟨h1, h2, h3⟩, hnd, hpa, hn, hp => by
    obtain ⟨hx, hlr⟩ := List.nodup_cons.mp hnd
    have hxa : x ≠ a := fun he => hx (by rw [he]; simp)
    have hrec := h3.unlink hlr (fun he => hxa (Option.some.inj he))
      (fun b hb => hn b (List.mem_cons_of_mem x hb)) (fun b hb => hp b (List.mem_cons_of_mem x hb))
    refine ⟨?_, ?_, hrec⟩
    · rw [hp x List.mem_cons_self, h1, if_neg hpa]
    · rw [hn x List.mem_cons_self, h2]
      cases l with
      | nil =>
        have hnext : next a = r.head? := h3.2.1
        exact (if_pos rfl).trans hnext
      | cons y l =>
        have hya : y ≠ a := fun he => (List.nodup_cons.mp hlr).1 (by rw [he]; simp)
        exact if_neg (fun he => hya (Option.some.inj he))

end Linked

end KernelPatches.Lib
