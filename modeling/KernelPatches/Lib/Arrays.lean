/-
  Arrays that grow and shift.

  An array is the list of its slots; the slots in use are a prefix of it.  `memmove` moves slots within
  the array, and `regrow` gives the array a new size and clears what is behind the slots in use.

  * `memmove_open`             — moving the slots from `k` on up by one, and filling slot `k`, inserts;
  * `memmove_close`            — moving those behind `k` down by one, and clearing the last, removes;
  * `afterInsert`, `afterErase` — where an element is after that, and `getElem?_afterInsert`,
                                 `getElem?_afterErase`.
-/
import Mathlib.Data.List.InsertIdx

namespace KernelPatches.Lib

variable {α : Type*}

/-- `n` slots from `src` on are copied to `dst`. -/
def memmove (a : List α) (dst src n : Nat) : List α :=
  a.take dst ++ (a.drop src).take n ++ a.drop (dst + n)

/-- The array gets `n` slots, of which the first `used` keep what they hold. -/
def regrow (a : List α) (used n : Nat) (zero : α) : List α :=
  if n ≤ used then a else a.take used ++ List.replicate (n - used) zero

theorem regrow_append {l rest : List α} {n : Nat} (zero : α) (h : l.length < n) :
    regrow (l ++ rest) l.length n zero = l ++ List.replicate (n - l.length) zero := by
  rw [regrow, if_neg (by omega), List.take_left]

/-- Nothing comes in with a move. -/
theorem mem_of_mem_memmove {a : List α} {dst src n : Nat} {x : α} (h : x ∈ memmove a dst src n) : x ∈ a := by
  rw [memmove, List.mem_append, List.mem_append] at h
  rcases h with (h | h) | h
  · exact List.mem_of_mem_take h
  · exact List.mem_of_mem_drop (List.mem_of_mem_take h)
  · exact List.mem_of_mem_drop h

/-- Only cleared slots come in when an array grows. -/
theorem mem_of_mem_regrow {a : List α} {used n : Nat} {zero x : α} (h : x ∈ regrow a used n zero) :
    x ∈ a ∨ x = zero := by
  rw [regrow] at h
  split at h
  · exact Or.inl h
  · rcases List.mem_append.mp h with h | h
    · exact Or.inl (List.mem_of_mem_take h)
    · exact Or.inr (List.eq_of_mem_replicate h)

section

variable {l : List α} {k : Nat}

theorem insertIdx_append (l₁ l₂ : List α) (x : α) :
    (l₁ ++ l₂).insertIdx l₁.length x = l₁ ++ x :: l₂ := by
  induction l₁ with
  | nil => exact List.insertIdx_zero
  | cons y l₁ ih =>
    rw [List.cons_append, List.length_cons, List.insertIdx_succ_cons, ih]
    rfl

/-- A gap opens at `k`, and is filled. -/
theorem memmove_open (l rest : List α) (x y : α) (hk : k ≤ l.length) :
    (memmove (l ++ y :: rest) (k + 1) k (l.length - k)).set k x = l.insertIdx k x ++ rest := by
  obtain ⟨l₁, l₂, rfl, rfl⟩ : ∃ l₁ l₂, l = l₁ ++ l₂ ∧ l₁.length = k :=
    ⟨l.take k, l.drop k, (List.take_append_drop k l).symm, by rw [List.length_take]; omega⟩
  have hmove : memmove (l₁ ++ l₂ ++ y :: rest) (l₁.length + 1) l₁.length
      ((l₁ ++ l₂).length - l₁.length) = (l₁ ++ (l₂ ++ y :: rest).take 1) ++ (l₂ ++ rest) := by
    rw [memmove, List.length_append, Nat.add_sub_cancel_left, List.append_assoc l₁,
      List.take_length_add_append, List.drop_left, List.take_left]
    rw [show l₁.length + 1 + l₂.length = l₁.length + (l₂.length + 1) by omega,
      List.drop_length_add_append, List.drop_length_add_append]
    simp only [List.drop_succ_cons, List.drop_zero, List.append_assoc]
  rw [hmove, insertIdx_append]
  cases l₂ with
  | nil => simp
  | cons z l₂ => simp

/-- The slot `k` is dropped, and the last slot is cleared. -/
theorem memmove_close (l rest : List α) (y : α) (hk : k < l.length) :
    (memmove (l ++ rest) k (k + 1) (l.length - 1 - k)).set (l.length - 1) y =
      l.eraseIdx k ++ y :: rest := by
  obtain ⟨l₁, x, l₂, rfl, rfl⟩ : ∃ l₁ x l₂, l = l₁ ++ x :: l₂ ∧ l₁.length = k :=
    ⟨l.take k, l[k], l.drop (k + 1), by simp, by rw [List.length_take]; omega⟩
  have hlen : (l₁ ++ x :: l₂).length - 1 = l₁.length + l₂.length := by
    rw [List.length_append, List.length_cons]
    omega
  have herase : (l₁ ++ x :: l₂).eraseIdx l₁.length = l₁ ++ l₂ := by
    rw [List.eraseIdx_append_of_length_le (Nat.le_refl _), Nat.sub_self]
    rfl
  have hmove : memmove (l₁ ++ x :: l₂ ++ rest) l₁.length (l₁.length + 1) l₂.length =
      (l₁ ++ l₂) ++ ((x :: l₂).drop l₂.length ++ rest) := by
    rw [memmove, List.append_assoc l₁, List.take_left, List.drop_length_add_append,
      List.drop_length_add_append, List.cons_append, List.drop_succ_cons, List.drop_zero,
      List.take_left, ← List.cons_append, List.drop_append_of_le_length (by simp)]
  rw [hlen, Nat.add_sub_cancel_left, herase, hmove,
    List.set_append_right _ _ (Nat.le_of_eq List.length_append), List.length_append, Nat.sub_self]
  congr 1
  obtain ⟨z, hz⟩ : ∃ z, (x :: l₂).drop l₂.length = [z] := by
    apply List.length_eq_one_iff.mp
    rw [List.length_drop, List.length_cons]
    omega
  rw [hz]
  rfl

/-! ## Where an element goes -/

/-- Where the element at `p` is after an insertion at `k`. -/
def afterInsert (k p : Nat) : Nat := if k ≤ p then p + 1 else p

/-- Where the element at `p` is after the one at `k` has been removed. -/
def afterErase (k p : Nat) : Option Nat := if p = k then none else if k < p then some (p - 1) else some p

theorem getElem?_afterInsert {p : Nat} (x : α) :
    (l.insertIdx k x)[afterInsert k p]? = l[p]? := by
  rw [List.getElem?_insertIdx, afterInsert]
  split <;> grind

theorem getElem?_afterErase {p q : Nat} (h : afterErase k p = some q) : (l.eraseIdx k)[q]? = l[p]? := by
  rw [afterErase] at h
  rw [List.getElem?_eraseIdx]
  grind

end

end KernelPatches.Lib
