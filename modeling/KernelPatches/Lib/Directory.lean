/-
  Directories: names, and what each of them leads to.

  A directory is the list of its entries.  Several names may lead to one object, and how many do is its link
  count; an object lives as long as a name leads to it.

  * `mem_enter`, `mem_remove`, `mem_move` — the entries after each change;
  * `links_ne_zero` — the link count and the names.
-/
import Mathlib.Data.List.Basic
import Mathlib.Tactic.Common

namespace KernelPatches.Lib

/-- The entries: a name, and what it leads to. -/
abbrev Directory (κ ι : Type*) := List (κ × ι)

namespace Directory

variable {κ ι : Type*} {d : Directory κ ι} {k k' l : κ} {i j : ι}

/-- How many names lead to it. -/
def links [DecidableEq ι] (d : Directory κ ι) (i : ι) : Nat := List.countP (fun e => e.2 = i) d

def enter (d : Directory κ ι) (k : κ) (i : ι) : Directory κ ι := (k, i) :: d

@[simp] theorem mem_enter : (l, j) ∈ d.enter k i ↔ l = k ∧ j = i ∨ (l, j) ∈ d := by
  rw [enter, List.mem_cons, Prod.mk.injEq]

theorem links_ne_zero [DecidableEq ι] : d.links i ≠ 0 ↔ ∃ k, (k, i) ∈ d := by
  rw [links, ← Nat.pos_iff_ne_zero, List.countP_pos_iff]
  constructor
  · rintro ⟨⟨k, j⟩, hmem, hj⟩
    rw [decide_eq_true_eq] at hj
    exact ⟨k, hj ▸ hmem⟩
  · rintro ⟨k, hmem⟩
    exact ⟨(k, i), hmem, decide_eq_true rfl⟩

variable [DecidableEq κ]

/-- What a name leads to. -/
def find (d : Directory κ ι) (k : κ) : Option ι := (List.find? (fun e => e.1 = k) d).map Prod.snd

def remove (d : Directory κ ι) (k : κ) : Directory κ ι := List.filter (fun e => e.1 ≠ k) d

/-- The first name is no longer there, and the other one leads where it led. -/
def move (d : Directory κ ι) (k k' : κ) : Directory κ ι :=
  match d.find k with
  | none => d
  | some i => ((d.remove k).remove k').enter k' i

@[simp] theorem mem_remove : (l, j) ∈ d.remove k ↔ (l, j) ∈ d ∧ l ≠ k := by
  rw [remove, List.mem_filter, decide_eq_true_eq]

theorem mem_of_find (h : d.find k = some i) : (k, i) ∈ d := by
  obtain ⟨e, he, rfl⟩ := Option.map_eq_some_iff.mp h
  have hk : e.1 = k := by simpa using List.find?_some he
  rw [← hk]
  exact List.mem_of_find?_eq_some he

theorem find_eq_none : d.find k = none ↔ ∀ i, (k, i) ∉ d := by
  rw [find, Option.map_eq_none_iff, List.find?_eq_none]
  constructor
  · intro h i hi
    exact h (k, i) hi (decide_eq_true rfl)
  · rintro h ⟨l, i⟩ hi hl
    rw [decide_eq_true_eq] at hl
    exact h i (hl ▸ hi)

/-- What an entry leads to after a move, one led to before. -/
theorem mem_move (h : (l, j) ∈ d.move k k') : ∃ l', (l', j) ∈ d := by
  rw [move] at h
  cases hf : d.find k with
  | none =>
    rw [hf] at h
    exact ⟨l, h⟩
  | some i =>
    rw [hf] at h
    rcases List.mem_cons.mp h with he | hd
    · rw [(Prod.mk.inj he).2]
      exact ⟨k, mem_of_find hf⟩
    · exact ⟨l, (mem_remove.mp (mem_remove.mp hd).1).1⟩

end Directory

end KernelPatches.Lib
