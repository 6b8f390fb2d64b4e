/-
  A table of bytes kept in a file, with one page of it in memory.

  `Paged.byte` is the table as its user sees it: the page in memory where it is in memory, the file
  elsewhere.  What a program does with such a table is a few moves, and the lemmas say what each does to
  the table:

  * `store n`  — write the first `n` bytes of the page in memory back: nothing is seen of it
                 (`byte_store`), and after the whole page the file is the table (`data_store`);
  * `turn j`   — take another page into memory: the table is what the file was (`byte_turn`);
  * `fill j n` — read the first `n` bytes of page `j` over the page in memory: the page in memory is
                 then no page at all, unless it is its own (`byte_own`).

  The file can be behind the page in memory, so a fact about the table need not hold of the file.
  `Every Q` says that `Q` holds of every copy of every byte, and is kept by writing back, in part or in
  full, and by turning the page (`Every.store`, `Every.turn`).
-/
import KernelPatches.Lib.Files

namespace KernelPatches.Lib

/-- A table of bytes in a file, with the page `idx` of it in memory. -/
structure Paged where
  file : File
  idx : Nat
  buf : Nat → UInt8

namespace Paged

variable {page : Nat}

/-- A byte of the table. -/
def byte (page : Nat) (t : Paged) (i : Nat) : UInt8 :=
  if i / page = t.idx then t.buf (i % page) else t.file.data i

/-- Write the first `n` bytes of the page in memory to their place. -/
def store (page : Nat) (t : Paged) (n : Nat) : Paged :=
  { t with file := t.file.write (t.idx * page) n t.buf }

/-- Read the first `n` bytes of page `j` into memory. -/
def fill (page : Nat) (t : Paged) (j n : Nat) : Paged :=
  { t with buf := fun k => if k < n then t.file.data (j * page + k) else t.buf k }

/-- Page `j` is in memory now. -/
def turn (page : Nat) (t : Paged) (j : Nat) : Paged :=
  { t.fill page j page with idx := j }

section Byte

variable {t : Paged} {i : Nat}

theorem byte_in (h : i / page = t.idx) : t.byte page i = t.buf (i % page) := if_pos h

theorem byte_out (h : i / page ≠ t.idx) : t.byte page i = t.file.data i := if_neg h

/-- The position of a byte, from its page. -/
theorem pos_eq {j : Nat} (h : i / page = j) : j * page + i % page = i := by
  subst h
  rw [Nat.mul_comm]
  exact Nat.div_add_mod i page

/-- **Writing back** does not show. -/
theorem byte_store (hp : 0 < page) {n : Nat} (hn : n ≤ page) :
    (t.store page n).byte page i = t.byte page i := by
  by_cases h : i / page = t.idx
  · rw [byte_in h]
    exact byte_in h
  · rw [byte_out h]
    refine (byte_out (t := t.store page n) h).trans (File.write_data_out _ _ ?_)
    by_contra hc
    apply h
    have hlt : i < (t.idx + 1) * page := by
      rw [Nat.add_mul, Nat.one_mul]
      omega
    exact Nat.le_antisymm (Nat.lt_succ_iff.mp ((Nat.div_lt_iff_lt_mul hp).mpr hlt))
      ((Nat.le_div_iff_mul_le hp).mpr (by omega))

/-- Once the whole page is written back, the file is the table. -/
theorem data_store (hp : 0 < page) : (t.store page page).file.data i = t.byte page i := by
  by_cases h : i / page = t.idx
  · rw [byte_in h]
    conv_lhs => rw [← pos_eq h]
    exact File.write_data_in _ _ (Nat.mod_lt _ hp)
  · rw [← byte_store hp (Nat.le_refl page), byte_out (t := t.store page page) h]

/-- A page read from the file. -/
theorem fill_buf {j n k : Nat} (hk : k < n) :
    (t.fill page j n).buf k = t.file.data (j * page + k) := if_pos hk

@[simp] theorem fill_zero (t : Paged) (j : Nat) : t.fill page j 0 = t := by
  simp [fill]

/-- **Turning the page**: the table is the file. -/
theorem byte_turn (hp : 0 < page) (j : Nat) : (t.turn page j).byte page i = t.file.data i := by
  by_cases h : i / page = j
  · refine (byte_in (t := t.turn page j) h).trans ((fill_buf (Nat.mod_lt _ hp)).trans ?_)
    rw [pos_eq h]
  · exact byte_out (t := t.turn page j) h

/-- The page in memory, when it is what the file has of it. -/
theorem byte_own (hp : 0 < page) {f : File} {j : Nat} {b : Nat → UInt8}
    (hb : ∀ k < page, b k = f.data (j * page + k)) : byte page ⟨f, j, b⟩ i = f.data i := by
  by_cases h : i / page = j
  · refine (byte_in (t := ⟨f, j, b⟩) h).trans ((hb _ (Nat.mod_lt _ hp)).trans ?_)
    rw [pos_eq h]
  · exact byte_out (t := ⟨f, j, b⟩) h

end Byte

/-! ## Every copy -/

/-- `Q` holds of every copy of every byte: of the one in the file and of the one in memory. -/
structure Every (page : Nat) (Q : Nat → UInt8 → Prop) (t : Paged) : Prop where
  file : ∀ i, Q i (t.file.data i)
  buf : ∀ k < page, Q (t.idx * page + k) (t.buf k)

namespace Every

variable {Q : Nat → UInt8 → Prop} {t : Paged}

theorem byte (hp : 0 < page) (h : Every page Q t) (i : Nat) : Q i (t.byte page i) := by
  by_cases hi : i / page = t.idx
  · have hq := h.buf (i % page) (Nat.mod_lt _ hp)
    rw [pos_eq hi] at hq
    rwa [byte_in hi]
  · rw [byte_out hi]
    exact h.file i

/-- A file of which `Q` holds, after some of the page in memory was written to it. -/
theorem store (h : Every page Q t) {n : Nat} (hn : n ≤ page) : Every page Q (t.store page n) where
  buf := h.buf
  file := by
    intro i
    by_cases hi : t.idx * page ≤ i ∧ i < t.idx * page + n
    · obtain ⟨k, rfl⟩ := Nat.exists_eq_add_of_le hi.1
      have hk : k < n := by omega
      have hd : (t.store page n).file.data (t.idx * page + k) = t.buf k :=
        File.write_data_in _ _ hk
      rw [hd]
      exact h.buf k (by omega)
    · have hd : (t.store page n).file.data i = t.file.data i :=
        File.write_data_out _ _ (by omega)
      rw [hd]
      exact h.file i

theorem turn (h : Every page Q t) (j : Nat) : Every page Q (t.turn page j) where
  file := h.file
  buf := by
    intro k hk
    have hb : (t.turn page j).buf k = t.file.data (j * page + k) := fill_buf hk
    rw [hb]
    exact h.file _

/-- What holds of the bytes of a file holds of every copy when any page of it is taken into memory. -/
theorem of_file {f : File} {b : Nat → UInt8} {j : Nat} (hf : ∀ i, Q i (f.data i))
    (hb : ∀ k < page, b k = f.data (j * page + k)) : Every page Q ⟨f, j, b⟩ where
  file := hf
  buf := by
    intro k hk
    show Q (j * page + k) (b k)
    rw [hb k hk]
    exact hf _

/-- Weaken what is said of the bytes. -/
theorem imp {Q' : Nat → UInt8 → Prop} (h : Every page Q t) (hQ : ∀ i v, Q i v → Q' i v) :
    Every page Q' t where
  file := fun i => hQ _ _ (h.file i)
  buf := fun k hk => hQ _ _ (h.buf k hk)

end Every

end Paged

end KernelPatches.Lib
