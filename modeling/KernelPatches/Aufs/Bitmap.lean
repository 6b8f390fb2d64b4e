/-
  The bitmap of inode numbers as one bitmap, whichever page of it is in memory.

  `mark s m` is bit `m` of the whole bitmap: of the page in memory if `m` is on it, of the xib file if
  not.  Switching to another page must not change it.  The code reads a page only where the file covers
  the whole of it and takes it for zeros otherwise, so a last page the file covers in part has to be
  the page in memory or zero; that is `Tail`, and every operation keeps it.

  * `xibFlush_marks`  — writing the page back, however far the write gets, changes no bit;
  * `xibLoad_spec`    — what is in the page buffer after the other page was asked for;
  * `xibPindex_ok`    — a successful switch: the page wanted, and no bit changed;
  * `Switched`        — what any number of successful switches leave as it was.
-/
import KernelPatches.Aufs.Xino

namespace KernelPatches.Aufs

open KernelPatches.Lib

/-! ## The bitmap -/

/-- Bit `m` of the bitmap. -/
def mark (s : Sbinfo) (m : Nat) : Bool :=
  if m / pageBits = s.siXibLastPindex then bitAt s.siXibBuf (m % pageBits)
  else bitAt s.siXib.data m

theorem mark_cached {s : Sbinfo} {m : Nat} (h : m / pageBits = s.siXibLastPindex) :
    mark s m = bitAt s.siXibBuf (m % pageBits) := if_pos h

theorem mark_stored {s : Sbinfo} {m : Nat} (h : m / pageBits ≠ s.siXibLastPindex) :
    mark s m = bitAt s.siXib.data m := if_neg h

/-- A last page that the file covers in part is in memory, or zero. -/
def Tail (s : Sbinfo) : Prop :=
  ∀ m, m / pageBits ≠ s.siXibLastPindex → s.siXib.size < (m / pageBits + 1) * pageSize →
    bitAt s.siXib.data m = false

/-- What the bitmap code leaves alone. -/
structure SameTables (s s' : Sbinfo) : Prop where
  xino : s'.xino = s.xino
  siBend : s'.siBend = s.siBend
  siBranch : s'.siBranch = s.siBranch
  xinoFiles : s'.xinoFiles = s.xinoFiles
  uniq : s'.uniq = s.uniq
  io : s'.io = s.io

theorem SameTables.refl (s : Sbinfo) : SameTables s s := ⟨rfl, rfl, rfl, rfl, rfl, rfl⟩

theorem SameTables.trans {s s' s'' : Sbinfo} (h : SameTables s s') (h' : SameTables s' s'') :
    SameTables s s'' :=
  ⟨h'.xino.trans h.xino, h'.siBend.trans h.siBend, h'.siBranch.trans h.siBranch,
    h'.xinoFiles.trans h.xinoFiles, h'.uniq.trans h.uniq, h'.io.trans h.io⟩

/-! ## Transfers -/

theorem answer_le (n : Nat) (io : List Int) : (answer n io).1 ≤ n := by
  induction io with
  | nil => exact Int.le_refl _
  | cons r io ih =>
    rw [answer]
    by_cases hr : r = -EAGAIN ∨ r = -EINTR
    · rw [if_pos hr]
      exact ih
    · rw [if_neg hr]
      exact Int.min_le_right _ _

theorem answer_toNat_le (n : Nat) (io : List Int) : (answer n io).1.toNat ≤ n := by
  have h := answer_le n io
  omega

/-- A full transfer, in bytes. -/
theorem answer_toNat_full {n : Nat} {io : List Int} (h : (answer n io).1 = n) :
    (answer n io).1.toNat = n := by
  rw [h]
  rfl

theorem transferErr_ne_zero (sz : Int) : transferErr sz ≠ 0 := by
  rw [transferErr]
  by_cases h : 0 ≤ sz
  · rw [if_pos h]
    decide
  · rw [if_neg h]
    omega

/-! ## Writing the page back -/

section Flush

variable (s : Sbinfo)

theorem xibFlush_tables : SameTables s (xibFlush s).2 := ⟨rfl, rfl, rfl, rfl, rfl, rfl⟩

@[simp] theorem xibFlush_last : (xibFlush s).2.siXibLastPindex = s.siXibLastPindex := rfl

@[simp] theorem xibFlush_buf : (xibFlush s).2.siXibBuf = s.siXibBuf := rfl

theorem xibFlush_size : s.siXib.size ≤ (xibFlush s).2.siXib.size := File.size_le_write _ _ _ _

/-- Off the page in memory the file stays. -/
theorem xibFlush_stored {m : Nat} (hm : m / pageBits ≠ s.siXibLastPindex) :
    bitAt (xibFlush s).2.siXib.data m = bitAt s.siXib.data m := by
  refine bitAt_congr ?_ rfl
  show (s.siXib.write _ _ _).data _ = _
  refine File.write_data_out _ _ ?_
  have hn := answer_toNat_le pageSize s.xibIo
  rw [pageBits_eq] at hm
  simp only [pageSize_eq] at hn ⊢
  omega

/-- **Writing back changes no bit**, however far the write gets. -/
theorem xibFlush_marks (m : Nat) : mark (xibFlush s).2 m = mark s m := by
  by_cases hm : m / pageBits = s.siXibLastPindex
  · rw [mark_cached hm, mark_cached (s := (xibFlush s).2) hm, xibFlush_buf]
  · rw [mark_stored hm, mark_stored (s := (xibFlush s).2) hm, xibFlush_stored s hm]

theorem xibFlush_tail (h : Tail s) : Tail (xibFlush s).2 := by
  intro m hm hsz
  rw [xibFlush_stored s hm]
  exact h m hm (Nat.lt_of_le_of_lt (xibFlush_size s) hsz)

/-- A full write puts the page into the file. -/
theorem xibFlush_full (h : (xibFlush s).1 = pageSize) {m : Nat}
    (hm : m / pageBits = s.siXibLastPindex) :
    bitAt (xibFlush s).2.siXib.data m = bitAt s.siXibBuf (m % pageBits) := by
  have hn : (answer pageSize s.xibIo).1.toNat = pageSize := answer_toNat_full h
  have hlt : m % pageBits / 8 < pageSize := by
    rw [pageBits_eq, pageSize_eq]
    omega
  refine bitAt_congr ?_ (by rw [pageBits_eq]; omega)
  have hpos : m / 8 = s.siXibLastPindex * pageSize + m % pageBits / 8 := by
    rw [pageBits_eq] at hm ⊢
    rw [pageSize_eq]
    omega
  rw [hpos]
  show (s.siXib.write _ _ _).data _ = _
  rw [hn]
  exact File.write_data_in _ _ hlt

theorem xibFlush_covers (h : (xibFlush s).1 = pageSize) :
    (s.siXibLastPindex + 1) * pageSize ≤ (xibFlush s).2.siXib.size := by
  have hn : (answer pageSize s.xibIo).1.toNat = pageSize := answer_toNat_full h
  show _ ≤ (s.siXib.write _ _ _).size
  rw [hn, File.write_size (by rw [pageSize_eq]; omega), Nat.add_mul, Nat.one_mul]
  exact Nat.le_max_right _ _

end Flush

/-! ## Getting the other page -/

section Load

variable {s : Sbinfo} {p : Nat}

theorem xibLoad_tables : SameTables s (xibLoad p s).2 := by
  rw [xibLoad]
  split <;> exact ⟨rfl, rfl, rfl, rfl, rfl, rfl⟩

@[simp] theorem xibLoad_last : (xibLoad p s).2.siXibLastPindex = s.siXibLastPindex := by
  rw [xibLoad]
  split <;> rfl

@[simp] theorem xibLoad_next : (xibLoad p s).2.siXibNextBit = s.siXibNextBit := by
  rw [xibLoad]
  split <;> rfl

theorem xibLoad_size : s.siXib.size ≤ (xibLoad p s).2.siXib.size := by
  rw [xibLoad]
  split
  · exact Nat.le_refl _
  · exact File.size_le_write _ _ _ _

theorem xibLoad_read (h : p * pageSize + pageSize ≤ s.siXib.size) :
    (xibLoad p s).2.siXib = s.siXib := by
  rw [xibLoad, if_pos h]

theorem xibLoad_made (h : ¬ p * pageSize + pageSize ≤ s.siXib.size) : (xibLoad p s).2.siXib
    = s.siXib.write (p * pageSize) (answer pageSize s.xibIo).1.toNat (fun _ => 0) := by
  rw [xibLoad, if_neg h]
  rfl

/-- The file keeps its bits: the page that is made was zero before. -/
theorem xibLoad_stored (ht : Tail s) (hp : p ≠ s.siXibLastPindex) (m : Nat) :
    bitAt (xibLoad p s).2.siXib.data m = bitAt s.siXib.data m := by
  by_cases hsz : p * pageSize + pageSize ≤ s.siXib.size
  case pos => rw [xibLoad_read hsz]
  case neg =>
    rw [xibLoad_made hsz]
    have hn := answer_toNat_le pageSize s.xibIo
    by_cases hm : m / pageBits = p
    · have hold : bitAt s.siXib.data m = false := by
        refine ht m (by omega) ?_
        rw [hm, Nat.add_mul]
        omega
      rw [hold]
      by_cases hin : m / 8 < p * pageSize + (answer pageSize s.xibIo).1.toNat
      · rw [← bitAt_zero (m % 8)]
        refine bitAt_congr ?_ (by omega)
        refine if_pos ⟨?_, hin⟩
        rw [pageBits_eq] at hm
        rw [pageSize_eq]
        omega
      · rw [← hold]
        exact bitAt_congr (File.write_data_out _ _ (Or.inr (Nat.le_of_not_lt hin))) rfl
    · refine bitAt_congr (File.write_data_out _ _ ?_) rfl
      rw [pageBits_eq] at hm
      simp only [pageSize_eq] at hn ⊢
      omega

/-- A full transfer gives the page. -/
theorem xibLoad_full (ht : Tail s) (hp : p ≠ s.siXibLastPindex) (h : (xibLoad p s).1 = pageSize)
    {m : Nat} (hm : m / pageBits = p) :
    bitAt (xibLoad p s).2.siXibBuf (m % pageBits) = bitAt s.siXib.data m := by
  rw [xibLoad] at h ⊢
  split
  case isTrue hsz =>
    rw [if_pos hsz] at h
    have hmin : min pageSize (s.siXib.size - p * pageSize) = pageSize := by omega
    have hn : (answer (min pageSize (s.siXib.size - p * pageSize)) s.xibIo).1.toNat = pageSize := by
      change (answer (min pageSize (s.siXib.size - p * pageSize)) s.xibIo).1 = (pageSize : Int) at h
      rw [h]
      rfl
    refine bitAt_congr ?_ (by rw [pageBits_eq]; omega)
    have hlt : m % pageBits / 8 < pageSize := by
      rw [pageBits_eq, pageSize_eq]
      omega
    show (if _ < (answer _ s.xibIo).1.toNat then _ else _) = _
    rw [hn, if_pos hlt]
    congr 1
    rw [pageBits_eq] at hm ⊢
    rw [pageSize_eq]
    omega
  case isFalse hsz =>
    have hold : bitAt s.siXib.data m = false := by
      refine ht m (by omega) ?_
      rw [hm, Nat.add_mul]
      omega
    rw [hold]
    exact bitAt_zero _

end Load

/-! ## Switching pages -/

/-- What successful switches of pages leave: the bitmap, the tables and the hint. -/
structure Switched (s s' : Sbinfo) : Prop where
  tables : SameTables s s'
  marks : ∀ m, mark s' m = mark s m
  tail : Tail s'
  nextBit : s'.siXibNextBit = s.siXibNextBit
  size : s.siXib.size ≤ s'.siXib.size

theorem Switched.refl {s : Sbinfo} (ht : Tail s) : Switched s s :=
  ⟨SameTables.refl s, fun _ => rfl, ht, rfl, Nat.le_refl _⟩

theorem Switched.trans {s s' s'' : Sbinfo} (h : Switched s s') (h' : Switched s' s'') :
    Switched s s'' where
  tables := h.tables.trans h'.tables
  marks m := (h'.marks m).trans (h.marks m)
  tail := h'.tail
  nextBit := h'.nextBit.trans h.nextBit
  size := Nat.le_trans h.size h'.size

section Pindex

variable {s : Sbinfo} {p : Nat}

theorem xibPindex_tables : SameTables s (xibPindex p s).2 := by
  have htab := (xibFlush_tables s).trans (xibLoad_tables (p := p) (s := (xibFlush s).2))
  rw [xibPindex]
  by_cases hp : p = s.siXibLastPindex
  · rw [if_pos hp]
    exact SameTables.refl s
  rw [if_neg hp]
  by_cases hf : (xibFlush s).1 ≠ pageSize
  · rw [if_pos hf]
    exact xibFlush_tables s
  rw [if_neg hf]
  by_cases hl : (xibLoad p (xibFlush s).2).1 = pageSize
  · rw [if_pos hl]
    exact ⟨htab.xino, htab.siBend, htab.siBranch, htab.xinoFiles, htab.uniq, htab.io⟩
  · rw [if_neg hl]
    exact htab

/-- **A successful switch** brings the page wanted and changes no bit of the bitmap. -/
theorem xibPindex_ok (ht : Tail s) (h : (xibPindex p s).1 = 0) :
    Switched s (xibPindex p s).2 ∧ (xibPindex p s).2.siXibLastPindex = p := by
  rw [xibPindex] at h ⊢
  by_cases hp : p = s.siXibLastPindex
  · rw [if_pos hp]
    exact ⟨Switched.refl ht, hp.symm⟩
  rw [if_neg hp] at h ⊢
  by_cases hf : (xibFlush s).1 ≠ pageSize
  · rw [if_pos hf] at h
    exact absurd h (transferErr_ne_zero _)
  rw [if_neg hf] at h ⊢
  by_cases hl : (xibLoad p (xibFlush s).2).1 = pageSize
  case neg =>
    rw [if_neg hl] at h
    exact absurd h (transferErr_ne_zero _)
  rw [if_pos hl]
  have hfull : (xibFlush s).1 = pageSize := not_not.mp hf
  have ht' : Tail (xibFlush s).2 := xibFlush_tail s ht
  have hp' : p ≠ (xibFlush s).2.siXibLastPindex := hp
  have hsize := Nat.le_trans (xibFlush_size s) (xibLoad_size (p := p) (s := (xibFlush s).2))
  have htab := (xibFlush_tables s).trans (xibLoad_tables (p := p) (s := (xibFlush s).2))
  refine ⟨⟨⟨htab.xino, htab.siBend, htab.siBranch, htab.xinoFiles, htab.uniq, htab.io⟩, fun m => ?_,
    fun m hm hsz => ?_, xibLoad_next, hsize⟩, rfl⟩
  · -- a bit is on the page that came, on the one that went, or on neither
    show (if m / pageBits = p then bitAt (xibLoad p (xibFlush s).2).2.siXibBuf (m % pageBits)
      else bitAt (xibLoad p (xibFlush s).2).2.siXib.data m) = mark s m
    by_cases hm : m / pageBits = p
    · have hstored : m / pageBits ≠ s.siXibLastPindex := by rwa [hm]
      rw [if_pos hm, xibLoad_full ht' hp' hl hm, xibFlush_stored s hstored, mark_stored hstored]
    · rw [if_neg hm, xibLoad_stored ht' hp']
      by_cases hm' : m / pageBits = s.siXibLastPindex
      · rw [xibFlush_full s hfull hm', mark_cached hm']
      · rw [xibFlush_stored s hm', mark_stored hm']
  · -- the page that went is covered by the file, the others were zero before
    change bitAt (xibLoad p (xibFlush s).2).2.siXib.data m = false
    change (xibLoad p (xibFlush s).2).2.siXib.size < _ at hsz
    rw [xibLoad_stored ht' hp']
    by_cases hm' : m / pageBits = s.siXibLastPindex
    · have hcov := xibFlush_covers s hfull
      have hsz' := xibLoad_size (p := p) (s := (xibFlush s).2)
      rw [hm'] at hsz
      omega
    · exact ht' m hm' (Nat.lt_of_le_of_lt xibLoad_size hsz)

/-- Nothing fails where no failure is left to come. -/
theorem xibPindex_nil (hio : s.xibIo = []) : (xibPindex p s).1 = 0 ∧ (xibPindex p s).2.xibIo = [] := by
  have hflush : (xibFlush s).1 = pageSize ∧ (xibFlush s).2.xibIo = [] := by
    rw [xibFlush, hio]
    exact ⟨rfl, rfl⟩
  have hload : ∀ s : Sbinfo, s.xibIo = [] → (xibLoad p s).1 = pageSize ∧ (xibLoad p s).2.xibIo = [] := by
    intro s hio
    rw [xibLoad, hio]
    split
    case isTrue hsz =>
      have hmin : min pageSize (s.siXib.size - p * pageSize) = pageSize := by omega
      show ((min pageSize (s.siXib.size - p * pageSize) : Nat) : Int) = pageSize ∧ _
      rw [hmin]
      exact ⟨rfl, rfl⟩
    case isFalse => exact ⟨rfl, rfl⟩
  obtain ⟨hl, hlio⟩ := hload _ hflush.2
  rw [xibPindex]
  by_cases hp : p = s.siXibLastPindex
  · rw [if_pos hp]
    exact ⟨rfl, hio⟩
  · rw [if_neg hp, if_neg (not_not.mpr hflush.1), if_pos hl]
    exact ⟨rfl, hlio⟩

end Pindex

end KernelPatches.Aufs
