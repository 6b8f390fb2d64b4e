/-
  Xino files as tables of numbers.

  Entry `h_ino` of a branch's xino file is the number the union knows that inode of the branch by.  A
  file of whole entries (`inoSize A ∣ file.size`) is such a table, zero where nothing was written, and
  `au_xino_read` and `au_xino_write` read and change one entry of it (`auXinoRead_nil`,
  `auXinoWrite_nil`).

  `Recorded A s ino` says that some branch's table holds the number.
-/
import KernelPatches.Aufs.Xino

namespace KernelPatches.Aufs

open KernelPatches.Lib

variable {A : Arch}

/-! ## Entries -/

/-- Entry `h_ino` of a xino file, zero past the end. -/
def entry (A : Arch) (file : File) (hIno : Nat) : Nat :=
  if hIno * inoSize A + inoSize A ≤ file.size then num file.data (hIno * inoSize A) (inoSize A) else 0

/-- The number some branch's xino file records. -/
def Recorded (A : Arch) (s : Sbinfo) (ino : Nat) : Prop :=
  ∃ b ≤ s.siBend, ∃ hIno, entry A (s.xinoFiles (s.siBranch b).xiFile) hIno = ino

/-- Branches on one file system share their xino file. -/
def Shared (s : Sbinfo) : Prop :=
  ∀ b b', b ≤ s.siBend → b' ≤ s.siBend → (s.siBranch b).brSb = (s.siBranch b').brSb →
    (s.siBranch b).xiFile = (s.siBranch b').xiFile

theorem inoSize_pos (A : Arch) : 0 < inoSize A := by
  rcases inoSize_eq A with h | h <;> omega

/-- Two entries do not overlap. -/
theorem entry_apart {A : Arch} {h h' : Nat} (hne : h ≠ h') :
    h * inoSize A + inoSize A ≤ h' * inoSize A ∨ h' * inoSize A + inoSize A ≤ h * inoSize A := by
  rcases Nat.lt_or_gt_of_ne hne with hlt | hlt
  · left
    rw [← Nat.succ_mul]
    exact Nat.mul_le_mul_right _ hlt
  · right
    rw [← Nat.succ_mul]
    exact Nat.mul_le_mul_right _ hlt

/-- Past the end of a file of whole entries there is nothing. -/
theorem num_past_end {file : File} {h : Nat} (hal : inoSize A ∣ file.size)
    (hh : ¬ h * inoSize A + inoSize A ≤ file.size) :
    num file.data (h * inoSize A) (inoSize A) = 0 := by
  obtain ⟨k, hk⟩ := hal
  have hkh : k ≤ h := by
    refine Nat.le_of_not_lt fun hlt => hh ?_
    rw [hk, ← Nat.succ_mul, Nat.mul_comm (inoSize A) k]
    exact Nat.mul_le_mul_right _ hlt
  have hle : file.size ≤ h * inoSize A := by
    rw [hk, Nat.mul_comm]
    exact Nat.mul_le_mul_right _ hkh
  exact num_zero fun i hi _ => file.beyond i (by omega)

/-- In a file of whole entries an entry is the number stored. -/
theorem entry_eq_num {file : File} (hal : inoSize A ∣ file.size) (h : Nat) :
    entry A file h = num file.data (h * inoSize A) (inoSize A) := by
  rw [entry]
  split
  case isTrue => rfl
  case isFalse hh => exact (num_past_end hal hh).symm

theorem entry_lt (file : File) (h : Nat) : entry A file h < 2 ^ A.bitsPerLong := by
  rw [entry]
  split
  case isTrue =>
    rw [← inoSize_pow]
    exact num_lt _ _ _
  case isFalse => exact Nat.two_pow_pos _

/-- The file after entry `h` was written. -/
def writeEntry (A : Arch) (file : File) (h ino : Nat) : File :=
  file.write (h * inoSize A) (inoSize A) (bytesOf ino)

theorem writeEntry_aligned {file : File} (hal : inoSize A ∣ file.size) (h ino : Nat) :
    inoSize A ∣ (writeEntry A file h ino).size := by
  rw [writeEntry, File.write_size (Nat.pos_iff_ne_zero.mp (inoSize_pos A))]
  rcases Nat.le_total file.size (h * inoSize A + inoSize A) with hle | hle
  · rw [Nat.max_eq_right hle, ← Nat.succ_mul]
    exact Nat.dvd_mul_left _ _
  · rw [Nat.max_eq_left hle]
    exact hal

/-- Writing an entry changes that entry. -/
theorem entry_writeEntry {file : File} (hal : inoSize A ∣ file.size) {ino : Nat}
    (hino : ino < 2 ^ A.bitsPerLong) (h h' : Nat) :
    entry A (writeEntry A file h ino) h' = if h' = h then ino else entry A file h' := by
  rw [entry_eq_num (writeEntry_aligned hal h ino), writeEntry]
  by_cases hh : h' = h
  · rw [if_pos hh, hh]
    refine num_write _ _ ?_
    rw [inoSize_pow]
    exact hino
  · rw [if_neg hh, entry_eq_num hal]
    exact num_write_out _ _ (entry_apart hh)

/-! ## Reading and writing an entry -/

/-- The entry of a branch. -/
def xinoEntry (A : Arch) (s : Sbinfo) (bindex hIno : Nat) : Nat :=
  entry A (s.xinoFiles (s.siBranch bindex).xiFile) hIno

/-- Every xino file holds whole entries. -/
def Aligned (A : Arch) (s : Sbinfo) : Prop := ∀ f, inoSize A ∣ (s.xinoFiles f).size

/-- The state after an entry was written. -/
def recordEntry (A : Arch) (s : Sbinfo) (bindex hIno ino : Nat) : Sbinfo :=
  let file := (s.siBranch bindex).xiFile
  { s with xinoFiles := Function.update s.xinoFiles file (writeEntry A (s.xinoFiles file) hIno ino) }

/-- An inode number of a branch that a xino file has an entry for. -/
def InXino (A : Arch) (hIno : Nat) : Prop := hIno ≤ loffMax / inoSize A - 1

instance (A : Arch) (hIno : Nat) : Decidable (InXino A hIno) := inferInstanceAs (Decidable (_ ≤ _))

section

variable {s : Sbinfo} {b h : Nat}

theorem setIo_nil (hio : s.io = []) : { s with io := [] } = s := by
  rw [← hio]

theorem auXinoDoWrite_nil (file : File) (ino : Nat) : auXinoDoWrite A file h ino []
    = if InXino A h then (0, writeEntry A file h ino, []) else (-EFBIG, file, []) := by
  rw [auXinoDoWrite]
  by_cases hh : InXino A h
  · rw [if_pos hh, if_neg (Nat.not_lt.mpr hh)]
    exact if_pos rfl
  · rw [if_neg hh, if_pos (Nat.lt_of_not_le hh)]

theorem auXinoWrite_nil (hx : s.xino = true) (hio : s.io = []) (ino : Nat) :
    auXinoWrite A b h ino s = if InXino A h then (0, recordEntry A s b h ino) else (- EIO, s) := by
  have hoff : ¬ (!s.xino) = true := by rw [hx]; decide
  rw [auXinoWrite, if_neg hoff]
  simp only [hio, auXinoDoWrite_nil]
  by_cases hh : InXino A h
  · simp only [if_pos hh, if_true]
    rw [← setIo_nil hio, recordEntry]
  · have hne : (-EFBIG : Int) ≠ 0 := by decide
    simp only [if_neg hh, if_neg hne, Function.update_eq_self]
    rw [setIo_nil hio]

theorem auXinoRead_nil (hx : s.xino = true) (hio : s.io = []) :
    auXinoRead A b h s = if InXino A h then (0, xinoEntry A s b h, s) else (-EFBIG, 0, s) := by
  have hoff : ¬ (!s.xino) = true := by rw [hx]; decide
  rw [auXinoRead, if_neg hoff]
  by_cases hh : InXino A h
  case neg => rw [if_neg hh, if_pos (Nat.lt_of_not_le hh)]
  rw [if_pos hh, if_neg (Nat.not_lt.mpr hh), xinoEntry, entry]
  by_cases hsz : h * inoSize A + inoSize A ≤ (s.xinoFiles (s.siBranch b).xiFile).size
  · have hmin : min (inoSize A) ((s.xinoFiles (s.siBranch b).xiFile).size - h * inoSize A)
        = inoSize A := by omega
    have hnum : num (fun i => if i < inoSize A then
          (s.xinoFiles (s.siBranch b).xiFile).data (h * inoSize A + i) else 0) 0 (inoSize A)
        = num (s.xinoFiles (s.siBranch b).xiFile).data (h * inoSize A) (inoSize A) := by
      rw [← Nat.add_zero (h * inoSize A), ← num_shift]
      refine num_congr fun k _ hk => ?_
      rw [if_pos (by omega)]
      rfl
    rw [if_pos hsz]
    simp only [if_neg (Nat.not_lt.mpr hsz), xinoFread, hio, hmin, answer, Int.toNat_natCast,
      if_true, hnum]
    rw [setIo_nil hio]
  · rw [if_neg hsz]
    exact if_pos (Nat.lt_of_not_le hsz)

theorem xinoEntry_recordEntry (hal : Aligned A s) {ino : Nat} (hino : ino < 2 ^ A.bitsPerLong)
    (b' h' : Nat) : xinoEntry A (recordEntry A s b h ino) b' h'
      = if (s.siBranch b').xiFile = (s.siBranch b).xiFile ∧ h' = h then ino
        else xinoEntry A s b' h' := by
  show entry A (Function.update s.xinoFiles (s.siBranch b).xiFile _ (s.siBranch b').xiFile) h' = _
  by_cases hf : (s.siBranch b').xiFile = (s.siBranch b).xiFile
  · rw [hf, Function.update_self, entry_writeEntry (hal _) hino, xinoEntry, hf]
    simp only [true_and]
  · rw [Function.update_of_ne hf, if_neg fun hc => hf hc.1, xinoEntry]

theorem recordEntry_aligned (hal : Aligned A s) (ino : Nat) : Aligned A (recordEntry A s b h ino) := by
  intro f
  rw [recordEntry]
  show inoSize A ∣ (Function.update s.xinoFiles (s.siBranch b).xiFile _ f).size
  by_cases hf : f = (s.siBranch b).xiFile
  · rw [hf, Function.update_self]
    exact writeEntry_aligned (hal _) _ _
  · rw [Function.update_of_ne hf]
    exact hal f

/-- What is recorded after an entry was written: that number, and what was before. -/
theorem recorded_recordEntry (hal : Aligned A s) {ino n : Nat} (hino : ino < 2 ^ A.bitsPerLong)
    (hr : Recorded A (recordEntry A s b h ino) n) : n = ino ∨ Recorded A s n := by
  obtain ⟨b', hb', h', hn⟩ := hr
  have hn' : xinoEntry A (recordEntry A s b h ino) b' h' = n := hn
  rw [xinoEntry_recordEntry hal hino] at hn'
  split at hn'
  case isTrue => exact Or.inl hn'.symm
  case isFalse => exact Or.inr ⟨b', hb', h', hn'⟩

end

end KernelPatches.Aufs
