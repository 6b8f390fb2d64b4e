/-
  aufs: what the bitmap says after `au_xib_trunc`.

  `au_xib_trunc` throws the bitmap away and sets the bits of the numbers the xino files hold, file after file, page
  after page.  It succeeds or it stops at the first error.  Here the lower file systems may do as they like, with
  one promise: a read of a xino file, which is a table of entries, fails or delivers some whole entries
  (`WholeReads`).  Reads may be short, and be asked again.

  One case is no rebuilding at all: a bitmap of one page is not worth it, and is left as it was.

  * `restoreFile_marks`      — a file that was read to its end: its numbers are marked;
  * `restoreBranches_marks`  — all files;
  * `auXibTrunc_marks_iff`   — a bitmap of more than one page marks exactly the recorded numbers then;
  * `trunc_not_exact`        — where it does not: one page, and an entry or a read cut short.
-/
import KernelPatches.Aufs.InodeNumbers

namespace KernelPatches.Aufs

open KernelPatches.Lib

variable {A : Arch} {s t u : Sbinfo} {P Q : Nat → Prop}

/-! ## Answers of whole entries -/

/-- A request fails, or it is answered with whole entries, one at least.  (A request that only succeeds or fails
    takes any of these for success.) -/
def WholeReads (A : Arch) (io : List Int) : Prop := ∀ r ∈ io, r < 0 ∨ ∃ c : Nat, 0 < c ∧ r = (c * inoSize A : Nat)

theorem wholeReads_nil (A : Arch) : WholeReads A [] := fun _ h => absurd h List.not_mem_nil

theorem WholeReads.tail {r : Int} {io : List Int} (h : WholeReads A (r :: io)) : WholeReads A io :=
  fun q hq => h q (List.mem_cons_of_mem r hq)

/-- What is left of the answers is as good. -/
theorem WholeReads.answer {n : Nat} : ∀ {io : List Int}, WholeReads A io → WholeReads A (Aufs.answer n io).2 := by
  intro io
  induction io with
  | nil => exact id
  | cons r io ih =>
    intro h
    rw [Aufs.answer]
    by_cases hr : r = -EAGAIN ∨ r = -EINTR
    · rw [if_pos hr]
      exact ih h.tail
    · rw [if_neg hr]
      exact h.tail

/-- A request for whole entries gets some of them, or fails. -/
theorem WholeReads.some {n : Nat} (hn : 0 < n) : ∀ {io : List Int}, WholeReads A io →
    (Aufs.answer (n * inoSize A) io).1 < 0 ∨
      ∃ c, 0 < c ∧ c ≤ n ∧ (Aufs.answer (n * inoSize A) io).1 = (c * inoSize A : Nat) := by
  intro io
  induction io with
  | nil => exact fun _ => Or.inr ⟨n, hn, Nat.le_refl n, rfl⟩
  | cons r io ih =>
    intro h
    rw [Aufs.answer]
    by_cases hr : r = -EAGAIN ∨ r = -EINTR
    · rw [if_pos hr]
      exact ih h.tail
    rw [if_neg hr]
    rcases h r List.mem_cons_self with hneg | ⟨c, hc, rfl⟩
    · left
      show min r _ < 0
      omega
    · refine Or.inr ⟨min c n, Nat.lt_min.mpr ⟨hc, hn⟩, Nat.min_le_right _ _, ?_⟩
      show min ((c * inoSize A : Nat) : Int) ((n * inoSize A : Nat) : Int) = _
      rw [← Nat.mul_min_mul_right]
      omega

/-! ## Numbers marked -/

/-- The bits of `P` were set, and the branches and their xino files are as they were. -/
structure Rebuilt (s : Sbinfo) (P : Nat → Prop) (s' : Sbinfo) : Prop where
  siBend : s'.siBend = s.siBend
  siBranch : s'.siBranch = s.siBranch
  xinoFiles : s'.xinoFiles = s.xinoFiles
  tail : Tail s'
  marks : ∀ m, mark s' m = true ↔ mark s m = true ∨ P m

theorem Rebuilt.none (ht : Tail s) (hP : ∀ m, ¬ P m) : Rebuilt s P s :=
  ⟨rfl, rfl, rfl, ht, fun m => ⟨Or.inl, fun h => h.resolve_right (hP m)⟩⟩

theorem Rebuilt.trans (h : Rebuilt s P t) (h' : Rebuilt t Q u) : Rebuilt s (fun m => P m ∨ Q m) u where
  siBend := h'.siBend.trans h.siBend
  siBranch := h'.siBranch.trans h.siBranch
  xinoFiles := h'.xinoFiles.trans h.xinoFiles
  tail := h'.tail
  marks m := by rw [h'.marks, h.marks, or_assoc]

theorem Rebuilt.congr (h : Rebuilt s P t) (hPQ : ∀ m, P m ↔ Q m) : Rebuilt s Q t :=
  ⟨h.siBend, h.siBranch, h.xinoFiles, h.tail, fun m => by rw [h.marks, hPQ]⟩

/-- The bits of the numbers in a list. -/
def BitsOf (A : Arch) (l : List Nat) (m : Nat) : Prop := ∃ ino ∈ l, HasBit A ino m

theorem bitsOf_append {l l' : List Nat} (m : Nat) : BitsOf A (l ++ l') m ↔ BitsOf A l m ∨ BitsOf A l' m := by
  constructor
  · rintro ⟨ino, hino, hbit⟩
    rcases List.mem_append.mp hino with h | h
    · exact Or.inl ⟨ino, h, hbit⟩
    · exact Or.inr ⟨ino, h, hbit⟩
  · rintro (⟨ino, h, hbit⟩ | ⟨ino, h, hbit⟩)
    · exact ⟨ino, List.mem_append_left _ h, hbit⟩
    · exact ⟨ino, List.mem_append_right _ h, hbit⟩

theorem bitsOf_nil (m : Nat) : ¬ BitsOf A [] m := by
  rintro ⟨ino, hino, -⟩
  exact List.not_mem_nil hino

/-- The entries of one page. -/
theorem restoreNumbers_rebuilt {l : List Nat} (io : List Int) (ht : Tail s)
    (h : (restoreNumbers A l { s with io := io }).1 = 0) :
    Rebuilt s (BitsOf A l) (restoreNumbers A l { s with io := io }).2 ∧
      (restoreNumbers A l { s with io := io }).2.io = io := by
  have hset := restoreNumbers_ok (s := { s with io := io }) ht h
  exact ⟨⟨hset.tables.siBend, hset.tables.siBranch, hset.tables.xinoFiles, hset.tail, hset.marks⟩, hset.tables.io⟩

/-- **A file** of whole entries that was read to its end, by induction on the rounds: the numbers from entry `a` on
    are marked. -/
theorem restoreFile_marks {file : File} (hal : inoSize A ∣ file.size) : ∀ (fuel a : Nat) (page : Nat → UInt8)
    {s : Sbinfo}, Tail s → WholeReads A s.io → file.size - a * inoSize A < fuel →
    (restoreFile A file fuel (a * inoSize A) page s).1 = 0 →
      Rebuilt s (BitsOf A (fileNumbers A file a)) (restoreFile A file fuel (a * inoSize A) page s).2.2 ∧
        WholeReads A (restoreFile A file fuel (a * inoSize A) page s).2.2.io := by
  intro fuel
  induction fuel with
  | zero => intro a page s _ _ hf; omega
  | succ fuel ih =>
    intro a page s ht hio hf h
    have hi := inoSize_pos A
    rw [restoreFile] at h ⊢
    by_cases hpos : a * inoSize A < file.size
    case neg =>
      rw [if_neg hpos, fileNumbers_end hpos]
      exact ⟨Rebuilt.none ht bitsOf_nil, hio⟩
    rw [if_pos hpos] at h ⊢
    -- `n` entries are asked for, and `c` of them come
    obtain ⟨n, hn, hnle⟩ := page_entries hal a
    have hn0 : 0 < n := by
      refine Nat.pos_of_ne_zero ?_
      rintro rfl
      rw [Nat.zero_mul, pageSize_eq] at hn
      omega
    have hrest : WholeReads A (answer (min pageSize (file.size - a * inoSize A)) s.io).2 := hio.answer
    rcases WholeReads.some hn0 hio with hneg | ⟨c, hc0, hcn, hc⟩
    · rw [← hn] at hneg
      have hle : (xinoFread file page pageSize (a * inoSize A) s.io).1 ≤ 0 := Int.le_of_lt hneg
      simp only [if_pos hle] at h
      have hzero : (answer (min pageSize (file.size - a * inoSize A)) s.io).1 = 0 := h
      omega
    rw [← hn] at hc
    obtain ⟨page', hpage'⟩ : ∃ page' : Nat → UInt8, page' = fun i =>
      if i < c * inoSize A then file.data (a * inoSize A + i) else page i := ⟨_, rfl⟩
    obtain ⟨io', hio'⟩ : ∃ io', io' = (answer (min pageSize (file.size - a * inoSize A)) s.io).2 := ⟨_, rfl⟩
    have hread : xinoFread file page pageSize (a * inoSize A) s.io = (((c * inoSize A : Nat) : Int), page', io') := by
      simp only [xinoFread, hc, Int.toNat_natCast]
      rw [hpage', hio']
    have hcpos : 0 < c * inoSize A := Nat.mul_pos hc0 hi
    have hnz : ¬ ((c * inoSize A : Nat) : Int) ≤ 0 := by omega
    simp only [hread, if_neg hnz, Int.toNat_natCast, entriesIn_mul, restoreEntries_eq] at h ⊢
    rw [fileNumbers_read (Nat.le_trans hcn hnle) hpage']
    obtain ⟨l, hl⟩ : ∃ l, l = (List.range' 0 c).map fun j => num page' (j * inoSize A) (inoSize A) := ⟨_, rfl⟩
    rw [← hl] at h ⊢
    by_cases herr : (restoreNumbers A l { s with io := io' }).1 ≠ 0
    · rw [if_pos herr] at h
      exact absurd h herr
    rw [if_neg herr] at h ⊢
    obtain ⟨hpage, hpageIo⟩ := restoreNumbers_rebuilt io' ht (not_not.mp herr)
    have hcut : a * inoSize A + c * inoSize A = (a + c) * inoSize A := (Nat.add_mul a c _).symm
    have hfuel : file.size - (a + c) * inoSize A < fuel := by
      rw [Nat.add_mul]
      omega
    rw [hcut] at h ⊢
    have hwhole : WholeReads A (restoreNumbers A l { s with io := io' }).2.io := by
      rw [hpageIo, hio']
      exact hrest
    obtain ⟨hfile, hfileIo⟩ := ih (a + c) page' hpage.tail hwhole hfuel h
    exact ⟨(hpage.trans hfile).congr fun m => (bitsOf_append m).symm, hfileIo⟩

theorem scanFrom_congr (hb : t.siBranch = s.siBranch) (hx : t.xinoFiles = s.xinoFiles) (b n : Nat) :
    scanFrom A t b n = scanFrom A s b n := by
  have hun : ∀ b, unshared t b = unshared s b := by
    intro b
    rw [unshared, unshared, isSbShared, isSbShared, hb]
  simp only [scanFrom, hun, hb, hx]

/-- **All files**, by induction on the branches. -/
theorem restoreBranches_marks : ∀ {count bindex : Nat} {page : Nat → UInt8} {s : Sbinfo}, Aligned A s → Tail s →
    WholeReads A s.io → (restoreBranches A count bindex page s).1 = 0 →
      Rebuilt s (BitsOf A (scanFrom A s bindex count)) (restoreBranches A count bindex page s).2 := by
  intro count
  induction count with
  | zero => exact fun _ ht _ _ => Rebuilt.none ht bitsOf_nil
  | succ count ih =>
    intro bindex page s hal ht hio h
    have hcons : scanFrom A s bindex (count + 1)
        = (if unshared s bindex then fileNumbers A (s.xinoFiles (s.siBranch bindex).xiFile) 0 else [])
          ++ scanFrom A s (bindex + 1) count := by
      rw [scanFrom, List.range'_succ, List.flatMap_cons, scanFrom]
    rw [restoreBranches] at h ⊢
    rw [hcons]
    by_cases hun : bindex = 0 ∨ isSbShared s bindex (bindex - 1) = none
    · have hun' : unshared s bindex = true := decide_eq_true hun
      rw [if_pos hun] at h ⊢
      rw [hun', if_pos rfl]
      obtain ⟨r, hr⟩ : ∃ r, r = doXibRestore A (s.xinoFiles (s.siBranch bindex).xiFile) page s := ⟨_, rfl⟩
      rw [← hr] at h ⊢
      by_cases he : r.1 ≠ 0
      · simp only [if_pos he] at h
        exact absurd h he
      simp only [if_neg he] at h ⊢
      have hfile := restoreFile_marks (hal (s.siBranch bindex).xiFile)
        ((s.xinoFiles (s.siBranch bindex).xiFile).size + 1) 0 page ht hio (by omega)
      rw [Nat.zero_mul, ← doXibRestore, ← hr] at hfile
      obtain ⟨hmarks, hio'⟩ := hfile (not_not.mp he)
      have hal' : Aligned A r.2.2 := by
        rw [Aligned, hmarks.xinoFiles]
        exact hal
      have hrest := ih hal' hmarks.tail hio' h
      rw [scanFrom_congr hmarks.siBranch hmarks.xinoFiles] at hrest
      exact (hmarks.trans hrest).congr fun m => (bitsOf_append m).symm
    · have hun' : unshared s bindex = false := decide_eq_false hun
      rw [if_neg hun] at h ⊢
      rw [hun', if_neg Bool.false_ne_true, List.nil_append]
      exact ih hal ht hio h

/-! ## au_xib_trunc -/

/-- The bits of the scan are those of the recorded numbers. -/
theorem bitsOf_scan_iff (hal : Aligned A s) (hsh : Shared s) {ino : Nat} (hino : firstIno ≤ ino) :
    BitsOf A (scan A s) (ino - firstIno) ↔ Recorded A s ino := by
  have hlt : ∀ n, Recorded A s n → n < 2 ^ A.bitsPerLong := by
    rintro n ⟨b, -, hIno, rfl⟩
    exact entry_lt _ _
  constructor
  · rintro ⟨n, hn, hbit⟩
    have hrec := (mem_scan_iff hal hsh (ne_zero_of_hasBit hbit)).mp hn
    have hval := hbit.2
    rw [xibBit_of_le hbit.1 (hlt n hrec)] at hval
    have hle := hbit.1
    rwa [show ino = n by omega]
  · intro hrec
    have hbit : HasBit A ino (ino - firstIno) := ⟨hino, xibBit_of_le hino (hlt ino hrec)⟩
    exact ⟨ino, (mem_scan_iff hal hsh (ne_zero_of_hasBit hbit)).mpr hrec, hbit⟩

/-- Behind `au_xib_trunc` the bitmap marks a number exactly when some branch's xino file records it. -/
def MarksRecorded (A : Arch) (page : Nat → UInt8) (s : Sbinfo) : Prop :=
  ∀ ino, firstIno ≤ ino → (mark (auXibTrunc A page s).2 (ino - firstIno) = true ↔ Recorded A s ino)

/-- **A successful `au_xib_trunc`** of a bitmap of more than one page: the bitmap marks a number exactly when some
    branch's xino file records it, whatever was marked before and whichever page was in memory. -/
theorem auXibTrunc_marks_iff {page : Nat → UInt8} (hx : s.xino = true) (hsz : pageSize < s.siXib.size)
    (hal : Aligned A s) (hsh : Shared s) (hio : WholeReads A s.io) (h : (auXibTrunc A page s).1 = 0) :
    MarksRecorded A page s := by
  intro ino hino
  have hoff : ¬ (!s.xino) = true := by rw [hx]; decide
  rw [auXibTrunc, if_neg hoff, if_neg (Nat.not_le.mpr hsz)] at h ⊢
  by_cases hfile : (request s).1 < 0
  · rw [if_pos hfile] at h
    omega
  rw [if_neg hfile] at h ⊢
  obtain ⟨io, hio1, hreq⟩ : ∃ io, WholeReads A io ∧ (request s).2 = { s with io := io } := ⟨_, hio.answer, rfl⟩
  simp only [hreq] at h ⊢
  by_cases hw : (xinoFwrite .empty (fun _ => 0) pageSize 0 s.xibIo).1 ≠ pageSize
  · simp only [if_pos hw] at h
    exact absurd h (transferErr_ne_zero _)
  simp only [if_neg hw] at h ⊢
  -- the bitmap is empty now, and gets the bits of the scan
  obtain ⟨c, hc⟩ : ∃ c, c = cleared { s with io := io } (answer pageSize s.xibIo).1.toNat (answer pageSize s.xibIo).2 :=
    ⟨_, rfl⟩
  have hclear : ∀ m, mark c m = false := fun m => hc ▸ mark_cleared m
  have htail : Tail c := hc ▸ cleared_tail
  have hcio : c.io = io := by rw [hc]; rfl
  change (xibRestore A page (cleared { s with io := io } (answer pageSize s.xibIo).1.toNat
    (answer pageSize s.xibIo).2)).1 = 0 at h
  change mark (xibRestore A page (cleared { s with io := io } (answer pageSize s.xibIo).1.toNat
    (answer pageSize s.xibIo).2)).2 _ = true ↔ _
  rw [← hc, xibRestore] at h ⊢
  by_cases hfree : (request c).1 < 0
  · simp only [if_pos hfree] at h
    exact absurd h negENOMEM_ne_zero
  simp only [if_neg hfree] at h ⊢
  have hal' : Aligned A (request c).2 := by
    rw [Aligned, show (request c).2.xinoFiles = s.xinoFiles by rw [hc]; rfl]
    exact hal
  have hio' : WholeReads A (request c).2.io := WholeReads.answer (hcio ▸ hio1)
  have hset := restoreBranches_marks hal' (show Tail (request c).2 from htail) hio' h
  have hscan : scanFrom A (request c).2 0 ((request c).2.siBend + 1) = scan A s := by
    rw [show (request c).2.siBend = s.siBend by rw [hc]; rfl, scan]
    exact scanFrom_congr (by rw [hc]; rfl) (by rw [hc]; rfl) _ _
  rw [hset.marks, hscan, show mark (request c).2 (ino - firstIno) = false from hclear _]
  exact (or_iff_right Bool.false_ne_true).trans (bitsOf_scan_iff hal hsh hino)

/-- Two pages, and inode 5 of the branch is known as 11, which is not marked. -/
def twoPages : Sbinfo :=
  { recordEntry .lp64 oneBranch.sb 0 5 11 with siXib := File.empty.write 0 (2 * pageSize) fun _ => 0 }

theorem auXibTrunc_marks_iff_twoPages : MarksRecorded .lp64 (fun _ => 0) twoPages := by
  have hal0 : Aligned .lp64 oneBranch.sb := fun _ => Nat.dvd_zero _
  have hal : Aligned .lp64 twoPages := recordEntry_aligned (s := oneBranch.sb) hal0 11
  have hsz : pageSize < twoPages.siXib.size := by decide
  have hok : (auXibTrunc .lp64 (fun _ => 0) twoPages).1 = 0 := by
    rw [auXibTrunc_scan rfl rfl hal (Nat.not_le.mpr hsz) rfl]
    exact (restoreNumbers_nil rfl).1
  exact auXibTrunc_marks_iff rfl hsz hal (fun _ _ _ _ _ => rfl) (wholeReads_nil _) hok

/-! ## Where it does not -/

/-- A number given that no file has recorded: 11, in a bitmap of one page. -/
def firstGiven : Sbinfo := { oneBranch.sb with siXibBuf := setBitAt (fun _ => 0) 0, siXibNextBit := 1 }

/-- A xino file of `n` bytes, all zero but byte `i`, which is 11. -/
def elevenAt (n i : Nat) : File := (File.empty.write 0 n fun _ => 0).write i 1 fun _ => 11

/-- A bitmap of two pages, the xino file, and the answers to come. -/
def withXino (file : File) (io : List Int) : Sbinfo :=
  { oneBranch.sb with siXib := File.empty.write 0 (2 * pageSize) fun _ => 0, xinoFiles := fun _ => file, io := io }

/-- A file of one entry at most does not record 11, unless it is that entry. -/
theorem not_recorded_eleven {s : Sbinfo} {file : File} (hs : s.xinoFiles = fun _ => file) (hle : file.size ≤ 8)
    (hnot : num file.data 0 8 ≠ 11 ∨ file.size < 8) : ¬ Recorded .lp64 s 11 := by
  rintro ⟨b, -, hIno, hent⟩
  have hfile : s.xinoFiles (s.siBranch b).xiFile = file := by rw [hs]
  rw [hfile, entry, show inoSize .lp64 = 8 from rfl] at hent
  split at hent
  · obtain rfl : hIno = 0 := by omega
    rcases hnot with hne | hlt
    · exact hne hent
    · omega
  · cases hent

/-- **Not exact** are a bitmap of one page, which is kept with what it marks; an entry cut short at the end of a
    file; and a read that is. -/
theorem trunc_not_exact :
    (¬ ∀ (A : Arch) (page : Nat → UInt8) (s : Sbinfo), s.xino = true → Aligned A s → Shared s → WholeReads A s.io →
      (auXibTrunc A page s).1 = 0 → MarksRecorded A page s) ∧
    (¬ ∀ (A : Arch) (page : Nat → UInt8) (s : Sbinfo), s.xino = true → pageSize < s.siXib.size → Shared s →
      WholeReads A s.io → (auXibTrunc A page s).1 = 0 → MarksRecorded A page s) ∧
    (¬ ∀ (A : Arch) (page : Nat → UInt8) (s : Sbinfo), s.xino = true → pageSize < s.siXib.size → Aligned A s →
      Shared s → (auXibTrunc A page s).1 = 0 → MarksRecorded A page s) := by
  have hshared : ∀ file io, Shared (withXino file io) := fun _ _ _ _ _ _ _ => rfl
  have hsz : pageSize < (File.empty.write 0 (2 * pageSize) fun _ => 0).size := by decide
  refine ⟨fun h => ?_, fun h => ?_, fun h => ?_⟩
  · have hkept : auXibTrunc .lp64 (fun _ => 0) firstGiven = (0, firstGiven) := auXibTrunc_small (Nat.le_refl _)
    have hiff := h .lp64 (fun _ => 0) firstGiven rfl (fun _ => Nat.dvd_zero _) (fun _ _ _ _ _ => rfl)
      (wholeReads_nil _) (congrArg Prod.fst hkept) 11 (Nat.le_refl _)
    rw [hkept] at hiff
    exact not_recorded_eleven rfl (Nat.zero_le _) (Or.inr (Nat.succ_pos _)) (hiff.mp (by decide))
  · -- the four bytes that are there, and four of the page
    have hiff := h .lp64 (fun _ => 0) (withXino (elevenAt 4 0) []) rfl hsz (hshared _ _) (wholeReads_nil _)
      (by decide +kernel) 11 (Nat.le_refl _)
    exact not_recorded_eleven rfl (by decide) (Or.inr (by decide)) (hiff.mp (by decide +kernel))
  · -- the entry is read in two halves, and each of them is taken for an entry
    have hwhole : inoSize .lp64 ∣ (elevenAt 8 4).size := ⟨1, by decide⟩
    have hiff := h .lp64 (fun _ => 0) (withXino (elevenAt 8 4) [0, 0, 4, 4]) rfl hsz (fun _ => hwhole)
      (hshared _ _) (by decide +kernel) 11 (Nat.le_refl _)
    exact not_recorded_eleven rfl (by decide) (Or.inl (by decide)) (hiff.mp (by decide +kernel))

end KernelPatches.Aufs
