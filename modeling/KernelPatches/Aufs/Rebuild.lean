/-
  Rebuilding the bitmap from the xino files.

  `au_xib_trunc` throws the whole bitmap away, page in memory and file, and sets the bits of all the
  numbers the xino files hold.  It reads every xino file once: a branch on the file system of an
  earlier one is skipped, its file is the same.

  The three loops (branches, pages of a file, entries of a page) are one: the bits of a list of numbers
  are set, one after another, until a switch of pages fails.

  * `restoreNumbers`      — that one loop; `restoreNumbers_ok`, `restoreNumbers_stops` say how it ends;
  * `scan`                — the list: all entries of all files that are read, in the order they are;
  * `restoreBranches_eq`  — the three loops are `restoreNumbers` over `scan`;
  * `mem_scan_iff`        — the scan meets every recorded number (every branch has the file of one that
                            is not skipped, `unshared_cover`);
  * `auXibTrunc_marks`    — afterwards exactly the recorded numbers are marked, or nothing was done.
-/
import KernelPatches.Aufs.Bitmap
import KernelPatches.Aufs.XinoFiles

namespace KernelPatches.Aufs

open KernelPatches.Lib

variable {A : Arch}

/-! ## Setting a bit of the page in memory -/

/-- Bit `b` of the page in memory, in the whole bitmap. -/
def absBit (s : Sbinfo) (b : Nat) : Nat := s.siXibLastPindex * pageBits + b

section

variable {s : Sbinfo} {b : Nat}

theorem absBit_div (s : Sbinfo) (hb : b < pageBits) : absBit s b / pageBits = s.siXibLastPindex := by
  rw [absBit]
  rw [pageBits_eq] at hb ⊢
  omega

theorem absBit_mod (s : Sbinfo) (hb : b < pageBits) : absBit s b % pageBits = b := by
  rw [absBit]
  rw [pageBits_eq] at hb ⊢
  omega

theorem absBit_eq_iff {k : Nat} (hk : k / pageBits = s.siXibLastPindex) :
    b = k % pageBits ↔ absBit s b = k := by
  rw [absBit]
  rw [pageBits_eq] at hk ⊢
  omega

/-- The page in memory with one bit changed, by `f`, is the bitmap with one bit changed. -/
theorem mark_setBitAt (hb : b < pageBits) (n : Int) (k : Nat) :
    mark { s with siXibBuf := setBitAt s.siXibBuf b, siXibNextBit := n } k
      = (decide (absBit s b = k) || mark s k) := by
  by_cases hk : k / pageBits = s.siXibLastPindex
  · rw [mark_cached hk]
    refine (if_pos hk).trans ?_
    rw [bitAt_setBitAt]
    simp only [absBit_eq_iff hk]
  · have hne : absBit s b ≠ k := fun h => hk (by rw [← h, absBit_div s hb])
    rw [mark_stored hk, decide_eq_false hne, Bool.false_or]
    exact if_neg hk

theorem mark_clearBitAt (hb : b < pageBits) (n : Int) (k : Nat) :
    mark { s with siXibBuf := clearBitAt s.siXibBuf b, siXibNextBit := n } k
      = (decide (absBit s b ≠ k) && mark s k) := by
  by_cases hk : k / pageBits = s.siXibLastPindex
  · rw [mark_cached hk]
    refine (if_pos hk).trans ?_
    rw [bitAt_clearBitAt]
    simp only [ne_eq, absBit_eq_iff hk]
  · have hne : absBit s b ≠ k := fun h => hk (by rw [← h, absBit_div s hb])
    rw [mark_stored hk, decide_eq_true hne, Bool.true_and]
    exact if_neg hk

theorem xibCalcBit_lt (A : Arch) (ino : Nat) : (xibCalcBit A ino).2 < pageBits :=
  Nat.mod_lt _ (by rw [pageBits_eq]; omega)

/-- Page and bit together are the bit of the number. -/
theorem absBit_xibCalcBit {ino : Nat} (h : s.siXibLastPindex = (xibCalcBit A ino).1) :
    absBit s (xibCalcBit A ino).2 = xibBit A ino := by
  rw [absBit, h]
  exact Nat.div_add_mod' _ _

end

/-! ## One number after another -/

/-- The bits of the numbers are set in turn; those below AUFS_FIRST_INO are passed over. -/
def restoreNumbers (A : Arch) : List Nat → Sbinfo → Int × Sbinfo
  | [], s => (0, s)
  | ino :: l, s =>
    if ino < firstIno then restoreNumbers A l s
    else
      let c := xibCalcBit A ino
      let p := xibPindex c.1 s
      if p.1 ≠ 0 then p
      else restoreNumbers A l { p.2 with siXibBuf := setBitAt p.2.siXibBuf c.2 }

/-- The number has bit `m` and is not one of those below AUFS_FIRST_INO. -/
def HasBit (A : Arch) (ino m : Nat) : Prop := firstIno ≤ ino ∧ xibBit A ino = m

/-- Bits were set, exactly those of `P`. -/
structure SetsBits (s : Sbinfo) (P : Nat → Prop) (s' : Sbinfo) : Prop where
  tables : SameTables s s'
  tail : Tail s'
  marks : ∀ m, mark s' m = true ↔ mark s m = true ∨ P m

/-- One number: its page is brought and its bit set. -/
theorem setOne {s : Sbinfo} (ht : Tail s) {ino : Nat} (hino : firstIno ≤ ino)
    (hp : (xibPindex (xibCalcBit A ino).1 s).1 = 0) :
    SetsBits s (HasBit A ino) { (xibPindex (xibCalcBit A ino).1 s).2 with
      siXibBuf := setBitAt (xibPindex (xibCalcBit A ino).1 s).2.siXibBuf (xibCalcBit A ino).2 } := by
  obtain ⟨hsw, hlast⟩ := xibPindex_ok ht hp
  have htab := hsw.tables
  refine ⟨⟨htab.xino, htab.siBend, htab.siBranch, htab.xinoFiles, htab.uniq, htab.io⟩, hsw.tail,
    fun m => ?_⟩
  have hmark : mark _ m = _ := mark_setBitAt (s := (xibPindex (xibCalcBit A ino).1 s).2)
    (xibCalcBit_lt A ino) (xibPindex (xibCalcBit A ino).1 s).2.siXibNextBit m
  rw [hmark, absBit_xibCalcBit hlast, hsw.marks, Bool.or_eq_true, decide_eq_true_iff, or_comm]
  have hbit : HasBit A ino m ↔ xibBit A ino = m := and_iff_right hino
  rw [hbit]

/-- The whole list, where no switch fails. -/
theorem restoreNumbers_ok : ∀ {l : List Nat} {s : Sbinfo}, Tail s → (restoreNumbers A l s).1 = 0 →
    SetsBits s (fun m => ∃ ino ∈ l, HasBit A ino m) (restoreNumbers A l s).2 := by
  intro l
  induction l with
  | nil =>
    intro s ht _
    refine ⟨SameTables.refl s, ht, fun m => ⟨Or.inl, fun h => h.resolve_right ?_⟩⟩
    rintro ⟨ino, hmem, -⟩
    cases hmem
  | cons ino l ih =>
    intro s ht h
    rw [restoreNumbers] at h ⊢
    by_cases hino : ino < firstIno
    · rw [if_pos hino] at h ⊢
      obtain ⟨htab, htail, hm⟩ := ih ht h
      refine ⟨htab, htail, fun m => ?_⟩
      rw [hm]
      refine or_congr_right ⟨?_, ?_⟩
      · rintro ⟨n, hn, hbit⟩
        exact ⟨n, List.mem_cons_of_mem _ hn, hbit⟩
      · rintro ⟨n, hn, hbit⟩
        rcases List.mem_cons.mp hn with rfl | hn
        · exact absurd hino (Nat.not_lt.mpr hbit.1)
        · exact ⟨n, hn, hbit⟩
    rw [if_neg hino] at h ⊢
    by_cases hp : (xibPindex (xibCalcBit A ino).1 s).1 ≠ 0
    · exact absurd ((congrArg Prod.fst (if_pos hp)).symm.trans h) hp
    rw [if_neg hp] at h ⊢
    have hone := setOne ht (Nat.le_of_not_lt hino) (not_not.mp hp)
    obtain ⟨htab, htail, hm⟩ := ih hone.tail h
    refine ⟨hone.tables.trans htab, htail, fun m => ?_⟩
    rw [hm, hone.marks, or_assoc]
    refine or_congr_right ⟨?_, ?_⟩
    · rintro (hbit | ⟨n, hn, hbit⟩)
      · exact ⟨ino, List.mem_cons_self, hbit⟩
      · exact ⟨n, List.mem_cons_of_mem _ hn, hbit⟩
    · rintro ⟨n, hn, hbit⟩
      rcases List.mem_cons.mp hn with rfl | hn
      · exact Or.inl hbit
      · exact Or.inr ⟨n, hn, hbit⟩

/-- A failure is that of the switch for one of the numbers, those before it being done. -/
theorem restoreNumbers_stops : ∀ {l : List Nat} {s : Sbinfo}, (restoreNumbers A l s).1 ≠ 0 →
    ∃ l1 ino l2, l = l1 ++ ino :: l2 ∧ firstIno ≤ ino ∧ (restoreNumbers A l1 s).1 = 0 ∧
      (xibPindex (xibCalcBit A ino).1 (restoreNumbers A l1 s).2).1 ≠ 0 ∧
      restoreNumbers A l s = xibPindex (xibCalcBit A ino).1 (restoreNumbers A l1 s).2 := by
  intro l
  induction l with
  | nil => intro s h; exact absurd rfl h
  | cons ino l ih =>
    intro s h
    rw [restoreNumbers] at h ⊢
    by_cases hino : ino < firstIno
    · rw [if_pos hino] at h ⊢
      obtain ⟨l1, n, l2, rfl, hn, hok, hstop, heq⟩ := ih h
      have hskip : restoreNumbers A (ino :: l1) s = restoreNumbers A l1 s := by
        rw [restoreNumbers, if_pos hino]
      exact ⟨ino :: l1, n, l2, rfl, hn, hskip ▸ hok, hskip ▸ hstop, hskip ▸ heq⟩
    rw [if_neg hino] at h ⊢
    by_cases hp : (xibPindex (xibCalcBit A ino).1 s).1 ≠ 0
    · exact ⟨[], ino, l, rfl, Nat.le_of_not_lt hino, rfl, hp, if_pos hp⟩
    rw [if_neg hp] at h ⊢
    obtain ⟨l1, n, l2, rfl, hn, hok, hstop, heq⟩ := ih h
    have hgo : restoreNumbers A (ino :: l1) s = restoreNumbers A l1
        { (xibPindex (xibCalcBit A ino).1 s).2 with
          siXibBuf := setBitAt (xibPindex (xibCalcBit A ino).1 s).2.siXibBuf (xibCalcBit A ino).2 } := by
      rw [restoreNumbers, if_neg hino, if_neg hp]
    exact ⟨ino :: l1, n, l2, rfl, hn, hgo ▸ hok, hgo ▸ hstop, hgo ▸ heq⟩

theorem restoreNumbers_nil : ∀ {l : List Nat} {s : Sbinfo}, s.xibIo = [] →
    (restoreNumbers A l s).1 = 0 ∧ (restoreNumbers A l s).2.xibIo = [] := by
  intro l
  induction l with
  | nil => intro s h; exact ⟨rfl, h⟩
  | cons ino l ih =>
    intro s h
    rw [restoreNumbers]
    by_cases hino : ino < firstIno
    · rw [if_pos hino]
      exact ih h
    · obtain ⟨hp, hio⟩ := xibPindex_nil (p := (xibCalcBit A ino).1) h
      rw [if_neg hino, if_neg (not_not.mpr hp)]
      exact ih hio

theorem restoreNumbers_tables : ∀ {l : List Nat} {s : Sbinfo},
    SameTables s (restoreNumbers A l s).2 := by
  intro l
  induction l with
  | nil => intro s; exact SameTables.refl s
  | cons ino l ih =>
    intro s
    rw [restoreNumbers]
    by_cases hino : ino < firstIno
    · rw [if_pos hino]
      exact ih
    rw [if_neg hino]
    have htab := xibPindex_tables (p := (xibCalcBit A ino).1) (s := s)
    by_cases hp : (xibPindex (xibCalcBit A ino).1 s).1 ≠ 0
    · rw [if_pos hp]
      exact htab
    · rw [if_neg hp]
      refine SameTables.trans ?_ ih
      exact ⟨htab.xino, htab.siBend, htab.siBranch, htab.xinoFiles, htab.uniq, htab.io⟩

theorem restoreNumbers_append (l' : List Nat) : ∀ {l : List Nat} {s : Sbinfo},
    restoreNumbers A (l ++ l') s = if (restoreNumbers A l s).1 ≠ 0 then restoreNumbers A l s
      else restoreNumbers A l' (restoreNumbers A l s).2 := by
  intro l
  induction l with
  | nil => intro s; exact (if_neg (not_not.mpr rfl)).symm
  | cons ino l ih =>
    intro s
    rw [List.cons_append, restoreNumbers, restoreNumbers]
    by_cases hino : ino < firstIno
    · rw [if_pos hino, if_pos hino]
      exact ih
    rw [if_neg hino, if_neg hino]
    by_cases hp : (xibPindex (xibCalcBit A ino).1 s).1 ≠ 0
    · rw [if_pos hp, if_pos hp, if_pos hp]
    · rw [if_neg hp, if_neg hp]
      exact ih

/-! ## The three loops are that one -/

/-- The entries of a page, `count` of them from entry `k` on. -/
theorem restoreEntries_eq {page : Nat → UInt8} : ∀ {count k : Nat} {s : Sbinfo},
    restoreEntries A page count k s = restoreNumbers A
      ((List.range' k count).map fun j => num page (j * inoSize A) (inoSize A)) s := by
  intro count
  induction count with
  | zero => intro k s; rfl
  | succ count ih =>
    intro k s
    rw [restoreEntries, List.range'_succ, List.map_cons, restoreNumbers]
    simp only [ih]

/-- The entries of a file of whole entries, from entry `a` on. -/
def fileNumbers (A : Arch) (file : File) (a : Nat) : List Nat :=
  (List.range' a (file.size / inoSize A - a)).map fun h => num file.data (h * inoSize A) (inoSize A)

/-- A page read from entry `a` on holds `c` whole entries. -/
theorem page_entries {file : File} (hal : inoSize A ∣ file.size) (a : Nat) :
    ∃ c, min pageSize (file.size - a * inoSize A) = c * inoSize A ∧
      c ≤ file.size / inoSize A - a := by
  obtain ⟨z, hz⟩ := hal
  have hpage : pageSize = pageSize / inoSize A * inoSize A := by
    rcases inoSize_eq A with h | h <;> rw [h] <;> rfl
  have hdiv : file.size / inoSize A = z := by rw [hz, Nat.mul_div_cancel_left _ (inoSize_pos A)]
  refine ⟨min (pageSize / inoSize A) (z - a), ?_, ?_⟩
  · rw [← Nat.mul_min_mul_right, ← hpage, hz, Nat.mul_comm (inoSize A) z, Nat.sub_mul]
  · rw [hdiv]
    exact Nat.min_le_right _ _

theorem fileNumbers_end {file : File} {a : Nat} (h : ¬ a * inoSize A < file.size) : fileNumbers A file a = [] := by
  have hi := inoSize_pos A
  have hle := (Nat.div_le_iff_le_mul_add_pred hi).mpr (show file.size
    ≤ inoSize A * a + (inoSize A - 1) by rw [Nat.mul_comm]; omega)
  have hnone : file.size / inoSize A - a = 0 := by omega
  rw [fileNumbers, hnone]
  rfl

/-- `c` whole entries are counted as `c`. -/
theorem entriesIn_mul (c : Nat) : (c * inoSize A + inoSize A - 1) / inoSize A = c := by
  have hi := inoSize_pos A
  rw [show c * inoSize A + inoSize A - 1 = c * inoSize A + (inoSize A - 1) by omega, Nat.mul_comm,
    Nat.mul_add_div hi, Nat.div_eq_of_lt (by omega), Nat.add_zero]

/-- Entry `j` of a page that was read from entry `a` on is entry `a + j` of the file. -/
theorem fileNumbers_read {file : File} {a c : Nat} {page page' : Nat → UInt8}
    (hc : c ≤ file.size / inoSize A - a) (hpage' : page' = fun i =>
      if i < c * inoSize A then file.data (a * inoSize A + i) else page i) :
    fileNumbers A file a = ((List.range' 0 c).map fun j => num page' (j * inoSize A) (inoSize A))
      ++ fileNumbers A file (a + c) := by
  have hentries : ((List.range' 0 c).map fun j => num page' (j * inoSize A) (inoSize A))
      = (List.range' a c).map fun h => num file.data (h * inoSize A) (inoSize A) := by
    have hrange : List.range' a c = (List.range' 0 c).map fun j => a + j := by
      rw [List.map_add_range', Nat.add_zero]
    rw [hrange, List.map_map]
    refine List.map_congr_left fun j hj => ?_
    have hjc : j < c := by
      have := List.mem_range'_1.mp hj
      omega
    show num page' (j * inoSize A) (inoSize A) = num file.data ((a + j) * inoSize A) (inoSize A)
    rw [Nat.add_mul, ← num_shift, hpage']
    refine num_congr fun k _ hk => ?_
    have hle : j * inoSize A + inoSize A ≤ c * inoSize A := by
      rw [← Nat.succ_mul]
      exact Nat.mul_le_mul_right _ hjc
    rw [if_pos (by omega)]
  rw [hentries, fileNumbers, fileNumbers, ← List.map_append]
  congr 1
  rw [show file.size / inoSize A - a = c + (file.size / inoSize A - (a + c)) by omega,
    List.range'_append_1]

theorem restoreFile_eq {file : File} (hal : inoSize A ∣ file.size) :
    ∀ (fuel a : Nat) (page : Nat → UInt8) {s : Sbinfo}, s.io = [] →
      file.size - a * inoSize A < fuel →
      (restoreFile A file fuel (a * inoSize A) page s).1
          = (restoreNumbers A (fileNumbers A file a) s).1 ∧
        (restoreFile A file fuel (a * inoSize A) page s).2.2
          = (restoreNumbers A (fileNumbers A file a) s).2 := by
  intro fuel
  induction fuel with
  | zero => intro a page s _ hf; omega
  | succ fuel ih =>
    intro a page s hio hf
    have hi := inoSize_pos A
    rw [restoreFile]
    by_cases hpos : a * inoSize A < file.size
    case neg =>
      rw [if_neg hpos, fileNumbers_end hpos]
      exact ⟨rfl, rfl⟩
    rw [if_pos hpos]
    -- what is read: `c` entries
    obtain ⟨c, hc, hcle⟩ := page_entries hal a
    have hc0 : 0 < c := by
      refine Nat.pos_of_ne_zero ?_
      rintro rfl
      rw [Nat.zero_mul, pageSize_eq] at hc
      omega
    obtain ⟨page', hpage'⟩ : ∃ page' : Nat → UInt8, page' = fun i =>
      if i < c * inoSize A then file.data (a * inoSize A + i) else page i := ⟨_, rfl⟩
    have hread : xinoFread file page pageSize (a * inoSize A) s.io
        = (((c * inoSize A : Nat) : Int), page', []) := by
      simp only [xinoFread, hio, hc, answer, Int.toNat_natCast]
      rw [hpage']
    have hcount := entriesIn_mul (A := A) c
    have hcpos : 0 < c * inoSize A := Nat.mul_pos hc0 hi
    have hnz : ¬ ((c * inoSize A : Nat) : Int) ≤ 0 := by omega
    have hsplit := fileNumbers_read hcle hpage'
    simp only [hread, if_neg hnz, Int.toNat_natCast, hcount, setIo_nil hio, restoreEntries_eq]
    rw [hsplit, restoreNumbers_append]
    obtain ⟨l, hl⟩ : ∃ l, l = (List.range' 0 c).map fun j => num page' (j * inoSize A) (inoSize A) :=
      ⟨_, rfl⟩
    rw [← hl]
    by_cases herr : (restoreNumbers A l s).1 ≠ 0
    · rw [if_pos herr, if_pos herr]
      exact ⟨rfl, rfl⟩
    rw [if_neg herr, if_neg herr, ← Nat.add_mul]
    have hfuel : file.size - (a + c) * inoSize A < fuel := by
      rw [Nat.add_mul]
      omega
    exact ih _ _ (restoreNumbers_tables.io.trans hio) hfuel

/-- Branch `b` is not skipped. -/
def unshared (s : Sbinfo) (b : Nat) : Bool := b = 0 ∨ isSbShared s b (b - 1) = none

theorem SameTables.unshared {s s' : Sbinfo} (h : SameTables s s') (b : Nat) :
    unshared s' b = unshared s b := by
  have hshared : isSbShared s' b (b - 1) = isSbShared s b (b - 1) := by
    rw [isSbShared, isSbShared, h.siBranch]
  rw [Aufs.unshared, Aufs.unshared, decide_eq_decide, hshared]

/-- The numbers in the files of the branches from `bindex` on, in the order they are read. -/
def scanFrom (A : Arch) (s : Sbinfo) (bindex count : Nat) : List Nat :=
  (List.range' bindex count).flatMap fun b =>
    if unshared s b then fileNumbers A (s.xinoFiles (s.siBranch b).xiFile) 0 else []

/-- The numbers of all xino files, in the order `xib_restore` reads them. -/
def scan (A : Arch) (s : Sbinfo) : List Nat := scanFrom A s 0 (s.siBend + 1)

theorem SameTables.scanFrom {s s' : Sbinfo} (h : SameTables s s') (b n : Nat) :
    scanFrom A s' b n = scanFrom A s b n := by
  simp only [Aufs.scanFrom, h.unshared, h.siBranch, h.xinoFiles]

theorem restoreBranches_eq : ∀ {count bindex : Nat} {page : Nat → UInt8} {s : Sbinfo},
    Aligned A s → s.io = [] →
      restoreBranches A count bindex page s = restoreNumbers A (scanFrom A s bindex count) s := by
  intro count
  induction count with
  | zero => intro bindex page s _ _; rfl
  | succ count ih =>
    intro bindex page s hal hio
    have hcons : scanFrom A s bindex (count + 1)
        = (if unshared s bindex then fileNumbers A (s.xinoFiles (s.siBranch bindex).xiFile) 0 else [])
          ++ scanFrom A s (bindex + 1) count := by
      rw [scanFrom, List.range'_succ, List.flatMap_cons, scanFrom]
    rw [restoreBranches, hcons]
    by_cases hun : bindex = 0 ∨ isSbShared s bindex (bindex - 1) = none
    · have hun' : unshared s bindex = true := decide_eq_true hun
      obtain ⟨herr, hst⟩ := restoreFile_eq (hal (s.siBranch bindex).xiFile)
        ((s.xinoFiles (s.siBranch bindex).xiFile).size + 1) 0 page hio (by omega)
      rw [Nat.zero_mul] at herr hst
      rw [if_pos hun, hun', if_pos rfl, restoreNumbers_append, doXibRestore]
      simp only [herr, hst]
      obtain ⟨r, hr⟩ : ∃ r, r = restoreNumbers A
        (fileNumbers A (s.xinoFiles (s.siBranch bindex).xiFile) 0) s := ⟨_, rfl⟩
      have htab : SameTables s r.2 := hr ▸ restoreNumbers_tables
      rw [← hr]
      by_cases he : r.1 ≠ 0
      · rw [if_pos he, if_pos he]
      · have hal' : Aligned A r.2 := by
          rw [Aligned, htab.xinoFiles]
          exact hal
        rw [if_neg he, if_neg he, ih hal' (htab.io.trans hio), htab.scanFrom]
    · have hun' : unshared s bindex = false := decide_eq_false hun
      rw [if_neg hun, hun', if_neg Bool.false_ne_true, List.nil_append]
      exact ih hal hio

/-! ## The scan meets every recorded number -/

theorem isSbShared_below {s : Sbinfo} {b : Nat} : isSbShared s b (b - 1) = none ↔
    ∀ b' < b, (s.siBranch b').brSb ≠ (s.siBranch b).brSb := by
  have hempty : List.range' (b + 1) (b - 1 - b) = [] := by
    rw [show b - 1 - b = 0 by omega]
    rfl
  rw [isSbShared, hempty, List.append_nil, List.find?_eq_none]
  constructor
  · intro h b' hb'
    simpa using h b' (List.mem_range.mpr hb')
  · intro h b' hb'
    simpa using h b' (List.mem_range.mp hb')

/-- Every branch has the file of one that is not skipped. -/
theorem unshared_cover {s : Sbinfo} (hsh : Shared s) : ∀ {b : Nat}, b ≤ s.siBend →
    ∃ b', b' ≤ b ∧ unshared s b' = true ∧ (s.siBranch b').xiFile = (s.siBranch b).xiFile := by
  intro b
  induction b using Nat.strong_induction_on with
  | _ b ih =>
    intro hb
    by_cases hun : b = 0 ∨ isSbShared s b (b - 1) = none
    · exact ⟨b, Nat.le_refl _, decide_eq_true hun, rfl⟩
    have hne : ¬ isSbShared s b (b - 1) = none := fun h => hun (Or.inr h)
    rw [isSbShared_below] at hne
    push Not at hne
    obtain ⟨b1, hlt, hsb⟩ := hne
    obtain ⟨b', hle, hun', hfile⟩ := ih b1 hlt (by omega)
    exact ⟨b', by omega, hun', hfile.trans (hsh b1 b (by omega) hb hsb)⟩

/-- The numbers of a file are its entries. -/
theorem mem_fileNumbers {file : File} (hal : inoSize A ∣ file.size) {ino : Nat} (h0 : ino ≠ 0) :
    ino ∈ fileNumbers A file 0 ↔ ∃ h, entry A file h = ino := by
  obtain ⟨z, hz⟩ := hal
  have hdiv : file.size / inoSize A = z := by rw [hz, Nat.mul_div_cancel_left _ (inoSize_pos A)]
  have hin : ∀ h, h < z ↔ h * inoSize A + inoSize A ≤ file.size := by
    intro h
    rw [← Nat.succ_mul, hz, Nat.mul_comm (inoSize A) z]
    exact (Nat.mul_le_mul_right_iff (inoSize_pos A)).symm
  rw [fileNumbers, List.mem_map]
  constructor
  · rintro ⟨h, hmem, rfl⟩
    have hlt : h < z := by
      have := List.mem_range'_1.mp hmem
      omega
    exact ⟨h, if_pos ((hin h).mp hlt)⟩
  · rintro ⟨h, hent⟩
    rw [entry] at hent
    split at hent
    case isTrue hsz =>
      have hlt := (hin h).mpr hsz
      exact ⟨h, List.mem_range'_1.mpr ⟨by omega, by omega⟩, hent⟩
    case isFalse => exact absurd hent.symm h0

theorem recorded_of_mem_scan {s : Sbinfo} (hal : Aligned A s) {ino : Nat} (h0 : ino ≠ 0)
    (h : ino ∈ scan A s) : Recorded A s ino := by
  rw [scan, scanFrom, List.mem_flatMap] at h
  obtain ⟨b, hb, hmem⟩ := h
  have hle : b ≤ s.siBend := by
    have := List.mem_range'_1.mp hb
    omega
  split at hmem
  case isTrue =>
    obtain ⟨hIno, hent⟩ := (mem_fileNumbers (hal _) h0).mp hmem
    exact ⟨b, hle, hIno, hent⟩
  case isFalse => cases hmem

/-- **The scan** meets the recorded numbers, and no others. -/
theorem mem_scan_iff {s : Sbinfo} (hal : Aligned A s) (hsh : Shared s) {ino : Nat} (h0 : ino ≠ 0) :
    ino ∈ scan A s ↔ Recorded A s ino := by
  constructor
  · exact recorded_of_mem_scan hal h0
  rw [scan, scanFrom, List.mem_flatMap]
  · rintro ⟨b, hb, h, hent⟩
    obtain ⟨b', hle, hun, hfile⟩ := unshared_cover hsh hb
    refine ⟨b', List.mem_range'_1.mpr ⟨by omega, by omega⟩, ?_⟩
    rw [hun, if_pos rfl, hfile]
    exact (mem_fileNumbers (hal _) h0).mpr ⟨h, hent⟩

/-! ## au_xib_trunc -/

/-- The state `au_xib_trunc` rebuilds the bitmap from: a new xib file that got `n` bytes of zeros, and
    the page in memory cleared. -/
def cleared (s : Sbinfo) (n : Nat) (xibIo : List Int) : Sbinfo :=
  { s with siXib := File.empty.write 0 n fun _ => 0, siXibBuf := fun _ => 0, xibIo := xibIo }

section Cleared

variable {s : Sbinfo} {n : Nat} {xibIo : List Int}

/-- Nothing is marked there. -/
theorem mark_cleared (m : Nat) : mark (cleared s n xibIo) m = false := by
  have hdata : (File.empty.write 0 n fun _ => 0).data = fun _ => 0 := funext fun i => ite_self _
  by_cases hm : m / pageBits = s.siXibLastPindex
  · refine (if_pos hm).trans ?_
    exact bitAt_zero _
  · refine (if_neg hm).trans ?_
    show bitAt (File.empty.write 0 n fun _ => 0).data m = false
    rw [hdata]
    exact bitAt_zero _

theorem cleared_tail : Tail (cleared s n xibIo) := by
  intro m hm _
  rw [← mark_stored hm]
  exact mark_cleared m

theorem cleared_tables : SameTables s (cleared s n xibIo) := ⟨rfl, rfl, rfl, rfl, rfl, rfl⟩

end Cleared

section Trunc

variable {s : Sbinfo} {page : Nat → UInt8}

theorem request_nil (hio : s.io = []) : request s = (0, s) := by
  simp only [request, hio, answer, setIo_nil hio]
  rfl

/-- A bitmap of one page is left alone. -/
theorem auXibTrunc_small (hsz : s.siXib.size ≤ pageSize) : auXibTrunc A page s = (0, s) := by
  rw [auXibTrunc]
  by_cases hoff : (!s.xino) = true
  · rw [if_pos hoff]
  · rw [if_neg hoff, if_pos hsz]

/-- The first page of the new file may not get written. -/
theorem auXibTrunc_first (hx : s.xino = true) (hio : s.io = []) (hsz : ¬ s.siXib.size ≤ pageSize)
    (hw : (answer pageSize s.xibIo).1 ≠ pageSize) : auXibTrunc A page s
      = (transferErr (answer pageSize s.xibIo).1,
        cleared s (answer pageSize s.xibIo).1.toNat (answer pageSize s.xibIo).2) := by
  have hoff : ¬ (!s.xino) = true := by rw [hx]; decide
  have hnn : ¬ (0 : Int) < 0 := by omega
  rw [auXibTrunc, if_neg hoff, if_neg hsz, request_nil hio]
  exact (if_neg hnn).trans (if_pos hw)

/-- Otherwise the bits of the scan are set one after another. -/
theorem auXibTrunc_scan (hx : s.xino = true) (hio : s.io = []) (hal : Aligned A s)
    (hsz : ¬ s.siXib.size ≤ pageSize) (hw : (answer pageSize s.xibIo).1 = pageSize) :
    auXibTrunc A page s
      = restoreNumbers A (scan A s) (cleared s pageSize (answer pageSize s.xibIo).2) := by
  have hoff : ¬ (!s.xino) = true := by rw [hx]; decide
  have hnn : ¬ (0 : Int) < 0 := by omega
  have hfull : (answer pageSize s.xibIo).1.toNat = pageSize := answer_toNat_full hw
  obtain ⟨t, ht⟩ : ∃ t, t = cleared s pageSize (answer pageSize s.xibIo).2 := ⟨_, rfl⟩
  have htab : SameTables s t := ht ▸ cleared_tables
  have hal' : Aligned A t := by
    rw [Aligned, htab.xinoFiles]
    exact hal
  have hrest : auXibTrunc A page s
      = xibRestore A page (cleared s (answer pageSize s.xibIo).1.toNat (answer pageSize s.xibIo).2) := by
    rw [auXibTrunc, if_neg hoff, if_neg hsz, request_nil hio]
    exact (if_neg hnn).trans (if_neg (not_not.mpr hw))
  rw [hrest, hfull, ← ht, xibRestore, request_nil (htab.io.trans hio)]
  simp only [if_neg hnn]
  rw [restoreBranches_eq hal' (htab.io.trans hio), htab.siBend, htab.scanFrom, scan]

theorem ne_zero_of_hasBit {ino m : Nat} (h : HasBit A ino m) : ino ≠ 0 := by
  have hfirst := h.1
  rw [firstIno] at hfirst
  omega

/-- **`au_xib_trunc`** leaves everything as it is, or exactly the recorded numbers marked. -/
theorem auXibTrunc_marks (page : Nat → UInt8) (hx : s.xino = true) (hio : s.io = []) (hxio : s.xibIo = [])
    (ht : Tail s) (hal : Aligned A s) (hsh : Shared s) :
    (auXibTrunc A page s).2.xibIo = [] ∧ SameTables s (auXibTrunc A page s).2 ∧
      Tail (auXibTrunc A page s).2 ∧
      ((auXibTrunc A page s).2 = s ∨ ∀ m, mark (auXibTrunc A page s).2 m = true ↔
        ∃ ino, Recorded A s ino ∧ HasBit A ino m) := by
  by_cases hsz : s.siXib.size ≤ pageSize
  · rw [auXibTrunc_small hsz]
    exact ⟨hxio, SameTables.refl s, ht, Or.inl rfl⟩
  have hfull : (answer pageSize s.xibIo).1 = pageSize := by rw [hxio]; rfl
  have hrest : (answer pageSize s.xibIo).2 = [] := by rw [hxio]; rfl
  rw [auXibTrunc_scan hx hio hal hsz hfull, hrest]
  obtain ⟨herr, hio'⟩ := restoreNumbers_nil (A := A) (l := scan A s) (s := cleared s pageSize []) rfl
  have hset := restoreNumbers_ok cleared_tail herr
  refine ⟨hio', cleared_tables.trans hset.tables, hset.tail, Or.inr fun m => ?_⟩
  rw [hset.marks, mark_cleared]
  constructor
  · rintro (h | ⟨ino, hmem, hbit⟩)
    · cases h
    · exact ⟨ino, (mem_scan_iff hal hsh (ne_zero_of_hasBit hbit)).mp hmem, hbit⟩
  · rintro ⟨ino, hrec, hbit⟩
    exact Or.inr ⟨ino, (mem_scan_iff hal hsh (ne_zero_of_hasBit hbit)).mpr hrec, hbit⟩

end Trunc

end KernelPatches.Aufs
