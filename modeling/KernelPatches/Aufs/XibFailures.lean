/-
  What the bitmap loses when a transfer of the xib file fails.

  `xib_pindex` writes the cached page back, and then puts the other page into the SAME buffer: it reads
  it, or clears the buffer for a page the file does not reach.  If that second transfer fails, the
  buffer is no longer the page `si_xib_last_pindex` says it is, and nothing puts it back.

  * `Clobbers s p m`   — a failing switch to page `p` clears bit `m`: by the bytes a short read has
                         delivered, or all of the page in memory if page `p` was to be made;
  * `xibPindex_fail`   — a marked bit survives a failing switch iff the switch does not clobber it;
  * `failure_keeps_iff` — when the failing operations keep the marks of the recorded numbers.  For
    `au_xib_trunc`, which forgets all marks first, the number must have been read back before;
  * `failed_write0_iff` — `au_xino_write0` clears the bit before it clears the entry, and does not set it
    again when that fails;
  * `full_page_lost`   — the page in memory is full, no space is left for another one: all its numbers
    are free again, and the next one asked for is in use.
-/
import KernelPatches.Aufs.InodeNumbers

namespace KernelPatches.Aufs

open KernelPatches.Lib

/-! ## A failing switch -/

/-- Bit `m` of the page in memory is cleared by a switch to page `p` that fails: the page was written
    back, and then either the page is there and the bytes of it that were read have the bit clear, or
    it is not and the buffer was cleared. -/
def Clobbers (s : Sbinfo) (p m : Nat) : Prop :=
  m / pageBits = s.siXibLastPindex ∧ (answer pageSize s.xibIo).1 = pageSize ∧
    (p * pageSize + pageSize ≤ max s.siXib.size (s.siXibLastPindex * pageSize + pageSize) →
      m % pageBits / 8 < (answer pageSize (answer pageSize s.xibIo).2).1.toNat ∧
        bitAt s.siXib.data (p * pageBits + m % pageBits) = false)

/-- Bit `m` of the page in memory is set by such a switch: a byte of page `p` was read over it. -/
def Gains (s : Sbinfo) (p m : Nat) : Prop :=
  m / pageBits = s.siXibLastPindex ∧ (answer pageSize s.xibIo).1 = pageSize ∧
    p * pageSize + pageSize ≤ max s.siXib.size (s.siXibLastPindex * pageSize + pageSize) ∧
    m % pageBits / 8 < (answer pageSize (answer pageSize s.xibIo).2).1.toNat ∧
    bitAt s.siXib.data (p * pageBits + m % pageBits) = true

section Fail

variable {s : Sbinfo} {p m : Nat}

/-- **A failing switch** clears the bits it clobbers, of those that were set. -/
theorem xibPindex_fail (ht : Tail s) (h : (xibPindex p s).1 ≠ 0) :
    mark (xibPindex p s).2 m = true ↔ (mark s m = true ∧ ¬ Clobbers s p m) ∨ Gains s p m := by
  rw [xibPindex] at h ⊢
  by_cases hp : p = s.siXibLastPindex
  · rw [if_pos hp] at h
    exact absurd rfl h
  rw [if_neg hp] at h ⊢
  by_cases hf : (xibFlush s).1 ≠ pageSize
  · -- the page was not written back: the buffer is as it was
    rw [if_pos hf, xibFlush_marks]
    constructor
    · intro hm
      exact Or.inl ⟨hm, fun hc => hf hc.2.1⟩
    · rintro (⟨hm, -⟩ | hg)
      · exact hm
      · exact absurd hg.2.1 hf
  rw [if_neg hf] at h ⊢
  by_cases hl : (xibLoad p (xibFlush s).2).1 = pageSize
  · rw [if_pos hl] at h
    exact absurd rfl h
  rw [if_neg hl]
  have hfull : (answer pageSize s.xibIo).1 = pageSize := not_not.mp hf
  have ht' : Tail (xibFlush s).2 := xibFlush_tail s ht
  have hp' : p ≠ (xibFlush s).2.siXibLastPindex := hp
  have hlast : (xibLoad p (xibFlush s).2).2.siXibLastPindex = s.siXibLastPindex := xibLoad_last
  by_cases hpage : m / pageBits = s.siXibLastPindex
  case neg =>
    -- another page: the file keeps it
    have hpage' : m / pageBits ≠ (xibLoad p (xibFlush s).2).2.siXibLastPindex := by rwa [hlast]
    rw [mark_stored hpage', xibLoad_stored ht' hp', xibFlush_stored s hpage, ← mark_stored hpage]
    constructor
    · intro hm
      exact Or.inl ⟨hm, fun hc => hpage hc.1⟩
    · rintro (⟨hm, -⟩ | hg)
      · exact hm
      · exact absurd hg.1 hpage
  have hsize : (xibFlush s).2.siXib.size
      = max s.siXib.size (s.siXibLastPindex * pageSize + pageSize) := by
    show (s.siXib.write _ _ _).size = _
    rw [answer_toNat_full hfull, File.write_size (by rw [pageSize_eq]; omega)]
  rw [mark_cached hpage, mark_cached (hpage.trans hlast.symm), Clobbers, Gains, ← hsize]
  by_cases hsz : p * pageSize + pageSize ≤ (xibFlush s).2.siXib.size
  case neg =>
    -- the buffer was cleared
    have hbuf : (xibLoad p (xibFlush s).2).2.siXibBuf = fun _ => 0 := by
      rw [xibLoad, if_neg hsz]
    rw [hbuf, bitAt_zero]
    constructor
    · intro hc
      exact Bool.noConfusion hc
    · rintro (⟨-, hc⟩ | hg)
      · exact absurd ⟨hpage, hfull, fun hc' => absurd hc' hsz⟩ hc
      · exact absurd hg.2.2.1 hsz
  -- the first `k` bytes are those of page `p`
  obtain ⟨k, hk⟩ : ∃ k, k = (answer pageSize (answer pageSize s.xibIo).2).1.toNat := ⟨_, rfl⟩
  have hbuf : (xibLoad p (xibFlush s).2).2.siXibBuf = fun i =>
      if i < k then (xibFlush s).2.siXib.data (p * pageSize + i) else s.siXibBuf i := by
    have hmin : min pageSize ((xibFlush s).2.siXib.size - p * pageSize) = pageSize := by omega
    rw [xibLoad, if_pos hsz, xinoFread, hmin, hk]
    rfl
  have hstored : bitAt (xibFlush s).2.siXib.data (p * pageBits + m % pageBits)
      = bitAt s.siXib.data (p * pageBits + m % pageBits) := by
    refine xibFlush_stored s ?_
    rw [pageBits_eq]
    omega
  rw [hbuf, ← hk]
  by_cases hin : m % pageBits / 8 < k
  · have hread : bitAt (fun i => if i < k then (xibFlush s).2.siXib.data (p * pageSize + i)
        else s.siXibBuf i) (m % pageBits) = bitAt s.siXib.data (p * pageBits + m % pageBits) := by
      rw [← hstored]
      refine bitAt_congr ((if_pos hin).trans ?_) (by rw [pageBits_eq]; omega)
      congr 1
      rw [pageBits_eq, pageSize_eq]
      omega
    rw [hread]
    constructor
    · intro hb
      exact Or.inr ⟨hpage, hfull, hsz, hin, hb⟩
    · rintro (⟨-, hc⟩ | hg)
      · refine Bool.eq_true_of_not_eq_false fun hb => hc ⟨hpage, hfull, fun _ => ⟨hin, hb⟩⟩
      · exact hg.2.2.2.2
  · have hkept : bitAt (fun i => if i < k then (xibFlush s).2.siXib.data (p * pageSize + i)
        else s.siXibBuf i) (m % pageBits) = bitAt s.siXibBuf (m % pageBits) :=
      bitAt_congr (if_neg hin) rfl
    rw [hkept]
    constructor
    · intro hm
      exact Or.inl ⟨hm, fun hc => hin (hc.2.2 hsz).1⟩
    · rintro (⟨hm, -⟩ | hg)
      · exact hm
      · exact absurd hg.2.2.2.1 hin

/-- What it sets it does not clear. -/
theorem not_clobbers_of_gains (hg : Gains s p m) : ¬ Clobbers s p m := by
  intro hc
  have hb := hg.2.2.2.2
  rw [(hc.2.2 hg.2.2.1).2] at hb
  exact Bool.noConfusion hb

/-- A bit that was set survives iff the switch does not clear it. -/
theorem xibPindex_fail_marked (ht : Tail s) (h : (xibPindex p s).1 ≠ 0) (hm : mark s m = true) :
    mark (xibPindex p s).2 m = true ↔ ¬ Clobbers s p m := by
  rw [xibPindex_fail ht h]
  constructor
  · rintro (⟨-, hc⟩ | hg)
    · exact hc
    · exact not_clobbers_of_gains hg
  · intro hc
    exact Or.inl ⟨hm, hc⟩

end Fail

/-! ## The operations -/

/-- The number is marked, and a xino file records it. -/
def Held (A : Arch) (s : Sbinfo) (ino : Nat) : Prop :=
  firstIno ≤ ino ∧ Recorded A s ino ∧ mark s (ino - firstIno) = true

/-- No number that was marked and is still recorded has lost its mark. -/
def Keeps (A : Arch) (s s' : Sbinfo) : Prop :=
  ∀ ino, firstIno ≤ ino → Recorded A s' ino → mark s (ino - firstIno) = true →
    mark s' (ino - firstIno) = true

/-- The failing switch of an operation: `t` is the state it was asked in. -/
structure FailsAt (t : Sbinfo) (p : Nat) (s' : Sbinfo) : Prop where
  fails : (xibPindex p t).1 ≠ 0
  state : s' = (xibPindex p t).2

section Operations

variable {A : Arch} {s s' : Sbinfo}

/-- A failing switch changes no xino file, so it is the numbers held before that count. -/
theorem keeps_iff_held (htab : SameTables s s') :
    Keeps A s s' ↔ ∀ ino, Held A s ino → mark s' (ino - firstIno) = true := by
  constructor
  · intro hk ino hheld
    exact hk ino hheld.1 ((htab.recorded ino).mpr hheld.2.1) hheld.2.2
  · intro hk ino hino hrec hm
    exact hk ino ⟨hino, (htab.recorded ino).mp hrec, hm⟩

/-- The marks of the numbers held are kept iff what they depend on holds of each. -/
theorem keeps_iff_of {P : Nat → Prop} (htab : SameTables s s')
    (hone : ∀ ino, Held A s ino → (mark s' (ino - firstIno) = true ↔ P ino)) :
    Keeps A s s' ↔ ∀ ino, Held A s ino → P ino := by
  rw [keeps_iff_held htab]
  constructor
  · intro hk ino hheld
    exact (hone ino hheld).mp (hk ino hheld)
  · intro hk ino hheld
    exact (hone ino hheld).mpr (hk ino hheld)

/-- Where nothing but switches came before, the marks are lost that the failing switch clobbers. -/
theorem keeps_of_switched {t : Sbinfo} {p : Nat} (hsw : Switched s t) (hf : FailsAt t p s') :
    Keeps A s s' ↔ ∀ ino, Held A s ino → ¬ Clobbers t p (ino - firstIno) := by
  have htab : SameTables t s' := by
    rw [hf.state]
    exact xibPindex_tables
  refine keeps_iff_of (hsw.tables.trans htab) ?_
  intro ino hheld
  rw [hf.state]
  refine xibPindex_fail_marked hsw.tail hf.fails ?_
  rw [hsw.marks]
  exact hheld.2.2

/-- A page loop that fails does so at one switch, the ones before it having succeeded. -/
theorem xibSearch_error {cond : Nat → Bool} {next : Nat → Nat} :
    ∀ {fuel ul : Nat} {s : Sbinfo}, Tail s → (xibSearch cond next fuel ul s).1 = .error →
      ∃ t p, Switched s t ∧ FailsAt t p (xibSearch cond next fuel ul s).2 := by
  intro fuel
  induction fuel with
  | zero => intro ul s _ h; exact Search.noConfusion h
  | succ fuel ih =>
    intro ul s ht h
    rw [xibSearch] at h ⊢
    by_cases hc : cond ul = true
    case neg =>
      rw [if_neg hc] at h
      exact Search.noConfusion h
    rw [if_pos hc] at h ⊢
    by_cases hp : (xibPindex ul s).1 ≠ 0
    · rw [if_pos hp]
      exact ⟨s, ul, Switched.refl ht, hp, rfl⟩
    rw [if_neg hp] at h ⊢
    obtain ⟨hsw, -⟩ := xibPindex_ok ht (not_not.mp hp)
    by_cases hlt : findFirstZeroBit (xibPindex ul s).2.siXibBuf pageBits < pageBits
    · have h' := (congrArg Prod.fst (if_pos hlt)).symm.trans h
      exact Search.noConfusion h'
    rw [if_neg hlt] at h ⊢
    obtain ⟨t, p, hsw', hf⟩ := ih hsw.tail h
    exact ⟨t, p, hsw.trans hsw', hf⟩

theorem xibFindFree_error (ht : Tail s) (h : xibFindFree A s = .ok (.error, s')) :
    ∃ t p, Switched s t ∧ FailsAt t p s' := by
  rw [xibFindFree] at h
  rcases hh : hintFree s with e | hint
  · rw [hh] at h
    cases h
  rw [hh] at h
  cases hint with
  | true => exact Search.noConfusion (congrArg Prod.fst (Except.ok.inj h))
  | false =>
    by_cases hlt : findFirstZeroBit s.siXibBuf pageBits < pageBits
    · exact Search.noConfusion (congrArg Prod.fst (Except.ok.inj ((if_pos hlt).symm.trans h)))
    have h' := (if_neg hlt).symm.trans h
    by_cases hd : (xibSearchDown A s.siXibLastPindex s).1 = .exhausted
    · have hu := Except.ok.inj ((if_pos hd).symm.trans h')
      have hsw := (xibSearch_spec ht).2 hd
      obtain ⟨t, p, hsw', hf⟩ := xibSearch_error hsw.tail (congrArg Prod.fst hu)
      exact ⟨t, p, hsw.trans hsw', hf.fails, (congrArg Prod.snd hu).symm.trans hf.state⟩
    · have hu := Except.ok.inj ((if_neg hd).symm.trans h')
      obtain ⟨t, p, hsw', hf⟩ := xibSearch_error ht (congrArg Prod.fst hu)
      exact ⟨t, p, hsw', hf.fails, (congrArg Prod.snd hu).symm.trans hf.state⟩

theorem auXinoWrite_done {b h ino : Nat} (hx : s.xino = true) (hio : s.io = []) (hh : InXino A h) :
    (auXinoWrite A b h ino s).1 = 0 := by
  rw [auXinoWrite_nil hx hio, if_pos hh]

/-- `au_xino_write0` fails in its switch of pages, where only the xib file may fail. -/
theorem auXinoWrite0_error {b h ino : Nat} (hx : s.xino = true) (hio : s.io = []) (hh : InXino A h)
    (herr : (auXinoWrite0 A b h ino s).1 ≠ 0) :
    FailsAt s (xibCalcBit A ino).1 (auXinoWrite0 A b h ino s).2 := by
  have hoff : ¬ (!s.xino) = true := by rw [hx]; decide
  rw [auXinoWrite0, if_neg hoff] at herr ⊢
  by_cases h0 : ino = 0
  · rw [if_pos h0] at herr
    exact absurd (auXinoWrite_done hx hio hh) herr
  rw [if_neg h0] at herr ⊢
  by_cases hp : (xibPindex (xibCalcBit A ino).1 s).1 ≠ 0
  · rw [if_pos hp]
    exact ⟨hp, rfl⟩
  · have herr' := (congrArg Prod.fst (if_neg hp)).symm.trans_ne herr
    refine absurd (auXinoWrite_done ?_ ?_ hh) herr'
    · exact xibPindex_tables.xino.trans hx
    · exact xibPindex_tables.io.trans hio

/-- `au_xib_trunc` fails at its first write, or at the switch for a number of the scan. -/
theorem auXibTrunc_error {page : Nat → UInt8} (hx : s.xino = true) (hio : s.io = [])
    (hal : Aligned A s) (herr : (auXibTrunc A page s).1 ≠ 0) :
    ((answer pageSize s.xibIo).1 ≠ pageSize ∧ (auXibTrunc A page s).2
        = cleared s (answer pageSize s.xibIo).1.toNat (answer pageSize s.xibIo).2) ∨
      ∃ l1 ino l2 t, scan A s = l1 ++ ino :: l2 ∧ FailsAt t (xibCalcBit A ino).1 (auXibTrunc A page s).2 ∧
        SetsBits (cleared s pageSize (answer pageSize s.xibIo).2) (fun m => ∃ n ∈ l1, HasBit A n m) t := by
  by_cases hsz : s.siXib.size ≤ pageSize
  · rw [auXibTrunc_small hsz] at herr
    exact absurd rfl herr
  by_cases hw : (answer pageSize s.xibIo).1 = pageSize
  case neg =>
    rw [auXibTrunc_first hx hio hsz hw]
    exact Or.inl ⟨hw, rfl⟩
  right
  rw [auXibTrunc_scan hx hio hal hsz hw] at herr ⊢
  obtain ⟨l1, ino, l2, hl, -, hok, hstop, heq⟩ := restoreNumbers_stops herr
  exact ⟨l1, ino, l2, _, hl, ⟨hstop, congrArg Prod.snd heq⟩, restoreNumbers_ok cleared_tail hok⟩

theorem recorded_lt {ino : Nat} (h : Recorded A s ino) : ino < 2 ^ A.bitsPerLong := by
  obtain ⟨b, -, hIno, rfl⟩ := h
  exact entry_lt _ _

/-- After a part of the scan the marks are those of its numbers. -/
theorem mark_scanned {l1 l2 : List Nat} {ino n : Nat} {t : Sbinfo} {xibIo : List Int}
    (hal : Aligned A s) (hl : scan A s = l1 ++ ino :: l2) (hn : firstIno ≤ n)
    (hlt : n < 2 ^ A.bitsPerLong)
    (hset : SetsBits (cleared s pageSize xibIo) (fun m => ∃ n ∈ l1, HasBit A n m) t) :
    mark t (n - firstIno) = true ↔ n ∈ l1 := by
  rw [hset.marks, mark_cleared]
  constructor
  · rintro (hc | ⟨n', hmem, hle, hbit⟩)
    · exact Bool.noConfusion hc
    have hlt' : n' < 2 ^ A.bitsPerLong := by
      refine recorded_lt (recorded_of_mem_scan hal (s := s) ?_ ?_)
      · have : 0 < firstIno := by decide
        omega
      · rw [hl]
        exact List.mem_append_left _ hmem
    rw [xibBit_of_le hle hlt'] at hbit
    have heq : n' = n := by omega
    rwa [← heq]
  · intro hmem
    exact Or.inr ⟨n, hmem, hn, xibBit_of_le hn hlt⟩

/-- **When a failing operation keeps the marks.**  Only the xib file fails (`io` is empty).  A failed
    search or release keeps the marks that the failing switch, asked for in state `t`, does not
    clobber; a failed rebuild keeps those of the numbers that it has also read back before, `l1`, and
    none if the new file did not even get its first page.  (Or a bit of another page happens to stand
    in the mark's place after a short read.) -/
theorem failure_keeps_iff (hx : s.xino = true) (hio : s.io = []) (ht : Tail s) (hal : Aligned A s) :
    (∀ s', xibFindFree A s = .ok (.error, s') → ∃ t p, Switched s t ∧ FailsAt t p s' ∧
      (Keeps A s s' ↔ ∀ ino, Held A s ino → ¬ Clobbers t p (ino - firstIno))) ∧
    (∀ b h ino, InXino A h → (auXinoWrite0 A b h ino s).1 ≠ 0 →
      (Keeps A s (auXinoWrite0 A b h ino s).2 ↔ ∀ n, Held A s n →
        ¬ Clobbers s (xibCalcBit A ino).1 (n - firstIno))) ∧
    ∀ page, (auXibTrunc A page s).1 ≠ 0 →
      ((answer pageSize s.xibIo).1 ≠ pageSize ∧
        (Keeps A s (auXibTrunc A page s).2 ↔ ∀ n, ¬ Held A s n)) ∨
      ∃ l1 ino l2 t, scan A s = l1 ++ ino :: l2 ∧
        FailsAt t (xibCalcBit A ino).1 (auXibTrunc A page s).2 ∧
        (Keeps A s (auXibTrunc A page s).2 ↔ ∀ n, Held A s n →
          (n ∈ l1 ∧ ¬ Clobbers t (xibCalcBit A ino).1 (n - firstIno)) ∨
            Gains t (xibCalcBit A ino).1 (n - firstIno)) := by
  refine ⟨fun s' hf => ?_, fun b h ino hh herr => ?_, fun page herr => ?_⟩
  · obtain ⟨t, p, hsw, hfail⟩ := xibFindFree_error ht hf
    exact ⟨t, p, hsw, hfail, keeps_of_switched hsw hfail⟩
  · exact keeps_of_switched (Switched.refl ht) (auXinoWrite0_error hx hio hh herr)
  rcases auXibTrunc_error hx hio hal herr with ⟨hw, hst⟩ | ⟨l1, ino, l2, t, hl, hfail, hset⟩
  · left
    refine ⟨hw, ?_⟩
    rw [hst, keeps_iff_held cleared_tables]
    constructor
    · intro hk n hheld
      have hmark := hk n hheld
      rw [mark_cleared] at hmark
      exact Bool.noConfusion hmark
    · intro hk n hheld
      exact absurd hheld (hk n)
  · right
    refine ⟨l1, ino, l2, t, hl, hfail, ?_⟩
    have htab : SameTables t (auXibTrunc A page s).2 := by
      rw [hfail.state]
      exact xibPindex_tables
    refine keeps_iff_of ((cleared_tables.trans hset.tables).trans htab) ?_
    intro n hheld
    rw [← mark_scanned hal hl hheld.1 (recorded_lt hheld.2.1) hset,
      ← xibPindex_fail hset.tail hfail.fails, ← hfail.state]

end Operations

/-! ## Releasing a number -/

/-- A switch to page `p` fails: another page is in memory, and it cannot be written back or the page wanted
    cannot be read or made. -/
def SwitchFails (s : Sbinfo) (p : Nat) : Prop :=
  p ≠ s.siXibLastPindex ∧ ((answer pageSize s.xibIo).1 ≠ pageSize ∨
    (answer pageSize (answer pageSize s.xibIo).2).1 ≠ pageSize)

theorem xibPindex_fails_iff {s : Sbinfo} {p : Nat} : (xibPindex p s).1 ≠ 0 ↔ SwitchFails s p := by
  rw [xibPindex, SwitchFails]
  by_cases hp : p = s.siXibLastPindex
  · rw [if_pos hp]
    exact ⟨fun h => absurd rfl h, fun h => absurd hp h.1⟩
  rw [if_neg hp]
  by_cases hf : (xibFlush s).1 ≠ pageSize
  · rw [if_pos hf]
    exact ⟨fun _ => ⟨hp, Or.inl hf⟩, fun _ => transferErr_ne_zero _⟩
  rw [if_neg hf]
  -- whether it is read or made, a whole page is asked for
  have hload : (xibLoad p (xibFlush s).2).1 = (answer pageSize (answer pageSize s.xibIo).2).1 := by
    rw [xibLoad]
    split
    case isTrue hsz =>
      have hmin : min pageSize ((xibFlush s).2.siXib.size - p * pageSize) = pageSize := by omega
      show (answer (min pageSize ((xibFlush s).2.siXib.size - p * pageSize)) _).1 = _
      rw [hmin]
      rfl
    case isFalse => rfl
  by_cases hl : (xibLoad p (xibFlush s).2).1 = pageSize
  · rw [if_pos hl]
    refine ⟨fun h => absurd rfl h, fun h => ?_⟩
    rcases h.2 with h | h
    · exact absurd h hf
    · exact absurd (hload.symm.trans hl) h
  · rw [if_neg hl]
    exact ⟨fun _ => ⟨hp, Or.inr (hload ▸ hl)⟩, fun _ => transferErr_ne_zero _⟩

section Release

variable {A : Arch} {s : Sbinfo} {b h ino : Nat}

/-- A failing switch leaves the page it was to fetch as it is in the file. -/
theorem mark_of_switchFails {m : Nat} (ht : Tail s) (hf : SwitchFails s (m / pageBits)) :
    mark (xibPindex (m / pageBits) s).2 m = mark s m := by
  have hp : m / pageBits ≠ s.siXibLastPindex := hf.1
  have hiff := xibPindex_fail (m := m) ht (xibPindex_fails_iff.mpr hf)
  rw [Bool.eq_iff_iff, hiff]
  constructor
  · rintro (⟨hm, -⟩ | hg)
    · exact hm
    · exact absurd hg.1 hp
  · intro hm
    exact Or.inl ⟨hm, fun hc => hp hc.1⟩

/-- A failing write of a zero entry leaves another number than before iff a byte that was not zero was
    reached. -/
theorem xinoEntry_failed_write (hrec : xinoEntry A s b h = ino) (h0 : ino ≠ 0)
    (herr : (auXinoWrite A b h 0 s).1 ≠ 0) :
    xinoEntry A (auXinoWrite A b h 0 s).2 b h ≠ ino ↔
      InXino A h ∧ ∃ i < (answer (inoSize A) s.io).1.toNat, bytesOf ino i ≠ 0 := by
  have hx : ¬ (!s.xino) = true := by
    intro hx
    rw [auXinoWrite, if_pos hx] at herr
    exact herr rfl
  have hdone : (auXinoWrite A b h 0 s).2 = { s with
      xinoFiles := Function.update s.xinoFiles (s.siBranch b).xiFile
        (auXinoDoWrite A (s.xinoFiles (s.siBranch b).xiFile) h 0 s.io).2.1
      io := (auXinoDoWrite A (s.xinoFiles (s.siBranch b).xiFile) h 0 s.io).2.2 } := by
    rw [auXinoWrite, if_neg hx]
    dsimp only
    split
    · rfl
    · rfl
  rw [hdone, xinoEntry]
  dsimp only
  rw [Function.update_self, auXinoDoWrite]
  by_cases hin : loffMax / inoSize A - 1 < h
  · rw [if_pos hin]
    refine ⟨fun hne => absurd hrec hne, fun hc => ?_⟩
    have hle : h ≤ loffMax / inoSize A - 1 := hc.1
    omega
  rw [if_neg hin]
  obtain ⟨file, hfile⟩ : ∃ file, file = s.xinoFiles (s.siBranch b).xiFile := ⟨_, rfl⟩
  rw [xinoEntry, ← hfile] at hrec
  rw [← hfile]
  -- the entry lies in the file, and the write does not leave it
  have hsize : h * inoSize A + inoSize A ≤ file.size := by
    by_contra hc
    rw [entry, if_neg hc] at hrec
    exact h0 hrec.symm
  rw [entry, if_pos hsize] at hrec
  have hk := answer_toNat_le (inoSize A) s.io
  have hwrite : ∀ w : Int × File × List Int,
      w.2.1 = file.write (h * inoSize A) (answer (inoSize A) s.io).1.toNat (bytesOf 0) →
      (entry A w.2.1 h ≠ ino ↔ InXino A h ∧ ∃ i < (answer (inoSize A) s.io).1.toNat, bytesOf ino i ≠ 0) := by
    intro w hw
    rw [hw, entry, if_pos (Nat.le_trans hsize (File.size_le_write _ _ _ _)), ← hrec, num_ne_iff]
    constructor
    · rintro ⟨i, hi, hne⟩
      refine ⟨by rw [InXino]; omega, i, ?_, ?_⟩
      · by_contra hc
        exact hne (File.write_data_out _ _ (Or.inr (by omega)))
      · intro hz
        rw [bytesOf_num _ _ hi] at hz
        apply hne
        by_cases hik : i < (answer (inoSize A) s.io).1.toNat
        · rw [File.write_data_in _ _ hik, hz]
          show UInt8.ofNat (0 / 256 ^ i) = 0
          rw [Nat.zero_div]
          rfl
        · exact File.write_data_out _ _ (Or.inr (by omega))
    · rintro ⟨-, i, hi, hne⟩
      refine ⟨i, by omega, ?_⟩
      rw [bytesOf_num _ _ (by omega)] at hne
      rw [File.write_data_in _ _ hi]
      intro hz
      apply hne
      rw [← hz]
      show UInt8.ofNat (0 / 256 ^ i) = 0
      rw [Nat.zero_div]
      rfl
  dsimp only
  split
  · exact hwrite (0, _) rfl
  · exact hwrite (- EIO, _) rfl

/-- Where `au_xino_write0` clears the bit of a number, the number is free. -/
theorem mark_released {t : Sbinfo} {m n : Nat} (hlast : t.siXibLastPindex = m / pageBits) {io : List Int}
    {files : Nat → File} : mark { t with
      siXibBuf := clearBitAt t.siXibBuf (m % pageBits), siXibNextBit := n, io := io, xinoFiles := files } m =
      false := by
  rw [mark]
  dsimp only
  rw [if_pos hlast.symm, bitAt_clearBitAt]
  simp

/-- **A failing `au_xino_write0`.**  The bit is cleared before the entry is: where the switch to the number's
    page fails both stay; where the write of the entry fails the bit is gone, and the entry still says the
    number unless a byte of it was written over. -/
theorem failed_write0_iff (ht : Tail s) (hrec : xinoEntry A s b h = ino) (h0 : ino ≠ 0)
    (herr : (auXinoWrite0 A b h ino s).1 ≠ 0) :
    (xinoEntry A (auXinoWrite0 A b h ino s).2 b h ≠ ino ∨
        mark (auXinoWrite0 A b h ino s).2 (xibBit A ino) = true) ↔
      (SwitchFails s (xibBit A ino / pageBits) ∧ mark s (xibBit A ino) = true) ∨
      (¬ SwitchFails s (xibBit A ino / pageBits) ∧
        InXino A h ∧ ∃ i < (answer (inoSize A) s.io).1.toNat, bytesOf ino i ≠ 0) := by
  have hx : ¬ (!s.xino) = true := by
    intro hx
    rw [auXinoWrite0, if_pos hx] at herr
    exact herr rfl
  rw [auXinoWrite0, if_neg hx, if_neg h0] at herr ⊢
  dsimp only [xibCalcBit] at herr ⊢
  have htab := xibPindex_tables (s := s) (p := xibBit A ino / pageBits)
  by_cases hf : SwitchFails s (xibBit A ino / pageBits)
  · rw [if_pos (xibPindex_fails_iff.mpr hf), mark_of_switchFails ht hf]
    have hsame : xinoEntry A (xibPindex (xibBit A ino / pageBits) s).2 b h = ino := by
      rw [xinoEntry, htab.siBranch, htab.xinoFiles]
      exact hrec
    constructor
    · rintro (hne | hm)
      · exact absurd hsame hne
      · exact Or.inl ⟨hf, hm⟩
    · rintro (⟨-, hm⟩ | ⟨hnf, -⟩)
      · exact Or.inr hm
      · exact absurd hf hnf
  have hok : ¬ (xibPindex (xibBit A ino / pageBits) s).1 ≠ 0 := fun hc => hf (xibPindex_fails_iff.mp hc)
  rw [if_neg hok] at herr ⊢
  obtain ⟨t, htdef⟩ : ∃ t : Sbinfo, t = { (xibPindex (xibBit A ino / pageBits) s).2 with
      siXibBuf := clearBitAt (xibPindex (xibBit A ino / pageBits) s).2.siXibBuf (xibBit A ino % pageBits)
      siXibNextBit := (xibBit A ino % pageBits : Nat) } := ⟨_, rfl⟩
  rw [← htdef] at herr ⊢
  have hrec' : xinoEntry A t b h = ino := by
    rw [htdef, xinoEntry]
    show entry A ((xibPindex _ s).2.xinoFiles ((xibPindex _ s).2.siBranch b).xiFile) h = ino
    rw [htab.siBranch, htab.xinoFiles]
    exact hrec
  have hio : t.io = s.io := by rw [htdef]; exact htab.io
  have hlast : (xibPindex (xibBit A ino / pageBits) s).2.siXibLastPindex = xibBit A ino / pageBits :=
    (xibPindex_ok ht (not_not.mp hok)).2
  have hgone : mark (auXinoWrite A b h 0 t).2 (xibBit A ino) = false := by
    rw [auXinoWrite]
    split
    · rw [htdef]
      exact mark_released hlast
    · dsimp only
      split
      · rw [htdef]
        exact mark_released hlast
      · rw [htdef]
        exact mark_released hlast
  rw [hgone, xinoEntry_failed_write hrec' h0 herr, hio]
  constructor
  · rintro (hw | hm)
    · exact Or.inr ⟨hf, hw⟩
    · exact absurd hm Bool.false_ne_true
  · rintro (⟨hf', -⟩ | ⟨-, hw⟩)
    · exact absurd hf' hf
    · exact Or.inl hw

/-- Number 11 is in use for inode 5 of the branch, and the next write to the xino file fails. -/
def oneRecorded : Sbinfo where
  xino := true
  siBend := 0
  siBranch := fun _ => ⟨0, 0⟩
  xinoFiles := fun _ => writeEntry .lp64 .empty 5 11
  siXib := .empty
  siXibBuf := setBitAt (fun _ => 0) 0
  siXibLastPindex := 0
  siXibNextBit := 1
  uniq := fun n => n
  io := [- EIO]
  xibIo := []

theorem oneRecorded_tail : Tail oneRecorded := fun m _ _ => bitAt_zero m

theorem oneRecorded_entry : xinoEntry .lp64 oneRecorded 0 5 = 11 := by
  decide +kernel

theorem failed_write0_one :
    (xinoEntry .lp64 (auXinoWrite0 .lp64 0 5 11 oneRecorded).2 0 5 ≠ 11 ∨
        mark (auXinoWrite0 .lp64 0 5 11 oneRecorded).2 (xibBit .lp64 11) = true) ↔
      (SwitchFails oneRecorded (xibBit .lp64 11 / pageBits) ∧ mark oneRecorded (xibBit .lp64 11) = true) ∨
      (¬ SwitchFails oneRecorded (xibBit .lp64 11 / pageBits) ∧
        InXino .lp64 5 ∧ ∃ i < (answer (inoSize .lp64) oneRecorded.io).1.toNat, bytesOf 11 i ≠ 0) :=
  failed_write0_iff oneRecorded_tail oneRecorded_entry (by decide) (by decide +kernel)

/-- **A number in use is given again**: its bit is cleared, the entry is not, and the next number asked for
    is this one. -/
theorem freed_and_recorded : (auXinoWrite0 .lp64 0 5 11 oneRecorded).1 = - EIO ∧
    mark oneRecorded (xibBit .lp64 11) = true ∧ xinoEntry .lp64 oneRecorded 0 5 = 11 ∧
    mark (auXinoWrite0 .lp64 0 5 11 oneRecorded).2 (xibBit .lp64 11) = false ∧
    xinoEntry .lp64 (auXinoWrite0 .lp64 0 5 11 oneRecorded).2 0 5 = 11 ∧
    (auXinoNewIno .lp64 (auXinoWrite0 .lp64 0 5 11 oneRecorded).2).toOption.map Prod.fst = some 11 := by
  refine ⟨?_, ?_, ?_, ?_, ?_, ?_⟩
  all_goals decide +kernel

end Release

/-! ## A mark that is lost -/

/-- All numbers of the one page of the file are marked, 11 is in use for inode 5 of the branch, and there
    is no space for another page: the page is written back, the new one is not. -/
def fullPage : Sbinfo where
  xino := true
  siBend := 0
  siBranch := fun _ => ⟨0, 0⟩
  xinoFiles := fun _ => writeEntry .lp64 .empty 5 11
  siXib := File.empty.write 0 pageSize fun _ => 255
  siXibBuf := fun _ => 255
  siXibLastPindex := 0
  siXibNextBit := 32768
  uniq := fun n => n
  io := []
  xibIo := [4096, -28]

theorem bitAt_full (m : Nat) : bitAt (fun _ => 255) m = true := by
  show Nat.testBit (2 ^ 8 - 1) (m % 8) = true
  rw [Nat.testBit_two_pow_sub_one]
  exact decide_eq_true (by omega)

theorem findFirstZeroBit_full (n : Nat) : findFirstZeroBit (fun _ => 255) n = n := by
  rcases findFirstZeroBit_spec (fun _ => 255) n with ⟨-, hbit⟩ | ⟨h, -⟩
  · rw [bitAt_full] at hbit
    exact Bool.noConfusion hbit
  · exact h

theorem fullPage_aligned : Aligned .lp64 fullPage :=
  fun _ => writeEntry_aligned (Nat.dvd_zero _) 5 11

theorem fullPage_tail : Tail fullPage := by
  intro m hm _
  have hout : 0 + pageSize ≤ m / 8 := by
    have hm' : m / pageBits ≠ 0 := hm
    rw [pageBits_eq] at hm'
    rw [pageSize_eq]
    omega
  have hdata : fullPage.siXib.data (m / 8) = 0 :=
    File.write_data_out .empty (fun _ => 255) (Or.inr hout)
  rw [← bitAt_zero m]
  exact bitAt_congr hdata rfl

/-- Below page 0 there is no page. -/
theorem xibSearchDown_zero {A : Arch} (s : Sbinfo) : xibSearchDown A 0 s = (.exhausted, s) := by
  have hpos : 0 < 2 ^ A.bitsPerLong := Nat.two_pow_pos _
  rw [xibSearchDown, xibSearch, if_neg]
  intro h
  have hlt : (0 + 2 ^ A.bitsPerLong - 1) % 2 ^ A.bitsPerLong < 2 ^ A.bitsPerLong - 1 :=
    of_decide_eq_true h
  rw [Nat.zero_add, Nat.mod_eq_of_lt (by omega)] at hlt
  exact Nat.lt_irrefl _ hlt

/-- The search goes up to page 1: page 0 is written back, and the buffer cleared. -/
theorem fullPage_search : ∃ s', xibFindFree .lp64 fullPage = .ok (.error, s') ∧
    s'.siXibBuf = (fun _ => 0) ∧ s'.siXibLastPindex = 0 ∧ s'.siXibNextBit = 32768 ∧ s'.xino = true := by
  have hhint : hintFree fullPage = .ok false := rfl
  have hfull : ¬ findFirstZeroBit fullPage.siXibBuf pageBits < pageBits := by
    show ¬ findFirstZeroBit (fun _ => 255) pageBits < pageBits
    rw [findFirstZeroBit_full]
    exact Nat.lt_irrefl _
  have hdown : xibSearchDown .lp64 fullPage.siXibLastPindex fullPage = (.exhausted, fullPage) :=
    xibSearchDown_zero fullPage
  have hup : (xibSearchUp .lp64 fullPage.siXibLastPindex fullPage).1 = .error := rfl
  refine ⟨(xibSearchUp .lp64 fullPage.siXibLastPindex fullPage).2, ?_, rfl, rfl, rfl, rfl⟩
  rw [xibFindFree, hhint]
  refine (if_neg hfull).trans ?_
  simp only [hdown, if_true]
  rw [← hup]

/-- **All the marks of the page in memory are lost**, and the next number given is in use. -/
theorem full_page_lost : ∃ s', auXinoNewIno .lp64 fullPage = .ok (0, s') ∧
    Held .lp64 fullPage 11 ∧ ¬ Keeps .lp64 fullPage s' ∧ Recorded .lp64 s' 11 ∧
    ∃ s'', auXinoNewIno .lp64 s' = .ok (11, s'') := by
  obtain ⟨s', hfind, hbuf, hlast, hnext, hx⟩ := fullPage_search
  have hrec : Recorded .lp64 fullPage 11 := by
    refine ⟨0, Nat.le_refl _, 5, ?_⟩
    exact (entry_writeEntry (Nat.dvd_zero _) (by decide) 5 5).trans (if_pos rfl)
  have hmark : mark fullPage (11 - firstIno) = true := by
    rw [mark_cached (by rfl)]
    exact bitAt_full _
  have hheld : Held .lp64 fullPage 11 := ⟨by decide, hrec, hmark⟩
  have htab : SameTables fullPage s' := by
    obtain ⟨t, p, hsw, hfail⟩ := xibFindFree_error fullPage_tail hfind
    refine hsw.tables.trans ?_
    rw [hfail.state]
    exact xibPindex_tables
  have hrec' : Recorded .lp64 s' 11 := (htab.recorded 11).mpr hrec
  have hlost : mark s' (11 - firstIno) = false := by
    rw [mark_cached hlast.symm, hbuf]
    exact bitAt_zero _
  -- the hint points past the page: its first clear bit is taken
  have hfree : findFirstZeroBit (fun _ => 0) pageBits = 0 :=
    findFirstZeroBit_clear (by decide) (bitAt_zero 0)
  have hfind' : xibFindFree .lp64 s' = .ok (.found 0, s') := by
    have hhint : hintFree s' = .ok false := by
      rw [hintFree, hnext]
      rfl
    rw [xibFindFree, hhint, hbuf, hfree]
    rfl
  have hnew : ∃ s'', auXinoNewIno .lp64 s' = .ok (11, s'') := by
    have hcalc : xibCalcIno .lp64 s'.siXibLastPindex 0 = 11 := by
      rw [hlast]
      rfl
    rw [auXinoNewIno, hfind', hx, ← hcalc]
    exact ⟨_, rfl⟩
  refine ⟨s', ?_, hheld, ?_, hrec', hnew⟩
  · rw [auXinoNewIno, hfind]
    rfl
  · intro hk
    have hmark := hk 11 (by decide) hrec' hheld.2.2
    rw [hlost] at hmark
    exact Bool.noConfusion hmark

/-- The search that loses them is one of `failure_keeps_iff`: a switch that clobbers bit 0. -/
theorem failure_keeps_full : ∃ s', xibFindFree .lp64 fullPage = .ok (.error, s') ∧
    ∃ t p, Switched fullPage t ∧ FailsAt t p s' ∧
      (Keeps .lp64 fullPage s' ↔
        ∀ ino, Held .lp64 fullPage ino → ¬ Clobbers t p (ino - firstIno)) := by
  obtain ⟨s', hfind, -⟩ := fullPage_search
  exact ⟨s', hfind, (failure_keeps_iff rfl rfl fullPage_tail fullPage_aligned).1 s' hfind⟩

end KernelPatches.Aufs
