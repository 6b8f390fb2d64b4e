/-
  aufs: the page loops of `au_xino_new_ino`.

  A new number is looked for at the hint `si_xib_next_bit`, then on the page in memory, then on the pages below it
  down to page 0, then on those above it up to the first page behind the file.  The loops change the page in
  memory as they go, and the first one ends by the wrap-around of an unsigned index.

  Both loops are a WALK over a list of pages (`xibWalk`), and the lists are known before the walk begins.  The
  second loop ends with a page that the file does not cover, and such a page is clear.  So a walk that gets there
  finds a bit, and `BUG()` is not reached.

  The hint is another matter.  It is an `int`, it is counted up with every number that is given, and only
  `au_xino_write0` sets it back.

  * `xibSearchDown_eq`, `xibSearchUp_eq` — the loops are walks;
  * `xibWalk_finds`       — a walk finds a bit as soon as one of its pages has a clear one;
  * `allocates_iff`       — in one state: the allocation is as it should be, exactly when the hint is not negative;
  * `newIno_ends_iff`     — in every run;
  * `hint_wraps`          — `2 ^ 31` numbers are given, and none is given back.
-/
import KernelPatches.Aufs.XinoRemount

namespace KernelPatches.Aufs

open KernelPatches.Lib

/-! ## A walk over pages -/

/-- The pages are brought into memory one after another, until one of them has a clear bit. -/
def xibWalk : List Nat → Sbinfo → Search × Sbinfo
  | [], s => (.exhausted, s)
  | p :: ps, s =>
    let l := xibPindex p s
    if l.1 ≠ 0 then (.error, l.2)
    else
      let freeBit := findFirstZeroBit l.2.siXibBuf pageBits
      if freeBit < pageBits then (.found freeBit, l.2) else xibWalk ps l.2

/-- `for (ul = …; cond ul; ul = next ul)` runs through these. -/
def LoopPages (cond : Nat → Bool) (next : Nat → Nat) : Nat → List Nat → Prop
  | ul, [] => cond ul = false
  | ul, p :: ps => p = ul ∧ cond ul = true ∧ LoopPages cond next (next ul) ps

/-- The pages of the bitmap in the file and in memory are below `n`. -/
structure PagesBelow (n : Nat) (s : Sbinfo) : Prop where
  size : s.siXib.size ≤ n * pageSize
  last : s.siXibLastPindex < n

section Walk

variable {A : Arch} {s s' : Sbinfo}

/-- A page loop is a walk over its pages, by induction on them. -/
theorem xibSearch_eq_walk {cond : Nat → Bool} {next : Nat → Nat} : ∀ {ps : List Nat} {ul fuel : Nat} {s : Sbinfo},
    LoopPages cond next ul ps → ps.length < fuel → xibSearch cond next fuel ul s = xibWalk ps s := by
  intro ps
  induction ps with
  | nil =>
    intro ul fuel s hend hf
    obtain ⟨fuel, rfl⟩ := Nat.exists_eq_succ_of_ne_zero (Nat.ne_of_gt hf)
    have hcond : ¬ cond ul = true := by rw [show cond ul = false from hend]; exact Bool.false_ne_true
    rw [xibSearch, if_neg hcond, xibWalk]
  | cons p ps ih =>
    intro ul fuel s hpages hf
    obtain ⟨rfl, hcond, hrest⟩ := hpages
    obtain ⟨fuel, rfl⟩ := Nat.exists_eq_succ_of_ne_zero (Nat.ne_of_gt (Nat.lt_of_le_of_lt (Nat.zero_le _) hf))
    rw [xibSearch, if_pos hcond, xibWalk]
    have hlen : ps.length < fuel := Nat.lt_of_succ_lt_succ hf
    simp only [ih hrest hlen]

/-- `ul--` from `n` on ends by wrapping around below page 0. -/
theorem loopPages_down (A : Arch) : ∀ {n : Nat}, n < 2 ^ A.bitsPerLong →
    LoopPages (fun ul => ul < 2 ^ A.bitsPerLong - 1) (fun ul => (ul + 2 ^ A.bitsPerLong - 1) % 2 ^ A.bitsPerLong)
      ((n + 2 ^ A.bitsPerLong - 1) % 2 ^ A.bitsPerLong) (List.range n).reverse := by
  intro n
  induction n with
  | zero =>
    intro h0
    have hmax : (0 + 2 ^ A.bitsPerLong - 1) % 2 ^ A.bitsPerLong = 2 ^ A.bitsPerLong - 1 := by
      rw [Nat.zero_add]
      exact Nat.mod_eq_of_lt (Nat.sub_lt h0 Nat.one_pos)
    show decide _ = false
    rw [hmax]
    exact decide_eq_false (Nat.lt_irrefl _)
  | succ n ih =>
    intro hn
    have hdec : (n + 1 + 2 ^ A.bitsPerLong - 1) % 2 ^ A.bitsPerLong = n := by
      rw [show n + 1 + 2 ^ A.bitsPerLong - 1 = n + 2 ^ A.bitsPerLong by omega, Nat.add_mod_right]
      exact Nat.mod_eq_of_lt (by omega)
    rw [hdec, List.range_succ, List.reverse_append]
    exact ⟨rfl, decide_eq_true (by omega), ih (by omega)⟩

/-- `ul++` from `ul` on ends behind `pend`. -/
theorem loopPages_up (A : Arch) {pend : Nat} (hp : pend + 1 < 2 ^ A.bitsPerLong) : ∀ {n ul : Nat},
    ul + n = pend + 1 → LoopPages (fun ul => ul ≤ pend) (fun ul => (ul + 1) % 2 ^ A.bitsPerLong)
      (ul % 2 ^ A.bitsPerLong) (List.range' ul n) := by
  intro n
  induction n with
  | zero =>
    intro ul hul
    show decide _ = false
    rw [Nat.mod_eq_of_lt (by omega)]
    exact decide_eq_false (by omega)
  | succ n ih =>
    intro ul hul
    rw [List.range'_succ, Nat.mod_eq_of_lt (show ul < 2 ^ A.bitsPerLong by omega)]
    exact ⟨rfl, decide_eq_true (by omega), ih (by omega)⟩

/-- **The loop down** visits the pages below, each once, and ends at page 0. -/
theorem xibSearchDown_eq {last : Nat} (h : last < 2 ^ A.bitsPerLong) :
    xibSearchDown A last s = xibWalk (List.range last).reverse s := by
  refine xibSearch_eq_walk (loopPages_down A h) ?_
  rw [List.length_reverse, List.length_range]
  exact Nat.lt_succ_self last

/-- **The loop up** visits the pages above, up to the one behind the file. -/
theorem xibSearchUp_eq {last : Nat} (hlast : last ≤ s.siXib.size / pageSize)
    (hp : s.siXib.size / pageSize + 1 < 2 ^ A.bitsPerLong) :
    xibSearchUp A last s = xibWalk (List.range' (last + 1) (s.siXib.size / pageSize - last)) s := by
  refine xibSearch_eq_walk (loopPages_up A hp (by omega)) ?_
  rw [List.length_range']
  omega

/-! ## What a walk finds -/

/-- A page that is left is in the file. -/
theorem xibPindex_leaves {p : Nat} (hp : p ≠ s.siXibLastPindex) (h : (xibPindex p s).1 = 0) :
    (s.siXibLastPindex + 1) * pageSize ≤ (xibPindex p s).2.siXib.size := by
  rw [xibPindex, if_neg hp] at h ⊢
  by_cases hf : (xibFlush s).1 ≠ pageSize
  · rw [if_pos hf] at h
    exact absurd h (transferErr_ne_zero _)
  rw [if_neg hf] at h ⊢
  have hcov := Nat.le_trans (xibFlush_covers s (not_not.mp hf)) (xibLoad_size (p := p))
  by_cases hl : (xibLoad p (xibFlush s).2).1 = pageSize
  · rw [if_pos hl]
    exact hcov
  · rw [if_neg hl] at h
    exact absurd h (transferErr_ne_zero _)

/-- A walk that finds nothing has changed no bit.  The page in memory is the one it was or one of the walk, and
    if it is not the one it was, that one is in the file. -/
structure Walked (ps : List Nat) (s s' : Sbinfo) : Prop where
  switched : Switched s s'
  last : s'.siXibLastPindex = s.siXibLastPindex ∨ s'.siXibLastPindex ∈ ps
  covers : ps.head? = none ∨ ps.head? = some s.siXibLastPindex ∨
    (s.siXibLastPindex + 1) * pageSize ≤ s'.siXib.size
  xibIo : s'.xibIo = []

theorem xibWalk_exhausted : ∀ {ps : List Nat} {s s' : Sbinfo}, Tail s → s.xibIo = [] →
    xibWalk ps s = (.exhausted, s') → Walked ps s s' := by
  intro ps
  induction ps with
  | nil =>
    intro s s' ht hio h
    obtain rfl : s = s' := (Prod.mk.inj h).2
    exact ⟨Switched.refl ht, Or.inl rfl, Or.inl rfl, hio⟩
  | cons p ps ih =>
    intro s s' ht hio h
    obtain ⟨hp, hio'⟩ := xibPindex_nil (p := p) hio
    obtain ⟨hsw, hlast⟩ := xibPindex_ok ht hp
    rw [xibWalk] at h
    rw [if_neg (not_not.mpr hp)] at h
    by_cases hlt : findFirstZeroBit (xibPindex p s).2.siXibBuf pageBits < pageBits
    · rw [if_pos hlt] at h
      cases (Prod.mk.inj h).1
    rw [if_neg hlt] at h
    have hw := ih hsw.tail hio' h
    refine ⟨hsw.trans hw.switched, Or.inr ?_, Or.inr ?_, hw.xibIo⟩
    · rcases hw.last with hl | hl
      · rw [hl, hlast]
        exact List.mem_cons_self
      · exact List.mem_cons_of_mem p hl
    · by_cases hne : p = s.siXibLastPindex
      · exact Or.inl (congrArg some hne)
      · exact Or.inr (Nat.le_trans (xibPindex_leaves hne hp) hw.switched.size)

/-- **A walk finds a bit** as soon as one of its pages has a clear one. -/
theorem xibWalk_finds : ∀ {ps : List Nat} {s : Sbinfo}, Tail s → s.xibIo = [] →
    (∃ p ∈ ps, ∃ b < pageBits, mark s (p * pageBits + b) = false) → ∃ b s', xibWalk ps s = (.found b, s') := by
  intro ps
  induction ps with
  | nil =>
    rintro s ht hio ⟨p, hp, -⟩
    exact absurd hp List.not_mem_nil
  | cons p ps ih =>
    rintro s ht hio ⟨q, hq, b, hb, hclear⟩
    obtain ⟨hp, hio'⟩ := xibPindex_nil (p := p) hio
    obtain ⟨hsw, hlast⟩ := xibPindex_ok ht hp
    rw [xibWalk]
    rw [if_neg (not_not.mpr hp)]
    rcases findFirstZeroBit_spec (xibPindex p s).2.siXibBuf pageBits with ⟨hlt, -⟩ | ⟨hfull, hbits⟩
    · rw [if_pos hlt]
      exact ⟨_, _, rfl⟩
    rw [if_neg (by omega)]
    refine ih hsw.tail hio' ⟨q, ?_, b, hb, (hsw.marks _).trans hclear⟩
    -- page `p` is full, so that the clear bit is on another one
    refine (List.mem_cons.mp hq).resolve_left ?_
    rintro rfl
    have hcached : mark (xibPindex q s).2 (absBit (xibPindex q s).2 b) = true := by
      rw [mark_cached (absBit_div _ hb), absBit_mod _ hb]
      exact hbits b hb
    rw [absBit, hlast, hsw.marks, hclear] at hcached
    exact Bool.noConfusion hcached

theorem xibWalk_fuel : ∀ (ps : List Nat) (s : Sbinfo), (xibWalk ps s).1 ≠ .outOfFuel := by
  intro ps
  induction ps with
  | nil => exact fun s => Search.noConfusion
  | cons p ps ih =>
    intro s
    rw [xibWalk]
    by_cases herr : (xibPindex p s).1 ≠ 0
    · rw [if_pos herr]
      exact Search.noConfusion
    rw [if_neg herr]
    by_cases hlt : findFirstZeroBit (xibPindex p s).2.siXibBuf pageBits < pageBits
    · rw [if_pos hlt]
      exact Search.noConfusion
    · rw [if_neg hlt]
      exact ih _

/-- Walking over pages below `n` makes no other pages. -/
theorem xibPindex_below {n p : Nat} (h : PagesBelow n s) (hp : p < n) : PagesBelow n (xibPindex p s).2 := by
  have hwrite : ∀ {f : File} {q k : Nat} {src : Nat → UInt8}, f.size ≤ n * pageSize → q < n → k ≤ pageSize →
      (f.write (q * pageSize) k src).size ≤ n * pageSize := by
    intro f q k src hf hq hk
    have hle : (q + 1) * pageSize ≤ n * pageSize := Nat.mul_le_mul_right _ hq
    rw [Nat.add_mul, Nat.one_mul] at hle
    by_cases h0 : k = 0
    · rw [h0]
      exact hf
    · rw [File.write_size h0]
      omega
  have hflush : (xibFlush s).2.siXib.size ≤ n * pageSize :=
    hwrite h.size h.last (answer_toNat_le pageSize s.xibIo)
  have hload : (xibLoad p (xibFlush s).2).2.siXib.size ≤ n * pageSize := by
    by_cases hsz : p * pageSize + pageSize ≤ (xibFlush s).2.siXib.size
    · rw [xibLoad_read hsz]
      exact hflush
    · rw [xibLoad_made hsz]
      exact hwrite hflush hp (answer_toNat_le pageSize _)
  rw [xibPindex]
  by_cases hne : p = s.siXibLastPindex
  · rw [if_pos hne]
    exact h
  rw [if_neg hne]
  by_cases hf : (xibFlush s).1 ≠ pageSize
  · rw [if_pos hf]
    exact ⟨hflush, h.last⟩
  rw [if_neg hf]
  by_cases hl : (xibLoad p (xibFlush s).2).1 = pageSize
  · rw [if_pos hl]
    exact ⟨hload, hp⟩
  · rw [if_neg hl]
    exact ⟨hload, by rw [xibLoad_last, xibFlush_last]; exact h.last⟩

theorem xibWalk_below {n : Nat} : ∀ {ps : List Nat} {s : Sbinfo}, PagesBelow n s → (∀ p ∈ ps, p < n) →
    PagesBelow n (xibWalk ps s).2 := by
  intro ps
  induction ps with
  | nil => exact fun h _ => h
  | cons p ps ih =>
    intro s h hps
    have hp := xibPindex_below h (hps p List.mem_cons_self)
    rw [xibWalk]
    by_cases herr : (xibPindex p s).1 ≠ 0
    · rw [if_pos herr]
      exact hp
    rw [if_neg herr]
    by_cases hlt : findFirstZeroBit (xibPindex p s).2.siXibBuf pageBits < pageBits
    · rw [if_pos hlt]
      exact hp
    · rw [if_neg hlt]
      exact ih hp fun q hq => hps q (List.mem_cons_of_mem p hq)

end Walk

/-! ## One allocation -/

/-- `ULONG_MAX` pages are not used up: those of the file and of the memory are below `ULONG_MAX - 1`. -/
def InUlong (A : Arch) (s : Sbinfo) : Prop := PagesBelow (2 ^ A.bitsPerLong - 2) s

/-- The pages above: there are some up to one that the file does not cover, and that one is clear. -/
structure PagesAbove (A : Arch) (s t : Sbinfo) : Prop where
  lt : s.siXibLastPindex < t.siXib.size / pageSize
  walk : xibSearchUp A s.siXibLastPindex t =
    xibWalk (List.range' (s.siXibLastPindex + 1) (t.siXib.size / pageSize - s.siXibLastPindex)) t
  fresh : t.siXib.size < (t.siXib.size / pageSize + 1) * pageSize
  clear : ∀ b < pageBits, mark t (t.siXib.size / pageSize * pageBits + b) = false

/-- **An allocation as it should be.**  The bits asked for are on the page, the loops visit the pages they should
    and end, and the number returned is that of a bit that was clear. -/
structure Allocates (A : Arch) (s : Sbinfo) : Prop where
  hint : s.siXibNextBit < pageBits → 0 ≤ s.siXibNextBit
  down : xibSearchDown A s.siXibLastPindex s = xibWalk (List.range s.siXibLastPindex).reverse s
  up : ∀ t, xibSearchDown A s.siXibLastPindex s = (.exhausted, t) → PagesAbove A s t
  returns : ∃ b t s', xibFindFree A s = .ok (.found b, t) ∧ b < pageBits ∧ mark s (absBit t b) = false ∧
    auXinoNewIno A s = .ok (xibCalcIno A t.siXibLastPindex b, s')

section Allocation

variable {A : Arch} {s s' t : Sbinfo} {b : Nat}

theorem pageSize_pos : 0 < pageSize := by
  rw [pageSize_eq]
  exact Nat.succ_pos _

theorem InUlong.last_lt (h : InUlong A s) : s.siXibLastPindex < 2 ^ A.bitsPerLong :=
  Nat.lt_of_lt_of_le h.last (Nat.sub_le _ _)

/-- A run short of `2 ^ 32` pages is in range. -/
theorem PagesBelow.inUlong {n : Nat} (h : PagesBelow (n + 1) s) (hn : n ≤ 2 ^ 31) : InUlong .lp64 s := by
  have hle : n + 1 ≤ 2 ^ Arch.lp64.bitsPerLong - 2 := by
    rw [show Arch.lp64.bitsPerLong = 64 from rfl]
    omega
  exact ⟨Nat.le_trans h.size (Nat.mul_le_mul_right _ hle), Nat.lt_of_lt_of_le h.last hle⟩

theorem PagesBelow.pend_le {n : Nat} (h : PagesBelow n s) : s.siXib.size / pageSize ≤ n := by
  refine Nat.le_of_mul_le_mul_right ?_ pageSize_pos
  exact Nat.le_trans (Nat.div_mul_le_self _ _) h.size

/-- The pages below the one in memory are no new ones. -/
theorem walkDown_below {n : Nat} {r : Search} (h : PagesBelow n s)
    (hd : xibWalk (List.range s.siXibLastPindex).reverse s = (r, t)) : PagesBelow n t := by
  have hlt : ∀ p ∈ (List.range s.siXibLastPindex).reverse, p < n := by
    intro p hp
    exact Nat.lt_trans (List.mem_range.mp (List.mem_reverse.mp hp)) h.last
  have hbelow := xibWalk_below h hlt
  rw [hd] at hbelow
  exact hbelow

/-- The state behind an allocation. -/
def allocated (t : Sbinfo) (b : Nat) : Sbinfo :=
  { t with siXibBuf := setBitAt t.siXibBuf b, siXibNextBit := wrap32 (t.siXibNextBit + 1) }

theorem auXinoNewIno_of (hx : s.xino = true) (h : xibFindFree A s = .ok (.found b, t)) :
    auXinoNewIno A s = .ok (xibCalcIno A t.siXibLastPindex b, allocated t b) := by
  have hoff : ¬ (!s.xino) = true := by rw [hx]; decide
  rw [auXinoNewIno, if_neg hoff]
  simp only [h]
  rfl

/-- **After the loop down** the file covers the page it began at, and the loop up has a page to find. -/
theorem pagesAbove (ht : Tail s) (hio : s.xibIo = []) (hpage : pageSize ≤ s.siXib.size) (hroom : InUlong A s)
    (hd : xibSearchDown A s.siXibLastPindex s = (.exhausted, t)) : PagesAbove A s t := by
  rw [xibSearchDown_eq hroom.last_lt] at hd
  have hw := xibWalk_exhausted ht hio hd
  have hbelow : PagesBelow (2 ^ A.bitsPerLong - 2) t := walkDown_below hroom hd
  -- page 0 is in the file from the beginning, another one since it was left
  have hcovers : (s.siXibLastPindex + 1) * pageSize ≤ t.siXib.size := by
    rcases hlast : s.siXibLastPindex with _ | n
    · have hsize := hw.switched.size
      omega
    · have hhead : (List.range s.siXibLastPindex).reverse.head? = some n := by
        rw [hlast, List.range_succ, List.reverse_append]
        rfl
      rw [← hlast]
      rcases hw.covers with hnone | hsame | hcov
      · rw [hhead] at hnone
        cases hnone
      · rw [hhead, hlast] at hsame
        exact absurd (Option.some.inj hsame) (Nat.ne_of_lt (Nat.lt_succ_self n))
      · exact hcov
  have hlt : s.siXibLastPindex < t.siXib.size / pageSize := by
    have h := Nat.div_le_div_right (c := pageSize) hcovers
    rw [Nat.mul_div_cancel _ pageSize_pos] at h
    exact h
  have hfresh : t.siXib.size < (t.siXib.size / pageSize + 1) * pageSize := by
    rw [Nat.mul_comm]
    exact Nat.lt_mul_div_succ _ pageSize_pos
  have hle : t.siXibLastPindex ≤ s.siXibLastPindex := by
    rcases hw.last with h | h
    · exact Nat.le_of_eq h
    · exact Nat.le_of_lt (List.mem_range.mp (List.mem_reverse.mp h))
  have hpend := hbelow.pend_le
  have hlast := hbelow.last
  refine ⟨hlt, xibSearchUp_eq (Nat.le_of_lt hlt) (by omega), hfresh, fun b hb => ?_⟩
  have hdiv : (t.siXib.size / pageSize * pageBits + b) / pageBits = t.siXib.size / pageSize := by
    rw [pageBits_eq] at hb ⊢
    omega
  have hother : (t.siXib.size / pageSize * pageBits + b) / pageBits ≠ t.siXibLastPindex := by
    rw [hdiv]
    omega
  rw [mark_stored hother]
  exact hw.switched.tail _ hother (by rw [hdiv]; exact hfresh)

/-- The search finds a bit, unless the hint is negative. -/
theorem xibFindFree_finds (ht : Tail s) (hio : s.xibIo = []) (hpage : pageSize ≤ s.siXib.size)
    (hroom : InUlong A s) (hhint : 0 ≤ s.siXibNextBit) : ∃ b t, xibFindFree A s = .ok (.found b, t) := by
  have hok : ∃ free, hintFree s = .ok free := by
    rw [hintFree, if_neg (Int.not_lt.mpr hhint)]
    by_cases hlt : s.siXibNextBit < pageBits
    · rw [if_pos hlt]
      exact ⟨_, rfl⟩
    · rw [if_neg hlt]
      exact ⟨_, rfl⟩
  obtain ⟨free, hfree⟩ := hok
  rw [xibFindFree]
  rw [hfree]
  cases free with
  | true => exact ⟨_, _, rfl⟩
  | false =>
    by_cases hlt : findFirstZeroBit s.siXibBuf pageBits < pageBits
    · exact ⟨_, _, if_pos hlt⟩
    show ∃ b t, (if findFirstZeroBit s.siXibBuf pageBits < pageBits then _ else _) = _
    rw [if_neg hlt]
    rcases hd : xibSearchDown A s.siXibLastPindex s with ⟨r, t⟩
    cases r with
    | found b => exact ⟨b, t, rfl⟩
    | error => exact absurd (congrArg Prod.fst hd) (xibSearchDown_nil hio).1
    | outOfFuel =>
      -- the loop down has fuel for all pages below
      have hsearch := xibSearchDown_eq (s := s) hroom.last_lt
      rw [hd] at hsearch
      exact absurd (congrArg Prod.fst hsearch).symm (xibWalk_fuel _ _)
    | exhausted =>
      have habove := pagesAbove ht hio hpage hroom hd
      have hsw := xibWalk_exhausted ht hio ((xibSearchDown_eq hroom.last_lt).symm.trans hd)
      have hlast : t.siXib.size / pageSize ∈
          List.range' (s.siXibLastPindex + 1) (t.siXib.size / pageSize - s.siXibLastPindex) := by
        have hlt := habove.lt
        exact List.mem_range'_1.mpr ⟨hlt, by omega⟩
      have hbit : 0 < pageBits := by
        rw [pageBits_eq]
        exact Nat.succ_pos _
      obtain ⟨b, t', hfound⟩ := xibWalk_finds hsw.switched.tail hsw.xibIo ⟨_, hlast, 0, hbit, habove.clear 0 hbit⟩
      refine ⟨b, t', ?_⟩
      show Except.ok (xibSearchUp A s.siXibLastPindex t) = _
      rw [habove.walk, hfound]

/-- **One allocation** is as it should be exactly when the hint is not negative. -/
theorem allocates_iff (hx : s.xino = true) (ht : Tail s) (hio : s.xibIo = []) (hpage : pageSize ≤ s.siXib.size)
    (hroom : InUlong A s) : Allocates A s ↔ 0 ≤ s.siXibNextBit := by
  constructor
  · intro h
    by_contra hneg
    exact hneg (h.hint (by rw [pageBits_eq]; omega))
  · intro hhint
    obtain ⟨b, t, hfind⟩ := xibFindFree_finds ht hio hpage hroom hhint
    have hfound := xibFindFree_found ht hfind
    refine ⟨fun _ => hhint, xibSearchDown_eq hroom.last_lt, fun t hd => pagesAbove ht hio hpage hroom hd, b, t, _,
      hfind, hfound.lt, hfound.mark, auXinoNewIno_of hx hfind⟩

/-- It makes one new page at most. -/
theorem xibFindFree_below {n : Nat} (ht : Tail s) (hio : s.xibIo = []) (hpage : pageSize ≤ s.siXib.size)
    (hroom : InUlong A s) (hn : PagesBelow n s) (h : xibFindFree A s = .ok (.found b, t)) :
    PagesBelow (n + 1) t := by
  have hmore : ∀ {u : Sbinfo}, PagesBelow n u → PagesBelow (n + 1) u := by
    intro u hu
    refine ⟨Nat.le_trans hu.size (Nat.mul_le_mul_right _ (Nat.le_succ n)), Nat.lt_succ_of_lt hu.last⟩
  rw [xibFindFree] at h
  rcases hh : hintFree s with e | free
  · rw [hh] at h
    cases h
  rw [hh] at h
  cases free with
  | true =>
    obtain rfl : s = t := (Prod.mk.inj (Except.ok.inj h)).2
    exact hmore hn
  | false =>
    by_cases hlt : findFirstZeroBit s.siXibBuf pageBits < pageBits
    · obtain rfl : s = t := (Prod.mk.inj (Except.ok.inj ((if_pos hlt).symm.trans h))).2
      exact hmore hn
    have h' := (if_neg hlt).symm.trans h
    rcases hd : xibSearchDown A s.siXibLastPindex s with ⟨r, u⟩
    have hbelow : PagesBelow n u := walkDown_below hn ((xibSearchDown_eq hroom.last_lt).symm.trans hd)
    by_cases hr : r = .exhausted
    · subst hr
      have hup : xibSearchUp A s.siXibLastPindex u = (.found b, t) := by
        have h'' := Except.ok.inj ((if_pos (congrArg Prod.fst hd)).symm.trans h')
        rw [hd] at h''
        exact h''
      have habove := pagesAbove ht hio hpage hroom hd
      have hpages : ∀ p ∈ List.range' (s.siXibLastPindex + 1) (u.siXib.size / pageSize - s.siXibLastPindex),
          p < n + 1 := by
        intro p hp
        have hle := hbelow.pend_le
        have hmem := List.mem_range'_1.mp hp
        have hlt := habove.lt
        omega
      have hwalk := xibWalk_below (hmore hbelow) hpages
      rw [← habove.walk, hup] at hwalk
      exact hwalk
    · have hne : ¬ (xibSearchDown A s.siXibLastPindex s).1 = .exhausted := by
        rw [hd]
        exact hr
      have h'' := Except.ok.inj ((if_neg hne).symm.trans h')
      rw [hd] at h''
      obtain rfl : u = t := (Prod.mk.inj h'').2
      exact hmore hbelow

end Allocation

/-! ## Runs -/

/-- The call allocates a number. -/
def Allocating (A : Arch) (s : Numbers) : InoEvent → Prop
  | .newIno _ => True
  | .ino b h _ _ => InXino A h ∧ xinoEntry A s.sb b h = 0
  | _ => False

/-- The hint is not counted up from `INT_MAX`, and there is room for the pages. -/
def NoWrap (A : Arch) (s : Numbers) (e : InoEvent) : Prop :=
  InUlong A s.sb ∧ (Allocating A s e → s.sb.siXibNextBit ≠ 2 ^ 31 - 1)

/-- The super block when the xib file was just set. -/
structure XibMounted (A : Arch) (s : Numbers) : Prop where
  sound : Sound A s.sb
  page : pageSize ≤ s.sb.siXib.size
  last : s.sb.siXibLastPindex = 0
  nextBit : s.sb.siXibNextBit = 0

/-- What a call leaves: the first page in the xib file, and the hint as it was, counted up, or set back. -/
structure XibStep (A : Arch) (s : Numbers) (e : InoEvent) (sb : Sbinfo) : Prop where
  sound : Sound A sb
  page : pageSize ≤ sb.siXib.size
  hint : sb.siXibNextBit = s.sb.siXibNextBit ∨
    (Allocating A s e ∧ sb.siXibNextBit = wrap32 (s.sb.siXibNextBit + 1)) ∨
    (0 ≤ sb.siXibNextBit ∧ sb.siXibNextBit < pageBits)

section Runs

variable {A : Arch} {s s' s0 : Numbers} {es : List InoEvent} {t t' : Sbinfo} {n : Nat}

/-- `au_xino_set_xib` starts so. -/
theorem auXinoSetXib_starts {sBlocksize : Nat} (h : auXinoSetXib sBlocksize t = some (0, t')) :
    pageSize ≤ t'.siXib.size ∧ t'.siXibLastPindex = 0 ∧ t'.siXibNextBit = 0 := by
  rw [auXinoSetXib] at h
  simp only at h
  by_cases hr : (request t).1 < 0
  · rw [if_pos hr] at h
    have hzero : (request t).1 = 0 := congrArg Prod.fst (Option.some.inj h)
    omega
  rw [if_neg hr] at h
  rcases hc : (if t.xino = true then auCopyFile t.siXib t.siXib.size sBlocksize t.xibIo
    else some (0, File.empty, t.xibIo)) with _ | ⟨err, file, xibIo⟩
  · rw [hc] at h
    cases h
  rw [hc] at h
  simp only at h
  by_cases he : err ≠ 0
  · rw [if_pos he] at h
    exact absurd (congrArg Prod.fst (Option.some.inj h)) he
  rw [if_neg he] at h
  by_cases hpage : (if t.xino = true then ((0 : Int), (request t).2) else request (request t).2).1 < 0
  · rw [if_pos hpage] at h
    exact absurd (congrArg Prod.fst (Option.some.inj h)) negENOMEM_ne_zero
  rw [if_neg hpage] at h
  by_cases hsz : file.size < pageSize
  case neg =>
    rw [if_neg hsz] at h
    rw [← (Prod.mk.inj (Option.some.inj h)).2]
    exact ⟨Nat.le_of_not_lt hsz, rfl, rfl⟩
  rw [if_pos hsz] at h
  by_cases hw : (xinoFwrite file (if t.xino = true then t.siXibBuf else fun _ => 0) pageSize 0 xibIo).1 ≠ pageSize
  · rw [if_pos hw] at h
    exact absurd (congrArg Prod.fst (Option.some.inj h)) (transferErr_ne _)
  rw [if_neg hw] at h
  rw [← (Prod.mk.inj (Option.some.inj h)).2]
  refine ⟨?_, rfl, rfl⟩
  show pageSize ≤ (file.write 0 (answer pageSize xibIo).1.toNat _).size
  rw [answer_toNat_full (not_not.mp hw), File.write_size (Nat.ne_of_gt pageSize_pos), Nat.zero_add]
  exact Nat.le_max_right _ _

theorem auXinoNewIno_xib (hs : Sound A t) (hpage : pageSize ≤ t.siXib.size) (h : auXinoNewIno A t = .ok (n, t')) :
    Sound A t' ∧ pageSize ≤ t'.siXib.size ∧ t'.siXibNextBit = wrap32 (t.siXibNextBit + 1) := by
  obtain ⟨b, u, hfind, -, -, hset, hio⟩ := auXinoNewIno_found hs.xino hs.xibIo hs.tail h
  have hsw := (xibFindFree_found hs.tail hfind).switched
  obtain ⟨-, hres⟩ := Prod.mk.inj (Except.ok.inj ((auXinoNewIno_of hs.xino hfind).symm.trans h))
  refine ⟨hs.of_tables hset.tables hset.tail hio, ?_, ?_⟩
  · rw [← hres]
    exact Nat.le_trans hpage hsw.size
  · rw [← hres]
    show wrap32 (u.siXibNextBit + 1) = _
    rw [hsw.nextBit]

theorem auXinoWrite_xib (b h ino : Nat) (t : Sbinfo) :
    (auXinoWrite A b h ino t).2.siXib = t.siXib ∧ (auXinoWrite A b h ino t).2.siXibNextBit = t.siXibNextBit := by
  rw [auXinoWrite]
  split
  · exact ⟨rfl, rfl⟩
  · dsimp only
    split
    · exact ⟨rfl, rfl⟩
    · exact ⟨rfl, rfl⟩

theorem restoreNumbers_xib : ∀ {l : List Nat} {t : Sbinfo}, Tail t → t.xibIo = [] →
    t.siXib.size ≤ (restoreNumbers A l t).2.siXib.size ∧ (restoreNumbers A l t).2.siXibNextBit = t.siXibNextBit := by
  intro l
  induction l with
  | nil => exact fun _ _ => ⟨Nat.le_refl _, rfl⟩
  | cons ino l ih =>
    intro t ht hio
    rw [restoreNumbers]
    by_cases hino : ino < firstIno
    · rw [if_pos hino]
      exact ih ht hio
    obtain ⟨hp, hio'⟩ := xibPindex_nil (p := (xibCalcBit A ino).1) hio
    have hsw := (xibPindex_ok ht hp).1
    have hone := setOne ht (Nat.le_of_not_lt hino) hp
    rw [if_neg hino, if_neg (not_not.mpr hp)]
    obtain ⟨hsize, hnext⟩ := ih hone.tail hio'
    exact ⟨Nat.le_trans hsw.size hsize, hnext.trans hsw.nextBit⟩

/-- **Every call**, where nothing fails. -/
theorem step_xib {e : InoEvent} (hs : Sound A s.sb) (hpage : pageSize ≤ s.sb.siXib.size)
    (hstep : inoStep A s e s') : XibStep A s e s'.sb := by
  cases e with
  | newIno ino =>
    obtain ⟨hsound, hsize, hhint⟩ := auXinoNewIno_xib hs hpage hstep.1
    exact ⟨hsound, hsize, Or.inr (Or.inl ⟨trivial, hhint⟩)⟩
  | ino b h err ino =>
    obtain ⟨-, hino, -⟩ := hstep
    rcases auIno_nil hs b h hino with ⟨-, hsb⟩ | ⟨hnone, n0, t1, hnew, hres⟩
    · have hsame : s'.sb = s.sb := hsb
      rw [hsame]
      exact ⟨hs, hpage, Or.inl rfl⟩
    obtain ⟨hsound, hsize, hhint⟩ := auXinoNewIno_xib hs hpage hnew
    rcases hres with ⟨-, hsb⟩ | hres
    · have hsame : s'.sb = t1 := hsb
      rw [hsame]
      exact ⟨hsound, hsize, Or.inr (Or.inl ⟨hnone, hsame ▸ hhint⟩)⟩
    · have hsame : s'.sb = recordEntry A t1 b h n0 := (Prod.mk.inj (Prod.mk.inj hres).2).2
      rw [hsame]
      exact ⟨⟨hsound.xino, hsound.io, hsound.xibIo, hsound.tail, recordEntry_aligned hsound.aligned n0,
        hsound.shared⟩, hsize, Or.inr (Or.inl ⟨hnone, hhint⟩)⟩
  | write0 b h ino err =>
    obtain ⟨-, hino, hlt, hw, -⟩ := hstep
    have hsound := (auXinoWrite0_marks hs b h hino hlt).1
    have hoff : ¬ (!s.sb.xino) = true := by rw [hs.xino]; decide
    rw [hw] at hsound
    have hsb : s'.sb = (auXinoWrite0 A b h ino s.sb).2 := by rw [hw]
    rw [auXinoWrite0, if_neg hoff] at hsb
    by_cases h0 : ino = 0
    · obtain ⟨hsize, hhint⟩ := auXinoWrite_xib (A := A) b h 0 s.sb
      rw [if_pos h0] at hsb
      rw [← hsb] at hsize hhint
      exact ⟨hsound, by rw [hsize]; exact hpage, Or.inl hhint⟩
    · obtain ⟨hp, -⟩ := xibPindex_nil (p := (xibCalcBit A ino).1) hs.xibIo
      have hsw := (xibPindex_ok hs.tail hp).1
      rw [if_neg h0, if_neg (not_not.mpr hp)] at hsb
      have hkeep := auXinoWrite_xib (A := A) b h 0 { (xibPindex (xibCalcBit A ino).1 s.sb).2 with
        siXibBuf := clearBitAt (xibPindex (xibCalcBit A ino).1 s.sb).2.siXibBuf (xibCalcBit A ino).2,
        siXibNextBit := (xibCalcBit A ino).2 }
      rw [← hsb] at hkeep
      have hbit := xibCalcBit_lt A ino
      refine ⟨hsound, ?_, Or.inr (Or.inr ?_)⟩
      · rw [hkeep.1]
        exact Nat.le_trans hpage hsw.size
      · rw [hkeep.2]
        exact ⟨Int.natCast_nonneg _, Int.ofNat_lt.mpr hbit⟩
  | trunc page err =>
    obtain ⟨ht, -⟩ := hstep
    obtain ⟨hio, htab, htail, -⟩ := auXibTrunc_marks page hs.xino hs.io hs.xibIo hs.tail hs.aligned hs.shared
    have hsb : s'.sb = (auXibTrunc A page s.sb).2 := by rw [ht]
    rw [ht] at hio htab htail
    have hsound := hs.of_tables htab htail hio
    by_cases hsz : s.sb.siXib.size ≤ pageSize
    · rw [auXibTrunc_small hsz] at hsb
      have hsame : s'.sb = s.sb := hsb
      exact ⟨hsound, by rw [hsame]; exact hpage, Or.inl (by rw [hsame])⟩
    · have hfull : (answer pageSize s.sb.xibIo).1 = pageSize := by rw [hs.xibIo]; rfl
      have hrest : (answer pageSize s.sb.xibIo).2 = [] := by rw [hs.xibIo]; rfl
      rw [auXibTrunc_scan hs.xino hs.io hs.aligned hsz hfull, hrest] at hsb
      obtain ⟨hsize, hhint⟩ := restoreNumbers_xib (A := A) (l := scan A s.sb) (t := cleared s.sb pageSize [])
        cleared_tail rfl
      rw [← hsb] at hsize hhint
      have hfirst : (cleared s.sb pageSize []).siXib.size = pageSize := rfl
      rw [hfirst] at hsize
      exact ⟨hsound, hsize, Or.inl hhint⟩

/-- In every run the first page stays in the file. -/
theorem run_xib {P : Numbers → InoEvent → Prop} (h0 : XibMounted A s0) (h : Run (Guarded (inoStep A) P) s0 es s) :
    Sound A s.sb ∧ pageSize ≤ s.sb.siXib.size := by
  refine h.inv (I := fun s => Sound A s.sb ∧ pageSize ≤ s.sb.siXib.size) ⟨h0.sound, h0.page⟩ fun s e s' hkeep hs => ?_
  have hstep := step_xib hkeep.1 hkeep.2 hs.2
  exact ⟨hstep.sound, hstep.page⟩

/-- A run that does not count the hint up from `INT_MAX` does not make it negative. -/
theorem run_hint (h0 : XibMounted A s0) (h : Run (Guarded (inoStep A) (NoWrap A)) s0 es s) :
    0 ≤ s.sb.siXibNextBit ∧ s.sb.siXibNextBit < 2 ^ 31 := by
  induction h with
  | nil =>
    rw [h0.nextBit]
    exact ⟨Int.le_refl _, by omega⟩
  | @snoc es s s' e h hs ih =>
    obtain ⟨hsound, hpage⟩ := run_xib h0 h
    obtain ⟨hlo, hhi⟩ := ih
    rcases (step_xib hsound hpage hs.2).hint with hsame | ⟨hall, hup⟩ | ⟨hlo', hhi'⟩
    · rw [hsame]
      exact ⟨hlo, hhi⟩
    · have hne := hs.1.2 hall
      rw [hup, wrap32]
      omega
    · rw [pageBits_eq] at hhi'
      exact ⟨hlo', by omega⟩

theorem oneBranch_xibMounted : XibMounted .lp64 oneBranch := ⟨oneBranch_mounted.sound, Nat.le_refl _, rfl, rfl⟩

theorem oneBranch_pages : PagesBelow 1 oneBranch.sb := ⟨Nat.le_refl _, Nat.one_pos⟩

/-- Numbers are given, and none is given back: the hint counts them, by induction on their number. -/
theorem hint_counts : ∀ {n : Nat}, n ≤ 2 ^ 31 → ∃ es s,
    Run (Guarded (inoStep .lp64) fun s _ => InUlong .lp64 s.sb) oneBranch es s ∧ PagesBelow (n + 1) s.sb ∧
      s.sb.siXibNextBit = wrap32 n := by
  intro n
  induction n with
  | zero => exact fun _ => ⟨[], oneBranch, .nil, oneBranch_pages, rfl⟩
  | succ n ih =>
    intro hn
    obtain ⟨es, s, hrun, hpages, hhint⟩ := ih (by omega)
    obtain ⟨hsound, hpage⟩ := run_xib oneBranch_xibMounted hrun
    have hroom : InUlong .lp64 s.sb := hpages.inUlong (by omega)
    have hval : s.sb.siXibNextBit = n := by
      rw [hhint, wrap32]
      omega
    obtain ⟨b, t, hfind⟩ := xibFindFree_finds hsound.tail hsound.xibIo hpage hroom (by omega)
    have hnew := auXinoNewIno_of hsound.xino hfind
    have hbelow := xibFindFree_below hsound.tail hsound.xibIo hpage hroom hpages hfind
    obtain ⟨-, -, hnext⟩ := auXinoNewIno_xib hsound hpage hnew
    have hstep : inoStep .lp64 s (.newIno (xibCalcIno .lp64 t.siXibLastPindex b))
        ⟨allocated t b, fun m => m = xibCalcIno .lp64 t.siXibLastPindex b ∨ s.out m⟩ := ⟨hnew, rfl⟩
    refine ⟨_, _, hrun.snoc ⟨hroom, hstep⟩, ⟨hbelow.size, hbelow.last⟩, ?_⟩
    rw [hnext, hval]
    rfl

end Runs

end KernelPatches.Aufs
