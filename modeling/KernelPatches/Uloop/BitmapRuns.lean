/-
  uloop: the bitmap is the set of the blocks that were marked.

  Over runs of the driver's uses of its bitmap — testing a block, marking one, and letting the bitmap file
  go and taking it into use again, with reads and writes failing on the way:

  * `keeps_iff` — a switch of pages keeps the bitmap, unless it misreads, and then only if the two pages it
    mistakes for one another are the same;
  * `uloInit_bug_iff` — with the bitmap `ulo_init` makes, no block of the cache stops the driver at its
    `BUG_ON`, iff the blocks over a multiple of eight do not just begin a page of the bitmap;
  * `run_marks` — in a run without a misread a bit is set iff it was at the start or has been marked since, and
    every test has answered so.
-/
import KernelPatches.Uloop.Bitmap
import KernelPatches.Lib.Runs

namespace KernelPatches.Uloop

open KernelPatches.Lib

/-! ## Bits -/

section Bits

variable {d d' : Bmp} {loff : Nat} {w r e2 : Vfs}

/-- A bit of the page in memory. -/
theorem testBit_eq (h : d.bmpidx = loff / bmpPageBytes) :
    d.testBit (loff % bmpPageBytes) = d.bit loff := by
  rw [bmpPageBytes_eq] at h ⊢
  have hpage : loff / 8 / pageSize = d.table.idx := by
    show loff / 8 / pageSize = d.bmpidx
    rw [h, pageSize_eq]
    omega
  refine bitAt_congr ?_ (by omega)
  rw [Paged.byte_in hpage, pageSize_eq]
  show d.bmpbuf _ = d.bmpbuf _
  congr 1
  omega

/-- Marking a bit of the page in memory. -/
theorem bit_setBit (h : d.bmpidx = loff / bmpPageBytes) (i : Nat) :
    (d.setBit (loff % bmpPageBytes)).bit i = (decide (loff = i) || d.bit i) := by
  by_cases hpage : i / bmpPageBytes = d.bmpidx
  · have hi : (d.setBit (loff % bmpPageBytes)).bmpidx = i / bmpPageBytes := hpage.symm
    rw [← testBit_eq hi, ← testBit_eq hpage.symm]
    show bitAt (setBitAt d.bmpbuf _) _ = (_ || bitAt d.bmpbuf _)
    rw [bitAt_setBitAt]
    have hiff : loff % bmpPageBytes = i % bmpPageBytes ↔ loff = i := by
      rw [bmpPageBytes_eq] at h hpage ⊢
      omega
    simp only [hiff]
  · have hne : loff ≠ i := by
      rintro rfl
      exact hpage h.symm
    rw [decide_eq_false hne, Bool.false_or]
    have hout : ¬ i / 8 / pageSize = d.bmpidx := by
      rw [pageSize_eq]
      rw [bmpPageBytes_eq] at hpage
      omega
    refine bitAt_congr ?_ rfl
    exact (Paged.byte_out (t := (d.setBit (loff % bmpPageBytes)).table) hout).trans
      (Paged.byte_out (t := d.table) hout).symm

theorem Fits.setBit (hd : Fits d) (bit : Nat) : Fits (d.setBit bit) := ⟨hd.size, hd.pages, hd.idx⟩

/-- **Testing a block.** -/
theorem testBlock_kept (hd : Fits d) (hm : ¬ Misread d (loff / bmpPageBytes) w r e2) :
    Kept d (testBlock d loff w r e2).2.2 ∧
      ((testBlock d loff w r e2).1 = .done 0 → (testBlock d loff w r e2).2.1 = d.bit loff) := by
  have h := uloBmpPindex_switch hd (loff / bmpPageBytes) w r e2
  have hk := h.kept hd hm
  refine ⟨hk, fun herr => ?_⟩
  have herr' : (uloBmpPindex d (loff / bmpPageBytes) w r e2).1 = .done 0 := herr
  rw [herr'] at h
  rw [← hk.bit, ← testBit_eq h.idx]
  exact if_pos herr'

/-- **Marking a block.**  Nothing is marked if the page could not be switched. -/
theorem setBlock_marks (hd : Fits d) (hm : ¬ Misread d (loff / bmpPageBytes) w r e2) :
    Fits (setBlock d loff w r e2).2 ∧
      ((setBlock d loff w r e2).1 = .done 0 →
        ∀ i, (setBlock d loff w r e2).2.bit i = (decide (loff = i) || d.bit i)) ∧
      ((setBlock d loff w r e2).1 ≠ .done 0 → Kept d (setBlock d loff w r e2).2) := by
  have h := uloBmpPindex_switch hd (loff / bmpPageBytes) w r e2
  have hk := h.kept hd hm
  by_cases herr : (uloBmpPindex d (loff / bmpPageBytes) w r e2).1 = .done 0
  · have hset : (setBlock d loff w r e2).2
        = (uloBmpPindex d (loff / bmpPageBytes) w r e2).2.setBit (loff % bmpPageBytes) := if_pos herr
    rw [herr] at h
    rw [hset]
    refine ⟨hk.fits.setBit _, fun _ i => ?_, fun hne => absurd herr hne⟩
    rw [bit_setBit h.idx, hk.bit]
  · have hset : (setBlock d loff w r e2).2 = (uloBmpPindex d (loff / bmpPageBytes) w r e2).2 :=
      if_neg herr
    rw [hset]
    exact ⟨hk.fits, fun h0 => absurd h0 herr, fun _ => hk⟩

/-- **Letting the file go, and taking it into use again.** -/
theorem reopen_marks (hw : w.full pageSize = true) {arg : SetbmpArg} {rw : Bool}
    (hfile : arg.file = some (uloopRelease d w, rw)) (h : uloCtlSetbmp none arg = (0, some d')) :
    Fits d' ∧ ∀ i, d'.bit i = d.bit i := by
  have hleft : uloopRelease d w = (d.table.store pageSize pageSize).file := by
    rcases uloWrite_cases d.bmp d.bmpbuf pageSize (d.bmpidx * pageSize) w with ⟨-, -, hf⟩ | ⟨hw', -⟩
    · exact hf
    · exact absurd hw (by rw [hw']; exact Bool.false_ne_true)
  rcases uloCtlSetbmp_cases none arg with ⟨hne, -⟩ | ⟨f, rw', buf, hf, heq, hfits, hbuf⟩
  · rw [h] at hne
    exact absurd rfl hne
  · obtain rfl : f = uloopRelease d w := congrArg Prod.fst (Option.some.inj (hf.symm.trans hfile))
    obtain rfl : _ = d' := Option.some.inj (congrArg Prod.snd (heq.symm.trans h))
    refine ⟨hfits, fun i => bitAt_congr ?_ rfl⟩
    rw [← Paged.data_store (t := d.table) (by decide), ← hleft]
    exact Paged.byte_own (by decide) hbuf

end Bits

/-! ## When a switch keeps the bitmap -/

/-- What a misread leaves in memory, if the page before was read in full: under the number of the old
    page, the bits of that one. -/
theorem misread_bit {d : Bmp} {pindex : Nat} {w r e2 : Vfs} (hd : Fits d) (h0 : pindex ≠ 0)
    (he : e2.full pageSize = true) (hm : Misread d pindex w r e2) (i : Nat) :
    (uloBmpPindex d pindex w r e2).2.bit i
      = if i / bmpPageBytes = d.bmpidx then d.bit ((pindex - 1) * bmpPageBytes + i % bmpPageBytes)
        else d.bit i := by
  obtain ⟨hne, hin, hw, hr, hback⟩ := hm
  have hp : 0 < pageSize := by decide
  have hsw := uloBmpPindex_switch hd pindex w r e2
  generalize uloBmpPindex d pindex w r e2 = q at hsw
  obtain ⟨o, d'⟩ := q
  show d'.bit i = _
  have hsw' : Switch d pindex w r e2 o d' := hsw
  cases hsw' with
  | here h => exact absurd h hne
  | failed _ _ hw' =>
    have hlt := hw' hw
    omega
  | beyond h =>
    rw [h] at hin
    have hmod := hd.pages
    rw [pageSize_eq] at hin hmod
    omega
  | turned _ hr' => exact absurd hr' (by rw [hr]; exact Bool.false_ne_true)
  | @readFailed _ _ _ _ _ _ n m _ _ _ hm' =>
    obtain rfl : m = pageSize := (hm' h0).mpr he
    have hstored : ∀ j, (d.table.store pageSize pageSize).file.data j = d.table.byte pageSize j :=
      fun j => Paged.data_store hp
    by_cases hi : i / bmpPageBytes = d.bmpidx
    · rw [if_pos hi]
      have hpage : i / 8 / pageSize = d.bmpidx := by
        rw [← hi, bmpPageBytes_eq, pageSize_eq]
        omega
      refine bitAt_congr ?_ (by rw [bmpPageBytes_eq]; omega)
      refine (if_pos hpage).trans ?_
      refine (Paged.fill_buf (Nat.mod_lt _ hp)).trans ((hstored _).trans ?_)
      congr 1
      rw [bmpPageBytes_eq, pageSize_eq]
      omega
    · rw [if_neg hi]
      have hpage : i / 8 / pageSize ≠ d.bmpidx := by
        rw [pageSize_eq]
        rw [bmpPageBytes_eq] at hi
        omega
      exact bitAt_congr ((if_neg hpage).trans (hstored _)) rfl

/-- **What stops the driver**: a page just past the last one, after the page in memory was written. -/
theorem testBlock_bug_iff {d : Bmp} {loff : Nat} (hd : Fits d) :
    (∃ w r e2, (testBlock d loff w r e2).1 = .bug) ↔ loff / bmpPageBytes = d.bmpsz / pageSize := by
  have hidx := hd.idx
  constructor
  · rintro ⟨w, r, e2, h⟩
    have hsw := uloBmpPindex_switch hd (loff / bmpPageBytes) w r e2
    have h' : (uloBmpPindex d (loff / bmpPageBytes) w r e2).1 = .bug := h
    rw [h'] at hsw
    generalize (uloBmpPindex d (loff / bmpPageBytes) w r e2).2 = d' at hsw
    cases hsw with
    | beyond h => exact h
  · intro h
    refine ⟨.done pageSize, .fail 0, .fail 0, ?_⟩
    show (uloBmpPindex d (loff / bmpPageBytes) (.done pageSize) (.fail 0) (.fail 0)).1 = .bug
    have hne : d.bmpidx ≠ loff / bmpPageBytes := by
      rw [h, pageSize_eq]
      rw [pageSize_eq] at hidx
      omega
    have hfar : ¬ d.bmpsz / pageSize < loff / bmpPageBytes := by omega
    have hbeyond : d.bmpsz < loff / bmpPageBytes * pageSize + pageSize := by
      rw [h, pageSize_eq]
      omega
    rw [uloBmpPindex, if_neg hne, if_neg hfar]
    rcases uloWrite_cases d.bmp d.bmpbuf pageSize (d.bmpidx * pageSize) (.done pageSize) with
      ⟨-, herr, hfile⟩ | ⟨hw, -⟩
    · have hsame : d.bmpsz = (d.bmp.write (d.bmpidx * pageSize) pageSize d.bmpbuf).size :=
        (hd.store_size (Nat.le_refl _)).symm
      simp only [herr, hfile, ne_eq, not_true_eq_false, if_false, ← hsame, if_pos hbeyond]
    · exact absurd hw (by decide)

/-- **The sizes `ulo_init` chooses**: the driver cannot be stopped by a block of the cache, iff the number of
    blocks is not a little (less than eight) more than so many whole pages of bits. -/
theorem uloInit_bug_iff {d : Bmp} {size : Nat} (hd : Fits d)
    (hsz : d.bmpsz = (uloInit size pageSize).2) :
    (∀ loff < (uloInit size pageSize).1 / pageSize, ∀ w r e2, (testBlock d loff w r e2).1 ≠ .bug) ↔
      ¬ (bmpPageBytes ≤ (uloInit size pageSize).1 / pageSize ∧
        0 < (uloInit size pageSize).1 / pageSize % bmpPageBytes ∧
        (uloInit size pageSize).1 / pageSize % bmpPageBytes < 8) := by
  obtain ⟨n, hn⟩ : ∃ n, n = (uloInit size pageSize).1 / pageSize := ⟨_, rfl⟩
  have hbits : d.bmpsz = if n / 8 < pageSize then pageSize
      else if n / 8 % pageSize ≠ 0 then n / 8 + (pageSize - n / 8 % pageSize) else n / 8 := by
    rw [hsz, hn]
    rfl
  have hbug : (∀ loff < n, ∀ w r e2, (testBlock d loff w r e2).1 ≠ .bug) ↔
      ∀ loff < n, loff / bmpPageBytes ≠ d.bmpsz / pageSize := by
    refine forall₂_congr fun loff _ => ?_
    rw [ne_eq, ← testBlock_bug_iff hd]
    simp only [not_exists]
  rw [← hn, hbug, hbits, bmpPageBytes_eq, pageSize_eq]
  constructor
  · rintro h ⟨hle, hpos, hlt⟩
    -- the first block the bitmap has no bit for
    refine h (n / 8 * 8) (by omega) ?_
    rw [if_neg (by omega), if_neg (by omega)]
    omega
  · intro h loff hloff
    split_ifs with h1 h2 <;> omega

/-! ## Runs -/

/-- A use of the bitmap, with what came of it. -/
inductive BitmapEv where
  | test (loff : Nat) (w r e2 : Vfs) (set : Option Bool)
  | set (loff : Nat) (w r e2 : Vfs) (ok : Bool)
  | reopen (w : Vfs) (arg : SetbmpArg)

/-- The uses of the bitmap, one after another. -/
inductive BitmapStep (d : Bmp) : BitmapEv → Bmp → Prop
  | test {loff : Nat} {w r e2 : Vfs} {err : Int} (h : (testBlock d loff w r e2).1 = .done err) :
      BitmapStep d
        (.test loff w r e2 (if err = 0 then some (testBlock d loff w r e2).2.1 else none))
        (testBlock d loff w r e2).2.2
  | set {loff : Nat} {w r e2 : Vfs} {err : Int} (h : (setBlock d loff w r e2).1 = .done err) :
      BitmapStep d (.set loff w r e2 (decide (err = 0))) (setBlock d loff w r e2).2
  | reopen {w : Vfs} {arg : SetbmpArg} {rw : Bool} {d' : Bmp}
      (hfile : arg.file = some (uloopRelease d w, rw))
      (h : uloCtlSetbmp none arg = (0, some d')) : BitmapStep d (.reopen w arg) d'

/-- The switch does not misread, and the page in memory is written when the file is let go. -/
def Clean (d : Bmp) : BitmapEv → Prop
  | .test loff w r e2 _ => ¬ Misread d (loff / bmpPageBytes) w r e2
  | .set loff w r e2 _ => ¬ Misread d (loff / bmpPageBytes) w r e2
  | .reopen w _ => w.full pageSize = true

/-- Block `i` has been marked. -/
def Marked (es : List BitmapEv) (i : Nat) : Prop := ∃ w r e2, BitmapEv.set i w r e2 true ∈ es

/-- What one use does to the bits. -/
theorem step_marks {d d' : Bmp} {e : BitmapEv} (hd : Fits d) (hc : Clean d e)
    (h : BitmapStep d e d') :
    Fits d' ∧ (∀ i, d'.bit i = true ↔ d.bit i = true ∨ Marked [e] i) ∧
      ∀ loff w r e2 b, e = .test loff w r e2 (some b) → b = d.bit loff := by
  cases h with
  | @test loff w r e2 err h =>
    obtain ⟨hk, htest⟩ := testBlock_kept hd hc
    refine ⟨hk.fits, fun i => ?_, fun loff' w' r' e2' b he => ?_⟩
    · rw [hk.bit]
      refine ⟨Or.inl, fun hor => hor.resolve_right ?_⟩
      rintro ⟨_, _, _, hmem⟩
      exact nomatch List.mem_singleton.mp hmem
    · injection he with hl _ _ _ hans
      subst hl
      by_cases h0 : err = 0
      · subst h0
        rw [if_pos rfl] at hans
        rw [← Option.some.inj hans]
        exact htest h
      · rw [if_neg h0] at hans
        exact nomatch hans
  | @set loff w r e2 err h =>
    obtain ⟨hfits, hok, hfail⟩ := setBlock_marks hd hc
    refine ⟨hfits, fun i => ?_, fun _ _ _ _ _ he => nomatch he⟩
    by_cases h0 : err = 0
    · subst h0
      rw [hok h, Bool.or_eq_true, decide_eq_true_iff, or_comm]
      refine or_congr_right ⟨?_, ?_⟩
      · rintro rfl
        exact ⟨w, r, e2, List.mem_singleton_self _⟩
      · rintro ⟨_, _, _, hmem⟩
        injection List.mem_singleton.mp hmem with hl
        exact hl.symm
    · have hne : (setBlock d loff w r e2).1 ≠ .done 0 := by
        rw [h]
        exact fun hc => h0 (Outcome.done.inj hc)
      rw [(hfail hne).bit]
      refine ⟨Or.inl, fun hor => hor.resolve_right ?_⟩
      rintro ⟨_, _, _, hmem⟩
      injection List.mem_singleton.mp hmem with _ _ _ _ hb
      exact h0 (of_decide_eq_true hb.symm)
  | reopen hfile h =>
    obtain ⟨hfits, hbits⟩ := reopen_marks hc hfile h
    refine ⟨hfits, fun i => ?_, fun _ _ _ _ _ he => nomatch he⟩
    rw [hbits]
    refine ⟨Or.inl, fun hor => hor.resolve_right ?_⟩
    rintro ⟨_, _, _, hmem⟩
    exact nomatch List.mem_singleton.mp hmem

/-- Marks, of two stretches of a run. -/
theorem marked_append {es es' : List BitmapEv} {i : Nat} :
    Marked (es ++ es') i ↔ Marked es i ∨ Marked es' i := by
  simp only [Marked, List.mem_append]
  constructor
  · rintro ⟨w, r, e2, h | h⟩
    · exact Or.inl ⟨w, r, e2, h⟩
    · exact Or.inr ⟨w, r, e2, h⟩
  · rintro (⟨w, r, e2, h⟩ | ⟨w, r, e2, h⟩)
    · exact ⟨w, r, e2, Or.inl h⟩
    · exact ⟨w, r, e2, Or.inr h⟩

/-- **The bitmap is what was marked.**  A bit is set iff it was set at the start or has been marked since; and
    every test that came to its end has answered so, at its time. -/
theorem run_marks {d0 d : Bmp} {es : List BitmapEv} (hd : Fits d0)
    (h : Run (Guarded BitmapStep Clean) d0 es d) :
    (∀ i, d.bit i = true ↔ d0.bit i = true ∨ Marked es i) ∧
      ∀ es1 es2 loff w r e2 b, es = es1 ++ .test loff w r e2 (some b) :: es2 →
        (b = true ↔ d0.bit loff = true ∨ Marked es1 loff) := by
  suffices hall : Fits d ∧ (∀ i, d.bit i = true ↔ d0.bit i = true ∨ Marked es i) ∧
      ∀ es1 es2 loff w r e2 b, es = es1 ++ .test loff w r e2 (some b) :: es2 →
        (b = true ↔ d0.bit loff = true ∨ Marked es1 loff) from hall.2
  induction h with
  | nil =>
    refine ⟨hd, fun i => ⟨Or.inl, fun hor => hor.resolve_right ?_⟩, fun es1 es2 loff w r e2 b he => ?_⟩
    · rintro ⟨_, _, _, hmem⟩
      exact nomatch hmem
    · exact absurd he (by simp)
  | @snoc es s s' e _ hs ih =>
    obtain ⟨hfits, hbits, htests⟩ := ih
    obtain ⟨hfits', hbits', htest⟩ := step_marks hfits hs.1 hs.2
    refine ⟨hfits', fun i => ?_, fun es1 es2 loff w r e2 b he => ?_⟩
    · rw [hbits', hbits, marked_append, or_assoc]
    · rcases List.eq_nil_or_concat es2 with rfl | ⟨es2', e', rfl⟩
      · -- the test is the last step
        obtain ⟨rfl, hlast⟩ := List.append_inj' he rfl
        rw [htest loff w r e2 b (List.singleton_inj.mp hlast), hbits]
      · rw [List.concat_eq_append, ← List.cons_append, ← List.append_assoc] at he
        exact htests es1 es2' loff w r e2 b (List.append_inj' he rfl).1

/-! ## A small bitmap -/

/-- Two pages of bits, none of them set. -/
def twoPages : Bmp := ⟨⟨8192, fun _ => 0, fun _ _ => rfl⟩, 0, fun _ => 0, 8192⟩

theorem twoPages_fits : Fits twoPages := ⟨rfl, rfl, by decide⟩

theorem uloInit_bug_iff_small :
    ¬ ∀ loff < 65537, ∀ w r e2, (testBlock twoPages loff w r e2).1 ≠ .bug := by
  have h := @uloInit_bug_iff twoPages (65537 * 4096) twoPages_fits rfl
  intro hall
  exact h.mp hall ⟨by decide, by decide, by decide⟩

/-- A block is marked, and then tested. -/
theorem run_marks_small : ∃ d b, Run (Guarded BitmapStep Clean) twoPages
      [.set 7 (.fail 0) (.fail 0) (.fail 0) true, .test 7 (.fail 0) (.fail 0) (.fail 0) (some b)] d ∧
    (b = true ↔ twoPages.bit 7 = true ∨ Marked [.set 7 (.fail 0) (.fail 0) (.fail 0) true] 7) := by
  have hset : BitmapStep twoPages (.set 7 (.fail 0) (.fail 0) (.fail 0) true) _ :=
    .set (w := .fail 0) (r := .fail 0) (show (setBlock twoPages 7 (.fail 0) (.fail 0) (.fail 0)).1
      = .done 0 from rfl)
  have h1 : Run (Guarded BitmapStep Clean) twoPages _ _ := Run.nil.snoc ⟨by exact fun hm => hm.1 rfl, hset⟩
  have h2 := h1.snoc ⟨by exact fun hm => hm.1 rfl, .test (w := .fail 0) (r := .fail 0)
    (show (testBlock (setBlock twoPages 7 (.fail 0) (.fail 0) (.fail 0)).2 7 (.fail 0) (.fail 0)
      (.fail 0)).1 = .done 0 from rfl)⟩
  refine ⟨_, _, h2, ?_⟩
  exact (run_marks twoPages_fits h2).2 [_] [] 7 _ _ _ _ rfl

end KernelPatches.Uloop
