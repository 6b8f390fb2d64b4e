/-
  No inode number of the union is given twice.

  `Numbers` is the super block with the numbers that are OUT: those `au_xino_new_ino` has returned,
  asked directly or through `au_ino`, and `au_xino_write0` has not released since.  A number is in use
  while it is out and some xino file records it.

  The bitmap always marks every number in use (`Consistent`), and a number given is one whose bit was
  clear; so it is not in use.  What each operation does to the bitmap:

  * `auXinoNewIno_found`  — sets the bit it has found clear;
  * `auXinoWrite0_marks`  — clears the bit of the number it releases, no other;
  * `auXibTrunc_marks`    — sets the bits of all recorded numbers again, whatever it forgets.

  `run_inUse` is the result over runs, with the lower file systems doing what they are asked (`Sound`)
  and the numbers below `2 ^ 32` not all given away (`Fits`).
-/
import KernelPatches.Aufs.Rebuild
import KernelPatches.Lib.Runs

namespace KernelPatches.Aufs

open KernelPatches.Lib

/-! ## Searching for a clear bit -/

section Search

variable {A : Arch} {s s' : Sbinfo} {b : Nat}

/-- What a search that finds a bit has done. -/
structure FoundFree (s : Sbinfo) (b : Nat) (s' : Sbinfo) : Prop where
  switched : Switched s s'
  lt : b < pageBits
  free : bitAt s'.siXibBuf b = false

theorem FoundFree.mark (h : FoundFree s b s') : Aufs.mark s (absBit s' b) = false := by
  rw [← h.switched.marks, mark_cached (absBit_div s' h.lt), absBit_mod s' h.lt]
  exact h.free

/-- The page loops, by induction on the rounds left. -/
theorem xibSearch_spec {cond : Nat → Bool} {next : Nat → Nat} :
    ∀ {fuel ul : Nat} {s : Sbinfo}, Tail s →
      (∀ b, (xibSearch cond next fuel ul s).1 = .found b →
        FoundFree s b (xibSearch cond next fuel ul s).2) ∧
      ((xibSearch cond next fuel ul s).1 = .exhausted →
        Switched s (xibSearch cond next fuel ul s).2) := by
  intro fuel
  induction fuel with
  | zero =>
    intro ul s _
    exact ⟨fun _ h => Search.noConfusion h, fun h => Search.noConfusion h⟩
  | succ fuel ih =>
    intro ul s ht
    rw [xibSearch]
    by_cases hc : cond ul = true
    case neg =>
      rw [if_neg hc]
      exact ⟨fun _ h => Search.noConfusion h, fun _ => Switched.refl ht⟩
    rw [if_pos hc]
    by_cases hp : (xibPindex ul s).1 ≠ 0
    case pos =>
      rw [if_pos hp]
      exact ⟨fun _ h => Search.noConfusion h, fun h => Search.noConfusion h⟩
    obtain ⟨hsw, -⟩ := xibPindex_ok ht (not_not.mp hp)
    rw [if_neg hp]
    rcases findFirstZeroBit_spec (xibPindex ul s).2.siXibBuf pageBits with ⟨hlt, hbit⟩ | ⟨heq, -⟩
    · rw [if_pos hlt]
      refine ⟨fun b h => ?_, fun h => Search.noConfusion h⟩
      obtain rfl : findFirstZeroBit (xibPindex ul s).2.siXibBuf pageBits = b := by
        injection h
      exact ⟨hsw, hlt, hbit⟩
    · rw [if_neg (by omega)]
      obtain ⟨hfound, hex⟩ := @ih (next ul) _ hsw.tail
      refine ⟨fun b h => ?_, fun h => hsw.trans (hex h)⟩
      have hf := hfound b h
      exact ⟨hsw.trans hf.switched, hf.lt, hf.free⟩

/-- **The search finds a clear bit** and leaves the bitmap as it is. -/
theorem xibFindFree_found (ht : Tail s) (h : xibFindFree A s = .ok (.found b, s')) :
    FoundFree s b s' := by
  rw [xibFindFree] at h
  rcases hh : hintFree s with t | hint
  · rw [hh] at h
    cases h
  cases hint with
  | true =>
    -- the hint
    rw [hh] at h
    obtain ⟨hb, hs⟩ := Prod.mk.inj (Except.ok.inj h)
    injection hb with hb
    subst hs
    rw [hintFree] at hh
    by_cases hlt : s.siXibNextBit < pageBits
    case neg =>
      rw [if_neg hlt] at hh
      cases hh
    rw [if_pos hlt] at hh
    by_cases hneg : s.siXibNextBit < 0
    case pos =>
      rw [if_pos hneg] at hh
      cases hh
    rw [if_neg hneg] at hh
    have hbit := Except.ok.inj hh
    refine ⟨Switched.refl ht, by omega, ?_⟩
    rw [← hb]
    simpa using hbit
  | false =>
    rw [hh] at h
    rcases findFirstZeroBit_spec s.siXibBuf pageBits with ⟨hlt, hbit⟩ | ⟨heq, -⟩
    · -- the page in memory
      have h' := (if_pos hlt).symm.trans h
      obtain ⟨hb, hs⟩ := Prod.mk.inj (Except.ok.inj h')
      injection hb with hb
      subst hs
      rw [← hb]
      exact ⟨Switched.refl ht, hlt, hbit⟩
    · -- the other pages
      have h' := (if_neg (show ¬ findFirstZeroBit s.siXibBuf pageBits < pageBits by omega)).symm.trans h
      by_cases hd : (xibSearchDown A s.siXibLastPindex s).1 = .exhausted
      · have hsw := (xibSearch_spec ht).2 hd
        have hu := Except.ok.inj ((if_pos hd).symm.trans h')
        have hspec := (xibSearch_spec hsw.tail).1 b (congrArg Prod.fst hu)
        rw [show s' = (xibSearchUp A s.siXibLastPindex (xibSearchDown A s.siXibLastPindex s).2).2 from
          (congrArg Prod.snd hu).symm]
        exact ⟨hsw.trans hspec.switched, hspec.lt, hspec.free⟩
      · have hu := Except.ok.inj ((if_neg hd).symm.trans h')
        rw [show s' = (xibSearchDown A s.siXibLastPindex s).2 from (congrArg Prod.snd hu).symm]
        exact (xibSearch_spec ht).1 b (congrArg Prod.fst hu)

theorem xibSearch_nil {cond : Nat → Bool} {next : Nat → Nat} :
    ∀ {fuel ul : Nat} {s : Sbinfo}, s.xibIo = [] → (xibSearch cond next fuel ul s).1 ≠ .error ∧
      (xibSearch cond next fuel ul s).2.xibIo = [] := by
  intro fuel
  induction fuel with
  | zero =>
    intro ul s hio
    exact ⟨fun h => Search.noConfusion h, hio⟩
  | succ fuel ih =>
    intro ul s hio
    obtain ⟨hp, hio'⟩ := xibPindex_nil (p := ul) hio
    rw [xibSearch]
    by_cases hc : cond ul = true
    case neg =>
      rw [if_neg hc]
      exact ⟨fun h => Search.noConfusion h, hio⟩
    rw [if_pos hc, if_neg (not_not.mpr hp)]
    by_cases hlt : findFirstZeroBit (xibPindex ul s).2.siXibBuf pageBits < pageBits
    · rw [if_pos hlt]
      exact ⟨fun h => Search.noConfusion h, hio'⟩
    · rw [if_neg hlt]
      exact ih hio'

theorem xibSearchDown_nil {p : Nat} (hio : s.xibIo = []) :
    (xibSearchDown A p s).1 ≠ .error ∧ (xibSearchDown A p s).2.xibIo = [] := by
  rw [xibSearchDown]
  exact xibSearch_nil hio

theorem xibSearchUp_nil {p : Nat} (hio : s.xibIo = []) :
    (xibSearchUp A p s).1 ≠ .error ∧ (xibSearchUp A p s).2.xibIo = [] := by
  rw [xibSearchUp]
  exact xibSearch_nil hio

theorem xibFindFree_nil {r : Search} (hio : s.xibIo = []) (h : xibFindFree A s = .ok (r, s')) :
    r ≠ .error ∧ s'.xibIo = [] := by
  rw [xibFindFree] at h
  rcases hh : hintFree s with t | hint
  · rw [hh] at h
    cases h
  rw [hh] at h
  cases hint with
  | true =>
    obtain ⟨hr, hs⟩ := Prod.mk.inj (Except.ok.inj h)
    subst hr hs
    exact ⟨fun h => Search.noConfusion h, hio⟩
  | false =>
    by_cases hlt : findFirstZeroBit s.siXibBuf pageBits < pageBits
    · obtain ⟨hr, hs⟩ := Prod.mk.inj (Except.ok.inj ((if_pos hlt).symm.trans h))
      subst hr hs
      exact ⟨fun h => Search.noConfusion h, hio⟩
    · have h' := (if_neg hlt).symm.trans h
      by_cases hd : (xibSearchDown A s.siXibLastPindex s).1 = .exhausted
      · have hu := Except.ok.inj ((if_pos hd).symm.trans h')
        obtain ⟨hr, hs⟩ := Prod.mk.inj hu
        rw [← hr, ← hs]
        exact xibSearchUp_nil (xibSearchDown_nil hio).2
      · have hu := Except.ok.inj ((if_neg hd).symm.trans h')
        obtain ⟨hr, hs⟩ := Prod.mk.inj hu
        rw [← hr, ← hs]
        exact xibSearchDown_nil hio

end Search

/-! ## The operations on the bitmap -/

section Operations

variable {A : Arch} {s s' : Sbinfo}

/-- The bit found next is that of a number below `2 ^ 32`. -/
def NotExhausted (A : Arch) (s : Sbinfo) : Prop :=
  ∀ b s', xibFindFree A s = .ok (.found b, s') → firstIno + absBit s' b < 2 ^ 32

/-- A step that sets bit `m`, which was clear. -/
structure SetsBit (s : Sbinfo) (m : Nat) (s' : Sbinfo) : Prop where
  tables : SameTables s s'
  tail : Tail s'
  clear : mark s m = false
  marks : ∀ k, mark s' k = (decide (m = k) || mark s k)

/-- **`au_xino_new_ino`** returns the number of a clear bit and sets it. -/
theorem auXinoNewIno_found {n : Nat} (hx : s.xino = true) (hio : s.xibIo = []) (ht : Tail s)
    (h : auXinoNewIno A s = .ok (n, s')) :
    ∃ b t, xibFindFree A s = .ok (.found b, t) ∧ b < pageBits ∧
      n = xibCalcIno A t.siXibLastPindex b ∧ SetsBit s (absBit t b) s' ∧ s'.xibIo = [] := by
  rw [auXinoNewIno, hx] at h
  rcases hf : xibFindFree A s with e | ⟨r, t⟩
  · rw [hf] at h
    cases h
  rw [hf] at h
  obtain ⟨hne, hio'⟩ := xibFindFree_nil hio hf
  cases r with
  | error => exact absurd rfl hne
  | exhausted => cases h
  | outOfFuel => cases h
  | found b =>
    have hfound := xibFindFree_found ht hf
    obtain ⟨hn, hs⟩ := Prod.mk.inj (Except.ok.inj h)
    subst hs
    refine ⟨b, t, rfl, hfound.lt, hn.symm, ⟨?_, hfound.switched.tail, hfound.mark, fun k => ?_⟩, hio'⟩
    · obtain ⟨h1, h2, h3, h4, h5, h6⟩ := hfound.switched.tables
      exact ⟨h1, h2, h3, h4, h5, h6⟩
    · rw [mark_setBitAt hfound.lt, hfound.switched.marks]

/-- The number of the bit found, when it is below `2 ^ 32`. -/
theorem xibCalcIno_of_lt {p b : Nat} (h : firstIno + (p * pageBits + b) < 2 ^ 32) :
    xibCalcIno A p b = firstIno + (p * pageBits + b) := by
  have hle : 2 ^ 32 ≤ 2 ^ A.bitsPerLong := by
    refine Nat.pow_le_pow_right (by omega) ?_
    rcases A.bitsPerLong_eq with h | h <;> omega
  rw [xibCalcIno, Nat.add_assoc]
  exact Nat.mod_eq_of_lt (Nat.lt_of_lt_of_le h hle)

/-- The bit of a number. -/
theorem xibBit_of_le {ino : Nat} (h : firstIno ≤ ino) (hlt : ino < 2 ^ A.bitsPerLong) :
    xibBit A ino = ino - firstIno := by
  rw [xibBit, show ino + 2 ^ A.bitsPerLong - firstIno = ino - firstIno + 2 ^ A.bitsPerLong by omega,
    Nat.add_mod_right]
  exact Nat.mod_eq_of_lt (by omega)

/-- The lower file systems do what they are asked, and the tables are in order. -/
structure Sound (A : Arch) (s : Sbinfo) : Prop where
  xino : s.xino = true
  io : s.io = []
  xibIo : s.xibIo = []
  tail : Tail s
  aligned : Aligned A s
  shared : Shared s

/-- Operations of the bitmap keep that. -/
theorem Sound.of_tables (h : Sound A s) (ht : SameTables s s') (htail : Tail s')
    (hio : s'.xibIo = []) : Sound A s' where
  xino := ht.xino.trans h.xino
  io := ht.io.trans h.io
  xibIo := hio
  tail := htail
  aligned := by
    rw [Aligned, ht.xinoFiles]
    exact h.aligned
  shared := by
    rw [Shared, ht.siBranch, ht.siBend]
    exact h.shared

theorem SameTables.recorded (ht : SameTables s s') (n : Nat) : Recorded A s' n ↔ Recorded A s n := by
  rw [Recorded, Recorded, ht.siBranch, ht.siBend, ht.xinoFiles]

theorem mark_recordEntry (b h ino k : Nat) : mark (recordEntry A s b h ino) k = mark s k := rfl

/-- Writing an entry, where it can be written. -/
theorem Sound.write (hs : Sound A s) (b h : Nat) {ino : Nat} (hino : ino < 2 ^ A.bitsPerLong) :
    Sound A (auXinoWrite A b h ino s).2 ∧ (∀ k, mark (auXinoWrite A b h ino s).2 k = mark s k) ∧
      ∀ n, Recorded A (auXinoWrite A b h ino s).2 n → n = ino ∨ Recorded A s n := by
  rw [auXinoWrite_nil hs.xino hs.io]
  by_cases hh : InXino A h
  · rw [if_pos hh]
    exact ⟨⟨hs.xino, hs.io, hs.xibIo, hs.tail, recordEntry_aligned hs.aligned ino, hs.shared⟩,
      fun k => mark_recordEntry b h ino k, fun n => recorded_recordEntry hs.aligned hino⟩
  · rw [if_neg hh]
    exact ⟨hs, fun _ => rfl, fun n hn => Or.inr hn⟩

/-- **`au_xino_write0`** clears the bit of the number it is given, and no other. -/
theorem auXinoWrite0_marks (hs : Sound A s) (b h : Nat) {ino : Nat}
    (hino : ino = 0 ∨ firstIno ≤ ino) (hlt : ino < 2 ^ A.bitsPerLong) :
    Sound A (auXinoWrite0 A b h ino s).2 ∧
      (∀ k, mark s k = true → ino = 0 ∨ k ≠ ino - firstIno →
        mark (auXinoWrite0 A b h ino s).2 k = true) ∧
      ∀ n, n ≠ 0 → Recorded A (auXinoWrite0 A b h ino s).2 n → Recorded A s n := by
  have hoff : ¬ (!s.xino) = true := by rw [hs.xino]; decide
  have hzero : 0 < 2 ^ A.bitsPerLong := Nat.two_pow_pos _
  rw [auXinoWrite0, if_neg hoff]
  by_cases h0 : ino = 0
  · obtain ⟨hs', hm, hr⟩ := hs.write b h hzero
    rw [if_pos h0]
    exact ⟨hs', fun k hk _ => (hm k).trans hk, fun n hn hrn => (hr n hrn).resolve_left hn⟩
  have hle : firstIno ≤ ino := hino.resolve_left h0
  obtain ⟨hp, hio⟩ := xibPindex_nil (p := (xibCalcBit A ino).1) hs.xibIo
  obtain ⟨hsw, hlast⟩ := xibPindex_ok hs.tail hp
  have hs1 : Sound A { (xibPindex (xibCalcBit A ino).1 s).2 with
      siXibBuf := clearBitAt (xibPindex (xibCalcBit A ino).1 s).2.siXibBuf (xibCalcBit A ino).2,
      siXibNextBit := (xibCalcBit A ino).2 } := by
    have h1 := hs.of_tables hsw.tables hsw.tail hio
    exact ⟨h1.xino, h1.io, h1.xibIo, h1.tail, h1.aligned, h1.shared⟩
  obtain ⟨hs', hm, hr⟩ := hs1.write b h hzero
  rw [if_neg h0, if_neg (not_not.mpr hp)]
  refine ⟨hs', fun k hk hne => ?_, fun n hn hrn => ?_⟩
  · rw [hm, mark_clearBitAt (xibCalcBit_lt A ino), absBit_xibCalcBit hlast, hsw.marks, hk,
      xibBit_of_le hle hlt, Bool.and_true, decide_eq_true_iff]
    exact fun hc => hne.resolve_left h0 hc.symm
  · exact (hsw.tables.recorded n).mp ((hr n hrn).resolve_left hn)

end Operations

/-! ## Runs -/

/-- The super block, and the numbers that are out: returned by `au_xino_new_ino` and not released. -/
structure Numbers where
  sb : Sbinfo
  out : Nat → Prop

/-- The calls, with what they return. -/
inductive InoEvent where
  | newIno (ino : Nat)
  | ino (bindex hIno : Nat) (err : Int) (ino : Nat)
  | write0 (bindex hIno ino : Nat) (err : Int)
  | trunc (page : Nat → UInt8) (err : Int)

/-- One call.  `au_ino` asks for a new number if the branch's table has none. -/
def inoStep (A : Arch) (s : Numbers) : InoEvent → Numbers → Prop
  | .newIno ino, s' => auXinoNewIno A s.sb = .ok (ino, s'.sb) ∧ s'.out = fun n => n = ino ∨ s.out n
  | .ino b h err ino, s' => b ≤ s.sb.siBend ∧ auIno A b h s.sb = .ok (err, ino, s'.sb) ∧
      s'.out = fun n => (InXino A h ∧ xinoEntry A s.sb b h = 0 ∧ n = ino) ∨ s.out n
  | .write0 b h ino err, s' => b ≤ s.sb.siBend ∧ (ino = 0 ∨ firstIno ≤ ino) ∧
      ino < 2 ^ A.bitsPerLong ∧ auXinoWrite0 A b h ino s.sb = (err, s'.sb) ∧
      s'.out = fun n => n ≠ ino ∧ s.out n
  | .trunc page err, s' => auXibTrunc A page s.sb = (err, s'.sb) ∧ s'.out = s.out

/-- The numbers below `2 ^ 32` are not all given away when a new one is asked for. -/
def Fits (A : Arch) (s : Numbers) : InoEvent → Prop
  | .newIno _ => NotExhausted A s.sb
  | .ino .. => NotExhausted A s.sb
  | _ => True

/-- The number is allocated: out, and recorded in some xino file. -/
def InUse (A : Arch) (s : Numbers) (ino : Nat) : Prop := s.out ino ∧ Recorded A s.sb ino

/-- The bitmap marks every number in use. -/
structure Consistent (A : Arch) (s : Numbers) : Prop where
  sound : Sound A s.sb
  first : ∀ n, s.out n → firstIno ≤ n
  marked : ∀ n, InUse A s n → mark s.sb (n - firstIno) = true

section Runs

variable {A : Arch} {s s' s0 : Numbers} {es : List InoEvent}

/-- **A new number** is that of a bit that was clear, so it is not in use. -/
theorem newIno_fresh (hc : Consistent A s) (hne : NotExhausted A s.sb) {ino : Nat} {sb : Sbinfo}
    (h : auXinoNewIno A s.sb = .ok (ino, sb)) :
    ¬ InUse A s ino ∧ firstIno ≤ ino ∧ ino < 2 ^ 32 ∧
      SetsBit s.sb (ino - firstIno) sb ∧ sb.xibIo = [] := by
  obtain ⟨b, t, hfind, hb, hino, hset, hio⟩ := auXinoNewIno_found hc.sound.xino hc.sound.xibIo
    hc.sound.tail h
  have hlt : firstIno + absBit t b < 2 ^ 32 := hne b t hfind
  have hval : ino = firstIno + absBit t b := hino.trans (xibCalcIno_of_lt hlt)
  have hbit : ino - firstIno = absBit t b := by omega
  rw [← hbit] at hset
  refine ⟨fun huse => ?_, by omega, by omega, hset, hio⟩
  have hmark := hc.marked ino huse
  rw [hset.clear] at hmark
  exact Bool.noConfusion hmark

theorem SetsBit.keeps {t t' : Sbinfo} {m : Nat} (h : SetsBit t m t') {k : Nat}
    (hk : mark t k = true) : mark t' k = true := by
  rw [h.marks, hk, Bool.or_true]

theorem SetsBit.sets {t t' : Sbinfo} {m : Nat} (h : SetsBit t m t') : mark t' m = true := by
  rw [h.marks, decide_eq_true rfl, Bool.true_or]

/-- `au_ino`, where nothing fails: the number in the table, or a new one that is put there. -/
theorem auIno_nil {t : Sbinfo} (hs : Sound A t) (b h : Nat) {r : Int × Nat × Sbinfo}
    (hr : auIno A b h t = .ok r) :
    (¬ (InXino A h ∧ xinoEntry A t b h = 0) ∧ r.2.2 = t) ∨
      ((InXino A h ∧ xinoEntry A t b h = 0) ∧ ∃ ino t1, auXinoNewIno A t = .ok (ino, t1) ∧
        ((ino = 0 ∧ r.2.2 = t1) ∨ r = (0, ino, recordEntry A t1 b h ino))) := by
  rw [auIno, auXinoRead_nil hs.xino hs.io] at hr
  by_cases hh : InXino A h
  case neg =>
    left
    have hne : (-EFBIG : Int) ≠ 0 := by decide
    simp only [if_neg hh, if_pos hne] at hr
    exact ⟨fun hc => hh hc.1, by rw [← Except.ok.inj hr]⟩
  simp only [if_pos hh, ne_eq, not_true_eq_false, if_false] at hr
  by_cases hent : xinoEntry A t b h = 0
  case neg =>
    left
    rw [if_pos hent] at hr
    exact ⟨fun hc => hent hc.2, by rw [← Except.ok.inj hr]⟩
  right
  refine ⟨⟨hh, hent⟩, ?_⟩
  rw [if_neg (not_not.mpr hent)] at hr
  rcases hnew : auXinoNewIno A t with e | ⟨ino, t1⟩
  · rw [hnew] at hr
    cases hr
  rw [hnew] at hr
  refine ⟨ino, t1, rfl, ?_⟩
  by_cases h0 : ino = 0
  · left
    have hr' := Except.ok.inj ((if_pos h0).symm.trans hr)
    exact ⟨h0, by rw [← hr']⟩
  · right
    have hr' := Except.ok.inj ((if_neg h0).symm.trans hr)
    obtain ⟨b', u, _, _, _, hset, hio⟩ := auXinoNewIno_found hs.xino hs.xibIo hs.tail hnew
    have hs1 := hs.of_tables hset.tables hset.tail hio
    rw [← hr', auXinoWrite_nil hs1.xino hs1.io, if_pos hh]

/-- **Every call keeps the bitmap ahead of the numbers in use.** -/
theorem step_consistent {e : InoEvent} (hc : Consistent A s) (hf : Fits A s e)
    (hstep : inoStep A s e s') : Consistent A s' := by
  cases e with
  | newIno ino =>
    obtain ⟨hnew, hout⟩ := hstep
    obtain ⟨-, hfirst, -, hset, hio⟩ := newIno_fresh hc hf hnew
    refine ⟨hc.sound.of_tables hset.tables hset.tail hio, fun n hn => ?_, fun n hn => ?_⟩
    · rw [hout] at hn
      rcases hn with rfl | hn
      · exact hfirst
      · exact hc.first n hn
    · obtain ⟨hn, hrec⟩ := hn
      rw [hout] at hn
      rcases hn with rfl | hn
      · exact hset.sets
      · exact hset.keeps (hc.marked n ⟨hn, (hset.tables.recorded n).mp hrec⟩)
  | ino b h err ino =>
    obtain ⟨-, hino, hout⟩ := hstep
    rcases auIno_nil hc.sound b h hino with ⟨hno, hsb⟩ | ⟨hyes, n0, t1, hnew, hres⟩
    · have hsb' : s'.sb = s.sb := hsb
      have hout' : s'.out = s.out := by
        rw [hout]
        funext n
        exact propext ⟨fun hn => hn.resolve_left fun hc => hno ⟨hc.1, hc.2.1⟩, Or.inr⟩
      refine ⟨hsb'.symm ▸ hc.sound, fun n hn => hc.first n (hout' ▸ hn), fun n hn => ?_⟩
      rw [hsb']
      obtain ⟨hn, hrec⟩ := hn
      rw [hout'] at hn
      rw [hsb'] at hrec
      exact hc.marked n ⟨hn, hrec⟩
    · obtain ⟨-, hfirst, hlt, hset, hio⟩ := newIno_fresh hc hf hnew
      rcases hres with ⟨h0, -⟩ | hres
      · rw [h0, firstIno] at hfirst
        omega
      obtain ⟨-, hrest⟩ := Prod.mk.inj hres
      obtain ⟨hn0, hsb⟩ := Prod.mk.inj hrest
      have hs1 := hc.sound.of_tables hset.tables hset.tail hio
      have hw : n0 < 2 ^ A.bitsPerLong := by
        refine Nat.lt_of_lt_of_le hlt (Nat.pow_le_pow_right (by omega) ?_)
        rcases A.bitsPerLong_eq with h | h <;> omega
      rw [hn0] at hout
      have hs' : Sound A s'.sb := by
        rw [hsb]
        exact ⟨hs1.xino, hs1.io, hs1.xibIo, hs1.tail, recordEntry_aligned hs1.aligned n0, hs1.shared⟩
      refine ⟨hs', fun n hn => ?_, fun n hn => ?_⟩
      · rw [hout] at hn
        rcases hn with ⟨-, -, rfl⟩ | hn
        · exact hfirst
        · exact hc.first n hn
      · obtain ⟨hn, hrec⟩ := hn
        rw [hout] at hn
        rw [hsb] at hrec ⊢
        rw [mark_recordEntry]
        rcases recorded_recordEntry hs1.aligned hw hrec with rfl | hrec'
        · exact hset.sets
        rcases hn with ⟨-, -, rfl⟩ | hn
        · exact hset.sets
        · exact hset.keeps (hc.marked n ⟨hn, (hset.tables.recorded n).mp hrec'⟩)
  | write0 b h ino err =>
    obtain ⟨-, hino, hlt, hw, hout⟩ := hstep
    obtain ⟨hs', hm, hr⟩ := auXinoWrite0_marks hc.sound b h hino hlt
    rw [hw] at hs' hm hr
    refine ⟨hs', fun n hn => ?_, fun n hn => ?_⟩
    · rw [hout] at hn
      exact hc.first n hn.2
    · obtain ⟨hn, hrec⟩ := hn
      rw [hout] at hn
      have hfirst := hc.first n hn.2
      have hne : n ≠ 0 := by
        rw [firstIno] at hfirst
        omega
      refine hm _ (hc.marked n ⟨hn.2, hr n hne hrec⟩) ?_
      rcases hino with h0 | hle
      · exact Or.inl h0
      · right
        have hnn := hn.1
        omega
  | trunc page err =>
    obtain ⟨ht, hout⟩ := hstep
    obtain ⟨hio, htab, htail, hmarks⟩ := auXibTrunc_marks page hc.sound.xino hc.sound.io
      hc.sound.xibIo hc.sound.tail hc.sound.aligned hc.sound.shared
    rw [ht] at hio htab htail hmarks
    refine ⟨hc.sound.of_tables htab htail hio, fun n hn => hc.first n (hout ▸ hn), fun n hn => ?_⟩
    obtain ⟨hn, hrec⟩ := hn
    rw [hout] at hn
    have hrec' := (htab.recorded n).mp hrec
    rcases hmarks with hsame | hmarks
    · have hsame' : s'.sb = s.sb := hsame
      rw [hsame']
      exact hc.marked n ⟨hn, hrec'⟩
    · refine (hmarks _).mpr ⟨n, hrec', hc.first n hn, xibBit_of_le (hc.first n hn) ?_⟩
      obtain ⟨b, -, h, hent⟩ := hrec'
      rw [← hent]
      exact entry_lt _ _

/-- The state after mounting: nothing is out yet. -/
structure Mounted (A : Arch) (s : Numbers) : Prop where
  sound : Sound A s.sb
  out : ∀ n, ¬ s.out n

theorem Mounted.consistent (h : Mounted A s0) : Consistent A s0 :=
  ⟨h.sound, fun n hn => absurd hn (h.out n), fun n hn => absurd hn.1 (h.out n)⟩

/-- **In every run** of calls, the bitmap marks all numbers in use, and a number that
    `au_xino_new_ino` returns is the number of a bit that was clear and is now set: it is not in use. -/
theorem run_inUse (h0 : Mounted A s0) (h : Run (Guarded (inoStep A) (Fits A)) s0 es s) :
    (∀ n, InUse A s n → firstIno ≤ n ∧ mark s.sb (n - firstIno) = true) ∧
      ∀ ino sb, NotExhausted A s.sb → auXinoNewIno A s.sb = .ok (ino, sb) → ¬ InUse A s ino ∧
        ∃ pindex b, b < pageBits ∧ ino = xibCalcIno A pindex b ∧
          mark s.sb (pindex * pageBits + b) = false ∧ mark sb (pindex * pageBits + b) = true := by
  have hc : Consistent A s := h.inv h0.consistent fun s e s' hc hs => step_consistent hc hs.1 hs.2
  refine ⟨fun n hn => ⟨hc.first n hn.1, hc.marked n hn⟩, fun ino sb hne hnew => ?_⟩
  obtain ⟨hfresh, -⟩ := newIno_fresh hc hne hnew
  obtain ⟨b, t, -, hb, hino, hset, -⟩ := auXinoNewIno_found hc.sound.xino hc.sound.xibIo
    hc.sound.tail hnew
  exact ⟨hfresh, t.siXibLastPindex, b, hb, hino, hset.clear, hset.sets⟩

/-- A union of one branch just mounted. -/
def oneBranch : Numbers where
  sb := { xino := true, siBend := 0, siBranch := fun _ => ⟨0, 0⟩, xinoFiles := fun _ => .empty,
          siXib := File.empty.write 0 pageSize fun _ => 0, siXibBuf := fun _ => 0,
          siXibLastPindex := 0, siXibNextBit := 0, uniq := fun n => n, io := [], xibIo := [] }
  out := fun _ => False

theorem oneBranch_mounted : Mounted .lp64 oneBranch := by
  have hclear : ∀ m, bitAt oneBranch.sb.siXib.data m = false := by
    intro m
    have hdata : oneBranch.sb.siXib.data = fun _ => 0 := funext fun i => ite_self _
    rw [hdata]
    exact bitAt_zero m
  exact ⟨⟨rfl, rfl, rfl, fun m _ _ => hclear m, fun _ => Nat.dvd_zero _, fun _ _ _ _ _ => rfl⟩,
    fun _ h => h⟩

/-- The first number given is that of bit 0, 11, here for inode 5 of the branch. -/
theorem run_inUse_first : ∃ s : Numbers,
    Run (Guarded (inoStep .lp64) (Fits .lp64)) oneBranch [.ino 0 5 0 11] s ∧
      InUse .lp64 s 11 ∧ mark s.sb 0 = true := by
  have hfind : xibFindFree .lp64 oneBranch.sb = .ok (.found 0, oneBranch.sb) := rfl
  have hfits : NotExhausted .lp64 oneBranch.sb := by
    intro b s' h
    obtain ⟨hb, hs⟩ := Prod.mk.inj (Except.ok.inj (hfind.symm.trans h))
    injection hb with hb
    rw [← hb, ← hs]
    decide
  obtain ⟨sb1, hsb1⟩ : ∃ sb1 : Sbinfo, sb1 = { oneBranch.sb with
      siXibBuf := setBitAt oneBranch.sb.siXibBuf 0, siXibNextBit := wrap32 (0 + 1) } := ⟨_, rfl⟩
  obtain ⟨sb, hsb⟩ : ∃ sb, sb = recordEntry .lp64 sb1 0 5 11 := ⟨_, rfl⟩
  have hread : auXinoRead .lp64 0 5 oneBranch.sb = (0, 0, oneBranch.sb) := by
    rw [auXinoRead_nil rfl rfl, if_pos (by decide)]
    rfl
  have hnew : auXinoNewIno .lp64 oneBranch.sb = .ok (11, sb1) := by
    rw [auXinoNewIno, hfind, hsb1]
    rfl
  have hino : auIno .lp64 0 5 oneBranch.sb = .ok (0, 11, sb) := by
    have hwrite : auXinoWrite .lp64 0 5 11 sb1 = (0, sb) := by
      rw [auXinoWrite_nil (by rw [hsb1]; rfl) (by rw [hsb1]; rfl), if_pos (by decide), hsb]
    simp only [auIno, hread, hnew, hwrite]
    rfl
  have hrun : Run (Guarded (inoStep .lp64) (Fits .lp64)) oneBranch [.ino 0 5 0 11]
      ⟨sb, fun n => (InXino .lp64 5 ∧ xinoEntry .lp64 oneBranch.sb 0 5 = 0 ∧ n = 11) ∨ False⟩ :=
    Run.nil.snoc ⟨hfits, Nat.le_refl _, hino, rfl⟩
  have huse : InUse .lp64 ⟨sb, fun n => (InXino .lp64 5 ∧
      xinoEntry .lp64 oneBranch.sb 0 5 = 0 ∧ n = 11) ∨ False⟩ 11 := by
    refine ⟨Or.inl ⟨by decide, by decide, rfl⟩, 0, Nat.zero_le _, 5, ?_⟩
    show xinoEntry .lp64 sb 0 5 = 11
    rw [hsb, xinoEntry_recordEntry (by rw [hsb1]; exact fun _ => Nat.dvd_zero _) (by decide),
      if_pos ⟨rfl, rfl⟩]
  exact ⟨_, hrun, huse, ((run_inUse oneBranch_mounted hrun).1 11 huse).2⟩

end Runs

end KernelPatches.Aufs
