/-
  aufs: looking a name up once more, below the topmost branch that has it.

  To decide about a whiteout `au_lkup_dentry` is called a second time, for the branches below the entry
  which is going to be removed, with the `au_dinfo` the first lookup left: the directories merged are in it
  already, and so is the index of a whiteout that was found.

  * `lkupLoop_total`  — without errors of the lower file systems it does not fail, and loses nothing found;
  * `lkupLoop_below`  — with no whiteout known, it finds something iff a branch shows the name;
  * `lkupLoop_stale`  — with a whiteout known, it ends at the first branch that is really looked at, and
                        does not count what it found there.
-/
import KernelPatches.Aufs.LookupUnion

namespace KernelPatches.Aufs

section Below

variable {st : Stack} {parent : Dinfo} {name : Name} {s e k : Nat} {inode : Option Nat}

/-! ## One branch -/

variable (inode) in
open Classical in
/-- **One lookup on one branch**, with any `d_inode`: what it returns and what it does not touch. -/
theorem auDoLookup_total (hq : Quiet st parent name s e) (hs : s ≤ k) (he : k < e) {dir : HInode}
    (hdir : dirAt parent k = some dir) (hParent : HDentry) (type : Nat) (allowNeg : Bool) (d : Dinfo) :
    ∃ hd d', auDoLookup st inode name hParent dir k type allowNeg d = (.ok hd, d') ∧
      d'.diBwh = (if WhAt st parent name k then (k : Int) else d.diBwh) ∧
      (0 ≤ d.diBstart → d.diBstart ≤ k → d'.diBstart = d.diBstart) ∧
      (∀ c, c ≠ k → d'.diHdentry c = d.diHdentry c) ∧
      ∀ hInode, hd.bind HDentry.inode = some hInode ↔ ¬ WhAt st parent name k ∧
        entryAt parent name k = some hInode ∧ (type = 0 ∨ type = hInode.mode) := by
  have hone := whFound_quiet hq hs he hdir hParent
  -- a hidden dentry below the start does not move it
  have hkeep : 0 ≤ d.diBstart → d.diBstart ≤ k →
      (if d.diBstart < 0 ∨ (k : Int) < d.diBstart then (k : Int) else d.diBstart) = d.diBstart := by
    intro h0 hle
    exact if_neg (by omega)
  by_cases hwh : WhAt st parent name k
  · -- at a whiteout at most a negative dentry is set
    have hne : ¬ (1 : Int) = 0 := by decide
    have hlt : ¬ (1 : Int) < 0 := by decide
    rw [auDoLookup, hone.1 hwh]
    simp only [if_neg hlt, if_neg hne, if_pos hwh, auLkupOne_quiet hq hs he hdir]
    by_cases hneg : (1 : Int) ≠ 0 ∧ (!allowNeg) = true
    · rw [if_pos hneg]
      refine ⟨none, _, rfl, rfl, fun _ _ => rfl, fun _ _ => rfl, fun hInode => ?_⟩
      exact iff_of_false (fun hc => by cases hc) fun hc => hc.1 hwh
    rw [if_neg hneg]
    cases hf : (hiddenOf name hParent dir).inode with
    | none =>
      dsimp only
      by_cases ha : allowNeg = true
      · rw [if_pos ha]
        refine ⟨_, _, rfl, rfl, hkeep, fun c hc => Function.update_of_ne hc _ _, fun hInode => ?_⟩
        refine iff_of_false (fun hc => ?_) fun hc => hc.1 hwh
        rw [Option.bind_some, hf] at hc
        cases hc
      · rw [if_neg ha]
        refine ⟨none, _, rfl, rfl, fun _ _ => rfl, fun _ _ => rfl, fun hInode => ?_⟩
        exact iff_of_false (fun hc => by cases hc) fun hc => hc.1 hwh
    | some hInode =>
      dsimp only
      rw [if_pos (Or.inl hne)]
      refine ⟨none, _, rfl, rfl, fun _ _ => rfl, fun _ _ => rfl, fun hInode => ?_⟩
      exact iff_of_false (fun hc => by cases hc) fun hc => hc.1 hwh
  have hlt : ¬ (0 : Int) < 0 := by decide
  have hne : ¬ ((0 : Int) ≠ 0 ∧ (!allowNeg) = true) := fun hc => hc.1 rfl
  rw [auDoLookup, hone.2 hwh]
  simp only [if_neg hlt, if_true, if_neg hne, if_neg hwh, auLkupOne_quiet hq hs he hdir]
  have hent : entryAt parent name k = (hiddenOf name hParent dir).inode := entryAt_eq hdir
  rw [hent]
  cases hf : (hiddenOf name hParent dir).inode with
  | none =>
    dsimp only
    by_cases ha : allowNeg = true
    · rw [if_pos ha]
      refine ⟨_, _, rfl, rfl, hkeep, fun c hc => Function.update_of_ne hc _ _, fun hInode => ?_⟩
      refine iff_of_false (fun hc => ?_) fun hc => by cases hc.2.1
      rw [Option.bind_some, hf] at hc
      cases hc
    · rw [if_neg ha]
      refine ⟨none, _, rfl, rfl, fun _ _ => rfl, fun _ _ => rfl, fun hInode => ?_⟩
      exact iff_of_false (fun hc => by cases hc) fun hc => by cases hc.2.1
  | some hInode =>
    dsimp only
    by_cases hother : type ≠ 0 ∧ type ≠ hInode.mode
    · rw [if_pos (Or.inr hother)]
      refine ⟨none, _, rfl, rfl, fun _ _ => rfl, fun _ _ => rfl, fun hInode' => ?_⟩
      refine iff_of_false (fun hc => by cases hc) ?_
      rintro ⟨-, heq, ht⟩
      obtain rfl := Option.some.inj heq
      exact ht.elim hother.1 hother.2
    rw [if_neg (fun hc => hc.elim (fun h0 => h0 rfl) hother)]
    have htype : type = 0 ∨ type = hInode.mode := by
      by_contra hc
      exact hother ⟨fun h0 => hc (Or.inl h0), fun hm => hc (Or.inr hm)⟩
    -- the hidden dentry found, whatever is said of its opacity
    have hfound : ∀ hInode', (some (hiddenOf name hParent dir)).bind HDentry.inode = some hInode' ↔
        ¬ WhAt st parent name k ∧ some hInode = some hInode' ∧ (type = 0 ∨ type = hInode'.mode) := by
      intro hInode'
      rw [Option.bind_some, hf]
      constructor
      · intro heq
        obtain rfl := Option.some.inj heq
        exact ⟨hwh, rfl, htype⟩
      · rintro ⟨-, heq, -⟩
        exact heq
    by_cases hask : hInode.mode ≠ sIfdir ∨ (!auBrWhable (st.brPerm k)) = true ∨
        inode.any (· ≠ sIfdir) = true
    · rw [if_pos hask]
      exact ⟨_, _, rfl, rfl, hkeep, fun c hc => Function.update_of_ne hc _ _, hfound⟩
    · rw [if_neg hask]
      have hmode : hInode.mode = sIfdir := by
        by_contra hc
        exact hask (Or.inl hc)
      have hable : auBrWhable (st.brPerm k) = true := by
        by_contra hc
        rw [Bool.not_eq_true] at hc
        exact hask (Or.inr (Or.inl (by rw [hc]; rfl)))
      obtain ⟨herr, hreg⟩ := hq.opq k hInode hs he hable (hent.trans hf) hmode
      rw [auWhTest_quiet herr hreg]
      by_cases hsome : (hInode.find whDiropq).isSome = true
      · rw [if_pos hsome, if_pos (by decide)]
        exact ⟨_, _, rfl, rfl, hkeep, fun c hc => Function.update_of_ne hc _ _, hfound⟩
      · rw [if_neg hsome, if_neg (by decide), if_neg (by decide)]
        exact ⟨_, _, rfl, rfl, hkeep, fun c hc => Function.update_of_ne hc _ _, hfound⟩

/-! ## One round -/

variable (inode) in
/-- A branch that is looked at: the index of the whiteout, its own or an old one, ends the loop before what
    was found is counted. -/
theorem lkupRound_looked (hq : Quiet st parent name s e) (hs : s ≤ k) (he : k < e) {w : Lkup}
    (hfree : w.d.hDptr k = none) {dir : HInode} (hdir : dirAt parent k = some dir) :
    ∃ (hd : Option HInode) (d' : Dinfo),
      (0 ≤ w.d.diBstart → w.d.diBstart ≤ k → d'.diBstart = w.d.diBstart) ∧
      (WhAt st parent name k → d'.diBwh = k) ∧
      (¬ WhAt st parent name k → d'.diBwh = w.d.diBwh) ∧
      (∀ c, c ≠ k → d'.diHdentry c = w.d.diHdentry c) ∧
      (∀ hInode, hd = some hInode ↔ ¬ WhAt st parent name k ∧ entryAt parent name k = some hInode ∧
        (w.type = 0 ∨ w.type = hInode.mode)) ∧
      (0 ≤ d'.diBwh →
        lkupRound st parent inode name 0 k w = .stop { w with allowNeg := false, d := d' }) ∧
      (d'.diBwh < 0 → hd = none →
        lkupRound st parent inode name 0 k w = .next { w with allowNeg := false, d := d' }) ∧
      (d'.diBwh < 0 → hd ≠ none → ∃ w', w'.npositive = w.npositive + 1 ∧ w'.d = d' ∧
        (lkupRound st parent inode name 0 k w = .stop w' ∨
          lkupRound st parent inode name 0 k w = .next w')) := by
  obtain ⟨hParent, hptr, hinode, hmode⟩ := dirAt_some hdir
  obtain ⟨hd, d', hlook, hbwh, hstart, hslots, hfound⟩ :=
    auDoLookup_total inode hq hs he hdir hParent w.type w.allowNeg w.d
  refine ⟨hd.bind HDentry.inode, d', hstart, fun hwh => hbwh.trans (if_pos hwh),
    fun hwh => hbwh.trans (if_neg hwh), hslots, hfound, ?_, ?_, ?_⟩
  · intro h0
    unfold lkupRound
    rw [hfree, hptr]
    dsimp only
    rw [hinode]
    dsimp only
    rw [if_neg (not_not_intro hmode), hlook]
    dsimp only
    rw [if_pos h0]
  · intro h0 hnone
    unfold lkupRound
    rw [hfree, hptr]
    dsimp only
    rw [hinode]
    dsimp only
    rw [if_neg (not_not_intro hmode), hlook]
    dsimp only
    rw [if_neg (by omega), hnone]
  · intro h0 hsome
    obtain ⟨hInode, hsome⟩ := Option.ne_none_iff_exists'.mp hsome
    -- one more positive hidden dentry, whether the loop goes on or not
    refine ⟨{ w with
      allowNeg := false, d := d', npositive := w.npositive + 1
      type := if w.type = 0 then hInode.mode else w.type }, rfl, rfl, ?_⟩
    unfold lkupRound
    rw [hfree, hptr]
    dsimp only
    rw [hinode]
    dsimp only
    rw [if_neg (not_not_intro hmode), hlook]
    dsimp only
    rw [if_neg (by omega), hsome]
    dsimp only
    generalize (if w.type = 0 then hInode.mode else w.type) = type
    split
    · exact Or.inl rfl
    · split
      · exact Or.inl rfl
      · exact Or.inr rfl

/-- A hidden dentry that is there already is counted, and is the last one. -/
theorem lkupRound_held {w : Lkup} {hd : HDentry} (hheld : w.d.hDptr k = some hd)
    (hpos : hd.inode.isSome = true) :
    lkupRound st parent inode name 0 k w = .stop { w with npositive := w.npositive + 1 } := by
  unfold lkupRound
  rw [hheld]
  dsimp only
  rw [if_pos (by decide), if_pos hpos]

/-! ## The loop -/

/-- The hidden dentries in the branches from `k` on are positive, and really there. -/
def HeldFrom (st : Stack) (parent : Dinfo) (name : Name) (k e : Nat) (d : Dinfo) : Prop :=
  ∀ b hd, k ≤ b → b < e → d.hDptr b = some hd → hd.inode.isSome = true ∧
    (entryAt parent name b).isSome = true ∧ ¬ WhAt st parent name b

theorem HeldFrom.next {d d' : Dinfo} (h : HeldFrom st parent name k e d) (hstart : d'.diBstart = d.diBstart)
    (hslots : ∀ c, c ≠ k → d'.diHdentry c = d.diHdentry c) : HeldFrom st parent name (k + 1) e d' := by
  intro b hd hb hbe hptr
  refine h b hd (by omega) hbe ?_
  rw [← hptr, Dinfo.hDptr, Dinfo.hDptr, hstart, hslots b (by omega)]

theorem HeldFrom.succ {d : Dinfo} (h : HeldFrom st parent name k e d) : HeldFrom st parent name (k + 1) e d :=
  fun b hd hb hbe hptr => h b hd (by omega) hbe hptr

/-- **No failure**, by induction on the branches left, and what was found stays found. -/
theorem lkupLoop_total (hq : Quiet st parent name s e) : ∀ {count k : Nat} {w : Lkup}, s ≤ k →
    k + count ≤ e → 0 ≤ w.d.diBstart → w.d.diBstart < k → HeldFrom st parent name k e w.d →
    ∃ n d', lkupLoop st parent inode name 0 count k w = (.ok n, d') ∧ w.npositive ≤ n ∧
      d'.diBstart = w.d.diBstart := by
  intro count
  induction count with
  | zero =>
    intro k w _ _ _ _ _
    exact ⟨_, _, rfl, Nat.le_refl _, rfl⟩
  | succ count ih =>
    intro k w hs he h0 hlt hheld
    rw [lkupLoop]
    cases hptr : w.d.hDptr k with
    | some hd =>
      rw [lkupRound_held hptr (hheld k hd (Nat.le_refl k) (by omega) hptr).1]
      exact ⟨_, _, rfl, Nat.le_succ _, rfl⟩
    | none =>
      cases hdir : dirAt parent k with
      | none =>
        rw [round_none hptr hdir]
        exact ih (by omega) (by omega) h0 (by omega) hheld.succ
      | some dir =>
        obtain ⟨hd, d', hstart, -, -, hslots, -, hstop, hnext, hcount⟩ :=
          lkupRound_looked inode hq hs (by omega) hptr hdir
        have hstart' := hstart h0 (by omega)
        by_cases hwh : 0 ≤ d'.diBwh
        · rw [hstop hwh]
          exact ⟨_, _, rfl, Nat.le_refl _, hstart'⟩
        by_cases hnone : hd = none
        · rw [hnext (by omega) hnone]
          obtain ⟨n, d'', hloop, hle, hs''⟩ := @ih (k + 1) { w with allowNeg := false, d := d' }
            (by omega) (by omega) (hstart'.symm ▸ h0)
            (by show d'.diBstart < _; omega) (hheld.next hstart' hslots)
          exact ⟨n, d'', hloop, hle, hs''.trans hstart'⟩
        · obtain ⟨w', hn, hd', hround⟩ := hcount (by omega) hnone
          rcases hround with hround | hround
          · rw [hround]
            exact ⟨_, _, rfl, by omega, by rw [hd']; exact hstart'⟩
          · rw [hround]
            obtain ⟨n, d'', hloop, hle, hs''⟩ := @ih (k + 1) w' (by omega) (by omega)
              (by rw [hd', hstart']; exact h0) (by rw [hd', hstart']; omega)
              (by rw [hd']; exact hheld.next hstart' hslots)
            exact ⟨n, d'', hloop, by omega, by rw [hs'', hd']; exact hstart'⟩

/-- A branch from `k` on shows the name. -/
def ShownFrom (st : Stack) (parent : Dinfo) (name : Name) (k e : Nat) : Prop :=
  ∃ b, Shown st parent name k e b

theorem shownFrom_skip (hwh : ¬ WhAt st parent name k) (hent : entryAt parent name k = none) :
    ShownFrom st parent name k e ↔ ShownFrom st parent name (k + 1) e := by
  constructor
  · rintro ⟨b, hle, hlt, hb, hclean⟩
    have hne : b ≠ k := by
      rintro rfl
      rw [hent] at hb
      cases hb
    exact ⟨b, by omega, hlt, hb, fun b' hb' hle' => hclean b' (by omega) hle'⟩
  · rintro ⟨b, hle, hlt, hb, hclean⟩
    refine ⟨b, by omega, hlt, hb, fun b' hb' hle' => ?_⟩
    by_cases hk : b' = k
    · rw [hk]
      exact hwh
    · exact hclean b' (by omega) hle'

/-- **With no whiteout known** the loop finds something iff a branch shows the name, by induction on the
    branches left. -/
theorem lkupLoop_below (hq : Quiet st parent name s e) : ∀ {count k : Nat} {w : Lkup} {n : Nat} {d' : Dinfo},
    s ≤ k → k + count = e → 0 ≤ w.d.diBstart → w.d.diBstart < k → HeldFrom st parent name k e w.d →
    w.d.diBwh = -1 → w.type = 0 → w.npositive = 0 →
    lkupLoop st parent inode name 0 count k w = (.ok n, d') →
    (n ≠ 0 ↔ ShownFrom st parent name k e) := by
  intro count
  induction count with
  | zero =>
    intro k w n d' _ he _ _ _ _ _ hn h
    rw [lkupLoop, hn] at h
    obtain rfl := Except.ok.inj (Prod.mk.inj h).1
    refine iff_of_false (not_not_intro rfl) ?_
    rintro ⟨b, hle, hlt, -⟩
    omega
  | succ count ih =>
    intro k w n d' hs he h0 hlt hheld hbwh htype hn h
    rw [lkupLoop] at h
    cases hptr : w.d.hDptr k with
    | some hd =>
      obtain ⟨hpos, hent, hwh⟩ := hheld k hd (Nat.le_refl k) (by omega) hptr
      rw [lkupRound_held hptr hpos] at h
      obtain rfl := Except.ok.inj (Prod.mk.inj h).1
      refine iff_of_true (Nat.succ_ne_zero _) ⟨k, Nat.le_refl k, by omega, hent, fun b' hb hle => ?_⟩
      obtain rfl : b' = k := by omega
      exact hwh
    | none =>
      cases hdir : dirAt parent k with
      | none =>
        rw [round_none hptr hdir] at h
        rw [shownFrom_skip (not_whAt_of_none hdir) (entryAt_none hdir)]
        exact ih (by omega) (by omega) h0 (by omega) hheld.succ hbwh htype hn h
      | some dir =>
        obtain ⟨hd, d'', hstart, hwhAt, hno, hslots, hfound, hstop, hnext, hcount⟩ :=
          lkupRound_looked inode hq hs (by omega) hptr hdir
        have hstart' := hstart h0 (by omega)
        by_cases hwh : WhAt st parent name k
        · -- the whiteout hides what is below
          rw [hstop (by rw [hwhAt hwh]; omega)] at h
          have hzero : n = 0 := (Except.ok.inj (Prod.mk.inj h).1).symm.trans hn
          refine iff_of_false (not_not_intro hzero) ?_
          rintro ⟨b, hle, -, -, hclean⟩
          exact hclean k (Nat.le_refl k) hle hwh
        have hbwh' : d''.diBwh < 0 := by
          rw [hno hwh, hbwh]
          decide
        cases hent : entryAt parent name k with
        | none =>
          have hnone : hd = none := by
            rw [Option.eq_none_iff_forall_ne_some]
            intro hInode hc
            rw [((hfound hInode).mp hc).2.1] at hent
            cases hent
          rw [hnext hbwh' hnone] at h
          rw [shownFrom_skip hwh hent]
          exact @ih (k + 1) { w with allowNeg := false, d := d'' } n d' (by omega) (by omega)
            (hstart'.symm ▸ h0) (by show d''.diBstart < _; omega) (hheld.next hstart' hslots)
            ((hno hwh).trans hbwh) htype hn h
        | some hInode =>
          have hsome : hd ≠ none := by
            rw [(hfound hInode).mpr ⟨hwh, hent, Or.inl htype⟩]
            exact Option.some_ne_none _
          have hshown : ShownFrom st parent name k e := by
            refine ⟨k, Nat.le_refl k, by omega, by rw [hent]; rfl, fun b' hb hle => ?_⟩
            obtain rfl : b' = k := by omega
            exact hwh
          refine iff_of_true ?_ hshown
          obtain ⟨w', hn', hd', hround⟩ := hcount hbwh' hsome
          rcases hround with hround | hround
          · rw [hround] at h
            have hn'' := Except.ok.inj (Prod.mk.inj h).1
            omega
          · rw [hround] at h
            obtain ⟨n', d₁, hloop, hle, -⟩ := @lkupLoop_total _ _ _ _ _ inode hq count (k + 1) w'
              (by omega) (by omega) (by rw [hd', hstart']; exact h0) (by rw [hd', hstart']; omega)
              (by rw [hd']; exact hheld.next hstart' hslots)
            have hn'' : n' = n := Except.ok.inj (Prod.mk.inj (hloop.symm.trans h)).1
            omega

/-- **With a whiteout known** the loop finds something iff the first branch with a directory has a hidden
    dentry already. -/
theorem lkupLoop_stale (hq : Quiet st parent name s e) : ∀ {count k : Nat} {w : Lkup} {n : Nat} {d' : Dinfo},
    s ≤ k → k + count = e → HeldFrom st parent name k e w.d → 0 ≤ w.d.diBwh → w.npositive = 0 →
    lkupLoop st parent inode name 0 count k w = (.ok n, d') →
    (n ≠ 0 ↔ ∃ b, k ≤ b ∧ b < e ∧ (w.d.hDptr b).isSome = true ∧
      ∀ b', k ≤ b' → b' < b → dirAt parent b' = none) := by
  intro count
  induction count with
  | zero =>
    intro k w n d' _ he _ _ hn h
    rw [lkupLoop, hn] at h
    obtain rfl := Except.ok.inj (Prod.mk.inj h).1
    refine iff_of_false (not_not_intro rfl) ?_
    rintro ⟨b, hle, hlt, -⟩
    omega
  | succ count ih =>
    intro k w n d' hs he hheld hbwh hn h
    rw [lkupLoop] at h
    cases hptr : w.d.hDptr k with
    | some hd =>
      rw [lkupRound_held hptr (hheld k hd (Nat.le_refl k) (by omega) hptr).1] at h
      obtain rfl := Except.ok.inj (Prod.mk.inj h).1
      exact iff_of_true (Nat.succ_ne_zero _) ⟨k, Nat.le_refl k, by omega, by rw [hptr]; rfl,
        fun b' hb hlt => absurd hb (by omega)⟩
    | none =>
      have hskip : ∀ b, (w.d.hDptr b).isSome = true → b ≠ k := by
        rintro b hb rfl
        rw [hptr] at hb
        cases hb
      cases hdir : dirAt parent k with
      | none =>
        rw [round_none hptr hdir] at h
        rw [ih (by omega) (by omega) hheld.succ hbwh hn h]
        constructor
        · rintro ⟨b, hle, hlt, hb, hno⟩
          refine ⟨b, by omega, hlt, hb, fun b' hb' hlt' => ?_⟩
          by_cases hk : b' = k
          · rw [hk]
            exact hdir
          · exact hno b' (by omega) hlt'
        · rintro ⟨b, hle, hlt, hb, hno⟩
          have hne := hskip b hb
          exact ⟨b, by omega, hlt, hb, fun b' hb' hlt' => hno b' (by omega) hlt'⟩
      | some dir =>
        obtain ⟨hd, d'', -, hwhAt, hno, -, -, hstop, -, -⟩ :=
          lkupRound_looked inode hq hs (by omega) hptr hdir
        have hwh : 0 ≤ d''.diBwh := by
          by_cases hwh : WhAt st parent name k
          · rw [hwhAt hwh]
            omega
          · rw [hno hwh]
            exact hbwh
        rw [hstop hwh] at h
        have hzero : n = 0 := (Except.ok.inj (Prod.mk.inj h).1).symm.trans hn
        refine iff_of_false (not_not_intro hzero) ?_
        rintro ⟨b, hle, -, hb, hnone⟩
        have hne := hskip b hb
        have hk := hnone k (Nat.le_refl k) (by omega)
        rw [hdir] at hk
        cases hk

end Below

end KernelPatches.Aufs
