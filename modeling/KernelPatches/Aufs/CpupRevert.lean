/-
  aufs: what a failed copy-up leaves of the hidden dentries.

  `au_cpup_simple` does not keep the old `di_bstart`: after a failure it takes the branch it copied from,
  which is the first one below the target that has a hidden dentry, and it drops the hidden dentry on the
  target.  That is how it was before if the name started below the target.  A directory may start above it.

  `au_do_cpup_wh` puts the hidden dentry of the open file in the place of the topmost one, and takes it out
  again only where the copying succeeded.

  * `auCpupSimple_restores_iff`, `auDoCpupWh_restores_iff` — exactly when nothing has changed;
  * `failed_cpup_restores_iff` — both of them.
-/
import KernelPatches.Aufs.Cpup

namespace KernelPatches.Aufs

/-- The hidden dentries and their range are what they were. -/
def Restored (d d' : Dinfo) : Prop :=
  d'.diBstart = d.diBstart ∧ d'.diBend = d.diBend ∧ ∀ b, d'.hDptr b = d.hDptr b

/-- The name can be looked up on the branch, and is not there. -/
def NegativeAt (name : Name) (parent : Dinfo) (bindex : Nat) : Prop :=
  ∃ hParent dir hDentry, parent.hDptr bindex = some hParent ∧ hParent.inode = some dir ∧
    auSioLkupOne name hParent dir = .ok hDentry ∧ hDentry.inode = none

/-- The copying succeeds. -/
def Copies (env : CpupEnv) (hSrc : HInode) (io : List Int) : Prop :=
  ∃ left io', auCpupSingle env hSrc io = some (0, left, io')

namespace Restored

theorem refl (d : Dinfo) : Restored d d := ⟨rfl, rfl, fun _ => rfl⟩

end Restored

/-! ## au_cpup_simple -/

section Simple

variable {name : Name} {parent d : Dinfo} {bindex : Nat}

theorem firstHDptr_some : ∀ {count bindex b : Nat}, firstHDptr d count bindex = some b →
    bindex ≤ b ∧ b < bindex + count ∧ (d.hDptr b).isSome = true ∧
      ∀ k, bindex ≤ k → k < b → d.hDptr k = none := by
  intro count
  induction count with
  | zero =>
    intro bindex b h
    cases h
  | succ count ih =>
    intro bindex b h
    rw [firstHDptr] at h
    by_cases hsome : (d.hDptr bindex).isSome = true
    · rw [if_pos hsome] at h
      obtain rfl := Option.some.inj h
      exact ⟨Nat.le_refl _, by omega, hsome, fun k hk hlt => absurd hk (by omega)⟩
    · rw [if_neg hsome] at h
      obtain ⟨hle, hlt, hb, hnone⟩ := ih h
      refine ⟨by omega, by omega, hb, fun k hk hkb => ?_⟩
      by_cases hki : k = bindex
      · rw [hki]
        exact Option.not_isSome_iff_eq_none.mp hsome
      · exact hnone k (by omega) hkb

/-- A hidden dentry is in the range. -/
theorem bstart_le_of_hDptr {b : Nat} (h : (d.hDptr b).isSome = true) :
    0 ≤ d.diBstart ∧ d.diBstart ≤ b := by
  rw [Dinfo.hDptr] at h
  split at h
  · cases h
  · omega

/-- The branch that is copied from is the start iff the start is below the target and not empty. -/
theorem cpupSrc_eq_bstart {bdst bsrc : Nat} (h : cpupSrc d bdst = some bsrc) :
    (bsrc : Int) = d.diBstart ↔
      (bdst : Int) < d.diBstart ∧ (d.hDptr d.diBstart.toNat).isSome = true := by
  obtain ⟨hle, -, hsome, hnone⟩ := firstHDptr_some h
  have hrange := bstart_le_of_hDptr hsome
  constructor
  · intro heq
    refine ⟨by omega, ?_⟩
    rw [← heq]
    exact hsome
  · rintro ⟨hlt, hstart⟩
    by_contra hne
    have hno := hnone d.diBstart.toNat (by omega) (by omega)
    rw [hno] at hstart
    cases hstart

/-- `au_lkup_neg` fails and changes nothing, or enters a negative hidden dentry. -/
theorem auLkupNeg_spec {err : Int} {d' : Dinfo} (h : auLkupNeg name parent bindex d = some (err, d')) :
    (err < 0 ∧ d' = d ∧ ¬ NegativeAt name parent bindex) ∨
      (err = 0 ∧ NegativeAt name parent bindex ∧ ∃ hDentry : HDentry, hDentry.inode = none ∧
        d' = { d with
          diBstart := if bindex < d.diBstart then bindex else d.diBstart
          diBend := if d.diBend < bindex then bindex else d.diBend
          diHdentry := Function.update d.diHdentry bindex (some hDentry) }) := by
  unfold auLkupNeg at h
  cases hp : parent.hDptr bindex with
  | none =>
    rw [hp] at h
    cases h
  | some hParent =>
    rw [hp] at h
    dsimp only at h
    cases hi : hParent.inode with
    | none =>
      rw [hi] at h
      cases h
    | some dir =>
      rw [hi] at h
      dsimp only at h
      -- what NegativeAt says of this directory
      have hneg : NegativeAt name parent bindex ↔
          ∃ hDentry, auSioLkupOne name hParent dir = .ok hDentry ∧ hDentry.inode = none := by
        constructor
        · rintro ⟨hParent', dir', hDentry, hp', hi', hl, hn⟩
          obtain rfl := Option.some.inj (hp.symm.trans hp')
          obtain rfl := Option.some.inj (hi.symm.trans hi')
          exact ⟨hDentry, hl, hn⟩
        · rintro ⟨hDentry, hl, hn⟩
          exact ⟨hParent, dir, hDentry, hp, hi, hl, hn⟩
      rw [hneg]
      cases hl : auSioLkupOne name hParent dir with
      | error e =>
        rw [hl] at h
        cases h
        left
        refine ⟨?_, rfl, ?_⟩
        · unfold auSioLkupOne at hl
          split at hl
          · cases hl
            omega
          · cases hl
        · rintro ⟨_, hc, -⟩
          cases hc
      | ok hDentry =>
        rw [hl] at h
        dsimp only at h
        by_cases hsome : hDentry.inode.isSome = true
        · rw [if_pos hsome] at h
          cases h
          left
          refine ⟨by decide, rfl, ?_⟩
          rintro ⟨hd, hc, hn⟩
          cases hc
          rw [hn] at hsome
          cases hsome
        · rw [if_neg hsome] at h
          cases h
          right
          have hnone := Option.not_isSome_iff_eq_none.mp hsome
          exact ⟨rfl, ⟨hDentry, rfl, hnone⟩, hDentry, hnone, rfl⟩

/-- The hidden dentry that was entered is in the range. -/
theorem hDptr_entered (h0 : 0 ≤ d.diBstart) (hDentry : HDentry) :
    Dinfo.hDptr { d with
      diBstart := if (bindex : Int) < d.diBstart then (bindex : Int) else d.diBstart
      diBend := if d.diBend < (bindex : Int) then (bindex : Int) else d.diBend
      diHdentry := Function.update d.diHdentry bindex (some hDentry) } bindex = some hDentry := by
  rw [Dinfo.hDptr]
  dsimp only
  rw [if_neg (by split <;> omega), Function.update_self]

/-- **A failed `au_cpup_simple`** leaves the hidden dentries as they were iff the lookup on the target was
    what failed, or the name started below the target. -/
theorem auCpupSimple_restores_iff {env : CpupEnv} {bdst : Nat} {s s' : Named} {err : Int}
    (h : auCpupSimple env name bdst s = some (err, s')) (herr : err ≠ 0) :
    Restored s.d s'.d ↔ ¬ NegativeAt name s.parent bdst ∨
      ((bdst : Int) < s.d.diBstart ∧ (s.d.hDptr s.d.diBstart.toNat).isSome = true) := by
  unfold auCpupSimple at h
  split at h
  · cases h
  rename_i bsrc hsrc
  obtain ⟨hle, hlt, hsome, hnone⟩ := firstHDptr_some hsrc
  have hrange := bstart_le_of_hDptr hsome
  split at h
  · cases h
  split at h
  · cases h
  rename_i e d hneg
  dsimp only at h
  rcases auLkupNeg_spec hneg with ⟨he, rfl, hno⟩ | ⟨rfl, hyes, hDentry, -, rfl⟩
  · -- nothing was changed
    rw [if_pos (Int.ne_of_lt he)] at h
    cases h
    exact iff_of_true (Restored.refl _) (Or.inl hno)
  rw [if_neg (not_not_intro rfl)] at h
  split at h
  · cases h
  rename_i err' left io hsingle
  split at h
  · cases h
    exact absurd rfl herr
  cases h
  -- the start is the branch copied from now, and the target has no hidden dentry
  rw [← cpupSrc_eq_bstart hsrc, or_iff_right (not_not_intro hyes)]
  constructor
  · rintro ⟨hs, -, -⟩
    exact hs
  · intro heq
    refine ⟨heq, ?_, fun b => ?_⟩
    · exact if_neg (show ¬ s.d.diBend < bdst by omega)
    · rw [Dinfo.hDptr, Dinfo.hDptr, heq]
      by_cases hout : s.d.diBstart < 0 ∨ (b : Int) < s.d.diBstart
      · rw [if_pos hout, if_pos hout]
      · rw [if_neg hout, if_neg hout]
        show Function.update (Function.update s.d.diHdentry bdst _) bdst none b = s.d.diHdentry b
        rw [Function.update_idem, Function.update_of_ne (by omega)]

end Simple

/-! ## au_do_cpup_wh -/

/-- **A failed `au_do_cpup_wh`** leaves the hidden dentries as they were iff no open file is copied for, or
    its hidden dentry is the topmost one, or only the reopening failed. -/
theorem auDoCpupWh_restores_iff {env : CpupEnv} {bdst : Nat} {wh : HDentry} {file : Option HDentry}
    {d d' : Dinfo} {io io' : List Int} {err : Int}
    (h : auDoCpupWh env bdst wh file d io = some (err, d', io')) (herr : err ≠ 0) :
    Restored d d' ↔ ∀ f, file = some f → d.diBstart = bdst ∨ d.diHdentry d.diBstart.toNat = some f ∨
      ∃ hSrc, f.inode = some hSrc ∧ Copies env hSrc io := by
  unfold auDoCpupWh at h
  dsimp only at h
  split at h
  · cases h
  rename_i hstart
  obtain ⟨bstart, hb⟩ : ∃ bstart : Nat, d.diBstart = bstart := ⟨d.diBstart.toNat, by omega⟩
  have htoNat : d.diBstart.toNat = bstart := by omega
  rw [htoNat] at h ⊢
  have hcast : d.diBstart = (bdst : Int) ↔ bstart = bdst := by omega
  rw [hcast]
  -- where the slots are those of d, all is as it was
  have hsame : ∀ d₁ : Dinfo, d₁.diBend = d.diBend → d₁.diBstart = bstart →
      (∀ b, d₁.diHdentry b = d.diHdentry b) → Restored d d₁ := by
    intro d₁ hend hs hslot
    refine ⟨hs.trans hb.symm, hend, fun b => ?_⟩
    rw [Dinfo.hDptr, Dinfo.hDptr, hs, hb, hslot b]
  split at h
  · cases h
  rename_i hSrc hread
  split at h
  · cases h
  rename_i err' left io₁ hsingle
  cases file with
  | none =>
    rw [if_neg (fun hc => Bool.false_ne_true hc.2)] at h
    cases h
    refine iff_of_true (hsame _ rfl rfl fun b => ?_) fun f hf => ?_
    · show Function.update (Function.update d.diHdentry bdst _) bdst _ b = _
      rw [Function.update_idem, Function.update_eq_self]
    · cases hf
  | some f =>
    dsimp only [Option.isSome_some] at h hread
    rw [if_pos rfl] at h hread
    have hslots : ∀ v b, Function.update (Function.update (Function.update d.diHdentry bdst (some wh))
        bstart v) bdst (d.diHdentry bdst) b =
        if b = bdst then d.diHdentry b else if b = bstart then v else d.diHdentry b := by
      intro v b
      by_cases hbd : b = bdst
      · rw [hbd, Function.update_self, if_pos rfl]
      · rw [Function.update_of_ne hbd, if_neg hbd]
        by_cases hbs : b = bstart
        · rw [hbs, Function.update_self, if_pos rfl]
        · rw [Function.update_of_ne hbs, Function.update_of_ne hbd, if_neg hbs]
    -- what is copied is the inode of the file's hidden dentry
    have hsrc : f.inode = some hSrc := by
      rw [Dinfo.hDptr] at hread
      split at hread
      · cases hread
      · have hslot : (Function.update (Function.update d.diHdentry bdst (some wh)) bstart
            (some f) bstart) = some f := Function.update_self _ _ _
        exact (congrArg (Option.bind · HDentry.inode) hslot).symm.trans hread
    by_cases hcopied : err' = 0
    · -- only the reopening can have failed: the slot of the start was restored
      subst hcopied
      rw [if_pos ⟨rfl, rfl⟩] at h
      cases h
      refine iff_of_true (hsame _ rfl rfl fun b => ?_) ?_
      · show Function.update (Function.update (Function.update (Function.update d.diHdentry bdst
          (some wh)) bstart (some f)) bstart _) bdst _ b = _
        rw [Function.update_idem, hslots]
        by_cases hbd : b = bdst
        · rw [if_pos hbd]
        rw [if_neg hbd]
        by_cases hbs : b = bstart
        · rw [if_pos hbs, hbs]
          exact Function.update_of_ne (by omega) _ _
        · rw [if_neg hbs]
      · intro f' hf'
        obtain rfl := Option.some.inj hf'
        exact Or.inr (Or.inr ⟨hSrc, hsrc, left, io₁, hsingle⟩)
    · rw [if_neg (fun hc => hcopied hc.1)] at h
      cases h
      constructor
      · rintro ⟨-, -, hptr⟩ f' hf'
        obtain rfl := Option.some.inj hf'
        by_cases hbd : bstart = bdst
        · exact Or.inl hbd
        right
        left
        have hptrs := hptr bstart
        have hin : ¬ ((bstart : Int) < 0 ∨ (bstart : Int) < bstart) := by omega
        rw [Dinfo.hDptr, Dinfo.hDptr, hb, if_neg hin, if_neg hin] at hptrs
        refine hptrs.symm.trans ?_
        show Function.update (Function.update (Function.update d.diHdentry bdst (some wh)) bstart
          (some f)) bdst _ bstart = _
        rw [hslots, if_neg hbd, if_pos rfl]
      · intro hcond
        refine hsame _ rfl rfl fun b => ?_
        show Function.update (Function.update (Function.update d.diHdentry bdst (some wh)) bstart
          (some f)) bdst _ b = _
        rw [hslots]
        by_cases hbd : b = bdst
        · rw [if_pos hbd]
        rw [if_neg hbd]
        by_cases hbs : b = bstart
        · rw [if_pos hbs, hbs]
          rcases hcond f rfl with hc | hc | ⟨hSrc', hf, left', io', hc⟩
          · omega
          · exact hc.symm
          · -- the copying failed
            obtain rfl := Option.some.inj (hsrc.symm.trans hf)
            have heq := Option.some.inj (hsingle.symm.trans hc)
            exact absurd (congrArg Prod.fst heq) hcopied
        · rw [if_neg hbs]

/-- **A failed copy-up restores the hidden dentries** exactly in these cases. -/
theorem failed_cpup_restores_iff (env : CpupEnv) (bdst : Nat) (err : Int) (herr : err ≠ 0) :
    (∀ name s s', auCpupSimple env name bdst s = some (err, s') →
      (Restored s.d s'.d ↔ ¬ NegativeAt name s.parent bdst ∨
        ((bdst : Int) < s.d.diBstart ∧ (s.d.hDptr s.d.diBstart.toNat).isSome = true))) ∧
    ∀ wh file d io d' io', auDoCpupWh env bdst wh file d io = some (err, d', io') →
      (Restored d d' ↔ ∀ f, file = some f → d.diBstart = bdst ∨
        d.diHdentry d.diBstart.toNat = some f ∨ ∃ hSrc, f.inode = some hSrc ∧ Copies env hSrc io) :=
  ⟨fun _ _ _ h => auCpupSimple_restores_iff h herr, fun _ _ _ _ _ _ h => auDoCpupWh_restores_iff h herr⟩

/-! ## A gap, and a file that is open elsewhere -/

def plainEnv : CpupEnv := ⟨true, false, none, false, 0, 0, -1, 9⟩

/-- Three branches, whose roots hold nothing. -/
def emptyRoots : Dinfo := ⟨0, 2, -1, -1, fun b => some ⟨b, [], some (.mk 2 sIfdir [] fun _ => 0)⟩⟩

/-- The directory `a`, on the first and the last of them. -/
def gapDir : Dinfo :=
  ⟨0, 2, -1, -1, fun b =>
    if b = 1 then none else some ⟨b, [[97]], some (.mk 3 sIfdir [] fun _ => 0)⟩⟩

/-- The deleted file `a` of the last branch. -/
def deletedFile : Dinfo :=
  ⟨2, 2, -1, -1, fun b => if b = 2 then some ⟨2, [[97]], some (.mk 3 sIfreg [] fun _ => 0)⟩ else none⟩

/-- It is open under another name of it. -/
def openFile : HDentry := ⟨2, [[98]], some (.mk 3 sIfreg [] fun _ => 0)⟩

/-- The failed `mkdir`, as one of the cases. -/
theorem gapDir_restores : ∃ s', auCpupSimple plainEnv [97] 1 ⟨emptyRoots, gapDir, [-28]⟩ = some (-28, s') ∧
    (Restored gapDir s'.d ↔ ¬ NegativeAt [97] emptyRoots 1 ∨
      ((1 : Int) < gapDir.diBstart ∧ (gapDir.hDptr gapDir.diBstart.toNat).isSome = true)) :=
  ⟨_, rfl, (failed_cpup_restores_iff plainEnv 1 (-28) (by decide)).1 [97] ⟨emptyRoots, gapDir, [-28]⟩ _ rfl⟩

/-- **The directory loses its topmost branch** when `mkdir` on the middle one fails, and the deleted file
    gets the hidden dentry of the open one when its copy cannot be made. -/
theorem lost_hidden_dentry :
    (∃ s', auCpupSimple plainEnv [97] 1 ⟨emptyRoots, gapDir, [-28]⟩ = some (-28, s') ∧
      ¬ Restored gapDir s'.d) ∧
    ∃ d' io', auDoCpupWh plainEnv 1 ⟨1, [[99]], none⟩ (some openFile) deletedFile [-28] =
      some (-28, d', io') ∧ ¬ Restored deletedFile d' := by
  refine ⟨⟨_, rfl, ?_⟩, ⟨_, _, rfl, ?_⟩⟩
  · rintro ⟨hstart, -, -⟩
    exact absurd (show (2 : Int) = 0 from hstart) (by decide)
  · rintro ⟨-, -, hptr⟩
    have hpath := congrArg (Option.map HDentry.path) (hptr 2)
    exact absurd (show some [[98]] = some ([[97]] : List Name) from hpath) (by decide)

end KernelPatches.Aufs
