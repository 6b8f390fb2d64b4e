/-
  aufs: the end of the range of a dentry, and the directory that is made on a lower branch.

  `au_cpdown_dir` makes a directory on a branch below, for a directory that is already on others.  The range
  `di_bstart..di_bend` of its dentry grows to that branch, and when the directory cannot be made after all,
  `au_update_dbend` should take it back: from the end upwards to the last slot with a positive hidden dentry.

  The loop of `au_update_dbend` goes down from `bend` as long as the index is NOT ABOVE `bstart`.  So it does
  not begin when there is more than one slot, and when there is one slot it goes on below zero until the narrow
  index wraps round.

  * `auUpdateDbend_spec` — it ends, and what it does: at most it empties the only slot;
  * `auCpdownDir`        — the copy-down, with what it takes back;
  * `dbend_iff`          — when `di_bend` is right after `au_update_dbend`, and after a copy-down that failed.
-/
import Mathlib.Order.Bounds.Basic
import KernelPatches.Aufs.WrDir

namespace KernelPatches.Aufs

/-! ## au_update_dbend -/

/-- `au_h_dptr` of an index that may be below zero, where it gives null. -/
def Dinfo.hDptrAt (d : Dinfo) (bindex : Int) : Option HDentry :=
  if bindex < 0 then none else d.hDptr bindex.toNat

/-- `bindex--` on an `aufs_bindex_t`. -/
def BrConfig.pred (cfg : BrConfig) (bindex : Int) : Int := (bindex - 1).bmod (2 ^ cfg.bits)

/-- The loop of `au_update_dbend`, or `none` when the rounds are not enough. -/
def updateDbend (cfg : BrConfig) (bstart : Int) : Nat → Int → Dinfo → Option Dinfo
  | 0, _, _ => none
  | fuel + 1, bindex, d =>
    if bindex ≤ bstart then
      match d.hDptrAt bindex with
      | none => updateDbend cfg bstart fuel (cfg.pred bindex) d
      | some hDentry =>
        if hDentry.inode.isSome then some { d with diBend := bindex }
        else updateDbend cfg bstart fuel (cfg.pred bindex) (d.setHDptr bindex.toNat none)
    else some d

/-- `au_update_dbend`.  No index comes twice. -/
def auUpdateDbend (cfg : BrConfig) (d : Dinfo) : Option Dinfo :=
  updateDbend cfg d.diBstart (2 ^ cfg.bits + 1) d.diBend d

/-- There is a positive hidden dentry on the branch. -/
def Dinfo.Positive (d : Dinfo) (b : Nat) : Prop := ∃ hd, d.diHdentry b = some hd ∧ hd.inode.isSome = true

/-- The range of a dentry that is on some branch: its first and its last slot. -/
structure Dinfo.Spans (cfg : BrConfig) (d : Dinfo) (bstart bend : Nat) : Prop where
  start : d.diBstart = bstart
  last : d.diBend = bend
  le : bstart ≤ bend
  fits : bend < cfg.branchMax

section UpdateDbend

variable {cfg : BrConfig} {d : Dinfo} {bstart bend : Nat}

/-- The index before the smallest one is the largest. -/
theorem BrConfig.pred_cases (cfg : BrConfig) {half : Nat} (hhalf : half = 2 ^ (cfg.bits - 1)) {bindex : Int}
    (hle : -(half : Int) ≤ bindex) (hlt : bindex < half) :
    cfg.pred bindex = if bindex = -(half : Int) then (half : Int) - 1 else bindex - 1 := by
  have hpow : 2 ^ cfg.bits = 2 * half := by
    have hpos := cfg.pos
    rw [hhalf, ← Nat.pow_succ']
    congr 1
    omega
  have hpos : 0 < half := by
    rw [hhalf]
    exact Nat.two_pow_pos _
  unfold BrConfig.pred
  rw [hpow, Int.bmod_eq_iff (by omega)]
  split_ifs with heq
  · exact ⟨by omega, by omega, ⟨1, by omega⟩⟩
  · exact ⟨by omega, by omega, ⟨0, by omega⟩⟩

/-- Above `bstart` there are no hidden dentries, and the loop ends when the index wraps; by induction on how
    far that is. -/
theorem updateDbend_below {half : Nat} (hhalf : half = 2 ^ (cfg.bits - 1)) (hstart : d.diBstart = bstart)
    (hfits : bstart + 1 < half) : ∀ (n fuel : Nat) (bindex : Int), bindex = -(half : Int) + n → bindex < bstart →
    n + 2 ≤ fuel → updateDbend cfg bstart fuel bindex d = some d := by
  have hnone : ∀ bindex : Int, bindex < bstart → d.hDptrAt bindex = none := by
    intro bindex hlt
    unfold Dinfo.hDptrAt
    split_ifs with hneg
    · rfl
    · exact if_pos (Or.inr (by omega))
  have hround : ∀ (fuel : Nat) (bindex : Int), bindex < bstart →
      updateDbend cfg bstart (fuel + 1) bindex d = updateDbend cfg bstart fuel (cfg.pred bindex) d := by
    intro fuel bindex hlt
    rw [updateDbend, if_pos (by omega), hnone bindex hlt]
  intro n
  induction n with
  | zero =>
    intro fuel bindex hbindex hlt hfuel
    obtain ⟨k, rfl⟩ : ∃ k, fuel = k + 1 + 1 := ⟨fuel - 2, by omega⟩
    rw [hround _ _ hlt, cfg.pred_cases hhalf (by omega) (by omega), if_pos (by omega), updateDbend,
      if_neg (by omega)]
  | succ n ih =>
    intro fuel bindex hbindex hlt hfuel
    obtain ⟨k, rfl⟩ : ∃ k, fuel = k + 1 := ⟨fuel - 1, by omega⟩
    rw [hround _ _ hlt, cfg.pred_cases hhalf (by omega) (by omega), if_neg (by omega)]
    exact ih k (bindex - 1) (by omega) (by omega) (by omega)

/-- **What `au_update_dbend` does**: it ends, with the end of the range as it was.  At most the only slot of the
    range is emptied. -/
theorem auUpdateDbend_spec (h : d.Spans cfg bstart bend) :
    ∃ d', auUpdateDbend cfg d = some d' ∧ d'.diBend = bend ∧
      (d' = d ∨ bstart = bend ∧ ¬ d.Positive bend ∧ d' = d.setHDptr bend none) := by
  obtain ⟨half, hhalf⟩ : ∃ half, half = 2 ^ (cfg.bits - 1) := ⟨_, rfl⟩
  have hmax : cfg.branchMax < half := by
    rw [hhalf]
    exact cfg.fits
  have hpow : 2 ^ cfg.bits = 2 * half := by
    have hpos := cfg.pos
    rw [hhalf, ← Nat.pow_succ']
    congr 1
    omega
  have hfits := h.fits
  have hle := h.le
  unfold auUpdateDbend
  rw [hpow, h.start, h.last, updateDbend]
  by_cases hone : bstart = bend
  · -- the only slot is looked at
    rw [if_pos (by omega)]
    have hslot : d.hDptrAt bend = d.diHdentry bend := by
      unfold Dinfo.hDptrAt Dinfo.hDptr
      rw [if_neg (by omega), Int.toNat_natCast, if_neg]
      rw [h.start]
      omega
    have hpred : cfg.pred bend = (bend : Int) - 1 := by
      rw [cfg.pred_cases hhalf (by omega) (by omega), if_neg (by omega)]
    have hbelow : ∀ d' : Dinfo, d'.diBstart = bstart → updateDbend cfg bstart (2 * half) (cfg.pred bend) d' = some d' := by
      intro d' hstart
      rw [hpred]
      exact updateDbend_below hhalf hstart (by omega) (half + bend - 1) _ _ (by omega) (by omega) (by omega)
    rw [hslot]
    cases hget : d.diHdentry bend with
    | none => exact ⟨d, hbelow d h.start, h.last, Or.inl rfl⟩
    | some hd =>
      dsimp only
      by_cases hpos : hd.inode.isSome = true
      · rw [if_pos hpos]
        refine ⟨_, rfl, rfl, Or.inl ?_⟩
        rw [← h.last]
      · rw [if_neg hpos, Int.toNat_natCast]
        refine ⟨_, hbelow (d.setHDptr bend none) h.start, h.last, Or.inr ⟨hone, ?_, rfl⟩⟩
        rintro ⟨hd', hget', hpos'⟩
        rw [hget] at hget'
        rw [Option.some.inj hget'] at hpos
        exact hpos hpos'
  · -- the loop does not begin
    rw [if_neg (by omega)]
    exact ⟨d, rfl, h.last, Or.inl rfl⟩

/-- **The end of the range is right**: when a slot in the range has a positive hidden dentry, it is the last
    such slot, and the slots behind it are empty. -/
def DbendRight (d d' : Dinfo) (bstart bend : Nat) : Prop :=
  (∃ b, bstart ≤ b ∧ b ≤ bend ∧ d.Positive b) →
    ∃ last : Nat, IsGreatest { b | bstart ≤ b ∧ b ≤ bend ∧ d.Positive b } last ∧ d'.diBend = last ∧
      ∀ b, last < b → b ≤ bend → d'.diHdentry b = none

/-- It is right exactly when the last slot was positive before, as far as a slot was. -/
theorem auUpdateDbend_right_iff (h : d.Spans cfg bstart bend) :
    ∃ d', auUpdateDbend cfg d = some d' ∧ (DbendRight d d' bstart bend ↔
      ((∃ b, bstart ≤ b ∧ b ≤ bend ∧ d.Positive b) → d.Positive bend)) := by
  obtain ⟨d', hd', hbend, hsame⟩ := auUpdateDbend_spec h
  refine ⟨d', hd', fun hright hsome => ?_, fun hlast hsome => ?_⟩
  · obtain ⟨last, hgreatest, hend, -⟩ := hright hsome
    have heq : (last : Int) = bend := hend.symm.trans hbend
    rw [← Int.ofNat_inj.mp heq]
    exact hgreatest.1.2.2
  · refine ⟨bend, ⟨⟨h.le, Nat.le_refl bend, hlast hsome⟩, fun b hb => hb.2.1⟩, hbend, fun b hlt hle => ?_⟩
    omega

end UpdateDbend

/-! ## au_cpdown_dir -/

/-- What the lower file system of the branch answers: to the lookup of the name, to `mkdir` with the directory
    made and its address, to the creation of its opaque mark, to the copy of the attributes, to the lookup of the
    whiteout (whether it is there) and to its removal; and to what is taken back, the opaque mark and the
    directory. -/
structure CpdownSteps where
  lkup : Except Int HDentry
  mkdir : Int
  dir : HInode
  dirAddr : Nat
  diropqCreate : Int
  cpdownAttr : Int
  whLkup : Except Int Bool
  whUnlink : Int
  diropqRemove : Int
  rmdir : Int

/-- The dentry, and its inode with the super block. -/
structure CpdownState where
  d : Dinfo
  ii : IInfo
  s : ISuper

section

variable (cfg : BrConfig) (steps : CpdownSteps) (bdst : Nat)

/-- `out_put` -/
def cpdownOutPut (err : Int) (st : CpdownState) : Option (Int × CpdownState) :=
  let d := st.d.setHDptr bdst none
  if d.diBend = bdst then (auUpdateDbend cfg d).map fun d => (err, { st with d := d })
  else some (err, { st with d := d })

/-- `out_dir`, where a directory was made. -/
def cpdownOutDir (err : Int) (st : CpdownState) : Option (Int × CpdownState) :=
  cpdownOutPut cfg bdst (if steps.rmdir ≠ 0 then - EIO else err) st

/-- `out_opq` -/
def cpdownOutOpq (diropq : Bool) (err : Int) (st : CpdownState) : Option (Int × CpdownState) :=
  if diropq then
    if steps.diropqRemove ≠ 0 then some (- EIO, st)
    else cpdownOutDir cfg steps bdst err { st with d := { st.d with diBdiropq := -1 } }
  else cpdownOutDir cfg steps bdst err st

/-- The directory goes into the inode, numbered `ino`. -/
def cpdownSuccess (A : Arch) (lower : Lower) (ino : Nat) (st : CpdownState) : Option (Int × CpdownState) :=
  let ii := if st.ii.iiBend < bdst then { st.ii with iiBend := bdst } else st.ii
  match auSetHIptr A lower ino bdst (some steps.dirAddr) ii st.s with
  | none => none
  | some (ii, s) => some (0, { st with ii := ii, s := s })

/-- The directory is there, with an opaque mark if the name had a whiteout: the attributes are copied, and the
    whiteout is removed. -/
def cpdownFill (A : Arch) (lower : Lower) (ino : Nat) (whed : Bool) (st : CpdownState) :
    Option (Int × CpdownState) :=
  if steps.cpdownAttr ≠ 0 then cpdownOutOpq cfg steps bdst whed steps.cpdownAttr st
  else if !whed then cpdownSuccess steps bdst A lower ino st
  else
    match steps.whLkup with
    | .error err => cpdownOutOpq cfg steps bdst whed (min err (-1)) st
    | .ok false => cpdownSuccess steps bdst A lower ino st
    | .ok true =>
      if steps.whUnlink ≠ 0 then cpdownOutOpq cfg steps bdst whed steps.whUnlink st
      else cpdownSuccess steps bdst A lower ino { st with d := { st.d with diBwh := -1 } }

/-- The directory has been made. -/
def cpdownMade (st : CpdownState) : CpdownState :=
  { st with d := st.d.setHDptr bdst ((st.d.diHdentry bdst).map fun hd => { hd with inode := some steps.dir }) }

/-- `au_cpdown_dir`.  `do_opq` is zero, so that an opaque mark is made only where there is a whiteout. -/
def auCpdownDir (A : Arch) (lower : Lower) (ino : Nat) (st : CpdownState) : Option (Int × CpdownState) :=
  let r := lkupNegFound bdst st.d steps.lkup
  if r.1 < 0 then some (r.1, { st with d := r.2 })
  else
    let st := { st with d := r.2 }
    if steps.mkdir ≠ 0 then cpdownOutPut cfg bdst steps.mkdir st
    else
      let st := cpdownMade steps bdst st
      if st.d.diBwh = bdst then
        if steps.diropqCreate ≠ 0 then cpdownOutDir cfg steps bdst steps.diropqCreate st
        else cpdownFill cfg steps bdst A lower ino true { st with d := { st.d with diBdiropq := bdst } }
      else cpdownFill cfg steps bdst A lower ino false st

/-- The lookup of the name on the branch fails, or finds something. -/
def CpdownSteps.LkupFails : Prop := ∀ hd, steps.lkup = .ok hd → hd.inode.isSome = true

end

section CpdownDir

variable {cfg : BrConfig} {steps : CpdownSteps} {bdst bstart bend : Nat} {st : CpdownState}

/-- **A result leaves the end of the range at `last`**, if it is a failure. -/
def FailsWith (last : Int) (r : Option (Int × CpdownState)) : Prop :=
  ∀ err st', r = some (err, st') → err ≠ 0 → st'.d.diBend = last

theorem failsWith_success {A : Arch} {lower : Lower} {ino : Nat} (last : Int) :
    FailsWith last (cpdownSuccess steps bdst A lower ino st) := by
  intro err st' h herr
  unfold cpdownSuccess at h
  dsimp only at h
  split at h
  · cases h
  · cases h
    exact absurd rfl herr

/-- Nothing that is taken back moves the end of the range. -/
theorem failsWith_outPut {err : Int} (h : st.d.Spans cfg bstart bend) :
    FailsWith bend (cpdownOutPut cfg bdst err st) := by
  intro err' st' hres _
  have hspans : (st.d.setHDptr bdst none).Spans cfg bstart bend := ⟨h.start, h.last, h.le, h.fits⟩
  unfold cpdownOutPut at hres
  dsimp only at hres
  split at hres
  · obtain ⟨d', hd', hbend, -⟩ := auUpdateDbend_spec hspans
    rw [hd'] at hres
    cases hres
    exact hbend
  · cases hres
    exact h.last

theorem failsWith_outOpq {diropq : Bool} {err : Int} (h : st.d.Spans cfg bstart bend) :
    FailsWith bend (cpdownOutOpq cfg steps bdst diropq err st) := by
  unfold cpdownOutOpq cpdownOutDir
  split
  · split
    · intro err' st' hres _
      cases hres
      exact h.last
    · exact failsWith_outPut (show Dinfo.Spans cfg _ bstart bend from ⟨h.start, h.last, h.le, h.fits⟩)
  · exact failsWith_outPut h

theorem failsWith_fill {A : Arch} {lower : Lower} {ino : Nat} {whed : Bool} (h : st.d.Spans cfg bstart bend) :
    FailsWith bend (cpdownFill cfg steps bdst A lower ino whed st) := by
  unfold cpdownFill
  split
  · exact failsWith_outOpq h
  split
  · exact failsWith_success bend
  split
  · exact failsWith_outOpq h
  · exact failsWith_success bend
  · split
    · exact failsWith_outOpq h
    · exact failsWith_success bend

/-- **A copy-down that fails** behind the lookup leaves the end of the range where the lookup has put it. -/
theorem auCpdownDir_fails {A : Arch} {lower : Lower} {ino : Nat} {d₁ : Dinfo}
    (hlkup : lkupNegFound bdst st.d steps.lkup = (0, d₁)) (h : d₁.Spans cfg bstart bend) :
    FailsWith bend (auCpdownDir cfg steps bdst A lower ino st) := by
  unfold auCpdownDir
  rw [hlkup]
  dsimp only
  rw [if_neg (by decide)]
  have hmade : (cpdownMade steps bdst { st with d := d₁ }).d.Spans cfg bstart bend :=
    ⟨h.start, h.last, h.le, h.fits⟩
  split
  · exact failsWith_outPut h
  split
  · split
    · exact failsWith_outPut hmade
    · exact failsWith_fill (show Dinfo.Spans cfg _ bstart bend from ⟨h.start, h.last, h.le, h.fits⟩)
  · exact failsWith_fill hmade

/-- **When a copy-down that fails restores the end of the range**: when the lookup was what failed, or the branch
    was in the range, or above it, before. -/
theorem auCpdownDir_restores_iff {A : Arch} {lower : Lower} {ino : Nat} {err : Int} {st' : CpdownState}
    (h : st.d.Spans cfg bstart bend) (hbdst : bdst < cfg.branchMax)
    (hres : auCpdownDir cfg steps bdst A lower ino st = some (err, st')) (herr : err ≠ 0) :
    st'.d.diBend = st.d.diBend ↔ steps.LkupFails ∨ bdst ≤ bend := by
  have hfits := h.fits
  have hle := h.le
  by_cases hfails : steps.LkupFails
  · -- the dentry is as it was
    refine iff_of_true ?_ (Or.inl hfails)
    have hsame : ∃ e, e < 0 ∧ lkupNegFound bdst st.d steps.lkup = (e, st.d) := by
      cases hl : steps.lkup with
      | error e => exact ⟨min e (-1), by omega, rfl⟩
      | ok hd => exact ⟨- EIO, by decide, if_pos (hfails hd hl)⟩
    obtain ⟨e, hneg, hsame⟩ := hsame
    unfold auCpdownDir at hres
    rw [hsame] at hres
    dsimp only at hres
    rw [if_pos hneg] at hres
    cases hres
    rfl
  · have hfound : ∃ hd, steps.lkup = .ok hd ∧ ¬ hd.inode.isSome = true := by
      by_contra hno
      refine hfails fun hd hl => ?_
      by_contra hnone
      exact hno ⟨hd, hl, hnone⟩
    obtain ⟨hd, hl, hnone⟩ := hfound
    obtain ⟨d₁, hd₁⟩ : ∃ d₁, d₁ = ({ st.d with
        diBstart := if (bdst : Int) < st.d.diBstart then (bdst : Int) else st.d.diBstart
        diBend := if st.d.diBend < bdst then (bdst : Int) else st.d.diBend } : Dinfo).setHDptr bdst (some hd) := ⟨_, rfl⟩
    have hlkup : lkupNegFound bdst st.d steps.lkup = (0, d₁) := by
      rw [hl, hd₁]
      exact if_neg hnone
    have hspans : d₁.Spans cfg (min bdst bstart) (max bdst bend) := by
      refine ⟨?_, ?_, by omega, by omega⟩
      · rw [hd₁]
        show (if (bdst : Int) < st.d.diBstart then (bdst : Int) else st.d.diBstart) = ((min bdst bstart : Nat) : Int)
        rw [h.start]
        split_ifs <;> omega
      · rw [hd₁]
        show (if st.d.diBend < bdst then (bdst : Int) else st.d.diBend) = ((max bdst bend : Nat) : Int)
        rw [h.last]
        split_ifs <;> omega
    rw [auCpdownDir_fails hlkup hspans err st' hres herr, h.last, or_iff_right hfails]
    omega

end CpdownDir

/-- **When the end of the range is right.**  After `au_update_dbend`, which ends for every dentry: when the last
    slot of the range was positive before.  After a copy-down that failed: when the branch was not behind the
    range, or the lookup was what failed. -/
theorem dbend_iff {cfg : BrConfig} {d : Dinfo} {bstart bend : Nat} (h : d.Spans cfg bstart bend) :
    (∃ d', auUpdateDbend cfg d = some d' ∧ (DbendRight d d' bstart bend ↔
      ((∃ b, bstart ≤ b ∧ b ≤ bend ∧ d.Positive b) → d.Positive bend))) ∧
    ∀ (steps : CpdownSteps) (bdst : Nat) (A : Arch) (lower : Lower) (ino : Nat) (ii : IInfo) (s : ISuper) (err : Int)
      (st' : CpdownState), bdst < cfg.branchMax →
      auCpdownDir cfg steps bdst A lower ino ⟨d, ii, s⟩ = some (err, st') → err ≠ 0 →
        (st'.d.diBend = d.diBend ↔ steps.LkupFails ∨ bdst ≤ bend) :=
  ⟨auUpdateDbend_right_iff h, fun _ _ _ _ _ ii s _ _ hbdst hres herr =>
    auCpdownDir_restores_iff (show (⟨d, ii, s⟩ : CpdownState).d.Spans cfg bstart bend from h) hbdst hres herr⟩

/-- A directory on branch 0, with a slot for branch 1 left behind that has nothing in it. -/
def emptyEnd : Dinfo := ⟨0, 1, -1, -1, fun b => if b = 0 then some ⟨0, [[97]], some (.mk 2 sIfdir [] fun _ => 0)⟩ else none⟩

theorem emptyEnd_spans : emptyEnd.Spans branchMax127 0 1 := ⟨rfl, rfl, by decide, by decide⟩

theorem dbend_iff_emptyEnd : (∃ d', auUpdateDbend branchMax127 emptyEnd = some d' ∧
      (DbendRight emptyEnd d' 0 1 ↔ ((∃ b, 0 ≤ b ∧ b ≤ 1 ∧ emptyEnd.Positive b) → emptyEnd.Positive 1))) ∧
    ∀ (steps : CpdownSteps) (bdst : Nat) (A : Arch) (lower : Lower) (ino : Nat) (ii : IInfo) (s : ISuper) (err : Int)
      (st' : CpdownState), bdst < branchMax127.branchMax →
      auCpdownDir branchMax127 steps bdst A lower ino ⟨emptyEnd, ii, s⟩ = some (err, st') → err ≠ 0 →
        (st'.d.diBend = emptyEnd.diBend ↔ steps.LkupFails ∨ bdst ≤ 1) :=
  dbend_iff emptyEnd_spans

/-- Not always: the end of the range stays on the empty slot. -/
theorem dbend_on_empty_slot : ¬ ∀ (cfg : BrConfig) (d : Dinfo) (bstart bend : Nat), d.Spans cfg bstart bend →
    ∃ d', auUpdateDbend cfg d = some d' ∧ DbendRight d d' bstart bend := by
  intro hall
  obtain ⟨d', hd', hright⟩ := hall branchMax127 emptyEnd 0 1 emptyEnd_spans
  have hsame : auUpdateDbend branchMax127 emptyEnd = some emptyEnd := by
    unfold auUpdateDbend updateDbend
    rfl
  rw [hsame] at hd'
  obtain ⟨last, hgreatest, hend, hempty⟩ := hright ⟨0, Nat.le_refl 0, Nat.zero_le 1, _, rfl, rfl⟩
  rw [← Option.some.inj hd'] at hend
  have hlast : (last : Int) = 1 := hend.symm
  obtain ⟨hd, hget, -⟩ := hgreatest.1.2.2
  rw [show last = 1 by omega] at hget
  cases hget

end KernelPatches.Aufs
