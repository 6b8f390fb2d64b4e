/-
  aufs: the branch of a new entry, for `link` and `rename`.

  `au_wr_dir` decides on which branch a name is made.  The callers wish for a branch, the one the source
  starts on, and `au_wbr` WITHDRAWS the wish if that branch is read-only, or if a whiteout or an opaque mark
  above would hide the entry.  Then the upper one of the two starts is taken, and if that is read-only, a
  copy-up policy chooses, which is asked about the new name and its parent only.

  The source is thought to be on the target branch, or below it and then copied up.  The policy does not know
  the source, and may choose a branch BELOW it.

  * `auWbr`, `auWrDir`             — the wish, and the decision;
  * `linkTarget`, `renameTarget`   — the two callers, up to their target;
  * `aufsLink`                     — up to the call of `vfs_link`, whose first argument is a hidden dentry of
                                     the source;
  * `auWbrCopyup_below`            — which branches let a policy choose below the source;
  * `target_below_iff`             — exactly then the target is below the source.

  The lower file systems answer to the copying of the parent and to the lookup of the new name, for each
  branch.  `none` is a null pointer the kernel dies of, and so is the null that `aufsLink` passes on.
-/
import KernelPatches.Aufs.CpupRevert
import KernelPatches.Aufs.RemoveHidden

namespace KernelPatches.Aufs

/-! ## The range of a dentry -/

/-- The first loop of `au_update_dbrange`, over `count` branches from `bindex` on. -/
def putZero : Nat → Nat → Dinfo → Dinfo
  | 0, _, d => d
  | count + 1, bindex, d =>
    putZero count (bindex + 1)
      (if (d.diHdentry bindex).any (·.inode.isNone) then d.setHDptr bindex none else d)

/-- The last hidden dentry, over `count` branches. -/
def lastHd (d : Dinfo) : Nat → Option Nat
  | 0 => none
  | n + 1 => if (d.diHdentry n).isSome then some n else lastHd d n

/-- `au_update_dbrange` -/
def auUpdateDbrange (doPutZero : Bool) (d : Dinfo) : Dinfo :=
  if d.diBstart < 0 then d
  else
    let d := if doPutZero then putZero (d.diBend + 1 - d.diBstart).toNat d.diBstart.toNat d else d
    let n := (d.diBend + 1).toNat
    match firstHDptr { d with diBstart := 0 } n 0, lastHd d n with
    | some bstart, some bend => { d with diBstart := bstart, diBend := bend }
    | _, _ => { d with diBstart := -1, diBend := -1 }

/-- The end of `au_lkup_neg`, for what `au_sio_lkup_one` found. -/
def lkupNegFound (bindex : Nat) (d : Dinfo) : Except Int HDentry → Int × Dinfo
  | .error err => (min err (-1), d)
  | .ok hDentry =>
    if hDentry.inode.isSome then (- EIO, d)
    else
      (0, { d with
        diBstart := if bindex < d.diBstart then bindex else d.diBstart
        diBend := if d.diBend < bindex then bindex else d.diBend }.setHDptr bindex (some hDentry))

/-! ## au_wr_dir -/

/-- What the lower file systems answer on a branch: to `au_cpup_dirs` or `au_cpdown_dirs`, zero or the error,
    and to the lookup of the new name in its parent. -/
structure WrDirSteps where
  cpDirs : Int
  lkup : Except Int HDentry

section

variable (env : RmEnv)

/-- `au_wbr` -/
def auWbr (d parent : Dinfo) (btgt : Int) : Option Int :=
  match sbrRdonly env.wbr env.union btgt.toNat with
  | .error _ => none
  | .ok rdonly =>
    if rdonly ∨ (0 ≤ parent.diBdiropq ∧ parent.diBdiropq < btgt) ∨ (0 ≤ d.diBwh ∧ d.diBwh < btgt) then some (-1)
    else some btgt

/-- The branch `au_wr_dir` decides on, or the error, with a source and for a new entry. -/
def wrDirBranch (forceBtgt : Int) (src d parent : Dinfo) : Option Int :=
  if forceBtgt < 0 then
    let bcpup := if src.diBstart < d.diBstart then src.diBstart else d.diBstart
    match (if bcpup < 0 then some true else auTestRo env bcpup.toNat) with
    | none => none
    | some true => auWbrCopyup env d parent
    | some false => some bcpup
  else some forceBtgt

/-- The end of `au_wr_dir`: the new parent is copied to the branch, and the new name is looked up there.
    `bstart` is where the name started. -/
def wrDirPlace (answer : WrDirSteps) (bcpup : Nat) (bstart : Int) (parent d : Dinfo) : Int × Dinfo :=
  let err := if (parent.hDptr bcpup).isNone then min answer.cpDirs 0 else 0
  if err ≠ 0 then (err, d)
  else
    let r := lkupNegFound bcpup d answer.lkup
    if bstart < bcpup ∧ r.2.diBstart < 0 then (r.1, auUpdateDbrange false { r.2 with diBstart := 0 })
    else r

/-- `au_wr_dir`, as `aufs_link` and `aufs_rename` call it: with a source, and AuWrDir_ADD_ENTRY. -/
def auWrDir (steps : Nat → WrDirSteps) (forceBtgt : Int) (src d parent : Dinfo) : Option (Int × Dinfo) :=
  match wrDirBranch env forceBtgt src d parent with
  | none => none
  | some bcpup =>
    if bcpup < 0 then some (bcpup, d)
    else
      let bstart := d.diBstart
      let d := if bstart < bcpup then auUpdateDbrange true d else d
      if bcpup = bstart then some (bcpup, d)
      else
        let r := wrDirPlace (steps bcpup.toNat) bcpup.toNat bstart parent (auUpdateDbstart d)
        some (if r.1 ≠ 0 then r.1 else bcpup, r.2)

/-! ## link and rename -/

/-- The dentry has no inode that could be immutable. -/
def RmEnv.negative : RmEnv := { env with immutable := fun _ => false }

/-- The target for the wish `btgt`, and what the new dentry is then. -/
def wishedTarget (steps : Nat → WrDirSteps) (btgt : Int) (src d parent : Dinfo) : Option (Int × Dinfo) :=
  match auWbr env d parent btgt with
  | none => none
  | some forceBtgt => auWrDir env steps forceBtgt src d parent

/-- The target of `aufs_link`. -/
def linkTarget (steps : Nat → WrDirSteps) (src d parent : Dinfo) : Option (Int × Dinfo) :=
  wishedTarget env.negative steps src.diBstart src d parent

/-- The branch `aufs_rename` wishes for.  `exist` is whether there is an inode of that name. -/
def renameForce (exist : Bool) (src d : Dinfo) : Int :=
  if exist ∧ d.diBstart < src.diBstart then d.diBstart else src.diBstart

/-- The immutable hidden inodes are those of the inode with the new name, if there is one. -/
def RmEnv.renameOver (exist : Bool) : RmEnv := if exist then env else env.negative

/-- The target of `aufs_rename`. -/
def renameTarget (exist : Bool) (steps : Nat → WrDirSteps) (src d parent : Dinfo) : Option (Int × Dinfo) :=
  wishedTarget (env.renameOver exist) steps (renameForce exist src d) src d parent

/-- What else a link finds: the mount option `plink`, the error of `lock_hdir_lkup_wh` behind `au_wr_dir`,
    the link counts of the hidden inodes the source's inode has, and a dentry of the one on the target
    branch; for the source the error of `au_test_and_cpup_dirs` and of `au_pin`, its copy-up, its name, and
    its parent, when that is on the target branch; and the error of the second `au_pin`. -/
structure LinkArgs where
  steps : Nat → WrDirSteps
  plink : Bool
  lockHdir : Int
  hNlink : Nat → Option Nat
  dAlias : Option HDentry
  cpDirs : Int
  pin : Int
  cpup : CpupEnv
  srcName : Name
  srcParent : Dinfo
  io : List Int
  pinAgain : Int

/-- What `aufs_link` does in the end: it gives up, the source is copied up under the new name, or it calls
    `vfs_link` with a hidden dentry. -/
inductive LinkCall where
  | fail (err : Int)
  | cpup
  | link (hSrcDentry : Option HDentry)

/-- `au_cpup_or_link` -/
def auCpupOrLink (a : LinkArgs) (bdst : Nat) : LinkCall :=
  if (a.hNlink bdst).all (· = 0) then .cpup
  else
    match a.dAlias with
    | some hSrcDentry => .link (some hSrcDentry)
    | none => .fail (- EIO)

/-- `au_cpup_before_link`: the error, and the source. -/
def auCpupBeforeLink (a : LinkArgs) (bdst : Nat) (src : Dinfo) : Option (Int × Dinfo) :=
  if a.cpDirs ≠ 0 then some (a.cpDirs, src)
  else if a.pin ≠ 0 then some (a.pin, src)
  else
    match auCpupSimple a.cpup a.srcName bdst ⟨a.srcParent, src, a.io⟩ with
    | none => none
    | some (err, s) => some (err, s.d)

/-- `aufs_link`, up to the call of `vfs_link`. -/
def aufsLink (a : LinkArgs) (src d parent : Dinfo) : Option LinkCall :=
  match linkTarget env a.steps src d parent with
  | none => none
  | some (err, d) =>
    if err < 0 then some (.fail err)
    else if a.lockHdir < 0 then some (.fail a.lockHdir)
    else
      let bdst := d.diBstart
      let bsrc := src.diBstart
      if a.plink then
        if bdst < bsrc then some (auCpupOrLink a bdst.toNat)
        else some (.link (src.hDptr bdst.toNat))
      else if bdst < bsrc then
        match auCpupBeforeLink a bdst.toNat src with
        | none => none
        | some (err, src) =>
          if err ≠ 0 then some (.fail err)
          else if a.pinAgain ≠ 0 then some (.fail a.pinAgain)
          else some (.link (src.hDptr bdst.toNat))
      else some (.link (src.hDptr bdst.toNat))

end

/-! ## What a policy chooses -/

/-- A branch that is not read-only. -/
def Writable (wbr : WbrEnv) (u : UnionSb) (b : Nat) : Prop := sbrRdonly wbr u b = .ok false

/-- A branch a policy takes for the sake of the parent: it is writable, and has the parent, for which with
    `dirperm1` the test does not answer zero. -/
def Suitable (wbr : WbrEnv) (u : UnionSb) (parent : Dinfo) (b : Nat) : Prop :=
  hasHDir parent b = true ∧ Writable wbr u b ∧ (wbr.dirperm1 = true → wbr.hPerm b ≠ 0)

section Policies

variable {wbr : WbrEnv} {u : UnionSb} {parent : Dinfo}

theorem BranchesThere.rdonly (h : BranchesThere u) {b : Nat} (hb : (b : Int) ≤ u.siBend) :
    sbrRdonly wbr u b = .ok true ∨ Writable wbr u b := by
  obtain ⟨br, hbr⟩ := h b hb
  have hread : sbrRdonly wbr u b = .ok (auBrRdonly wbr br) := by
    unfold sbrRdonly
    rw [hbr]
  cases hro : auBrRdonly wbr br with
  | true => exact Or.inl (hread.trans (congrArg Except.ok hro))
  | false => exact Or.inr (hread.trans (congrArg Except.ok hro))

theorem not_writable {b : Nat} (h : sbrRdonly wbr u b = .ok true) : ¬ Writable wbr u b := by
  intro hw
  rw [Writable, h] at hw
  cases hw

theorem suitable_iff {b : Nat} (hdir : hasHDir parent b = true) (hw : Writable wbr u b) :
    (!false && (!wbr.dirperm1 || wbr.hPerm b != 0)) = true ↔ Suitable wbr u parent b := by
  rw [Suitable, Bool.not_false, Bool.true_and]
  cases wbr.dirperm1 with
  | false => exact ⟨fun _ => ⟨hdir, hw, fun h => absurd h Bool.false_ne_true⟩, fun _ => rfl⟩
  | true => exact ⟨fun h => ⟨hdir, hw, fun _ => bne_iff_ne.mp h⟩, fun h => bne_iff_ne.mpr (h.2.2 rfl)⟩

/-- A suitable branch is not above the parent. -/
theorem Suitable.le {b : Nat} (h : Suitable wbr u parent b) : parent.diBstart ≤ b := by
  have hdir := h.1
  unfold hasHDir at hdir
  cases hget : parent.hDptr b with
  | none => rw [hget] at hdir; cases hdir
  | some hd => exact (bstart_le_of_hDptr (by rw [hget]; rfl)).2

/-- **Bottom up** takes the lowest writable branch above `n`. -/
theorem auWbrBu_below (h : BranchesThere u) : ∀ {n : Nat}, (n : Int) ≤ u.siBend + 1 →
    ∃ t, auWbrBu wbr u n = .ok t ∧ ∀ s : Nat, (s : Int) < t ↔ ∃ b, s < b ∧ b < n ∧ Writable wbr u b := by
  intro n
  induction n with
  | zero =>
    intro _
    refine ⟨-EROFS, rfl, fun s => ⟨fun hs => ?_, ?_⟩⟩
    · have hneg : -EROFS < 0 := by decide
      omega
    · rintro ⟨b, -, hb, -⟩
      exact absurd hb (Nat.not_lt_zero b)
  | succ n ih =>
    intro hn
    rw [auWbrBu]
    rcases h.rdonly (show (n : Int) ≤ u.siBend by omega) with hro | hw
    · obtain ⟨t, ht, hiff⟩ := ih (by omega)
      rw [hro]
      refine ⟨t, ht, fun s => (hiff s).trans ⟨?_, ?_⟩⟩
      · rintro ⟨b, hs, hb, hw⟩
        exact ⟨b, hs, by omega, hw⟩
      · rintro ⟨b, hs, hb, hw⟩
        have hne : b ≠ n := by
          rintro rfl
          exact not_writable hro hw
        exact ⟨b, hs, by omega, hw⟩
    · rw [hw]
      refine ⟨n, rfl, fun s => ⟨fun hs => ⟨n, by omega, by omega, hw⟩, ?_⟩⟩
      rintro ⟨b, hs, hb, -⟩
      omega

/-- The branches of a list in turn, the first suitable one is taken. -/
def firstSuitable (wbr : WbrEnv) (u : UnionSb) (parent : Dinfo) : List Nat → Except BrTrap Int
  | [] => .ok (-EROFS)
  | b :: l =>
    if !hasHDir parent b then firstSuitable wbr u parent l
    else
      match sbrRdonly wbr u b with
      | .error e => .error e
      | .ok rdonly =>
        if !rdonly && (!wbr.dirperm1 || wbr.hPerm b != 0) then .ok b else firstSuitable wbr u parent l

/-- The loop of `tdp` goes down. -/
theorem createTdpFrom_eq : ∀ {n k : Nat},
    createTdpFrom wbr u parent n k = firstSuitable wbr u parent (List.range' k n) := by
  intro n
  induction n with
  | zero => exact fun {k} => rfl
  | succ n ih =>
    intro k
    rw [List.range'_succ, createTdpFrom, ih]
    rfl

/-- The loop of `bup` goes up. -/
theorem copyupBupFrom_eq {env : RmEnv} : ∀ {n k : Nat}, copyupBupFrom env parent n k =
    (firstSuitable env.wbr env.union parent ((List.range n).map (k - ·))).toOption := by
  intro n
  induction n with
  | zero => exact fun {k} => rfl
  | succ n ih =>
    intro k
    have hmap : (List.range (n + 1)).map (k - ·) = k :: (List.range n).map (k - 1 - ·) := by
      rw [List.range_succ_eq_map, List.map_cons, List.map_map, Nat.sub_zero]
      refine congrArg (k :: ·) (List.map_congr_left fun b _ => ?_)
      show k - (b + 1) = k - 1 - b
      omega
    rw [hmap, copyupBupFrom, firstSuitable, ih]
    by_cases hdir : (!hasHDir parent k) = true
    · rw [if_pos hdir, if_pos hdir]
    rw [if_neg hdir, if_neg hdir]
    cases sbrRdonly env.wbr env.union k with
    | error e => rfl
    | ok rdonly =>
      dsimp only
      by_cases hperm : (!rdonly && (!env.wbr.dirperm1 || env.wbr.hPerm k != 0)) = true
      · rw [if_pos hperm, if_pos hperm]
        rfl
      · rw [if_neg hperm, if_neg hperm]

/-- **The search** ends with an error and none was suitable, or with the first one in the order of the
    list. -/
theorem firstSuitable_takes (h : BranchesThere u) {R : Nat → Nat → Prop} (hR : ∀ a b, R a b → ¬ R b a) :
    ∀ {l : List Nat}, l.Pairwise R → (∀ b ∈ l, (b : Int) ≤ u.siBend) →
    ∃ t, firstSuitable wbr u parent l = .ok t ∧
      ((t < 0 ∧ ∀ b ∈ l, ¬ Suitable wbr u parent b) ∨
        ∃ b ∈ l, t = (b : Int) ∧ Suitable wbr u parent b ∧ ∀ a ∈ l, R a b → ¬ Suitable wbr u parent a) := by
  intro l
  induction l with
  | nil => exact fun _ _ => ⟨-EROFS, rfl, Or.inl ⟨by decide, fun b hb => absurd hb List.not_mem_nil⟩⟩
  | cons k l ih =>
    intro hl hthere
    obtain ⟨hk, hl⟩ := List.pairwise_cons.mp hl
    obtain ⟨t, ht, htakes⟩ := ih hl fun b hb => hthere b (List.mem_cons_of_mem k hb)
    -- when the branch is passed, the rest decides
    have hpass : ¬ Suitable wbr u parent k → (t < 0 ∧ ∀ b ∈ k :: l, ¬ Suitable wbr u parent b) ∨
        ∃ b ∈ k :: l, t = (b : Int) ∧ Suitable wbr u parent b ∧
          ∀ a ∈ k :: l, R a b → ¬ Suitable wbr u parent a := by
      intro hno
      refine htakes.imp ?_ ?_
      · rintro ⟨hneg, hnone⟩
        refine ⟨hneg, fun b hb => ?_⟩
        rcases List.mem_cons.mp hb with rfl | hb
        · exact hno
        · exact hnone b hb
      · rintro ⟨b, hb, hbt, hs, hfirst⟩
        refine ⟨b, List.mem_cons_of_mem k hb, hbt, hs, fun a ha hab => ?_⟩
        rcases List.mem_cons.mp ha with rfl | ha
        · exact hno
        · exact hfirst a ha hab
    rw [firstSuitable]
    by_cases hdir : hasHDir parent k = true
    · rw [if_neg (by rw [hdir]; decide)]
      rcases h.rdonly (hthere k List.mem_cons_self) with hro | hw
      · rw [hro]
        exact ⟨t, ht, hpass fun hs => not_writable hro hs.2.1⟩
      · rw [hw]
        by_cases hperm : (!false && (!wbr.dirperm1 || wbr.hPerm k != 0)) = true
        · refine ⟨k, if_pos hperm, Or.inr ⟨k, List.mem_cons_self, rfl, (suitable_iff hdir hw).mp hperm, ?_⟩⟩
          intro a ha hak
          rcases List.mem_cons.mp ha with rfl | ha
          · exact absurd hak (hR a a hak)
          · exact absurd hak (hR k a (hk a ha))
        · exact ⟨t, (if_neg hperm).trans ht, hpass fun hs => hperm ((suitable_iff hdir hw).mpr hs)⟩
    · rw [if_pos (by rw [Bool.eq_false_iff.mpr hdir]; rfl)]
      exact ⟨t, ht, hpass fun hs => hdir hs.1⟩

end Policies

/-- **Which branches let a copy-up policy choose below `s`**, for a name that starts on `d` under a parent
    that starts on `p`. -/
def PolicyBelow (env : RmEnv) (parent : Dinfo) (s d p : Nat) : Prop :=
  match env.wbrCopyup with
  -- the name's own branch, or none of the parent's above is taken
  | .tdp => ∃ b, s < b ∧ b ≤ d ∧ Writable env.wbr env.union b ∧
      (b = d ∨ ∀ a, a ≤ s → ¬ Suitable env.wbr env.union parent a)
  | .bup => (∃ b, s < b ∧ b ≤ d ∧ Suitable env.wbr env.union parent b) ∨
      (∀ a, a ≤ d → ¬ Suitable env.wbr env.union parent a) ∧
        ∃ b, s < b ∧ b < p ∧ Writable env.wbr env.union b
  | .bu => ∃ b, s < b ∧ b ≤ d ∧ Writable env.wbr env.union b

/-- The source starts on branch `s`, the new name on `d`, and its parent on `p`, not below the name.  These
    branches are there, and the source has a hidden dentry on its own. -/
structure Placement (env : RmEnv) (src dentry parent : Dinfo) (s d p : Nat) : Prop where
  there : BranchesThere env.union
  srcStart : src.diBstart = s
  start : dentry.diBstart = d
  parentStart : parent.diBstart = p
  srcThere : (s : Int) ≤ env.union.siBend
  nameThere : (d : Int) ≤ env.union.siBend
  parentAbove : p ≤ d
  held : (src.hDptr s).isSome = true

section Below

variable {env : RmEnv} {src dentry parent : Dinfo} {s d p : Nat}

theorem toOption_ok {r : Except BrTrap Int} {t : Int} (h : r = .ok t) : r.toOption = some t := by
  rw [h]
  rfl

theorem Placement.suitable_le (h : Placement env src dentry parent s d p) {a : Nat}
    (ha : Suitable env.wbr env.union parent a) : p ≤ a := by
  have hle := ha.le
  rw [h.parentStart] at hle
  exact Int.ofNat_le.mp hle

/-- **Top down parent** -/
theorem tdp_below (h : Placement env src dentry parent s d p) (hlt : s < d) :
    ∃ t, auWbrCreateTdp env.wbr env.union dentry parent = .ok t ∧
      ((s : Int) < t ↔ ∃ b, s < b ∧ b ≤ d ∧ Writable env.wbr env.union b ∧
        (b = d ∨ ∀ a, a ≤ s → ¬ Suitable env.wbr env.union parent a)) := by
  have hbend := h.nameThere
  unfold auWbrCreateTdp
  dsimp only
  rw [h.start, h.parentStart, Int.toNat_natCast, Int.toNat_natCast, createTdpFrom_eq]
  rcases h.there.rdonly hbend with hro | hw
  case inr =>
    rw [hw]
    exact ⟨d, rfl, fun _ => ⟨d, hlt, Nat.le_refl d, hw, Or.inl rfl⟩, fun _ => Int.ofNat_lt.mpr hlt⟩
  rw [hro]
  dsimp only
  rw [if_neg (by decide)]
  have hthere : ∀ b ∈ List.range' p (d - p), (b : Int) ≤ env.union.siBend := by
    intro b hb
    have hb' := List.mem_range'_1.mp hb
    omega
  have hup : (List.range' p (d - p)).Pairwise (· < ·) := List.pairwise_lt_range'
  obtain ⟨t, ht, htakes⟩ := firstSuitable_takes h.there (fun a b => Nat.lt_asymm) hup hthere
  rw [ht]
  dsimp only
  rcases htakes with ⟨hneg, hnone⟩ | ⟨b, hb, rfl, hsb, hfirst⟩
  · -- bottom up here
    rw [if_pos hneg]
    obtain ⟨t', ht', hiff⟩ : ∃ t', auWbrBu env.wbr env.union d = .ok t' ∧ _ :=
      auWbrBu_below h.there (by omega)
    refine ⟨t', ht', (hiff s).trans ⟨?_, ?_⟩⟩
    · rintro ⟨b, hsb, hbd, hw⟩
      refine ⟨b, hsb, by omega, hw, Or.inr fun a ha hsa => ?_⟩
      have hpa := h.suitable_le hsa
      exact hnone a (List.mem_range'_1.mpr ⟨hpa, by omega⟩) hsa
    · rintro ⟨b, hsb, hbd, hw, -⟩
      have hne : b ≠ d := by
        rintro rfl
        exact not_writable hro hw
      exact ⟨b, hsb, by omega, hw⟩
  · rw [if_neg (by omega)]
    have hb' := List.mem_range'_1.mp hb
    refine ⟨b, rfl, fun hsb' => ?_, ?_⟩
    · refine ⟨b, by omega, by omega, hsb.2.1, Or.inr fun a ha hsa => ?_⟩
      have hpa := h.suitable_le hsa
      exact hfirst a (List.mem_range'_1.mpr ⟨hpa, by omega⟩) (by omega) hsa
    · rintro ⟨b', hsb', hbd', hw', hor⟩
      rcases hor with rfl | hno
      · exact absurd hw' (not_writable hro)
      · by_contra hle
        exact hno b (by omega) hsb

/-- **Bottom up parent** -/
theorem bup_below (h : Placement env src dentry parent s d p) (hbup : env.wbrCopyup = .bup) :
    ∃ t, auWbrCopyup env dentry parent = some t ∧
      ((s : Int) < t ↔ (∃ b, s < b ∧ b ≤ d ∧ Suitable env.wbr env.union parent b) ∨
        (∀ a, a ≤ d → ¬ Suitable env.wbr env.union parent a) ∧
          ∃ b, s < b ∧ b < p ∧ Writable env.wbr env.union b) := by
  have hbend := h.nameThere
  have hpd := h.parentAbove
  have hcount : ((d : Int) + 1 - p).toNat = d + 1 - p := by omega
  unfold auWbrCopyup
  rw [hbup]
  dsimp only
  rw [h.start, h.parentStart, Int.toNat_natCast, Int.toNat_natCast, hcount, copyupBupFrom_eq]
  obtain ⟨l, hl⟩ : ∃ l, l = (List.range (d + 1 - p)).map (d - ·) := ⟨_, rfl⟩
  have hmem : ∀ {b}, b ∈ l ↔ p ≤ b ∧ b ≤ d := by
    intro b
    rw [hl, List.mem_map]
    constructor
    · rintro ⟨i, hi, rfl⟩
      have hi' := List.mem_range.mp hi
      omega
    · rintro ⟨hpb, hbd⟩
      exact ⟨d - b, List.mem_range.mpr (by omega), by omega⟩
  have hthere : ∀ b ∈ l, (b : Int) ≤ env.union.siBend := by
    intro b hb
    have hb' := hmem.mp hb
    omega
  have hdown : l.Pairwise fun a b => b < a := by
    rw [hl, List.pairwise_map]
    refine List.pairwise_lt_range.imp_of_mem fun ha hb hab => ?_
    have hb' := List.mem_range.mp hb
    omega
  rw [← hl]
  obtain ⟨t, ht, htakes⟩ := firstSuitable_takes h.there (fun a b => Nat.lt_asymm) hdown hthere
  rw [toOption_ok ht]
  dsimp only
  rcases htakes with ⟨hneg, hnone⟩ | ⟨b, hb, rfl, hsb, hfirst⟩
  · -- bottom up here
    have hno : ∀ a, a ≤ d → ¬ Suitable env.wbr env.union parent a :=
      fun a ha hsa => hnone a (hmem.mpr ⟨h.suitable_le hsa, ha⟩) hsa
    rw [if_pos hneg]
    obtain ⟨t', ht', hiff⟩ : ∃ t', auWbrBu env.wbr env.union p = .ok t' ∧ _ :=
      auWbrBu_below h.there (by omega)
    refine ⟨t', toOption_ok ht', (hiff s).trans ⟨fun hb => Or.inr ⟨hno, hb⟩, ?_⟩⟩
    rintro (⟨b, -, hbd, hsb⟩ | ⟨-, hb⟩)
    · exact absurd hsb (hno b hbd)
    · exact hb
  · rw [if_neg (by omega)]
    have hb' := hmem.mp hb
    refine ⟨b, rfl, fun hlt => Or.inl ⟨b, by omega, hb'.2, hsb⟩, ?_⟩
    rintro (⟨b', hsb', hbd', hsuit⟩ | ⟨hno, -⟩)
    · by_contra hle
      exact hfirst b' (hmem.mpr ⟨h.suitable_le hsuit, hbd'⟩) (by omega) hsuit
    · exact absurd hsb (hno b hb'.2)

/-- **The copy-up policies.** -/
theorem auWbrCopyup_below (h : Placement env src dentry parent s d p) (hlt : s < d) :
    ∃ t, auWbrCopyup env dentry parent = some t ∧ ((s : Int) < t ↔ PolicyBelow env parent s d p) := by
  unfold PolicyBelow
  cases hpolicy : env.wbrCopyup with
  | tdp =>
    obtain ⟨t, ht, hiff⟩ := tdp_below h hlt
    refine ⟨t, ?_, hiff⟩
    unfold auWbrCopyup
    rw [hpolicy]
    exact toOption_ok ht
  | bup => exact bup_below h hpolicy
  | bu =>
    have hbend := h.nameThere
    obtain ⟨t, ht, hiff⟩ : ∃ t, auWbrBu env.wbr env.union (d + 1) = .ok t ∧ _ :=
      auWbrBu_below h.there (by omega)
    refine ⟨t, ?_, (hiff s).trans (exists_congr fun b => by rw [Nat.lt_succ_iff])⟩
    unfold auWbrCopyup
    rw [hpolicy]
    dsimp only
    rw [h.start, Int.toNat_natCast]
    exact toOption_ok ht

/-! ## The target -/

/-- **The target comes to lie below the source**: the wish is withdrawn, the source starts above the new name on
    a branch where the entry cannot be made, and the policy chooses below. -/
def GoesBelow (env : RmEnv) (forceBtgt : Int) (parent : Dinfo) (s d p : Nat) : Prop :=
  forceBtgt < 0 ∧ s < d ∧ auTestRo env s = some true ∧ PolicyBelow env parent s d p

theorem wrDirBranch_le (h : Placement env src dentry parent s d p) {force t : Int} (hforce : force ≤ s)
    (hno : ¬ GoesBelow env force parent s d p) (ht : wrDirBranch env force src dentry parent = some t) :
    t ≤ s := by
  unfold wrDirBranch at ht
  by_cases hneg : force < 0
  case neg =>
    rw [if_neg hneg] at ht
    cases ht
    exact hforce
  rw [if_pos hneg, h.srcStart, h.start] at ht
  by_cases hlt : s < d
  · rw [if_pos (Int.ofNat_lt.mpr hlt)] at ht
    dsimp only at ht
    rw [if_neg (by omega), Int.toNat_natCast] at ht
    cases hro : auTestRo env s with
    | none => rw [hro] at ht; cases ht
    | some ro =>
      rw [hro] at ht
      cases ro with
      | false =>
        cases ht
        exact Int.le_refl _
      | true =>
        obtain ⟨t', ht', hiff⟩ := auWbrCopyup_below h hlt
        obtain rfl := Option.some.inj (ht'.symm.trans ht)
        exact Int.not_lt.mp fun hst => hno ⟨hneg, hlt, hro, hiff.mp hst⟩
  · -- the target is not below the new name
    rw [if_neg (by omega)] at ht
    dsimp only at ht
    rw [if_neg (by omega), Int.toNat_natCast] at ht
    have hrm : rmTarget env dentry parent = some t := by
      rw [← ht, rmTarget, h.start, Int.toNat_natCast]
      cases auTestRo env d with
      | none => rfl
      | some ro => cases ro <;> rfl
    have hpd := h.parentAbove
    have hle := rmTarget_le h.start (by rw [h.parentStart]; omega) hrm
    omega

theorem wrDirBranch_below (h : Placement env src dentry parent s d p) {force : Int}
    (hbelow : GoesBelow env force parent s d p) :
    ∃ t, wrDirBranch env force src dentry parent = some t ∧ (s : Int) < t := by
  obtain ⟨hneg, hlt, hro, hpolicy⟩ := hbelow
  obtain ⟨t, ht, hiff⟩ := auWbrCopyup_below h hlt
  refine ⟨t, ?_, hiff.mpr hpolicy⟩
  unfold wrDirBranch
  rw [if_pos hneg, h.srcStart, h.start, if_pos (Int.ofNat_lt.mpr hlt)]
  dsimp only
  rw [if_neg (by omega), Int.toNat_natCast, hro]
  exact ht

theorem lkupNegFound_le (b : Nat) (d : Dinfo) (found : Except Int HDentry) : (lkupNegFound b d found).1 ≤ 0 := by
  cases found with
  | error err =>
    show min err (-1) ≤ 0
    omega
  | ok hDentry =>
    rw [lkupNegFound]
    split
    · exact (by decide : - EIO ≤ 0)
    · exact Int.le_refl 0

/-- What was looked up lies in the range then. -/
theorem lkupNegFound_start {b : Nat} {d : Dinfo} {found : Except Int HDentry}
    (h : (lkupNegFound b d found).1 = 0) : (lkupNegFound b d found).2.diBstart ≤ b ∧
      ((lkupNegFound b d found).2.diHdentry b).isSome = true := by
  cases found with
  | error err =>
    have herr : min err (-1) = 0 := h
    omega
  | ok hDentry =>
    rw [lkupNegFound] at h ⊢
    split at h
    · cases h
    rename_i hneg
    rw [if_neg hneg]
    refine ⟨?_, ?_⟩
    · show (if (b : Int) < d.diBstart then (b : Int) else d.diBstart) ≤ b
      split <;> omega
    · show (Function.update d.diHdentry b (some hDentry) b).isSome = true
      rw [Function.update_self]
      rfl

theorem auUpdateDbrange_start {b : Nat} {d : Dinfo} (h0 : d.diBstart = 0)
    (hb : (d.diHdentry b).isSome = true) : (auUpdateDbrange false d).diBstart ≤ b := by
  unfold auUpdateDbrange
  rw [if_neg (by omega), if_neg Bool.false_ne_true]
  dsimp only
  split
  · rename_i bstart bend hfirst _
    obtain ⟨-, -, -, hnone⟩ := firstHDptr_some hfirst
    by_contra hlt
    have hempty := hnone b (Nat.zero_le b) (by
      dsimp only at hlt
      omega)
    rw [Dinfo.hDptr, if_neg (by dsimp only; omega)] at hempty
    rw [hempty] at hb
    cases hb
  · show (-1 : Int) ≤ b
    omega

/-- The end of `au_wr_dir` fails, or the new name starts on the target then, or above it. -/
theorem wrDirPlace_spec (answer : WrDirSteps) (b : Nat) (bstart : Int) (parent d : Dinfo) :
    (wrDirPlace answer b bstart parent d).1 < 0 ∨ (wrDirPlace answer b bstart parent d).1 = 0 ∧
      (wrDirPlace answer b bstart parent d).2.diBstart ≤ b := by
  unfold wrDirPlace
  dsimp only
  by_cases herr : (if (parent.hDptr b).isNone = true then min answer.cpDirs 0 else 0) = 0
  case neg =>
    rw [if_pos herr]
    left
    have hle : (if (parent.hDptr b).isNone = true then min answer.cpDirs 0 else 0) ≤ 0 := by
      split
      · exact min_le_right _ _
      · exact Int.le_refl 0
    exact lt_of_le_of_ne hle herr
  rw [if_neg (not_not.mpr herr)]
  have hle := lkupNegFound_le b d answer.lkup
  by_cases hok : (lkupNegFound b d answer.lkup).1 = 0
  case neg =>
    left
    split
    · exact lt_of_le_of_ne hle hok
    · exact lt_of_le_of_ne hle hok
  obtain ⟨hstart, hthere⟩ := lkupNegFound_start hok
  right
  by_cases hlost : bstart < b ∧ (lkupNegFound b d answer.lkup).2.diBstart < 0
  · rw [if_pos hlost]
    exact ⟨hok, auUpdateDbrange_start rfl hthere⟩
  · rw [if_neg hlost]
    exact ⟨hok, hstart⟩

/-- **What `au_wr_dir` returns** is the branch it decided on, and the new name starts there or above, or it is an
    error. -/
theorem auWrDir_spec {steps : Nat → WrDirSteps} {force t : Int} {d' : Dinfo}
    (h : auWrDir env steps force src dentry parent = some (t, d')) :
    t < 0 ∨ wrDirBranch env force src dentry parent = some t ∧ d'.diBstart ≤ t := by
  unfold auWrDir at h
  cases hb : wrDirBranch env force src dentry parent with
  | none => rw [hb] at h; cases h
  | some b =>
    rw [hb] at h
    dsimp only at h
    by_cases hneg : b < 0
    · rw [if_pos hneg] at h
      cases h
      exact Or.inl hneg
    rw [if_neg hneg] at h
    by_cases heq : b = dentry.diBstart
    · rw [if_pos heq, if_neg (by omega)] at h
      cases h
      exact Or.inr ⟨rfl, Int.le_of_eq heq.symm⟩
    rw [if_neg heq] at h
    obtain ⟨d, hd⟩ : ∃ d, d = auUpdateDbstart (if dentry.diBstart < b then auUpdateDbrange true dentry
        else dentry) := ⟨_, rfl⟩
    rw [← hd] at h
    obtain ⟨rfl, rfl⟩ := Prod.ext_iff.mp (Option.some.inj h)
    dsimp only
    rcases wrDirPlace_spec (steps b.toNat) b.toNat dentry.diBstart parent d with herr | ⟨hok, hstart⟩
    · rw [if_pos (by omega)]
      exact Or.inl herr
    · rw [if_neg (not_not.mpr hok)]
      exact Or.inr ⟨rfl, by omega⟩

/-- It succeeds only if the new parent is there or could be copied, and the new name is not there. -/
theorem wrDirPlace_made {answer : WrDirSteps} {b : Nat} {bstart : Int} {d : Dinfo}
    (h : (wrDirPlace answer b bstart parent d).1 = 0) : (parent.hDptr b = none → 0 ≤ answer.cpDirs) ∧
      ∃ hd, answer.lkup = .ok hd ∧ hd.inode = none := by
  unfold wrDirPlace at h
  dsimp only at h
  by_cases herr : (if (parent.hDptr b).isNone = true then min answer.cpDirs 0 else 0) = 0
  case neg =>
    rw [if_pos herr] at h
    exact absurd h herr
  rw [if_neg (not_not.mpr herr)] at h
  refine ⟨fun hnone => ?_, ?_⟩
  · rw [hnone, Option.isNone_none, if_pos rfl] at herr
    omega
  have hok : (lkupNegFound b d answer.lkup).1 = 0 := by
    split at h
    · exact h
    · exact h
  cases hl : answer.lkup with
  | error err =>
    rw [hl] at hok
    have hneg : min err (-1) = 0 := hok
    omega
  | ok hd =>
    rw [hl, lkupNegFound] at hok
    split at hok
    · cases hok
    · rename_i hneg
      exact ⟨hd, rfl, Option.not_isSome_iff_eq_none.mp hneg⟩

/-- Where that is not the branch the new name started on, the new parent is there or could be copied, and the new
    name is not there. -/
theorem auWrDir_made {steps : Nat → WrDirSteps} {force : Int} {r : Int × Dinfo}
    (h : auWrDir env steps force src dentry parent = some r) :
    r.1 < 0 ∨ wrDirBranch env force src dentry parent = some r.1 ∧ (r.1 = dentry.diBstart ∨
      (parent.hDptr r.1.toNat = none → 0 ≤ (steps r.1.toNat).cpDirs) ∧
        ∃ hd, (steps r.1.toNat).lkup = .ok hd ∧ hd.inode = none) := by
  unfold auWrDir at h
  cases hb : wrDirBranch env force src dentry parent with
  | none =>
    rw [hb] at h
    cases h
  | some b =>
    rw [hb] at h
    dsimp only at h
    by_cases hneg : b < 0
    · rw [if_pos hneg] at h
      cases h
      exact Or.inl hneg
    rw [if_neg hneg] at h
    by_cases heq : b = dentry.diBstart
    · rw [if_pos heq] at h
      cases h
      exact Or.inr ⟨rfl, Or.inl heq⟩
    rw [if_neg heq] at h
    obtain ⟨d, hd⟩ : ∃ d, d = auUpdateDbstart (if dentry.diBstart < b then auUpdateDbrange true dentry
        else dentry) := ⟨_, rfl⟩
    rw [← hd] at h
    cases h
    dsimp only
    rcases wrDirPlace_spec (steps b.toNat) b.toNat dentry.diBstart parent d with herr | ⟨hok, -⟩
    · rw [if_pos (by omega)]
      exact Or.inl herr
    · rw [if_neg (not_not.mpr hok)]
      exact Or.inr ⟨rfl, Or.inr (wrDirPlace_made hok)⟩

/-- Where nothing is in the way, it is the branch decided on. -/
theorem auWrDir_succeeds {steps : Nat → WrDirSteps} {force b : Int}
    (hb : wrDirBranch env force src dentry parent = some b) (h0 : 0 ≤ b)
    (hsteps : b = dentry.diBstart ∨ steps b.toNat = ⟨0, .ok ⟨0, [], none⟩⟩) :
    ∃ d', auWrDir env steps force src dentry parent = some (b, d') := by
  have hplace : ∀ d, (wrDirPlace ⟨0, .ok ⟨0, [], none⟩⟩ b.toNat dentry.diBstart parent d).1 = 0 := by
    intro d
    unfold wrDirPlace
    dsimp only
    rw [if_neg (by split <;> decide)]
    split <;> rfl
  unfold auWrDir
  rw [hb]
  dsimp only
  rw [if_neg (Int.not_lt.mpr h0)]
  split
  · exact ⟨_, rfl⟩
  · rename_i hne
    rw [hsteps.resolve_left hne, if_neg (not_not.mpr (hplace _))]
    exact ⟨_, rfl⟩

/-- When the lower file systems make no difficulties, it is that branch. -/
theorem auWrDir_reaches {force b : Int} (hb : wrDirBranch env force src dentry parent = some b) (h0 : 0 ≤ b) :
    ∃ steps d', auWrDir env steps force src dentry parent = some (b, d') :=
  ⟨fun _ => ⟨0, .ok ⟨0, [], none⟩⟩, auWrDir_succeeds hb h0 (Or.inr rfl)⟩

/-- **The target is not below the source, whatever the lower file systems answer, iff it is not decided so.** -/
theorem auWrDir_le_iff (h : Placement env src dentry parent s d p) {force : Int} (hforce : force ≤ s) :
    (∀ steps t d', auWrDir env steps force src dentry parent = some (t, d') → t ≤ s) ↔
      ¬ GoesBelow env force parent s d p := by
  constructor
  · intro hle hbelow
    obtain ⟨t, ht, hst⟩ := wrDirBranch_below h hbelow
    obtain ⟨steps, d', hres⟩ := auWrDir_reaches ht (by omega)
    have hts := hle steps t d' hres
    omega
  · intro hno steps t d' hres
    rcases auWrDir_spec hres with hneg | ⟨ht, -⟩
    · omega
    · exact wrDirBranch_le h hforce hno ht

end Below

/-! ## The hidden source -/

theorem hDptr_setHDptr_isSome {x : Dinfo} {b : Nat} {v : Option HDentry} (hb : (x.hDptr b).isSome = true)
    (hv : v.isSome = true) : ((x.setHDptr b v).hDptr b).isSome = true := by
  have hrange := bstart_le_of_hDptr hb
  show (if x.diBstart < 0 ∨ (b : Int) < x.diBstart then none else Function.update x.diHdentry b v b).isSome = true
  rw [if_neg (by omega), Function.update_self]
  exact hv

/-- A name that was copied up has a hidden dentry on the target. -/
theorem auCpupSimple_held {env : CpupEnv} {name : Name} {b : Nat} {s s' : Named}
    (h : auCpupSimple env name b s = some (0, s')) : (s'.d.hDptr b).isSome = true := by
  unfold auCpupSimple at h
  split at h
  · cases h
  rename_i bsrc hsrc
  obtain ⟨-, -, hsome, -⟩ := firstHDptr_some hsrc
  have hrange := bstart_le_of_hDptr hsome
  split at h
  · cases h
  split at h
  · cases h
  rename_i err d hneg
  split at h
  · rename_i herr
    cases h
    exact absurd rfl herr
  rename_i herr
  rcases auLkupNeg_spec hneg with ⟨he, -, -⟩ | ⟨-, -, hDentry, -, rfl⟩
  · exact absurd he (by omega)
  split at h
  · cases h
  rename_i e left io hsingle
  dsimp only at h
  by_cases h0 : e = 0
  case neg =>
    rw [if_neg h0] at h
    cases h
    exact absurd rfl h0
  rw [if_pos h0] at h
  cases h
  refine hDptr_setHDptr_isSome ?_ ?_
  · rw [hDptr_entered hrange.1]
    rfl
  · rw [hDptr_entered hrange.1]
    rfl

section Link

variable {env : RmEnv} {src dentry parent : Dinfo} {s d p : Nat}

theorem auCpupBeforeLink_held {a : LinkArgs} {b : Nat} {src' : Dinfo}
    (h : auCpupBeforeLink a b src = some (0, src')) : (src'.hDptr b).isSome = true := by
  unfold auCpupBeforeLink at h
  split at h
  · rename_i herr
    exact absurd (congrArg Prod.fst (Option.some.inj h)) herr
  split at h
  · rename_i herr
    exact absurd (congrArg Prod.fst (Option.some.inj h)) herr
  cases hcpup : auCpupSimple a.cpup a.srcName b ⟨a.srcParent, src, a.io⟩ with
  | none => rw [hcpup] at h; cases h
  | some r =>
    obtain ⟨err, t⟩ := r
    rw [hcpup] at h
    cases h
    exact auCpupSimple_held hcpup

/-- **The hidden dentry `vfs_link` gets is there**, when the new name starts on the source's branch or above. -/
theorem aufsLink_held (a : LinkArgs) (hsrc : src.diBstart = s) (hheld : (src.hDptr s).isSome = true)
    (hle : ∀ t d', linkTarget env a.steps src dentry parent = some (t, d') → 0 ≤ t → d'.diBstart ≤ s) :
    aufsLink env a src dentry parent ≠ some (.link none) := by
  have hpresent : ∀ {x : Dinfo} {b : Nat}, (x.hDptr b).isSome = true →
      some (LinkCall.link (x.hDptr b)) ≠ some (.link none) := by
    intro x b hb heq
    rw [LinkCall.link.inj (Option.some.inj heq)] at hb
    cases hb
  unfold aufsLink
  cases htarget : linkTarget env a.steps src dentry parent with
  | none => exact nofun
  | some r =>
    obtain ⟨t, d'⟩ := r
    dsimp only
    split
    · exact nofun
    split
    · exact nofun
    rename_i hneg _
    have hle' := hle t d' htarget (Int.not_lt.mp hneg)
    have hsame : ¬ d'.diBstart < src.diBstart → (src.hDptr d'.diBstart.toNat).isSome = true := by
      intro hge
      rw [show d'.diBstart.toNat = s by omega]
      exact hheld
    split
    · split
      · rw [auCpupOrLink]
        split
        · exact nofun
        · split
          · exact nofun
          · exact nofun
      · rename_i hge
        exact hpresent (hsame hge)
    split
    · split
      · exact nofun
      · split
        · exact nofun
        split
        · exact nofun
        · rename_i hcpup herr _
          rw [not_not.mp herr] at hcpup
          exact hpresent (auCpupBeforeLink_held hcpup)
    · rename_i hge
      exact hpresent (hsame hge)

/-- `aufs_link`, whatever it finds: its target is not below the source, and `vfs_link` gets a hidden
    dentry. -/
def LinkKeeps (env : RmEnv) (src dentry parent : Dinfo) : Prop :=
  (∀ steps t d', linkTarget env steps src dentry parent = some (t, d') → t ≤ src.diBstart) ∧
    ∀ a, aufsLink env a src dentry parent ≠ some (.link none)

/-- `aufs_rename`: the source has a hidden dentry on the target, or it is below it and is copied up. -/
def RenameKeeps (env : RmEnv) (exist : Bool) (src dentry parent : Dinfo) : Prop :=
  ∀ steps t d', renameTarget env exist steps src dentry parent = some (t, d') → 0 ≤ t →
    t = src.diBstart ∧ (src.hDptr t.toNat).isSome = true ∨ t < src.diBstart

theorem Placement.renameOver (h : Placement env src dentry parent s d p) (exist : Bool) :
    Placement (env.renameOver exist) src dentry parent s d p := by
  cases exist with
  | false => exact { h with }
  | true => exact h

/-- `au_wbr` keeps the branch or withdraws it. -/
theorem auWbr_cases (hthere : BranchesThere env.union) {b : Nat} (hb : (b : Int) ≤ env.union.siBend) :
    auWbr env dentry parent b = some (-1) ∨ auWbr env dentry parent b = some (b : Int) := by
  unfold auWbr
  rw [Int.toNat_natCast]
  rcases hthere.rdonly hb with hro | hw
  · rw [hro]
    exact Or.inl (if_pos (Or.inl rfl))
  · rw [hw]
    dsimp only
    split
    · exact Or.inl rfl
    · exact Or.inr rfl

/-- A branch that is read-only is withdrawn. -/
theorem auWbr_rdonly {b : Nat} (h : sbrRdonly env.wbr env.union b = .ok true) :
    auWbr env dentry parent b = some (-1) := by
  unfold auWbr
  rw [Int.toNat_natCast, h]
  exact if_pos (Or.inl rfl)

/-- Without an inode only the branch is asked. -/
theorem auTestRo_negative {b : Nat} :
    auTestRo env.negative b = some true ↔ sbrRdonly env.wbr env.union b = .ok true := by
  show (match sbrRdonly env.wbr env.union b with
    | .error _ => none
    | .ok rdonly => some (rdonly || false)) = some true ↔ _
  cases sbrRdonly env.wbr env.union b with
  | error e => exact ⟨nofun, nofun⟩
  | ok rdonly =>
    dsimp only
    rw [Bool.or_false]
    exact ⟨fun h => congrArg Except.ok (Option.some.inj h), fun h => congrArg some (Except.ok.inj h)⟩

/-- **For a wish** of a branch not below the source. -/
theorem wishedTarget_le_iff (h : Placement env src dentry parent s d p) {b : Nat} (hb : b ≤ s) :
    (∀ steps t d', wishedTarget env steps b src dentry parent = some (t, d') → t ≤ s) ↔
      ¬ (s < d ∧ auWbr env dentry parent b = some (-1) ∧ auTestRo env s = some true ∧
        PolicyBelow env parent s d p) := by
  have hthere : (b : Int) ≤ env.union.siBend := by
    have hs := h.srcThere
    omega
  unfold wishedTarget
  have hcases : auWbr env dentry parent b = some (-1) ∨ auWbr env dentry parent b = some (b : Int) :=
    auWbr_cases h.there hthere
  rcases hcases with hforce | hforce
  · rw [hforce]
    refine (auWrDir_le_iff h (show (-1 : Int) ≤ s by omega)).trans (not_congr ?_)
    exact ⟨fun hg => ⟨hg.2.1, rfl, hg.2.2⟩, fun hg => ⟨by decide, hg.1, hg.2.2⟩⟩
  · rw [hforce]
    refine (auWrDir_le_iff h (Int.ofNat_le.mpr hb)).trans (not_congr ?_)
    refine ⟨fun hg => absurd hg.1 (by omega), fun hg => ?_⟩
    have hneg := Option.some.inj hg.2.1
    omega

/-- The new name starts on the target or above it. -/
theorem wishedTarget_start {steps : Nat → WrDirSteps} {btgt t : Int} {d' : Dinfo}
    (h : wishedTarget env steps btgt src dentry parent = some (t, d')) (h0 : 0 ≤ t) : d'.diBstart ≤ t := by
  unfold wishedTarget at h
  split at h
  · cases h
  · rcases auWrDir_spec h with hneg | hspec
    · omega
    · exact hspec.2

/-- **When the target is not below the source.**  For a link always, except that the source starts above the new
    name, on a read-only branch, and the policy chooses a branch below it.  For a rename also when the branch
    can be written, but the wish is withdrawn, and the inode that is renamed over is immutable there. -/
theorem target_below_iff {env : RmEnv} (h : Placement env src dentry parent s d p) :
    (LinkKeeps env src dentry parent ↔ ¬ (s < d ∧ sbrRdonly env.wbr env.union s = .ok true ∧
      PolicyBelow env parent s d p)) ∧
    ∀ exist, RenameKeeps env exist src dentry parent ↔ ¬ (s < d ∧
      auWbr (env.renameOver exist) dentry parent s = some (-1) ∧
        auTestRo (env.renameOver exist) s = some true ∧ PolicyBelow env parent s d p) := by
  have hs : src.diBstart = s := h.srcStart
  refine ⟨?_, fun exist => ?_⟩
  · have htarget : (∀ steps t d', linkTarget env steps src dentry parent = some (t, d') → t ≤ src.diBstart) ↔
        ¬ (s < d ∧ sbrRdonly env.wbr env.union s = .ok true ∧ PolicyBelow env parent s d p) := by
      unfold linkTarget
      rw [hs]
      refine (wishedTarget_le_iff (h.renameOver false) (Nat.le_refl s)).trans (not_congr (and_congr_right ?_))
      intro _
      constructor
      · rintro ⟨-, hro, hpolicy⟩
        exact ⟨auTestRo_negative.mp hro, hpolicy⟩
      · rintro ⟨hro, hpolicy⟩
        exact ⟨auWbr_rdonly hro, auTestRo_negative.mpr hro, hpolicy⟩
    -- a target not below the source leaves a hidden dentry for `vfs_link`
    refine Iff.trans ⟨fun hk => hk.1, fun hle => ⟨hle, fun a => ?_⟩⟩ htarget
    refine aufsLink_held a hs h.held fun t d' hres h0 => ?_
    have hstart := wishedTarget_start hres h0
    have hts := hle a.steps t d' hres
    omega
  · have hkeeps : RenameKeeps env exist src dentry parent ↔
        ∀ steps t d', renameTarget env exist steps src dentry parent = some (t, d') → t ≤ s := by
      constructor
      · intro hk steps t d' hres
        by_cases h0 : 0 ≤ t
        · rcases hk steps t d' hres h0 with ⟨heq, -⟩ | hlt
          · omega
          · omega
        · omega
      · intro hle steps t d' hres h0
        have hts := hle steps t d' hres
        by_cases heq : t = src.diBstart
        · refine Or.inl ⟨heq, ?_⟩
          rw [heq, hs, Int.toNat_natCast]
          exact h.held
        · exact Or.inr (by omega)
    refine hkeeps.trans ?_
    unfold renameTarget renameForce
    rw [hs, h.start]
    by_cases hover : exist = true ∧ (d : Int) < s
    · rw [if_pos hover]
      have hds : d < s := Int.ofNat_lt.mp hover.2
      refine (wishedTarget_le_iff (h.renameOver exist) (Nat.le_of_lt hds)).trans ?_
      exact iff_of_true (fun hg => absurd hg.1 (by omega)) fun hg => absurd hg.1 (by omega)
    · rw [if_neg hover]
      have hpolicy : PolicyBelow (env.renameOver exist) parent s d p ↔ PolicyBelow env parent s d p := by
        cases exist <;> rfl
      rw [← hpolicy]
      exact wishedTarget_le_iff (h.renameOver exist) (Nat.le_refl s)

end Link

/-! ## A read-only branch above a writable one -/

/-- A read-only branch above a writable one. -/
def roOverRw : RmEnv where
  union := { unmounted with
    siBend := 1
    siBranch := [some ⟨1, .ro, ⟨1, 0⟩, none⟩, some ⟨2, .rw, ⟨2, 0⟩, some 0⟩] }
  wbr := ⟨0, fun _ => false, fun _ => true, fun _ => none, false, fun _ => 0⟩
  wbrCopyup := .tdp
  shwh := false
  udbaNone := false
  mode := sIfreg
  immutable _ := false
  cpup _ := plainEnv
  whbase _ := true
  dir := ⟨0, 1, fun b => ⟨some (100 + b), b + 1⟩, 0⟩
  dCountOne := false
  rmdirLater := false
  testEmpty := 0

/-- A file `a` in the upper root, the directory `b` in the lower one, and a new name `c` in that. -/
def onUpper : Dinfo := ⟨0, 0, -1, -1, fun b => if b = 0 then some ⟨0, [[97]], some newFile⟩ else none⟩

def onLower : Dinfo :=
  ⟨1, 1, -1, -1, fun b => if b = 1 then some ⟨1, [[98]], some (.mk 3 sIfdir [] fun _ => 0)⟩ else none⟩

def nameBelow : Dinfo := ⟨1, 1, -1, -1, fun b => if b = 1 then some ⟨1, [[99], [98]], none⟩ else none⟩

theorem nameBelow_placement : Placement roOverRw onUpper nameBelow onLower 0 1 1 where
  there := by
    intro b hb
    have hb' : (b : Int) ≤ 1 := hb
    rcases Nat.le_one_iff_eq_zero_or_eq_one.mp (show b ≤ 1 by omega) with rfl | rfl
    · exact ⟨_, rfl⟩
    · exact ⟨_, rfl⟩
  srcStart := rfl
  start := rfl
  parentStart := rfl
  srcThere := by decide
  nameThere := by decide
  parentAbove := Nat.le_refl 1
  held := rfl

theorem target_below_iff_nameBelow :
    (LinkKeeps roOverRw onUpper nameBelow onLower ↔ ¬ (0 < 1 ∧ sbrRdonly roOverRw.wbr roOverRw.union 0 = .ok true ∧
      PolicyBelow roOverRw onLower 0 1 1)) ∧
    ∀ exist, RenameKeeps roOverRw exist onUpper nameBelow onLower ↔ ¬ (0 < 1 ∧
      auWbr (roOverRw.renameOver exist) nameBelow onLower (0 : Nat) = some (-1) ∧
        auTestRo (roOverRw.renameOver exist) 0 = some true ∧ PolicyBelow roOverRw onLower 0 1 1) :=
  target_below_iff nameBelow_placement

/-- A link to it, with pseudo-links and nothing that fails. -/
def linkToUpper : LinkArgs :=
  ⟨fun _ => ⟨0, .error 0⟩, true, 0, fun _ => none, none, 0, 0, plainEnv, [97], onUpper, [], 0⟩

/-- Not always: the new name is made on the lower branch, where the source has no hidden dentry, and `vfs_link`
    gets a null pointer. -/
theorem link_without_source : ¬ ∀ (env : RmEnv) (src dentry parent : Dinfo) (s d p : Nat),
    Placement env src dentry parent s d p →
      LinkKeeps env src dentry parent ∧ ∀ exist, RenameKeeps env exist src dentry parent := by
  intro hall
  have hkeeps := (hall roOverRw onUpper nameBelow onLower 0 1 1 nameBelow_placement).1
  exact hkeeps.2 linkToUpper rfl

end KernelPatches.Aufs
