/-
  aufs: a removal that fails after its whiteout was made.

  `aufs_unlink` and `aufs_rmdir` make the whiteout first and remove the hidden entry then.  If that fails,
  `do_revert` is to unlink the whiteout, in the hidden directory of the branch it was made on, and to set
  `di_bwh` back.  It is given one index for both, the OLD `di_bwh`, and looks for the hidden directory
  there.

  * `lockHdirCreateWh_created` — what making the whiteout has changed;
  * `removeHidden_failed`      — a hidden entry which could not be removed is still there;
  * `failed_removal_reverts_iff` — the revert works iff the old `di_bwh` is an index under which the parent
                                   has the directory the whiteout was made in.
-/
import KernelPatches.Aufs.Remove

namespace KernelPatches.Aufs

/-! ## Entries -/

section Entries

variable {name other : Name} {entries : List (Name × HInode)}

theorem lookup_eraseName : (eraseName name entries).lookup other =
    if other = name then none else entries.lookup other := by
  induction entries with
  | nil => rw [eraseName, List.filter_nil, List.lookup_nil, ite_self]
  | cons e rest ih =>
    obtain ⟨n, v⟩ := e
    by_cases hn : n = name
    · have hskip : eraseName name ((n, v) :: rest) = eraseName name rest :=
        List.filter_cons_of_neg (by simp only [hn, ne_eq, not_true, decide_false, Bool.false_eq_true,
          not_false_eq_true])
      rw [hskip, ih]
      by_cases ho : other = name
      · rw [if_pos ho, if_pos ho]
      · have hne : (other == n) = false := beq_false_of_ne (by rw [hn]; exact ho)
        rw [if_neg ho, if_neg ho, List.lookup_cons, hne]
    · have hkeep : eraseName name ((n, v) :: rest) = (n, v) :: eraseName name rest :=
        List.filter_cons_of_pos (by simp only [ne_eq, hn, not_false_eq_true, decide_true])
      rw [hkeep, List.lookup_cons, List.lookup_cons, ih]
      by_cases ho : other = n
      · have hne : other ≠ name := by rw [ho]; exact hn
        rw [if_neg hne, if_neg hne]
      · have hne : (other == n) = false := beq_false_of_ne ho
        rw [hne]

/-- Erasing a name that is not there changes nothing. -/
theorem eraseName_of_lookup (h : entries.lookup name = none) : eraseName name entries = entries := by
  rw [eraseName, List.filter_eq_self]
  intro e he
  have hne : (name != e.1) = true := List.lookup_eq_none_iff.mp h e he
  exact decide_eq_true (Ne.symm (bne_iff_ne.mp hne))

end Entries

/-! ## Directories -/

section Dirs

variable {parent : Dinfo} {b : Nat}

/-- Two changes of one directory. -/
theorem changeDir_changeDir (f g : List (Name × HInode) → List (Name × HInode)) :
    (parent.changeDir b f).changeDir b g = parent.changeDir b (g ∘ f) := by
  unfold Dinfo.changeDir
  dsimp only
  rw [Function.update_self, Function.update_idem, Option.map_map]
  congr 3
  funext hd
  dsimp only [Function.comp]
  rw [Option.map_map]
  rfl

/-- A change that leaves the entries of the directory. -/
theorem changeDir_eq_self {hParent : HDentry} {dir : HInode} {f : List (Name × HInode) →
    List (Name × HInode)} (hptr : parent.hDptr b = some hParent) (hinode : hParent.inode = some dir)
    (hf : f dir.entries = dir.entries) : parent.changeDir b f = parent := by
  have hslot : parent.diHdentry b = some hParent := by
    rw [Dinfo.hDptr] at hptr
    split at hptr
    · cases hptr
    · exact hptr
  have hdir : dir.withEntries (f dir.entries) = dir := by
    rw [hf]
    cases dir
    rfl
  have hsame : ({ hParent with inode := hParent.inode.map fun d => d.withEntries (f d.entries) } : HDentry) =
      hParent := by
    rw [hinode, Option.map_some, hdir, ← hinode]
  unfold Dinfo.changeDir
  rw [hslot, Option.map_some, hsame, ← hslot, Function.update_eq_self]

/-- A new entry makes a difference. -/
theorem changeDir_cons_ne {hParent : HDentry} {dir v : HInode} {name : Name}
    (hptr : parent.hDptr b = some hParent) (hinode : hParent.inode = some dir)
    (hnone : dir.find name = none) : parent.changeDir b ((name, v) :: ·) ≠ parent := by
  intro heq
  have hslot : parent.diHdentry b = some hParent := by
    rw [Dinfo.hDptr] at hptr
    split at hptr
    · cases hptr
    · exact hptr
  have hnew : ((parent.changeDir b ((name, v) :: ·)).diHdentry b).bind HDentry.inode =
      some (dir.withEntries ((name, v) :: dir.entries)) := by
    unfold Dinfo.changeDir
    dsimp only
    rw [Function.update_self, hslot, Option.map_some, Option.bind_some, hinode, Option.map_some]
  rw [heq, hslot, Option.bind_some, hinode] at hnew
  have hfind : dir.find name = some v := by
    rw [Option.some.inj hnew]
    show List.lookup name ((name, v) :: dir.entries) = some v
    rw [List.lookup_cons_self]
  rw [hnone] at hfind
  cases hfind

end Dirs

section Remove

variable {env : RmEnv} {isdir : Bool} {s s₁ s₂ : RmState}

/-! ## Making the whiteout -/

/-- For the entry's own branch the parent is not changed, and the name stays. -/
theorem auWrDirNeedWh_own {n bcpup : Int} (h : auWrDirNeedWh env isdir (-1) s = some (n, bcpup, s₁))
    (hown : bcpup = s.d.diBstart) : s₁.parent = s.parent ∧ s₁.name = s.name := by
  unfold auWrDirNeedWh at h
  rw [if_pos (show (-1 : Int) < 0 by decide)] at h
  dsimp only at h
  split at h
  · cases h
  · split at h
    · cases h
      exact ⟨rfl, rfl⟩
    · split at h
      · rename_i hne
        -- another branch is written to
        split at h
        · cases h
          exact absurd hown hne
        · cases h
      · split at h
        · cases h
          exact ⟨rfl, rfl⟩
        · cases h
          exact ⟨rfl, rfl⟩

/-- A whiteout that was made now was not there before, and is in the directory. -/
theorem auWhCreate_created {b : Nat} {hParent : HDentry}
    (h : auWhCreate env b hParent s = some (.ok true, s₁)) :
    s₁.parent = s.parent.changeDir b ((whPfx ++ s.name, newFile) :: ·) ∧ s₁.name = s.name ∧
      ∃ dir, hParent.inode = some dir ∧ dir.find (whPfx ++ s.name) = none := by
  unfold auWhCreate at h
  cases hi : hParent.inode with
  | none =>
    rw [hi] at h
    cases h
  | some dir =>
    rw [hi] at h
    dsimp only at h
    split at h
    · cases h
    cases hl : auLkupOne (whPfx ++ s.name) hParent dir with
    | error e =>
      rw [hl] at h
      cases h
    | ok wh =>
      rw [hl] at h
      dsimp only at h
      split at h
      · cases h
      · rename_i hneg
        split at h
        · cases h
        · cases h
          refine ⟨rfl, rfl, dir, rfl, ?_⟩
          -- the hidden dentry is negative because the directory has no such entry
          unfold auLkupOne at hl
          split at hl
          · cases hl
          · cases hl
            exact Option.not_isSome_iff_eq_none.mp hneg

/-- **The whiteout on the entry's own branch**: the one thing that was changed in the directories. -/
theorem lockHdirCreateWh_created {bcpup : Int}
    (h : lockHdirCreateWh env isdir s = some (.ok (some true), bcpup, s₁)) (hown : bcpup = s.d.diBstart) :
    s₁.parent = s.parent.changeDir bcpup.toNat ((whPfx ++ s.name, newFile) :: ·) ∧ s₁.name = s.name ∧
      ∃ hParent dir, s.parent.hDptr bcpup.toNat = some hParent ∧ hParent.inode = some dir ∧
        dir.find (whPfx ++ s.name) = none := by
  unfold lockHdirCreateWh at h
  dsimp only at h
  cases hneed : auWrDirNeedWh env isdir (-1) s with
  | none =>
    rw [hneed] at h
    cases h
  | some r =>
    obtain ⟨n, bcpup', s'⟩ := r
    rw [hneed] at h
    dsimp only at h
    split at h
    · cases h
    split at h
    · cases h
    split at h
    · cases h
    rename_i hParent hptr
    split at h
    · cases h
    split at h
    · cases h
    split at h
    · cases h
    split at h
    · cases h
    · cases h
    · rename_i created s'' hwh
      cases h
      obtain ⟨hparent, hname⟩ := auWrDirNeedWh_own hneed hown
      obtain ⟨hchange, hname', dir, hinode, hnone⟩ := auWhCreate_created hwh
      dsimp only at hchange hname' hnone hptr
      rw [hparent] at hchange hptr
      rw [hname] at hchange hname' hnone
      exact ⟨hchange, hname', hParent, dir, hptr, hinode, hnone⟩

/-! ## Removing the entry -/

theorem auWhtmpRen_error {b : Nat} {err : Int} (h : auWhtmpRen b s = some (.error err, s₁)) :
    s₁.parent = s.parent ∧ s₁.name = s.name := by
  unfold auWhtmpRen at h
  split at h
  · cases h
  rename_i hParent _
  split at h
  · cases h
  rename_i dir _
  -- looking for a temporary name changes no directory
  have hlkup : ∀ r s', auWhtmpLkup hParent dir s = some (r, s') → s'.parent = s.parent ∧ s'.name = s.name := by
    intro r s' hl
    unfold auWhtmpLkup at hl
    dsimp only at hl
    split at hl
    · cases hl
      exact ⟨rfl, rfl⟩
    generalize (if dnameInlineLenMin < s.name.length then ask s.io else (0, s.io)) = mem at hl
    split at hl
    · cases hl
      exact ⟨rfl, rfl⟩
    split at hl
    · cases hl
    · cases hl
      exact ⟨rfl, rfl⟩
  split at h
  · cases h
  · rename_i hl
    cases h
    exact hlkup _ _ hl
  · rename_i hl
    obtain ⟨hparent, hname⟩ := hlkup _ _ hl
    dsimp only at h
    split at h
    · cases h
      exact ⟨hparent, hname⟩
    · cases h

/-- **A hidden entry that could not be removed** is still there. -/
theorem removeHidden_failed {b : Nat} {err : Int} (h : removeHidden env isdir b s = some (err, s₁))
    (herr : err ≠ 0) : s₁.parent = s.parent ∧ s₁.name = s.name := by
  unfold removeHidden at h
  split at h
  · unfold renwhAndRmdir at h
    split at h
    · cases h
    · rename_i err' s' hren
      cases h
      split at hren
      · cases hren
      · rename_i hren
        cases hren
        exact auWhtmpRen_error hren
      · rename_i hr
        split at hren
        · cases hren
          exact absurd rfl herr
        · cases hren
          exact absurd (if_neg (Int.lt_irrefl 0)) herr
  · dsimp only at h
    split at h
    · cases h
      exact ⟨rfl, rfl⟩
    · cases h
      exact absurd rfl herr

/-! ## The revert -/

variable (env isdir)

/-- A whiteout was made on branch `b`, which is the entry's own, and removing the entry failed then, in the
    state `s₂`. -/
def FailsAfterWh (s : RmState) (b : Nat) (s₂ : RmState) : Prop :=
  ∃ s₁ err, lockHdirCreateWh env isdir s = some (Except.ok (some true), (b : Int), s₁) ∧
    s.d.diBstart = b ∧ removeHidden env isdir b s₁ = some (err, s₂) ∧ err ≠ 0

/-- The call returns the error, and the whiteout is gone and `di_bwh` as it was. -/
def Reverted (s : RmState) (r : Option (Int × RmState)) : Prop :=
  ∃ err s', r = some (err, s') ∧ err ≠ 0 ∧ s'.parent = s.parent ∧ s'.d.diBwh = s.d.diBwh

/-- The old `di_bwh` is an index under which the parent has the directory of branch `b`, and the whiteout
    can be unlinked. -/
def CanRevert (s : RmState) (b : Nat) (s₂ : RmState) : Prop :=
  0 ≤ s.d.diBwh ∧ (∃ hDir, (env.dir.iiHinode s.d.diBwh.toNat).hiInode = some hDir ∧
    (env.dir.iiHinode b).hiInode = some hDir) ∧ (ask s₂.io).1 = 0

variable {env isdir}

/-- **The revert works** iff the old index leads to the directory of the whiteout. -/
theorem auRemove_reverts_iff {b : Nat} (h : FailsAfterWh env isdir s b s₂) :
    Reverted s (auRemove env isdir s) ↔ CanRevert env s b s₂ := by
  obtain ⟨s₁, err, hlock, hown, hremove, herr⟩ := h
  obtain ⟨hparent₁, hname₁, hParent, dir, hptr, hinode, hnone⟩ :=
    lockHdirCreateWh_created hlock hown.symm
  obtain ⟨hparent₂, hname₂⟩ := removeHidden_failed hremove herr
  rw [Int.toNat_natCast] at hparent₁ hptr
  have hparent : s₂.parent = s.parent.changeDir b ((whPfx ++ s.name, newFile) :: ·) :=
    hparent₂.trans hparent₁
  have hname : s₂.name = s.name := hname₂.trans hname₁
  have hcall : auRemove env isdir s = revertWh env s.d.diBwh b err s₂ := by
    rw [auRemove, hlock]
    dsimp only
    rw [if_pos hown.symm, hown, Int.toNat_natCast, hremove]
    dsimp only
    rw [if_neg herr, if_pos (by rfl : (some true).isSome = true)]
  rw [hcall]
  unfold revertWh doRevert
  by_cases hneg : s.d.diBwh < 0
  · -- the index is -1
    rw [if_pos hneg]
    refine iff_of_false ?_ fun hc => absurd hc.1 (by omega)
    rintro ⟨_, _, hc, -⟩
    cases hc
  rw [if_neg hneg]
  cases hhi : (env.dir.iiHinode s.d.diBwh.toNat).hiInode with
  | none =>
    refine iff_of_false ?_ ?_
    · rintro ⟨_, _, hc, -⟩
      cases hc
    · rintro ⟨-, ⟨hDir, hc, -⟩, -⟩
      rw [hhi] at hc
      cases hc
  | some hDir =>
    dsimp only
    by_cases hdir : (env.dir.iiHinode b).hiInode = some hDir
    case neg =>
      -- it is the directory of another branch
      rw [if_pos hdir]
      refine iff_of_false ?_ ?_
      · rintro ⟨_, _, hc, -⟩
        cases hc
      · rintro ⟨-, ⟨hDir', hc, hc'⟩, -⟩
        obtain rfl := Option.some.inj (hhi.symm.trans hc)
        exact hdir hc'
    rw [if_neg (not_not_intro hdir)]
    by_cases hask : (ask s₂.io).1 = 0
    · rw [if_neg (not_not_intro hask)]
      refine iff_of_true ⟨_, _, rfl, ?_, ?_, rfl⟩ ⟨by omega, ⟨hDir, hhi, hdir⟩, hask⟩
      · show (if (0 : Int) ≠ 0 then _ else err) ≠ 0
        rw [if_neg (not_not_intro rfl)]
        exact herr
      · show s₂.parent.changeDir b (eraseName (whPfx ++ s₂.name)) = s.parent
        rw [hparent, hname, changeDir_changeDir]
        refine changeDir_eq_self hptr hinode ?_
        show eraseName (whPfx ++ s.name) ((whPfx ++ s.name, newFile) :: dir.entries) = dir.entries
        have hskip : eraseName (whPfx ++ s.name) ((whPfx ++ s.name, newFile) :: dir.entries) =
            eraseName (whPfx ++ s.name) dir.entries :=
          List.filter_cons_of_neg (by rw [decide_eq_true_eq]; exact not_not_intro rfl)
        rw [hskip]
        exact eraseName_of_lookup hnone
    · -- the whiteout stays
      rw [if_pos hask]
      refine iff_of_false ?_ fun hc => hask hc.2.2
      rintro ⟨_, _, hc, -, hp, -⟩
      cases hc
      exact changeDir_cons_ne hptr hinode hnone (hparent.symm.trans hp)

end Remove

/-- **A failed removal is reverted**, by `aufs_unlink` and by `aufs_rmdir`, exactly then. -/
theorem failed_removal_reverts_iff (env : RmEnv) (s s₂ : RmState) (b : Nat) :
    (FailsAfterWh env false s b s₂ → (Reverted s (aufsUnlink env s) ↔ CanRevert env s b s₂)) ∧
    ((ask s.io).1 = 0 → (ask (ask s.io).2).1 = 0 → env.testEmpty = 0 →
      FailsAfterWh env true { s with io := (ask (ask s.io).2).2 } b s₂ →
      (Reverted s (aufsRmdir env s) ↔ CanRevert env s b s₂)) := by
  refine ⟨fun h => auRemove_reverts_iff h, fun hwhlist hargs hempty h => ?_⟩
  have hcall : aufsRmdir env s = auRemove env true { s with io := (ask (ask s.io).2).2 } := by
    rw [aufsRmdir, if_neg (not_not_intro hwhlist), if_neg (not_not_intro hargs),
      if_neg (not_not_intro hempty)]
  rw [hcall]
  exact auRemove_reverts_iff h

/-! ## A file on two branches -/

/-- A writable branch over a read-only one. -/
def rwOverRo : RmEnv where
  union := { unmounted with
    siBend := 1
    siBranch := [some ⟨1, .rw, ⟨1, 0⟩, some 0⟩, some ⟨2, .ro, ⟨2, 0⟩, none⟩] }
  wbr := ⟨0, fun _ => false, fun _ => true, fun _ => none, false, fun _ => 0⟩
  wbrCopyup := .tdp
  shwh := false
  udbaNone := false
  mode := sIfreg
  immutable _ := false
  cpup _ := ⟨true, false, none, false, 0, 0, -1, 9⟩
  whbase _ := true
  dir := ⟨0, 1, fun b => ⟨some (100 + b), b + 1⟩, 0⟩
  dCountOne := false
  rmdirLater := false
  testEmpty := 0

/-- The file `a` of both roots.  Of the requests, the last one fails: unlinking the hidden file. -/
def fileOnBoth : RmState where
  name := [97]
  d := ⟨0, 0, -1, -1, fun b => if b = 0 then some ⟨0, [[97]], some newFile⟩ else none⟩
  parentName := []
  parent := ⟨0, 1, -1, -1, fun b => some ⟨b, [], some (.mk 2 sIfdir [([97], newFile)] fun _ => 0)⟩⟩
  above := []
  io := [0, 0, 0, -1]
  cnt := 0

/-- **The revert reads the hidden directory of index -1.** -/
theorem revert_without_whiteout :
    (∃ s₂, FailsAfterWh rwOverRo false fileOnBoth 0 s₂) ∧
      ¬ Reverted fileOnBoth (aufsUnlink rwOverRo fileOnBoth) := by
  have hnone : aufsUnlink rwOverRo fileOnBoth = none := rfl
  refine ⟨⟨_, _, -1, rfl, rfl, rfl, by decide⟩, ?_⟩
  rw [hnone]
  rintro ⟨_, _, hc, -⟩
  cases hc

end KernelPatches.Aufs
