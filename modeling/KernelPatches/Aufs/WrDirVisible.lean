/-
  aufs: whether a new entry can be seen.

  A name is hidden on a branch by a mark ABOVE it: by the whiteout of the name, or by the whiteout or the
  opaque mark of a directory on the path to it.  `au_wr_dir` lets a create policy choose the branch of a new
  entry.  `tdp` goes up from where the name was looked up.  The others make an exception of the branch with
  the mark they know (`au_wbr_create_exp`), but when that branch is READ-ONLY they choose as if there were no
  mark, and the entry they make below it is never seen.

  * `wrDirNew`                — `au_wr_dir`, as the operations call it that make a new inode;
  * `dirOn`, `Hides`          — the lower directories of a path, and the marks that hide a new name;
  * `LookedUp`                — the directories of the union, each one looked up in the one above;
  * `newBranch_reach_iff`     — the branches a policy can choose, whatever it remembers;
  * `newVisible_iff`          — when none of them is below a mark.

  What a policy remembers is the free space known of each branch, the cached choice of `mfs`, and the counter
  of `rr`.  The lower file systems answer as for `auWrDir`.
-/
import KernelPatches.Aufs.LookupUnion
import KernelPatches.Aufs.NewBranch

namespace KernelPatches.Aufs

/-! ## au_wr_dir without a source -/

/-- `au_wr_dir`, as `aufs_create`, `aufs_mknod`, `aufs_symlink` and `aufs_mkdir` call it: without a source and
    without a forced branch, and AuWrDir_ADD_ENTRY.  What follows the decision is the same as for a forced one. -/
def wrDirNew (A : Arch) (env : RmEnv) (steps : Nat → WrDirSteps) (s : PolicySb) (isdir : Bool) (d parent : Dinfo) :
    Option (Int × Dinfo × PolicySb) :=
  match newBranch A env s isdir d parent with
  | none => none
  | some (bcpup, s) =>
    if bcpup < 0 then some (bcpup, d, s)
    else (auWrDir env steps bcpup d d parent).map fun r => (r.1, r.2, s)

/-! ## The marks -/

section Marks

variable (st : Stack) (root : Dinfo)

/-- The lower directory on branch `b` that a path leads to, the last name first. -/
def dirOn : List Name → Nat → Option HInode
  | [], b => dirAt root b
  | name :: above, b =>
    ((dirOn above b).bind fun dir => dir.find name).bind fun hInode =>
      if hInode.mode = sIfdir then some hInode else none

/-- The whiteout of a name is in the directory `above` on branch `b`, and whiteouts count there. -/
def WhOn (name : Name) (above : List Name) (b : Nat) : Prop :=
  auBrWhable (st.brPerm b) = true ∧
    ∃ dir wh, dirOn root above b = some dir ∧ dir.find (whPfx ++ name) = some wh

/-- The directory is opaque on branch `b`, and such marks count there. -/
def OpqOn (path : List Name) (b : Nat) : Prop :=
  auBrWhable (st.brPerm b) = true ∧
    ∃ dir opq, dirOn root path b = some dir ∧ dir.find whDiropq = some opq

/-- The directory, or a further one on the path to it, is whited out or opaque on branch `b`.  The root of the
    union is neither. -/
def PathHides : List Name → Nat → Prop
  | [], _ => False
  | name :: above, b => WhOn st root name above b ∨ OpqOn st root (name :: above) b ∨ PathHides above b

/-- What is below branch `b` under a new name in the directory `path` is hidden. -/
def Hides (name : Name) (path : List Name) (b : Nat) : Prop :=
  WhOn st root name path b ∨ PathHides st root path b

/-- What the union knows of the last of the directories on a path, which is the root for the empty one. -/
def dirDinfo : List (Name × Dinfo) → Dinfo
  | [] => root
  | (_, d) :: _ => d

/-- The directories on a path, the last one first, each looked up in the one above: the first lower inode found is
    a directory. -/
inductive LookedUp : List (Name × Dinfo) → Prop
  | root : LookedUp []
  | step {above : List (Name × Dinfo)} {name : Name} {d : Dinfo} {n : Nat} (hpath : LookedUp above)
      (hlkup : auLkupDentry st (dirDinfo root above) none name (dirDinfo root above).diBstart.toNat 0 .alloc =
        (.ok n, d)) (hn : n ≠ 0) (hdir : (dirAt d d.diBstart.toNat).isSome = true) : LookedUp ((name, d) :: above)

/-- The first of the names that has to be made on branch `b`, the new one or one of a directory on the path to it,
    is not there. -/
def wayFree : List (Name × Dinfo) → Name → Nat → Bool
  | [], name, b => (entryAt root name b).isNone
  | (dirName, d) :: above, name, b =>
    if (d.hDptr b).isSome then (entryAt d name b).isNone else wayFree above dirName b

/-- The lower file systems answer as the branches are: `au_cp_dirs` and `au_lkup_neg` fail where something is in the
    way. -/
structure Answers (path : List (Name × Dinfo)) (name : Name) (steps : Nat → WrDirSteps) : Prop where
  cpDirs : ∀ b, (dirDinfo root path).hDptr b = none → 0 ≤ (steps b).cpDirs → wayFree root path name b = true
  lkup : ∀ b hd, (steps b).lkup = .ok hd → hd.inode = entryAt (dirDinfo root path) name b

end Marks

/-- The root of the union has a lower directory on each of the `m + 1` branches. -/
structure RootOf (m : Nat) (root : Dinfo) : Prop where
  start : root.diBstart = 0
  bend : root.diBend = m
  bwh : root.diBwh = -1
  bdiropq : root.diBdiropq = -1
  dirs : ∀ b ≤ m, (dirAt root b).isSome = true

/-! ## What a lookup leaves of the indexes -/

/-- No index is beyond the last branch. -/
structure Within (m : Nat) (d : Dinfo) : Prop where
  start : d.diBstart ≤ m
  bend : d.diBend ≤ m
  bwh : d.diBwh ≤ m
  bdiropq : d.diBdiropq ≤ m

section Lookups

variable {st : Stack} {parent : Dinfo} {inode : Option Nat} {name : Name} {m k : Nat} {d : Dinfo} {w : Lkup}

theorem Within.alloc (m : Nat) : Within m .alloc := by
  have hneg : (-1 : Int) ≤ m := by omega
  exact ⟨hneg, hneg, hneg, hneg⟩

theorem Within.found (h : Within m d) (hk : k ≤ m) (hd : HDentry) : Within m (d.found k hd) := by
  obtain ⟨hstart, hend, hbwh, hopq⟩ := h
  refine ⟨?_, ?_, hbwh, hopq⟩
  · show (if d.diBstart < 0 ∨ (k : Int) < d.diBstart then (k : Int) else d.diBstart) ≤ m
    split <;> omega
  · show (if d.diBend ≤ (k : Int) then (k : Int) else d.diBend) ≤ m
    split <;> omega

theorem auDoLookup_within {hParent : HDentry} {dir : HInode} {type : Nat} {allowNeg : Bool} (h : Within m d)
    (hk : k ≤ m) : Within m (auDoLookup st inode name hParent dir k type allowNeg d).2 := by
  have hk' : (k : Int) ≤ m := by omega
  unfold auDoLookup
  dsimp only
  generalize (if auBrWhable (st.brPerm k) = true then auWhTest (whPfx ++ name) hParent dir else 0) = wh
  split
  · exact h
  have hw : Within m (if wh = 0 then d else { d with diBwh := k }) := by
    split
    · exact h
    · exact ⟨h.start, h.bend, hk', h.bdiropq⟩
  split
  · exact hw
  split
  · exact hw
  · split
    · split
      · exact hw.found hk _
      · exact hw
    · split
      · exact hw
      split
      · exact hw.found hk _
      rename_i hDentry _ _ _ _ _ _
      have hf := hw.found hk hDentry
      split
      · exact ⟨hf.start, hf.bend, hf.bwh, hk'⟩
      split
      · exact ⟨hf.start, hf.bend, hf.bwh, hf.bdiropq⟩
      · exact hf

/-- The `au_dinfo` a round leaves. -/
def Round.dinfo : Round → Dinfo
  | .next w => w.d
  | .stop w => w.d
  | .fail _ d => d

theorem lkupRound_within {type : Nat} (h : Within m w.d) (hk : k ≤ m) :
    Within m (lkupRound st parent inode name type k w).dinfo := by
  unfold lkupRound
  split
  · dsimp only
    split
    · exact h
    · exact h
  split
  · exact h
  split
  · exact h
  split
  · exact h
  dsimp only
  have hr : ∀ hParent dir, Within m (auDoLookup st inode name hParent dir k w.type w.allowNeg w.d).2 :=
    fun _ _ => auDoLookup_within h hk
  split
  · exact hr _ _
  · split
    · exact hr _ _
    split
    · exact hr _ _
    · split_ifs <;> exact hr _ _

theorem lkupLoop_within {type : Nat} : ∀ {count k : Nat} {w : Lkup}, Within m w.d → k + count ≤ m + 1 →
    Within m (lkupLoop st parent inode name type count k w).2 := by
  intro count
  induction count with
  | zero => exact fun h _ => h
  | succ count ih =>
    intro k w h hk
    have hr := @lkupRound_within st parent inode name m k w type h (by omega)
    rw [lkupLoop]
    split
    · rename_i w' heq
      rw [heq] at hr
      exact ih hr (by omega)
    · rename_i w' heq
      rw [heq] at hr
      exact hr
    · rename_i err d' heq
      rw [heq] at hr
      exact hr

theorem updateDbstart_within : ∀ {count k : Nat} {d : Dinfo}, Within m d →
    (0 ≤ d.diBstart → k + count ≤ m + 1) → Within m (updateDbstart count k d) := by
  intro count
  induction count with
  | zero => exact fun h _ => h
  | succ count ih =>
    intro k d h hk
    rw [updateDbstart]
    split
    · exact ih h fun h0 => by have := hk h0; omega
    rename_i hDentry heq
    have hstart : 0 ≤ d.diBstart := by
      by_contra hneg
      rw [Dinfo.hDptr, if_pos (Or.inl (Int.not_le.mp hneg))] at heq
      cases heq
    have hlast := hk hstart
    split
    · exact ⟨show (k : Int) ≤ m by omega, h.bend, h.bwh, h.bdiropq⟩
    · exact ih ⟨h.start, h.bend, h.bwh, h.bdiropq⟩ fun _ => by omega

theorem auUpdateDbstart_within (h : Within m d) : Within m (auUpdateDbstart d) := by
  have hstart := h.start
  have hend := h.bend
  exact updateDbstart_within h fun h0 => by omega

/-- **A lookup stays within the parent's branches.** -/
theorem auLkupDentry_within (hparent : Within m parent) :
    Within m (auLkupDentry st parent none name parent.diBstart.toNat 0 .alloc).2 := by
  have htail : auDbtaildir parent ≤ m := le_trans auDbtaildir_le hparent.bend
  have hstart := hparent.start
  have hloop := @lkupLoop_within st parent none name m 0 (auDbtaildir parent + 1 - parent.diBstart.toNat).toNat
    parent.diBstart.toNat ⟨0, true, 0, .alloc⟩ (Within.alloc m) (by omega)
  unfold auLkupDentry
  split
  · exact Within.alloc m
  split
  · exact Within.alloc m
  dsimp only
  split
  · exact hloop
  have hupdate := auUpdateDbstart_within hloop
  split
  · split
    · exact hupdate
    · exact hupdate
  · split
    · exact hloop
    · exact hloop

theorem RootOf.within {root : Dinfo} (h : RootOf m root) : Within m root := by
  obtain ⟨hstart, hend, hbwh, hopq, -⟩ := h
  exact ⟨by omega, by omega, by omega, by omega⟩

/-- **Every directory** that is looked up from the root has its indexes among the branches, and its first lower
    inode is a directory; by induction on the path. -/
theorem LookedUp.within {root : Dinfo} {path : List (Name × Dinfo)} (h : LookedUp st root path)
    (hroot : RootOf m root) : Within m (dirDinfo root path) ∧
      (dirAt (dirDinfo root path) (dirDinfo root path).diBstart.toNat).isSome = true := by
  induction h with
  | root =>
    refine ⟨hroot.within, hroot.dirs _ ?_⟩
    show root.diBstart.toNat ≤ m
    rw [hroot.start]
    exact Nat.zero_le m
  | @step above name d n hpath hlkup hn hdir ih =>
    have hd := @auLkupDentry_within st (dirDinfo root above) name m ih.1
    rw [hlkup] at hd
    exact ⟨hd, hdir⟩

/-- A branch where a whiteout is found, or no positive entry, is where the name starts then only if negative
    entries are still taken. -/
theorem auDoLookup_start {hParent : HDentry} {dir : HInode} {type : Nat} {allowNeg : Bool}
    {hDentry : Option HDentry} {d' : Dinfo}
    (h : auDoLookup st inode name hParent dir k type allowNeg d = (.ok hDentry, d'))
    (hneg : hDentry.bind HDentry.inode = none ∨ d.diBwh < 0 ∧ 0 ≤ d'.diBwh) :
    d'.diBstart = d.diBstart ∨ allowNeg = true ∧ (d.diBstart < 0 → d'.diBstart = k) := by
  unfold auDoLookup at h
  dsimp only at h
  generalize (if auBrWhable (st.brPerm k) = true then auWhTest (whPfx ++ name) hParent dir else 0) = wh at h
  have hbwh : (if wh = 0 then d else { d with diBwh := k }).diBstart = d.diBstart := by
    split <;> rfl
  split at h
  · cases h
  split at h
  · cases h
    exact Or.inl hbwh
  split at h
  · cases h
  rename_i hLower _
  split at h
  · split at h
    · rename_i hallow
      cases h
      right
      refine ⟨hallow, fun hlow => ?_⟩
      show (if _ < 0 ∨ _ then (k : Int) else _) = k
      rw [hbwh, if_pos (Or.inl hlow)]
    · cases h
      exact Or.inl hbwh
  · rename_i hInode hsome
    split at h
    · cases h
      exact Or.inl hbwh
    rename_i hwh
    -- a positive entry, and no whiteout
    have hd : (if wh = 0 then d else { d with diBwh := k }) = d := if_pos (by tauto)
    rw [hd] at h
    have hcontra : ∀ d'', d''.diBwh = d.diBwh → ¬ ((some hLower).bind HDentry.inode = none ∨ d.diBwh < 0 ∧
        0 ≤ Dinfo.diBwh d'') := by
      rintro d'' hd'' (hnone | ⟨hlow, hge⟩)
      · rw [Option.bind_some, hsome] at hnone
        cases hnone
      · omega
    split at h
    · cases h
      exact absurd hneg (hcontra _ rfl)
    split at h
    · cases h
      exact absurd hneg (hcontra _ rfl)
    split at h
    · cases h
    · cases h
      exact absurd hneg (hcontra _ rfl)

/-- What a round that does not fail leaves of the count, of `allowNeg` and of the start. -/
structure RoundStart (k : Nat) (w w' : Lkup) : Prop where
  npositive : w.npositive ≤ w'.npositive
  allowNeg : w.allowNeg = false → w'.allowNeg = false
  start : w'.npositive = 0 → w'.d.diBstart = w.d.diBstart ∨
    w.allowNeg = true ∧ (w.d.diBstart < 0 → w'.d.diBstart = k)

theorem lkupRound_start {type : Nat} {w' : Lkup} (hbwh : w.d.diBwh < 0) (h : lkupRound st parent inode name type k w = .next w' ∨
    lkupRound st parent inode name type k w = .stop w') : RoundStart k w w' := by
  have hsame : RoundStart k w w := ⟨Nat.le_refl _, fun h => h, fun _ => Or.inl rfl⟩
  unfold lkupRound at h
  split at h
  · -- an entry that is held already
    rename_i hDentry _
    have hw : RoundStart k w { w with npositive := if hDentry.inode.isSome then w.npositive + 1 else w.npositive } := by
      refine ⟨?_, fun h => h, fun _ => Or.inl rfl⟩
      show w.npositive ≤ if hDentry.inode.isSome = true then w.npositive + 1 else w.npositive
      split <;> omega
    dsimp only at h
    split at h
    · rcases h with h | h <;> cases h
      exact hw
    · rcases h with h | h <;> cases h
      exact hw
  split at h
  · rcases h with h | h <;> cases h
    exact hsame
  split at h
  · rcases h with h | h <;> cases h
    exact hsame
  split at h
  · rcases h with h | h <;> cases h
    exact hsame
  rename_i hParent _ _ dir _ _
  dsimp only at h
  cases hr : auDoLookup st inode name hParent dir k w.type w.allowNeg w.d with
  | mk res d' =>
  rw [hr] at h
  cases res with
  | error err => rcases h with h | h <;> cases h
  | ok hDentry =>
    dsimp only at h
    have hnone : (hDentry.bind HDentry.inode = none ∨ w.d.diBwh < 0 ∧ 0 ≤ d'.diBwh) →
        RoundStart k w { w with allowNeg := false, d := d' } :=
      fun hneg => ⟨Nat.le_refl _, fun _ => rfl, fun _ => auDoLookup_start hr hneg⟩
    have hpos : ∀ t, RoundStart k w ⟨t, false, w.npositive + 1, d'⟩ :=
      fun t => ⟨Nat.le_succ _, fun _ => rfl, fun h0 => absurd h0 (Nat.succ_ne_zero _)⟩
    split at h
    · rename_i hwh
      rcases h with h | h <;> cases h
      exact hnone (Or.inr ⟨hbwh, hwh⟩)
    split at h
    · rename_i hneg
      rcases h with h | h <;> cases h
      exact hnone (Or.inl hneg)
    · split_ifs at h <;> rcases h with h | h <;> cases h <;> exact hpos _

/-- A round that goes on has found no whiteout. -/
theorem lkupRound_bwh {type : Nat} {w' : Lkup} (hbwh : w.d.diBwh < 0)
    (h : lkupRound st parent inode name type k w = .next w') : w'.d.diBwh < 0 := by
  unfold lkupRound at h
  split at h
  · dsimp only at h
    split at h
    · cases h
    · cases h
      exact hbwh
  split at h
  · cases h
    exact hbwh
  split at h
  · cases h
    exact hbwh
  split at h
  · cases h
    exact hbwh
  dsimp only at h
  split at h
  · cases h
  split at h
  · cases h
  rename_i hno
  split at h
  · cases h
    exact Int.not_le.mp hno
  · split_ifs at h <;> cases h <;> exact Int.not_le.mp hno

/-- Behind a branch with a directory of the parent no negative entries are taken. -/
theorem round_allowNeg {type : Nat} {w' : Lkup} (hfree : w.d.hDptr k = none)
    (hdir : (dirAt parent k).isSome = true) (h : lkupRound st parent none name type k w = .next w' ∨
      lkupRound st parent none name type k w = .stop w') : w'.allowNeg = false := by
  obtain ⟨dir, hdir⟩ := Option.isSome_iff_exists.mp hdir
  obtain ⟨hParent, hptr, hinode, hmode⟩ := dirAt_some hdir
  rw [round_dir st hfree hptr hinode hmode name type] at h
  dsimp only at h
  split at h
  · rcases h with h | h <;> cases h
  split at h
  · rcases h with h | h <;> cases h
    rfl
  split at h
  · rcases h with h | h <;> cases h
    rfl
  · split_ifs at h <;> rcases h with h | h <;> cases h <;> rfl

/-- From then on a loop that finds nothing leaves the start alone; by induction on the branches left. -/
theorem lkupLoop_start {type : Nat} : ∀ {count k : Nat} {w : Lkup}, w.allowNeg = false → w.d.diBwh < 0 →
    lkupLoop st parent inode name type count k w = (.ok 0, d) → w.npositive = 0 ∧ d.diBstart = w.d.diBstart := by
  intro count
  induction count with
  | zero =>
    intro k w _ _ h
    obtain ⟨hzero, rfl⟩ := Prod.ext_iff.mp h
    exact ⟨Except.ok.inj hzero, rfl⟩
  | succ count ih =>
    intro k w hallow hbwh h
    rw [lkupLoop] at h
    split at h
    · rename_i w' hr
      have hround := lkupRound_start hbwh (Or.inl hr)
      obtain ⟨hzero, hstart⟩ := ih (hround.allowNeg hallow) (lkupRound_bwh hbwh hr) h
      refine ⟨Nat.le_zero.mp (hzero ▸ hround.npositive), ?_⟩
      rcases hround.start hzero with heq | ⟨hyes, -⟩
      · exact hstart.trans heq
      · rw [hallow] at hyes
        cases hyes
    · rename_i w' hr
      have hround := lkupRound_start hbwh (Or.inr hr)
      obtain ⟨hzero, rfl⟩ := Prod.ext_iff.mp h
      have hzero : w'.npositive = 0 := Except.ok.inj hzero
      refine ⟨Nat.le_zero.mp (hzero ▸ hround.npositive), ?_⟩
      rcases hround.start hzero with heq | ⟨hyes, -⟩
      · exact heq
      · rw [hallow] at hyes
        cases hyes
    · cases h

/-- **A negative name starts where its parent starts**, if it starts anywhere. -/
theorem negative_start {s : Nat} (hdir : (dirAt parent s).isSome = true)
    (h : auLkupDentry st parent none name s 0 .alloc = (.ok 0, d)) (h0 : 0 ≤ d.diBstart) :
    d.diBstart = s := by
  have hfirst : ∀ w', lkupRound st parent none name 0 s ⟨0, true, 0, .alloc⟩ = .next w' ∨
      lkupRound st parent none name 0 s ⟨0, true, 0, .alloc⟩ = .stop w' → w'.allowNeg = false ∧
        (w'.npositive = 0 → w'.d.diBstart = -1 ∨ w'.d.diBstart = s) := by
    intro w' hr
    have hround := lkupRound_start (by decide) hr
    refine ⟨round_allowNeg rfl hdir hr, fun hzero => ?_⟩
    rcases hround.start hzero with heq | ⟨-, hs⟩
    · exact Or.inl heq
    · exact Or.inr (hs (by decide))
  -- the loop, and the values it starts with
  have hloop : lkupLoop st parent none name 0 (auDbtaildir parent + 1 - s).toNat s ⟨0, true, 0, .alloc⟩ = (.ok 0, d) := by
    unfold auLkupDentry at h
    split at h
    · cases h
    split at h
    · cases h
    simp only [decide_true] at h
    split at h
    · cases h
    rename_i npositive hn
    split at h
    · rename_i hpos
      split at h
      · cases (Prod.ext_iff.mp h).1
      · exact absurd (Except.ok.inj (Prod.ext_iff.mp h).1) hpos
    · split at h
      · cases (Prod.ext_iff.mp h).1
      · obtain ⟨hzero, hd⟩ := Prod.ext_iff.mp h
        exact Prod.ext (hn.trans hzero) hd
  cases hcount : (auDbtaildir parent + 1 - s).toNat with
  | zero =>
    rw [hcount] at hloop
    cases hloop
    exact absurd h0 (by decide)
  | succ count =>
    rw [hcount, lkupLoop] at hloop
    split at hloop
    · rename_i w' hr
      obtain ⟨hallow, hstart⟩ := hfirst w' (Or.inl hr)
      obtain ⟨hzero, heq⟩ := lkupLoop_start hallow (lkupRound_bwh (by decide) hr) hloop
      have hs := hstart hzero
      omega
    · rename_i w' hr
      obtain ⟨hallow, hstart⟩ := hfirst w' (Or.inr hr)
      obtain ⟨hzero, rfl⟩ := Prod.ext_iff.mp hloop
      have hs := hstart (Except.ok.inj hzero)
      dsimp only at h0 ⊢
      omega
    · cases hloop

end Lookups

/-! ## Which branches are safe -/

/-- No branch above `b` has a mark. -/
def NoneAbove (Marked : Nat → Prop) (b : Nat) : Prop := ∀ j < b, ¬ Marked j

/-- Branch `b` is safe: no mark is above it, or nothing new is made there, because something is in the way.  Where
    the name was looked up first nothing is. -/
def SafeOn (st : Stack) (root : Dinfo) (path : List (Name × Dinfo)) (name : Name) (b : Nat) : Prop :=
  (b : Int) = (dirDinfo root path).diBstart ∨ wayFree root path name b = true →
    NoneAbove (Hides st root name (path.map Prod.fst)) b

/-- **A new entry can be seen**: whatever the policies remember and whether other errors occur, the branch that
    `au_wr_dir` returns can be written, and no mark is above it. -/
def NewVisible (A : Arch) (env : RmEnv) (create : WbrCreate) (root : Dinfo) (path : List (Name × Dinfo))
    (name : Name) (d : Dinfo) : Prop :=
  ∀ steps mem isdir b d' s', Answers root path name steps →
    wrDirNew A env steps (env.policySb create mem) isdir d (dirDinfo root path) = some (b, d', s') → 0 ≤ b →
      Writable env.wbr env.union b.toNat ∧ NoneAbove (Hides env.stack root name (path.map Prod.fst)) b.toNat

/-- **When a policy is safe.**  `tdp` chooses the lowest writable branch that is not below the parent's start.  `rr`
    and `mfs` choose the branch of the exception if it is writable, and otherwise any writable one.  `pmfs` chooses as
    `tdp` does, or any suitable branch of the parent. -/
def PolicySafe (env : RmEnv) (create : WbrCreate) (Safe : Nat → Prop) (d parent : Dinfo) : Prop :=
  match create with
  | .tdp => ∀ g, LowestWritable env.wbr env.union parent g → Safe g
  | .rr | .mfs | .mfsv | .mfsrr | .mfsrrv =>
    (ExpApplies env d parent → Safe (expBranch d parent).toNat) ∧
      (¬ ExpApplies env d parent → ∀ b, Writable env.wbr env.union b → Safe b)
  | .pmfs | .pmfsv =>
    ∀ g, LowestWritable env.wbr env.union parent g → Safe g ∧
      (parent.diBstart ≠ auDbtaildir parent → ∀ b : Nat, (b : Int) ≤ auDbtaildir parent →
        Suitable env.wbr env.union parent b → Safe b)

/-- A name that was looked up in a directory of the union, and not found. -/
structure NewName (env : RmEnv) (root : Dinfo) (path : List (Name × Dinfo)) (name : Name) (m : Nat) (d : Dinfo) :
    Prop where
  branches : BranchesTo env.union m
  rootThere : RootOf m root
  lookedUp : LookedUp env.stack root path
  lookup : auLkupDentry env.stack (dirDinfo root path) none name (dirDinfo root path).diBstart.toNat 0 .alloc =
    (.ok 0, d)
  start : 0 ≤ d.diBstart

section Safe

variable {A : Arch} {env : RmEnv} {root : Dinfo} {path : List (Name × Dinfo)} {name : Name} {m : Nat}
variable {d parent : Dinfo} {create : WbrCreate} {Safe : Nat → Prop}

theorem NewName.newIn (h : NewName env root path name m d) : NewIn env d (dirDinfo root path) m := by
  obtain ⟨hwithin, hdir⟩ := h.lookedUp.within h.rootThere
  obtain ⟨dir, hdir'⟩ := Option.isSome_iff_exists.mp hdir
  have hstart0 : 0 ≤ (dirDinfo root path).diBstart := (le_of_dirAt hdir').1
  have hd := @auLkupDentry_within env.stack (dirDinfo root path) name m hwithin
  rw [h.lookup] at hd
  have hstart := negative_start hdir h.lookup h.start
  rw [Int.toNat_of_nonneg hstart0] at hstart
  exact { h.branches with
    start := hstart
    startThere := ⟨hstart0, hwithin.start⟩
    tailThere := le_trans auDbtaildir_le hwithin.bend
    whThere := hd.bwh
    opqThere := hwithin.bdiropq }

/-- On a branch that has the parent only the new name is to be made. -/
theorem wayFree_held {b : Nat} (hb : ((dirDinfo root path).hDptr b).isSome = true) :
    wayFree root path name b = (entryAt (dirDinfo root path) name b).isNone := by
  cases path with
  | nil => rfl
  | cons p above => exact if_pos hb

theorem entryAt_free {b : Nat} (hb : parent.hDptr b = none) : entryAt parent name b = none :=
  entryAt_none (dirAt_of_free hb)

/-- What `au_wr_dir` returns is the branch it decided on, and where that is not the one the name started on, nothing
    was in the way. -/
theorem wrDirNew_ok {steps : Nat → WrDirSteps} {s s' : PolicySb} {isdir : Bool} {b : Int} {d' : Dinfo}
    (hans : Answers root path name steps)
    (h : wrDirNew A env steps s isdir d (dirDinfo root path) = some (b, d', s')) (h0 : 0 ≤ b) :
    newBranch A env s isdir d (dirDinfo root path) = some (b, s') ∧
      (b = d.diBstart ∨ wayFree root path name b.toNat = true) := by
  unfold wrDirNew at h
  cases hb : newBranch A env s isdir d (dirDinfo root path) with
  | none =>
    rw [hb] at h
    cases h
  | some r =>
    obtain ⟨t, s₁⟩ := r
    rw [hb] at h
    dsimp only at h
    by_cases hneg : t < 0
    · rw [if_pos hneg] at h
      cases h
      omega
    rw [if_neg hneg] at h
    obtain ⟨r, hr, heq⟩ := Option.map_eq_some_iff.mp h
    cases heq
    rcases auWrDir_made hr with hlow | ⟨hbranch, hmade⟩
    · omega
    have hforce : wrDirBranch env t d d (dirDinfo root path) = some t := if_neg hneg
    obtain rfl : t = r.1 := Option.some.inj (hforce.symm.trans hbranch)
    refine ⟨rfl, hmade.imp_right ?_⟩
    rintro ⟨hcp, hd, hlkup, hinode⟩
    cases hptr : (dirDinfo root path).hDptr r.1.toNat with
    | none => exact hans.cpDirs _ hptr (hcp hptr)
    | some hParent =>
      rw [wayFree_held (by rw [hptr]; rfl), ← hans.lkup _ _ hlkup, hinode]
      rfl

/-- When there are no other errors, it is returned. -/
theorem wrDirNew_reaches {s s' : PolicySb} {isdir : Bool} {b : Nat}
    (h : newBranch A env s isdir d (dirDinfo root path) = some ((b : Int), s'))
    (hfree : (b : Int) = d.diBstart ∨ wayFree root path name b = true) :
    ∃ steps d', Answers root path name steps ∧
      wrDirNew A env steps s isdir d (dirDinfo root path) = some ((b : Int), d', s') := by
  have hforce : wrDirBranch env b d d (dirDinfo root path) = some (b : Int) :=
    if_neg (Int.not_lt.mpr (Int.natCast_nonneg b))
  -- everything succeeds where nothing is in the way
  obtain ⟨steps, hsteps⟩ : ∃ steps : Nat → WrDirSteps, steps = fun c =>
    if wayFree root path name c = true then ⟨0, .ok ⟨0, [], none⟩⟩ else ⟨- EIO, .error (- EIO)⟩ := ⟨_, rfl⟩
  have hyes : ∀ {c}, wayFree root path name c = true → steps c = ⟨0, .ok ⟨0, [], none⟩⟩ := by
    intro c hc
    rw [hsteps]
    exact if_pos hc
  have hno : ∀ {c}, ¬ wayFree root path name c = true → steps c = ⟨- EIO, .error (- EIO)⟩ := by
    intro c hc
    rw [hsteps]
    exact if_neg hc
  obtain ⟨d', hd'⟩ := auWrDir_succeeds hforce (Int.natCast_nonneg b) (hfree.imp_right hyes)
  refine ⟨steps, d', ⟨fun c _ hc => ?_, fun c hd hc => ?_⟩, ?_⟩
  · by_contra hway
    rw [hno hway] at hc
    exact absurd hc (by decide)
  · by_cases hway : wayFree root path name c = true
    · rw [hyes hway] at hc
      cases hc
      cases hptr : (dirDinfo root path).hDptr c with
      | none => exact (entryAt_free hptr).symm
      | some hParent =>
        rw [wayFree_held (by rw [hptr]; rfl)] at hway
        exact (Option.isNone_iff_eq_none.mp hway).symm
    · rw [hno hway] at hc
      cases hc
  · unfold wrDirNew
    rw [h]
    dsimp only
    rw [if_neg (Int.not_lt.mpr (Int.natCast_nonneg b)), hd']
    rfl

/-- A policy is safe iff all its candidates are. -/
theorem policySafe_iff : PolicySafe env create Safe d parent ↔
    ∀ b, Candidate env create d parent b → Safe b := by
  have hfree : ((ExpApplies env d parent → Safe (expBranch d parent).toNat) ∧
      (¬ ExpApplies env d parent → ∀ b, Writable env.wbr env.union b → Safe b)) ↔
      ∀ b : Nat, ExpApplies env d parent ∧ (b : Int) = expBranch d parent ∨
        ¬ ExpApplies env d parent ∧ Writable env.wbr env.union b → Safe b := by
    constructor
    · rintro ⟨hexp, hall⟩ b (⟨hex, hb⟩ | ⟨hno, hw⟩)
      · have hsafe := hexp hex
        rw [← hb, Int.toNat_natCast] at hsafe
        exact hsafe
      · exact hall hno b hw
    · intro hall
      exact ⟨fun hex => hall _ (Or.inl ⟨hex, Int.toNat_of_nonneg hex.1⟩), fun hno b hw => hall b (Or.inr ⟨hno, hw⟩)⟩
  have hpmfs : (∀ g, LowestWritable env.wbr env.union parent g → Safe g ∧
      (parent.diBstart ≠ auDbtaildir parent → ∀ b : Nat, (b : Int) ≤ auDbtaildir parent →
        Suitable env.wbr env.union parent b → Safe b)) ↔
      ∀ b, (∃ g, LowestWritable env.wbr env.union parent g ∧ (b = g ∨ parent.diBstart ≠ auDbtaildir parent ∧
        (b : Int) ≤ auDbtaildir parent ∧ Suitable env.wbr env.union parent b)) → Safe b := by
    constructor
    · rintro hall b ⟨g, hlow, rfl | ⟨hne, hle, hs⟩⟩
      · exact (hall b hlow).1
      · exact (hall g hlow).2 hne b hle hs
    · intro hall g hlow
      exact ⟨hall g ⟨g, hlow, Or.inl rfl⟩, fun hne b hle hs => hall b ⟨g, hlow, Or.inr ⟨hne, hle, hs⟩⟩⟩
  cases create with
  | tdp => exact Iff.rfl
  | rr => exact hfree
  | mfs => exact hfree
  | mfsv => exact hfree
  | mfsrr => exact hfree
  | mfsrrv => exact hfree
  | pmfs => exact hpmfs
  | pmfsv => exact hpmfs

/-- **Whether a new entry can be seen**, for each create policy, with the whiteouts and the opaque marks of the name
    and of all directories above it: iff the policy is safe. -/
theorem newVisible_iff (h : NewName env root path name m d) : NewVisible A env create root path name d ↔
    PolicySafe env create (SafeOn env.stack root path name) d (dirDinfo root path) := by
  rw [policySafe_iff]
  have hin := h.newIn
  constructor
  · intro hvis b hb hmade
    obtain ⟨mem, isdir, s', hnew⟩ := (newBranch_reach_iff hin create b).mpr hb
    rw [← hin.start] at hmade
    obtain ⟨steps, d', hans, hres⟩ := wrDirNew_reaches hnew hmade
    have hsafe := (hvis steps mem isdir b d' s' hans hres (Int.natCast_nonneg b)).2
    rw [Int.toNat_natCast] at hsafe
    exact hsafe
  · intro hall steps mem isdir b d' s' hans hres h0
    obtain ⟨hnew, hmade⟩ := wrDirNew_ok hans hres h0
    rw [← Int.toNat_of_nonneg h0] at hnew
    obtain ⟨hcand, hw⟩ := newBranch_candidate hin hnew
    refine ⟨hw, hall _ hcand ?_⟩
    rw [Int.toNat_of_nonneg h0, ← hin.start]
    exact hmade

end Safe

/-! ## A read-only whiteout -/

/-- A read-only branch that honours whiteouts, between two writable ones. -/
def roWhBetween : RmEnv :=
  { roOverRw with
    union := { unmounted with
      siBend := 2
      siBranch := [some ⟨1, .rw, ⟨1, 0⟩, some 0⟩, some ⟨2, .roWh, ⟨2, 0⟩, none⟩, some ⟨3, .rw, ⟨3, 0⟩, some 0⟩] } }

/-- The root on the three branches, with the whiteout of `a` on the second. -/
def roWhRoot : Dinfo :=
  ⟨0, 2, -1, -1, fun b => some ⟨b, [], some (.mk (b + 1) sIfdir
    (if b = 1 then [(whPfx ++ [97], newFile)] else []) fun _ => 0)⟩⟩

/-- What the lookup of `a` leaves. -/
def roWhName : Dinfo := (auLkupDentry roWhBetween.stack roWhRoot none [97] 0 0 .alloc).2

theorem roWhName_newName : NewName roWhBetween roWhRoot [] [97] 2 roWhName where
  branches := by
    refine ⟨fun b hb => ?_, rfl, by decide, fun b br hb => ?_, fun br hbr => ?_⟩
    · have hb' : (b : Int) ≤ 2 := hb
      rcases show b = 0 ∨ b = 1 ∨ b = 2 by omega with rfl | rfl | rfl
      · exact ⟨_, rfl⟩
      · exact ⟨_, rfl⟩
      · exact ⟨_, rfl⟩
    · by_contra hgt
      obtain ⟨k, rfl⟩ : ∃ k, b = k + 3 := ⟨b - 3, by omega⟩
      cases hb
    · have hmem : some br ∈ [some (⟨1, .rw, ⟨1, 0⟩, some 0⟩ : AuBranch), some ⟨2, .roWh, ⟨2, 0⟩, none⟩,
        some ⟨3, .rw, ⟨3, 0⟩, some 0⟩] := hbr
      simp only [List.mem_cons, List.not_mem_nil, or_false, Option.some.injEq] at hmem
      rcases hmem with rfl | rfl | rfl
      · rfl
      · rfl
      · rfl
  rootThere := by
    refine ⟨rfl, rfl, rfl, rfl, fun b hb => ?_⟩
    rcases show b = 0 ∨ b = 1 ∨ b = 2 by omega with rfl | rfl | rfl
    · rfl
    · rfl
    · rfl
  lookedUp := .root
  lookup := rfl
  start := by decide

theorem newVisible_iff_roWh : NewVisible .ilp32 roWhBetween .rr roWhRoot [] [97] roWhName ↔
    PolicySafe roWhBetween .rr (SafeOn roWhBetween.stack roWhRoot [] [97]) roWhName roWhRoot :=
  newVisible_iff roWhName_newName

/-- Not always: with its counter at 2, `rr` makes the directory `a` on the third branch, below its whiteout. -/
theorem new_entry_hidden : ¬ ∀ (A : Arch) (env : RmEnv) (create : WbrCreate) (root : Dinfo)
    (path : List (Name × Dinfo)) (name : Name) (m : Nat) (d : Dinfo), NewName env root path name m d →
      NewVisible A env create root path name d := by
  intro hall
  have hvis := hall .ilp32 roWhBetween .rr roWhRoot [] [97] 2 roWhName roWhName_newName
  have hnew : ∃ s', newBranch .ilp32 roWhBetween (roWhBetween.policySb .rr ⟨fun _ => 0, ⟨0, 0, -1, 0, 0⟩, 2⟩) true
      roWhName (dirDinfo roWhRoot []) = some (((2 : Nat) : Int), s') := ⟨_, rfl⟩
  obtain ⟨s', hnew⟩ := hnew
  obtain ⟨steps, d', hans, hres⟩ := @wrDirNew_reaches .ilp32 roWhBetween roWhRoot [] [97] roWhName _ s' true 2 hnew (Or.inr rfl)
  have hsafe := (hvis steps _ true _ d' s' hans hres (by decide)).2
  exact hsafe 1 (by decide) (Or.inl ⟨rfl, _, newFile, rfl, rfl⟩)

end KernelPatches.Aufs
