/-
  aufs: undoing a `rename` that fails.

  `do_rename` undoes what it has done when a step fails.  Looked at from the outside, that is right if the two
  directories hold again what they held, `di_bstart` of the two dentries is what it was, and no watch is left
  suspended (`RenRestored`).  The lower file systems are taken to let everything be undone that they can undo.

  * `Asked`, `Aside`, `CopiedOver` — how far the call has come: to the whiteouts, with the destination directory
    aside, or with the source copied up besides the destination;
  * `Swept`                        — what the foot of the ladder leaves;
  * `Asked.restored_iff`, `Aside.restored_iff` — everything is undone but for a whiteout that was there before,
    and but for a watch.

  The contents of the two directories are taken as functions (`RenState.contents`), to which the steps and their
  undoings are `put`, `drop` and `move`.  The call as a whole is in `RenameFailed`.
-/
import KernelPatches.Aufs.RenameSteps

namespace KernelPatches.Aufs

open Lib Lib.Contents

/-! ## Before and after -/

section Spec

variable (env : RenEnv) (before : Bool → Dinfo) (k : RenStep) (s s₁ r s' : RenState)

/-- **The state `do_rename` is called with**, `before` being the parents at the start of `aufs_rename`.  Since
    then a parent may have been copied up to the branch, and `di_bstart` of the destination was moved to it;
    the hidden dentries are those of what the directories hold. -/
structure Prepared : Prop where
  dirs : ∀ p, env.Parent p → HasDir (s.parents p) env.btgt
  before : ∀ p, env.Parent p → before p = s.parents p ∨ ¬ HasDir (before p) env.btgt
  srcStart : s.src.diBstart = env.bstartSrc
  srcThere : ∃ hd hSrc, s.src.hDptr env.bstartSrc = some hd ∧ hd.inode = some hSrc ∧
    (hSrc.mode = sIfdir ↔ env.isdir = true)
  srcHere : env.bstartSrc = env.btgt → s.contents env.btgt env.srcKey ≠ none
  dstStart : s.dst.diBstart = env.btgt
  dstEnd : (env.btgt : Int) ≤ s.dst.diBend
  dstThere : ∃ hd, s.hDentryDst = some hd ∧ s.dst.hDptr env.btgt = some hd ∧
    hd.inode = s.contents env.btgt env.dstKey
  keys : env.srcKey ≠ env.dstKey
  srcName : ¬ whPfx <+: env.srcName
  dstName : ¬ whPfx <+: env.dstName
  flags : s.thargs = false ∧ s.whSrc = false ∧ s.whDst = false

/-- The steps up to `k` go through, and `k` fails, in the state `s₁`. -/
def RenFailsAt (err : Int) : Prop :=
  runSteps env (renSteps.takeWhile (· ≠ k)) s = some (none, s₁) ∧ s₁.step env k = some (err, r) ∧ err ≠ 0

/-- The hidden inode the step copies, if it does. -/
def copiedBy : Option HInode :=
  match k with
  | .cpupSrc => ((cpupSrc s₁.src env.btgt).bind s₁.src.hDptr).bind HDentry.inode
  | .rename => if s₁.src.diBstart = env.btgt then none else (s₁.src.hDptr env.bstartSrc).bind HDentry.inode
  | _ => none

/-- What is asked of the lower file systems after the failure succeeds: what the step asks for to take a copy
    back, and whatever comes then. -/
def RevertsSucceed : Prop :=
  Willing r.io ∧
    ∀ hSrc err io, copiedBy env k s₁ = some hSrc → auCpupSingle env.cpup hSrc s₁.io = some (err, true, io) →
      err = 0

/-- **Nothing has changed**: on every branch the parents have the directories they had, with the names they had
    in them, both dentries start where they started, and a watch that was active is. -/
structure RenRestored : Prop where
  dirs : ∀ p b, env.Parent p → (HasDir (s'.parents p) b ↔ HasDir (before p) b)
  names : ∀ p b name, env.Parent p → entryAt (s'.parents p) name b = entryAt (before p) name b
  srcStart : s'.src.diBstart = env.bstartSrc
  dstStart : s'.dst.diBstart = env.bstartDst
  srcWatch : s.srcWatch = some true → s'.srcWatch = some true
  dstWatch : s.dstWatch = some true → s'.dstWatch = some true

/-- The step has got as far as a copy that turned the destination's negative hidden dentry positive. -/
def Lingers : Prop :=
  thargsOf env s = false ∧ env.bstartSrc ≠ env.btgt ∧
    (k = .unlinkWh ∨ k = .rename ∧ ∃ hSrc, copiedBy env k s₁ = some hSrc ∧
      cpupMakes env.cpup hSrc s₁.io = true)

/-- `di_bstart` of the destination comes back: where it is looked for, the first positive hidden dentry is
    where it was. -/
def DstBack : Prop :=
  ((k = .thargs ∨ k = .whSrc) ∧ env.isdir = false ∨ Lingers env k s s₁ → env.btgt = env.bstartDst) ∧
    (¬ ((k = .thargs ∨ k = .whSrc) ∧ env.isdir = false ∨ Lingers env k s s₁) →
      (auUpdateDbstart s.dst).diBstart = env.bstartDst)

/-- The source had no whiteout before one was made. -/
def WhSrcNew : Prop := env.whSrc = true → s.contents env.btgt env.whKey = none

/-- No watch is suspended. -/
def NoWatch : Prop := thargsOf env s = true → s.dstWatch ≠ some true

/-- The source is not copied up over the destination. -/
def NotOver : Prop := s.contents env.btgt env.dstKey ≠ none → env.isdir = false → env.bstartSrc = env.btgt

/-- **The steps that can be undone**, by the step that fails. -/
def CanUndo : Prop :=
  match k with
  | .thargs | .whSrc => True
  | .whDst | .whtmp => WhSrcNew env s
  | .lkupNeg => WhSrcNew env s ∧ NoWatch env s
  | .cpupSrc => WhSrcNew env s ∧ (env.btgt < env.bstartSrc ∨ ¬ NegativeAt env.srcName (s₁.parents false) env.btgt)
  | .rename => WhSrcNew env s ∧ NoWatch env s ∧ NotOver env s
  | .diropq => WhSrcNew env s ∧ NoWatch env s ∧ env.bstartSrc = env.btgt
  | .unlinkWh => WhSrcNew env s ∧ NoWatch env s ∧
      if env.isdir then env.bstartSrc = env.btgt else s.contents env.btgt env.dstKey = none

end Spec

/-! ## di_bstart -/

section Dbstart

variable {d : Dinfo}

/-- What `au_update_dbstart` leaves, over `count` branches from `k` on: the first positive hidden dentry is at the
    start, or there is none and nothing is left of the others. -/
def StartUpdated (count k : Nat) (d d' : Dinfo) : Prop :=
  d'.diBend = d.diBend ∧
    ((∃ (t : Nat) (hd : HDentry), k ≤ t ∧ t < k + count ∧ d'.diBstart = t ∧ d'.hDptr t = some hd ∧
        hd.inode.isSome = true) ∨
      (d'.diBstart = d.diBstart ∧ (∀ b, k ≤ b → b < k + count → d'.hDptr b = none) ∧
        ∀ b, b < k → d'.hDptr b = d.hDptr b))

/-- Nothing positive is at `k`, and the hidden dentry there is given up. -/
theorem StartUpdated.next {count k : Nat} {d₁ d' : Dinfo} (h : StartUpdated count (k + 1) d₁ d')
    (hs : d₁.diBstart = d.diBstart) (he : d₁.diBend = d.diBend) (hat : d₁.hDptr k = none)
    (hbelow : ∀ b, b < k → d₁.hDptr b = d.hDptr b) : StartUpdated (count + 1) k d d' := by
  obtain ⟨hend, hcases⟩ := h
  refine ⟨hend.trans he, ?_⟩
  rcases hcases with ⟨t, hd, hle, hlt, hrest⟩ | ⟨hstart, hnone, hkeep⟩
  · exact Or.inl ⟨t, hd, by omega, by omega, hrest⟩
  · refine Or.inr ⟨hstart.trans hs, fun b hb hlt => ?_, fun b hb => ?_⟩
    · by_cases hbk : b = k
      · rw [hbk, hkeep k (by omega)]
        exact hat
      · exact hnone b (by omega) (by omega)
    · rw [hkeep b (by omega)]
      exact hbelow b hb

theorem updateDbstart_updated : ∀ (count k : Nat) (d : Dinfo), 0 ≤ d.diBstart → d.diBstart ≤ k →
    StartUpdated count k d (updateDbstart count k d) := by
  intro count
  induction count with
  | zero =>
    intro k d _ _
    exact ⟨rfl, Or.inr ⟨rfl, fun b hb hlt => absurd hlt (by omega), fun b _ => rfl⟩⟩
  | succ count ih =>
    intro k d h0 hk
    rw [updateDbstart]
    cases hptr : d.hDptr k with
    | none => exact (ih (k + 1) d h0 (by omega)).next rfl rfl hptr fun _ _ => rfl
    | some hd =>
      dsimp only
      by_cases hpos : hd.inode.isSome = true
      · rw [if_pos hpos]
        refine ⟨rfl, Or.inl ⟨k, hd, Nat.le_refl k, by omega, rfl, ?_, hpos⟩⟩
        rw [Dinfo.hDptr, if_neg (by dsimp only; omega)]
        rw [Dinfo.hDptr, if_neg (by omega)] at hptr
        exact hptr
      · rw [if_neg hpos]
        have hstart : (d.setHDptr k none).diBstart = d.diBstart := rfl
        refine (ih (k + 1) (d.setHDptr k none) h0 (by omega)).next rfl rfl ?_ fun b hb => ?_
        · rw [Dinfo.hDptr, hstart, if_neg (by omega)]
          exact Function.update_self _ _ _
        · rw [Dinfo.hDptr, Dinfo.hDptr, hstart,
            show (d.setHDptr k none).diHdentry b = d.diHdentry b from Function.update_of_ne (by omega) _ _]

theorem auUpdateDbstart_updated (h0 : 0 ≤ d.diBstart) :
    StartUpdated (d.diBend + 1 - d.diBstart).toNat d.diBstart.toNat d (auUpdateDbstart d) :=
  updateDbstart_updated _ _ d h0 (by omega)

/-- A positive hidden dentry at the start is found at once. -/
theorem auUpdateDbstart_positive {b : Nat} {hd : HDentry} (hs : d.diBstart = b) (he : (b : Int) ≤ d.diBend)
    (hptr : d.hDptr b = some hd) (hpos : hd.inode.isSome = true) : (auUpdateDbstart d).diBstart = b := by
  unfold auUpdateDbstart
  obtain ⟨count, hcount⟩ : ∃ count, (d.diBend + 1 - d.diBstart).toNat = count + 1 :=
    ⟨(d.diBend - d.diBstart).toNat, by omega⟩
  rw [hcount, hs, Int.toNat_natCast, updateDbstart, hptr]
  dsimp only
  rw [if_pos hpos]

/-- Nothing is found where nothing is. -/
theorem updateDbstart_none : ∀ (count k : Nat), (∀ b, k ≤ b → b < k + count → d.hDptr b = none) →
    updateDbstart count k d = d := by
  intro count
  induction count with
  | zero =>
    intro k _
    rfl
  | succ count ih =>
    intro k h
    rw [updateDbstart, h k (Nat.le_refl k) (by omega)]
    exact ih (k + 1) fun b hb hlt => h b (by omega) (by omega)

/-- **Looking for the start once more** finds it where it is. -/
theorem auUpdateDbstart_again (h0 : 0 ≤ d.diBstart) :
    (auUpdateDbstart (auUpdateDbstart d)).diBstart = (auUpdateDbstart d).diBstart := by
  obtain ⟨hend, hcases⟩ := auUpdateDbstart_updated h0
  rcases hcases with ⟨t, hd, hle, hlt, hs, hptr, hpos⟩ | ⟨hs, hnone, -⟩
  · rw [auUpdateDbstart_positive hs (by omega) hptr hpos, hs]
  · have hsame : auUpdateDbstart (auUpdateDbstart d) = auUpdateDbstart d := by
      rw [auUpdateDbstart.eq_1 (auUpdateDbstart d), hs, hend]
      exact updateDbstart_none _ _ hnone
    rw [hsame]

theorem Dinfo.setHDptr_again {b : Nat} {v w : Option HDentry} : (d.setHDptr b v).setHDptr b w = d.setHDptr b w := by
  unfold Dinfo.setHDptr
  dsimp only
  rw [Function.update_idem]

/-- A positive hidden dentry put at the start is found there. -/
theorem auUpdateDbstart_made {b : Nat} {hd : HDentry} (hs : d.diBstart = b) (he : (b : Int) ≤ d.diBend)
    (hpos : hd.inode.isSome = true) : (auUpdateDbstart (d.setHDptr b (some hd))).diBstart = b := by
  refine auUpdateDbstart_positive hs he ?_ hpos
  show (if d.diBstart < 0 ∨ (b : Int) < d.diBstart then none else
    Function.update d.diHdentry b (some hd) b) = some hd
  rw [if_neg (by omega)]
  exact Function.update_self _ _ _

end Dbstart

/-! ## Names -/

section Keys

variable {env : RenEnv} {before : Bool → Dinfo} {s : RenState} {c : Contents Key HInode} {k k' : Key} {v : HInode}

theorem RenEnv.undoWh_of_ne (h : k ≠ env.whKey) : env.undoWh c k = c k := by
  unfold RenEnv.undoWh
  split
  · exact drop_of_ne h
  · rfl

theorem RenEnv.undoWh_put (h : k ≠ env.whKey) : env.undoWh (c.put k v) = (env.undoWh c).put k v := by
  unfold RenEnv.undoWh
  split
  · exact put_drop_comm h
  · rfl

theorem RenEnv.undoWh_drop : env.undoWh (c.drop k) = (env.undoWh c).drop k := by
  unfold RenEnv.undoWh
  split
  · exact drop_comm
  · rfl

theorem RenEnv.undoWh_move (h : k ≠ env.whKey) (h' : k' ≠ env.whKey) :
    env.undoWh (c.move k k') = (env.undoWh c).move k k' := by
  unfold RenEnv.undoWh
  split
  · exact move_drop_comm h h'
  · rfl

/-- **Removing the whiteout** is right iff it was not there. -/
theorem undoWh_eq_iff : env.undoWh (s.contents env.btgt) = s.contents env.btgt ↔ WhSrcNew env s := by
  unfold RenEnv.undoWh WhSrcNew
  by_cases hwh : env.whSrc = true
  · rw [if_pos hwh, drop_eq_self_iff]
    exact ⟨fun h _ => h, fun h => h hwh⟩
  · rw [if_neg hwh]
    exact iff_of_true rfl fun h => absurd h hwh

theorem srcKey_ne_whKey : env.srcKey ≠ env.whKey := fun h => wh_ne_name env.srcName (Prod.mk.inj h).2.symm

theorem tmpKey_ne_dstKey (n : Nat) : env.tmpKey (whtmpName env.dstName n) ≠ env.dstKey := fun h =>
  (whtmpName_ne env.dstName n).1 (Prod.mk.inj h).2

namespace Prepared

variable (hp : Prepared env before s)

include hp

theorem dstKey_ne_whKey : env.dstKey ≠ env.whKey := by
  intro h
  exact hp.dstName ⟨env.srcName, (Prod.mk.inj h).2.symm⟩

theorem tmpKey_ne_whKey (n : Nat) : env.tmpKey (whtmpName env.dstName n) ≠ env.whKey := by
  intro h
  have hname : whtmpName env.dstName n = whPfx ++ env.srcName := (Prod.mk.inj h).2
  unfold whtmpName at hname
  rw [List.append_assoc, List.append_assoc] at hname
  exact hp.srcName ⟨_, List.append_cancel_left hname⟩

theorem tmpKey_ne_srcKey (n : Nat) : env.tmpKey (whtmpName env.dstName n) ≠ env.srcKey := by
  intro h
  have hname : whtmpName env.dstName n = env.srcName := (Prod.mk.inj h).2
  unfold whtmpName at hname
  rw [List.append_assoc, List.append_assoc] at hname
  exact hp.srcName ⟨_, hname⟩

/-- A destination directory in the way is there, and so is the destination of a file that is in the way. -/
theorem dst_isSome : (s.hDentryDst.bind HDentry.inode).isSome = true ↔ s.contents env.btgt env.dstKey ≠ none := by
  obtain ⟨hd, hhd, -, hat⟩ := hp.dstThere
  rw [hhd, Option.bind_some, hat]
  exact Option.isSome_iff_ne_none

theorem thargs_iff : thargsOf env s = true ↔ env.isdir = true ∧ s.contents env.btgt env.dstKey ≠ none := by
  unfold thargsOf
  rw [Bool.and_eq_true, hp.dst_isSome]

theorem dst_nonneg : 0 ≤ s.dst.diBstart := by
  rw [hp.dstStart]
  omega

/-- The hidden dentry of the destination is in its slot. -/
theorem dst_slot : s.dst.setHDptr env.btgt s.hDentryDst = s.dst := by
  obtain ⟨hd, hhd, hptr, -⟩ := hp.dstThere
  rw [Dinfo.hDptr] at hptr
  split at hptr
  · cases hptr
  · rw [hhd, ← hptr]
    show { s.dst with diHdentry := Function.update s.dst.diHdentry env.btgt (s.dst.diHdentry env.btgt) } = s.dst
    rw [Function.update_eq_self]

end Prepared

end Keys

/-! ## What the ladder leaves -/

section Outcome

variable {env : RenEnv} {before : Bool → Dinfo} {s t s' : RenState} {d : Dinfo}

/-- The parents have had their directories on the branch. -/
def DirsThere (env : RenEnv) (before : Bool → Dinfo) : Prop := ∀ p, env.Parent p → HasDir (before p) env.btgt

/-- The end of `aufs_rename` after an error. -/
def afterError (env : RenEnv) (t : RenState) : RenState :=
  if env.isdir then { t with dst := auUpdateDbstart t.dst } else t

@[simp] theorem afterError_parents : (afterError env t).parents = t.parents := by
  unfold afterError
  split <;> rfl

@[simp] theorem afterError_src : (afterError env t).src = t.src := by
  unfold afterError
  split <;> rfl

@[simp] theorem afterError_srcWatch : (afterError env t).srcWatch = t.srcWatch := by
  unfold afterError
  split <;> rfl

@[simp] theorem afterError_dstWatch : (afterError env t).dstWatch = t.dstWatch := by
  unfold afterError
  split <;> rfl

/-- After the start has been looked for, looking for it again makes no difference. -/
theorem afterError_dst (h0 : 0 ≤ d.diBstart) (h : t.dst = auUpdateDbstart d) :
    (afterError env t).dst.diBstart = (auUpdateDbstart d).diBstart := by
  unfold afterError
  split
  · show (auUpdateDbstart t.dst).diBstart = _
    rw [h]
    exact auUpdateDbstart_again h0
  · rw [h]

/-- **Restored**: the parents had their directories, and those have the names they had. -/
theorem restored_iff (hp : Prepared env before s) (helse : SameElsewhere env.btgt s.parents s'.parents)
    (hsw : s.srcWatch = some true → s'.srcWatch = some true) :
    RenRestored env before s s' ↔ DirsThere env before ∧
      (∀ p name, env.Parent p → s'.contents env.btgt (p, name) = s.contents env.btgt (p, name)) ∧
      s'.src.diBstart = env.bstartSrc ∧ s'.dst.diBstart = env.bstartDst ∧
      (s.dstWatch = some true → s'.dstWatch = some true) := by
  constructor
  · intro h
    have hthere : DirsThere env before := fun p hpar =>
      (h.dirs p env.btgt hpar).mp ((helse.dirs p).mpr (hp.dirs p hpar))
    refine ⟨hthere, fun p name hpar => ?_, h.srcStart, h.dstStart, h.dstWatch⟩
    show entryAt (s'.parents p) name env.btgt = entryAt (s.parents p) name env.btgt
    rw [h.names p env.btgt name hpar]
    rcases hp.before p hpar with heq | hno
    · rw [heq]
    · exact absurd (hthere p hpar) hno
  · rintro ⟨hthere, hnames, hsrc, hdst, hdw⟩
    have hsame : ∀ p, env.Parent p → before p = s.parents p := by
      intro p hpar
      rcases hp.before p hpar with heq | hno
      · exact heq
      · exact absurd (hthere p hpar) hno
    refine ⟨fun p b hpar => ?_, fun p b name hpar => ?_, hsrc, hdst, hsw, hdw⟩
    · rw [hsame p hpar]
      by_cases hb : b = env.btgt
      · rw [hb]
        exact helse.dirs p
      · unfold HasDir
        rw [helse.other p b hb]
    · rw [hsame p hpar]
      by_cases hb : b = env.btgt
      · rw [hb]
        exact hnames p name hpar
      · rw [entryAt, entryAt, helse.other p b hb]

/-- **All is undone** but for what is not noticed: the names are those of before without the whiteout of the source,
    and the start of the destination, with the hidden dentries of `d`, was looked for. -/
structure Undone (env : RenEnv) (d : Dinfo) (s t : RenState) : Prop where
  elsewhere : SameElsewhere env.btgt s.parents t.parents
  contents : t.contents env.btgt = env.undoWh (s.contents env.btgt)
  srcWatch : s.srcWatch = some true → t.srcWatch = some true
  dst : t.dst = auUpdateDbstart d
  dstStart : 0 ≤ d.diBstart

theorem Undone.restored_iff (h : Undone env d s t) (hp : Prepared env before s) :
    RenRestored env before s (afterError env t) ↔ DirsThere env before ∧ WhSrcNew env s ∧
      t.src.diBstart = env.bstartSrc ∧ (auUpdateDbstart d).diBstart = env.bstartDst ∧
      (s.dstWatch = some true → t.dstWatch = some true) := by
  rw [KernelPatches.Aufs.restored_iff hp (by rw [afterError_parents]; exact h.elsewhere)
    (by rw [afterError_srcWatch]; exact h.srcWatch), afterError_src, afterError_dstWatch,
    afterError_dst h.dstStart h.dst]
  have hnames : (∀ p name, env.Parent p →
      (afterError env t).contents env.btgt (p, name) = s.contents env.btgt (p, name)) ↔ WhSrcNew env s := by
    have hc : ∀ k, (afterError env t).contents env.btgt k = env.undoWh (s.contents env.btgt) k := by
      intro k
      rw [← h.contents]
      show entryAt ((afterError env t).parents k.1) k.2 env.btgt = _
      rw [afterError_parents]
      rfl
    rw [← undoWh_eq_iff]
    constructor
    · intro hall
      unfold RenEnv.undoWh
      split
      · rename_i hwh
        have hat : env.undoWh (s.contents env.btgt) env.whKey = s.contents env.btgt env.whKey :=
          (hc env.whKey).symm.trans (hall false (whPfx ++ env.srcName) (Or.inl rfl))
        unfold RenEnv.undoWh at hat
        rw [if_pos hwh, drop_self] at hat
        exact drop_eq_self_iff.mpr hat.symm
      · rfl
    · intro heq p name _
      rw [hc, heq]
  rw [hnames]

/-- A name that has changed. -/
theorem not_restored (hp : Prepared env before s) (helse : SameElsewhere env.btgt s.parents t.parents) (k : Key)
    (hpar : env.Parent k.1) (hne : t.contents env.btgt k ≠ s.contents env.btgt k) :
    ¬ RenRestored env before s (afterError env t) := by
  intro h
  have hthere : HasDir (before k.1) env.btgt := by
    refine (h.dirs k.1 env.btgt hpar).mp ?_
    rw [afterError_parents]
    exact (helse.dirs k.1).mpr (hp.dirs k.1 hpar)
  have hname := h.names k.1 env.btgt k.2 hpar
  rw [afterError_parents] at hname
  rcases hp.before k.1 hpar with heq | hno
  · rw [heq] at hname
    exact hne hname
  · exact hno hthere

end Outcome

/-! ## How far the call has come -/

section Stages

variable {env : RenEnv} {before : Bool → Dinfo} {s t r : RenState} {err : Int}

/-- **Up to the whiteouts**: nothing has changed but for the whiteout of the source. -/
structure Asked (env : RenEnv) (s t : RenState) : Prop where
  elsewhere : SameElsewhere env.btgt s.parents t.parents
  contents : env.undoWh (t.contents env.btgt) = env.undoWh (s.contents env.btgt)
  thargs : t.thargs = thargsOf env s
  hDst : thargsOf env s = true → t.hDst = s.hDentryDst
  whSrc : t.whSrc = env.whSrc
  src : ∃ bwh, t.src = { s.src with diBwh := bwh }
  dst : t.dst = s.dst
  hDentryDst : t.hDentryDst = s.hDentryDst
  srcWatch : t.srcWatch = s.srcWatch
  dstWatch : t.dstWatch = s.dstWatch

/-- **The destination directory is aside**, under a name that was free, and its watch suspended. -/
structure Aside (env : RenEnv) (s t : RenState) : Prop where
  elsewhere : SameElsewhere env.btgt s.parents t.parents
  tmp : ∃ n, t.tmpName = whtmpName env.dstName n
  free : s.contents env.btgt (env.tmpKey t.tmpName) = none
  contents : env.undoWh (t.contents env.btgt) =
    (env.undoWh (s.contents env.btgt)).move env.dstKey (env.tmpKey t.tmpName)
  thargs : t.thargs = true
  hDst : t.hDst = s.hDentryDst
  whSrc : t.whSrc = env.whSrc
  srcStart : t.src.diBstart = s.src.diBstart
  dst : t.dst.setHDptr env.btgt s.hDentryDst = s.dst
  srcWatch : t.srcWatch = s.srcWatch
  dstWatch : t.dstWatch = s.dstWatch.map fun _ => false

/-- **The source is copied up** besides a destination that is still there. -/
structure CopiedOver (env : RenEnv) (s t : RenState) : Prop where
  elsewhere : SameElsewhere env.btgt s.parents t.parents
  free : s.contents env.btgt env.srcKey = none
  contents : ∃ new, env.undoWh (t.contents env.btgt) = (env.undoWh (s.contents env.btgt)).put env.srcKey new
  thargs : t.thargs = false
  whSrc : t.whSrc = env.whSrc
  srcStart : t.src.diBstart = if env.btgt < env.bstartSrc then (env.btgt : Int) else env.bstartSrc

/-- The names the whiteout is none of are those of before. -/
theorem Asked.at (h : Asked env s t) {k : Key} (hk : k ≠ env.whKey) :
    t.contents env.btgt k = s.contents env.btgt k := by
  have hu := congrFun h.contents k
  rwa [RenEnv.undoWh_of_ne hk, RenEnv.undoWh_of_ne hk] at hu

theorem Asked.srcStart (h : Asked env s t) : t.src.diBstart = s.src.diBstart := by
  obtain ⟨bwh, hsrc⟩ := h.src
  rw [hsrc]

theorem Asked.io (h : Asked env s t) (io : List Int) (cnt : Nat) : Asked env s { t with io := io, cnt := cnt } :=
  { h with }

theorem Aside.io (h : Aside env s t) (io : List Int) : Aside env s { t with io := io } := { h with }

theorem Asked.whDst (h : Asked env s t) (hl : lookupWhDst env t = some (err, r)) : Asked env s r := by
  obtain ⟨io, wh, rfl⟩ := lookupWhDst_spec hl
  exact { h with }

/-- A directory that could not be moved aside. -/
theorem Asked.whtmp_failed (h : Asked env s t) (hren : renameToWhtmp env t = some (err, r)) (herr : err ≠ 0) :
    Asked env s r := by
  obtain ⟨hno, hyes⟩ := renameToWhtmp_spec hren
  cases hth : t.thargs with
  | false => exact absurd (hno hth).1 herr
  | true =>
    obtain ⟨io, cnt, rfl⟩ := (hyes hth).1 herr
    exact h.io io cnt

section Prepared

variable (hp : Prepared env before s)

include hp

/-- The whiteout of the source has been made. -/
theorem Prepared.asked (hrun : prepareThargs env s = some (0, t)) (hwh : createWhSrc env t = some (0, r)) :
    Asked env s r := by
  obtain ⟨hth, hws, -⟩ := hp.flags
  obtain ⟨io, -, hok⟩ := prepareThargs_spec hrun
  have ht := hok rfl
  have hdir : HasDir (t.parents false) env.btgt := by
    rw [ht]
    exact hp.dirs false (Or.inl rfl)
  obtain ⟨ps, io', bwh, hr, helse, hcont⟩ := (createWhSrc_spec hdir hwh).2 rfl
  subst ht
  refine ⟨?_, hcont, ?_, fun hin => ?_, ?_, ⟨bwh, ?_⟩, ?_, ?_, ?_, ?_⟩
  · rw [hr]
    exact helse
  · rw [hr, hth]
    cases thargsOf env s <;> rfl
  · rw [hr]
    exact if_pos hin
  · rw [hr, hws]
    cases env.whSrc <;> rfl
  all_goals rw [hr]

/-- The source has its hidden dentry. -/
theorem Asked.srcThere (h : Asked env s t) : (t.src.hDptr t.src.diBstart.toNat).isSome = true := by
  obtain ⟨bwh, hsrc⟩ := h.src
  obtain ⟨hd, -, hptr, -⟩ := hp.srcThere
  rw [hsrc]
  show (s.src.hDptr s.src.diBstart.toNat).isSome = true
  rw [hp.srcStart, Int.toNat_natCast, hptr]
  rfl

/-- **The destination directory moved aside.** -/
theorem Asked.whtmp (h : Asked env s t) (hren : renameToWhtmp env t = some (0, r)) :
    (thargsOf env s = false ∧ r = t) ∨ (thargsOf env s = true ∧ Aside env s r ∧ r.src = t.src) := by
  obtain ⟨hno, hyes⟩ := renameToWhtmp_spec hren
  cases hth : thargsOf env s with
  | false => exact Or.inl ⟨rfl, (hno (h.thargs.trans hth)).2⟩
  | true =>
    obtain ⟨ps, io, cnt, n, hr, helse, hfree, hcont⟩ := (hyes (h.thargs.trans hth)).2 rfl
    have hwh := hp.tmpKey_ne_whKey n
    refine Or.inr ⟨rfl, ⟨?_, ⟨n, ?_⟩, ?_, ?_, ?_, ?_, ?_, ?_, ?_, ?_, ?_⟩, by rw [hr]⟩
    · rw [hr]
      exact h.elsewhere.trans helse
    · rw [hr]
    · rw [hr]
      exact (h.at hwh).symm.trans hfree
    · rw [hcont, RenEnv.undoWh_move hp.dstKey_ne_whKey hwh, h.contents, hr]
    · rw [hr]
      exact h.thargs.trans hth
    · rw [hr]
      exact h.hDst hth
    · rw [hr]
      exact h.whSrc
    · rw [hr]
      exact h.srcStart
    · rw [hr]
      show (t.dst.setHDptr env.btgt none).setHDptr env.btgt s.hDentryDst = s.dst
      rw [h.dst, Dinfo.setHDptr_again]
      exact hp.dst_slot
    · rw [hr]
      exact h.srcWatch
    · rw [hr]
      show t.dstWatch.map _ = _
      rw [h.dstWatch]

/-- The start of the destination is on the branch, with the directory aside, too. -/
theorem Aside.dst_range (h : Aside env s t) : t.dst.diBstart = env.btgt ∧ t.dst.diBstart ≤ t.dst.diBend := by
  have hs : (t.dst.setHDptr env.btgt s.hDentryDst).diBstart = s.dst.diBstart := congrArg Dinfo.diBstart h.dst
  have he : (t.dst.setHDptr env.btgt s.hDentryDst).diBend = s.dst.diBend := congrArg Dinfo.diBend h.dst
  show (t.dst.setHDptr env.btgt s.hDentryDst).diBstart = env.btgt ∧
    (t.dst.setHDptr env.btgt s.hDentryDst).diBstart ≤ (t.dst.setHDptr env.btgt s.hDentryDst).diBend
  rw [hs, he, hp.dstStart]
  exact ⟨rfl, hp.dstEnd⟩

/-- The destination that could not be looked up again. -/
theorem Aside.lkupNeg_failed (h : Aside env s t) (hl : lookupNegDst env t = some (err, r)) (herr : err ≠ 0) :
    Aside env s r := by
  obtain ⟨hs, he⟩ := h.dst_range hp
  obtain ⟨io, rfl⟩ := ((lookupNegDst_spec hs he hl).2 h.thargs).1 herr
  exact h.io io

/-- **The destination looked up again**, which is negative now. -/
theorem Aside.lkupNeg (h : Aside env s t) (hl : lookupNegDst env t = some (0, r)) :
    Aside env s r ∧ r.src = t.src ∧ r.hDentryDst.bind HDentry.inode = none := by
  obtain ⟨hs, he⟩ := h.dst_range hp
  obtain ⟨io, hd, hnone, rfl⟩ := ((lookupNegDst_spec hs he hl).2 h.thargs).2 rfl
  refine ⟨{ h with dst := ?_ }, rfl, hnone⟩
  refine Eq.trans ?_ h.dst
  exact Dinfo.setHDptr_again

/-- **The source copied up**, if the destination is still there and the source on another branch. -/
theorem Asked.cpupSrc (h : Asked env s t) (hc : copyUpSrc env t = some (0, r)) (hno : thargsOf env s = false) :
    (r = t ∧ ¬ (s.contents env.btgt env.dstKey ≠ none ∧ env.bstartSrc ≠ env.btgt)) ∨
      (CopiedOver env s r ∧ s.contents env.btgt env.dstKey ≠ none ∧ env.bstartSrc ≠ env.btgt) := by
  have hdir : HasDir (t.parents false) env.btgt := (h.elsewhere.dirs false).mpr (hp.dirs false (Or.inl rfl))
  obtain ⟨hskip, hcopy⟩ := copyUpSrc_spec hdir (h.srcThere hp) hc
  rw [h.hDentryDst, hp.dst_isSome] at hskip hcopy
  by_cases hin : s.contents env.btgt env.dstKey ≠ none ∧ env.bstartSrc ≠ env.btgt
  · obtain ⟨ps, src, io, new, hr, helse, hfree, hcont, hstart⟩ := (hcopy hin.1 hin.2).2 rfl
    refine Or.inr ⟨⟨?_, (h.at srcKey_ne_whKey).symm.trans hfree, ⟨new, ?_⟩, ?_, ?_, ?_⟩, hin⟩
    · rw [hr]
      exact h.elsewhere.trans helse
    · rw [hcont, RenEnv.undoWh_put srcKey_ne_whKey, h.contents]
    · rw [hr]
      exact h.thargs.trans hno
    · rw [hr]
      exact h.whSrc
    · rw [hr]
      show src.diBstart = _
      rw [hstart, h.srcStart, hp.srcStart]
      by_cases hlt : env.btgt < env.bstartSrc
      · rw [if_pos hlt, if_pos (by omega)]
      · rw [if_neg hlt, if_neg (by omega)]
  · exact Or.inl ⟨(hskip hin).2, hin⟩

end Prepared

/-! ## The steps in their order -/

/-- The source has the hidden dentries it had. -/
def SrcKept (s t : RenState) : Prop := ∃ bwh, t.src = { s.src with diBwh := bwh }

/-- **Ready for the renaming**, in one of three ways. -/
inductive Ready (env : RenEnv) (s t : RenState) : Prop where
  | plain (hin : thargsOf env s = false) (h : Asked env s t)
      (hno : ¬ (s.contents env.btgt env.dstKey ≠ none ∧ env.bstartSrc ≠ env.btgt))
  | aside (hin : thargsOf env s = true) (h : Aside env s t) (hsrc : SrcKept s t)
  | besides (hin : thargsOf env s = false) (h : CopiedOver env s t) (hat : s.contents env.btgt env.dstKey ≠ none)
      (hne : env.bstartSrc ≠ env.btgt)

theorem runSteps_cons {k : RenStep} {l : List RenStep} (h : runSteps env (k :: l) s = some (none, t)) :
    ∃ r, s.step env k = some (0, r) ∧ runSteps env l r = some (none, t) := by
  rw [runSteps] at h
  split at h
  · cases h
  rename_i e r hstep
  split at h
  · cases h
  · rename_i he
    rw [not_not] at he
    exact ⟨r, by rw [hstep, he], h⟩

/-- The last of some steps. -/
theorem runSteps_snoc {k : RenStep} : ∀ {l : List RenStep} {s : RenState},
    runSteps env (l ++ [k]) s = some (none, t) →
      ∃ r, runSteps env l s = some (none, r) ∧ r.step env k = some (0, t) := by
  intro l
  induction l with
  | nil =>
    intro s h
    obtain ⟨r, hstep, hrest⟩ := runSteps_cons h
    cases hrest
    exact ⟨s, rfl, hstep⟩
  | cons k' l ih =>
    intro s h
    obtain ⟨u, hstep, hrest⟩ := runSteps_cons h
    obtain ⟨r, hrun, hlast⟩ := ih hrest
    refine ⟨r, ?_, hlast⟩
    rw [runSteps, hstep]
    exact hrun

/-- A step that fails after others is the failure of all. -/
theorem runSteps_fails {k : RenStep} {rest : List RenStep} (hstep : t.step env k = some (err, r)) (herr : err ≠ 0) :
    ∀ {l : List RenStep} {s : RenState}, runSteps env l s = some (none, t) →
      runSteps env (l ++ k :: rest) s = some (some (k, err), r) := by
  intro l
  induction l with
  | nil =>
    intro s h
    have hst : s = t := congrArg Prod.snd (Option.some.inj h)
    show runSteps env (k :: rest) s = _
    rw [hst, runSteps, hstep]
    exact if_pos herr
  | cons k' l ih =>
    intro s h
    obtain ⟨u, hstep', hrest⟩ := runSteps_cons h
    show runSteps env (k' :: (l ++ k :: rest)) s = _
    rw [runSteps, hstep']
    exact ih hrest

section Prepared

variable (hp : Prepared env before s)

include hp

theorem Prepared.before_whDst (hrun : runSteps env [.thargs, .whSrc] s = some (none, t)) : Asked env s t := by
  obtain ⟨u, hth, hrest⟩ := runSteps_cons hrun
  obtain ⟨v, hwh, hnil⟩ := runSteps_cons hrest
  cases hnil
  exact hp.asked hth hwh

theorem Prepared.before_whtmp (hrun : runSteps env [.thargs, .whSrc, .whDst] s = some (none, t)) : Asked env s t := by
  obtain ⟨u, hrun, hl⟩ := runSteps_snoc (l := [.thargs, .whSrc]) hrun
  exact (hp.before_whDst hrun).whDst hl

theorem Prepared.before_lkupNeg (hrun : runSteps env [.thargs, .whSrc, .whDst, .whtmp] s = some (none, t)) :
    (thargsOf env s = false ∧ Asked env s t) ∨ (thargsOf env s = true ∧ Aside env s t ∧ SrcKept s t) := by
  obtain ⟨u, hrun, hren⟩ := runSteps_snoc (l := [.thargs, .whSrc, .whDst]) hrun
  have hu := hp.before_whtmp hrun
  rcases hu.whtmp hp hren with ⟨hin, rfl⟩ | ⟨hin, ha, hsrc⟩
  · exact Or.inl ⟨hin, hu⟩
  · exact Or.inr ⟨hin, ha, by unfold SrcKept; rw [hsrc]; exact hu.src⟩

theorem Prepared.before_cpupSrc
    (hrun : runSteps env [.thargs, .whSrc, .whDst, .whtmp, .lkupNeg] s = some (none, t)) :
    (thargsOf env s = false ∧ Asked env s t) ∨
      (thargsOf env s = true ∧ Aside env s t ∧ SrcKept s t ∧ t.hDentryDst.bind HDentry.inode = none) := by
  obtain ⟨u, hrun, hl⟩ := runSteps_snoc (l := [.thargs, .whSrc, .whDst, .whtmp]) hrun
  rcases hp.before_lkupNeg hrun with ⟨hin, ha⟩ | ⟨hin, ha, hsrc⟩
  · have hrange : u.dst.diBstart = env.btgt ∧ u.dst.diBstart ≤ u.dst.diBend := by
      rw [ha.dst, hp.dstStart]
      exact ⟨rfl, hp.dstEnd⟩
    obtain ⟨-, rfl⟩ := (lookupNegDst_spec hrange.1 hrange.2 hl).1 (ha.thargs.trans hin)
    exact Or.inl ⟨hin, ha⟩
  · obtain ⟨ha', hsame, hneg⟩ := ha.lkupNeg hp hl
    exact Or.inr ⟨hin, ha', by unfold SrcKept; rw [hsame]; exact hsrc, hneg⟩

theorem Prepared.before_rename
    (hrun : runSteps env [.thargs, .whSrc, .whDst, .whtmp, .lkupNeg, .cpupSrc] s = some (none, t)) : Ready env s t := by
  obtain ⟨u, hrun, hc⟩ := runSteps_snoc (l := [.thargs, .whSrc, .whDst, .whtmp, .lkupNeg]) hrun
  rcases hp.before_cpupSrc hrun with ⟨hin, ha⟩ | ⟨hin, ha, hsrc, hneg⟩
  · rcases ha.cpupSrc hp hc hin with ⟨rfl, hno⟩ | ⟨hover, hat, hne⟩
    · exact Ready.plain hin ha hno
    · exact Ready.besides hin hover hat hne
  · -- the destination is negative now
    have hskip : t = u := by
      have hc' : copyUpSrc env u = some (0, t) := hc
      unfold copyUpSrc at hc'
      rw [hneg, if_neg (by rw [Option.isSome_none, Bool.false_and]; exact Bool.false_ne_true)] at hc'
      exact (congrArg Prod.snd (Option.some.inj hc')).symm
    rw [hskip]
    exact Ready.aside hin ha hsrc

end Prepared

end Stages

/-! ## The ladder -/

section Ladder

variable {env : RenEnv} {before : Bool → Dinfo} {s t t' : RenState}

/-- **The foot of the ladder**: the whiteout of the source is removed, and the start of the destination looked for. -/
structure Swept (env : RenEnv) (t t' : RenState) : Prop where
  elsewhere : SameElsewhere env.btgt t.parents t'.parents
  contents : t'.contents env.btgt = env.undoWh (t.contents env.btgt)
  dst : t'.dst = auUpdateDbstart t.dst
  srcStart : t'.src.diBstart = t.src.diBstart
  srcWatch : t'.srcWatch = t.srcWatch
  dstWatch : t'.dstWatch = t.dstWatch

theorem outWhsrc_swept (hio : Willing t.io) (hwh : t.whSrc = env.whSrc) : Swept env t (outWhsrc env t) := by
  obtain ⟨ps, src, io, hstart, hrun, helse, hcont⟩ := @outWhsrc_spec env t hio
  rw [hwh] at hcont
  refine ⟨?_, hcont, ?_, ?_, ?_, ?_⟩
  · rw [hrun]
    exact helse
  · rw [hrun]
  · rw [hrun]
    exact hstart
  · rw [hrun]
  · rw [hrun]

theorem outWhdst_swept (hio : Willing t.io) (hwh : t.whSrc = env.whSrc) : Swept env t (outWhdst env t) :=
  { outWhsrc_swept (t := { t with whDst := false }) hio hwh with }

/-- Nothing was moved aside. -/
theorem outWhtmp_swept (hio : Willing t.io) (hwh : t.whSrc = env.whSrc) (hth : t.thargs = false) :
    Swept env t (outWhtmp env t) := by
  unfold outWhtmp
  rw [hth, if_neg Bool.false_ne_true]
  exact outWhdst_swept hio hwh

/-- What was moved aside stays there, if something has the name of the destination. -/
theorem outWhtmp_blocked (hio : Willing t.io) (hwh : t.whSrc = env.whSrc)
    (hat : t.contents env.btgt env.dstKey ≠ none) : Swept env t (outWhtmp env t) := by
  unfold outWhtmp
  split
  · obtain ⟨io, hrun, hio'⟩ := (@auRenRevWhtmp_spec env t hio).1 hat
    rw [hrun]
    exact { outWhdst_swept (t := { t with io := io }) hio' hwh with }
  · exact outWhdst_swept hio hwh

theorem Swept.undone (h : Swept env t t') (helse : SameElsewhere env.btgt s.parents t.parents)
    (hcont : env.undoWh (t.contents env.btgt) = env.undoWh (s.contents env.btgt))
    (hsw : s.srcWatch = some true → t.srcWatch = some true) (h0 : 0 ≤ t.dst.diBstart) :
    Undone env t.dst s t' where
  elsewhere := helse.trans h.elsewhere
  contents := h.contents.trans hcont
  srcWatch := by
    rw [h.srcWatch]
    exact hsw
  dst := h.dst
  dstStart := h0

/-- **Without a directory aside**: a watch has not been touched, and the names are those of before. -/
theorem Swept.restored_iff (hp : Prepared env before s) (h : Swept env t t')
    (helse : SameElsewhere env.btgt s.parents t.parents)
    (hcont : env.undoWh (t.contents env.btgt) = env.undoWh (s.contents env.btgt)) (hsw : t.srcWatch = s.srcWatch)
    (hdw : t.dstWatch = s.dstWatch) (h0 : 0 ≤ t.dst.diBstart) :
    RenRestored env before s (afterError env t') ↔ DirsThere env before ∧ WhSrcNew env s ∧
      t.src.diBstart = env.bstartSrc ∧ (auUpdateDbstart t.dst).diBstart = env.bstartDst := by
  have hund := h.undone helse hcont (by rw [hsw]; exact id) h0
  rw [hund.restored_iff hp, h.srcStart, h.dstWatch, hdw]
  constructor
  · rintro ⟨hthere, hnew, hsrc, hd, -⟩
    exact ⟨hthere, hnew, hsrc, hd⟩
  · rintro ⟨hthere, hnew, hsrc, hd⟩
    exact ⟨hthere, hnew, hsrc, hd, id⟩

/-- A name that has changed, but for the whiteout, is not put right any more. -/
theorem Swept.not_restored (hp : Prepared env before s) (h : Swept env t t')
    (helse : SameElsewhere env.btgt s.parents t.parents) (k : Key) (hpar : env.Parent k.1) (hk : k ≠ env.whKey)
    (hne : t.contents env.btgt k ≠ s.contents env.btgt k) : ¬ RenRestored env before s (afterError env t') := by
  refine KernelPatches.Aufs.not_restored hp (helse.trans h.elsewhere) k hpar ?_
  rw [h.contents, RenEnv.undoWh_of_ne hk]
  exact hne

/-- Nothing but the whiteout of the source is to be undone. -/
theorem Asked.restored_iff (hp : Prepared env before s) (h : Asked env s t) (hs : Swept env t t') :
    RenRestored env before s (afterError env t') ↔
      DirsThere env before ∧ WhSrcNew env s ∧ (auUpdateDbstart s.dst).diBstart = env.bstartDst := by
  have h0 : 0 ≤ t.dst.diBstart := by
    rw [h.dst]
    exact hp.dst_nonneg
  rw [hs.restored_iff hp h.elsewhere h.contents h.srcWatch h.dstWatch h0, h.dst]
  exact and_congr_right fun _ => and_congr_right fun _ => and_iff_right (h.srcStart.trans hp.srcStart)

/-- **A directory aside** is moved back. -/
theorem Aside.undone (hp : Prepared env before s) (h : Aside env s t) (hio : Willing t.io)
    (hin : thargsOf env s = true) :
    Undone env s.dst s (outWhtmp env t) ∧ (outWhtmp env t).src.diBstart = s.src.diBstart ∧
      (outWhtmp env t).dstWatch = s.dstWatch.map fun _ => false := by
  obtain ⟨n, hn⟩ := h.tmp
  have htw : env.tmpKey t.tmpName ≠ env.whKey := by
    rw [hn]
    exact hp.tmpKey_ne_whKey n
  have htd : env.tmpKey t.tmpName ≠ env.dstKey := by
    rw [hn]
    exact tmpKey_ne_dstKey n
  have hdw := hp.dstKey_ne_whKey
  have hat : t.contents env.btgt env.dstKey = none := by
    have hu := congrFun h.contents env.dstKey
    rwa [RenEnv.undoWh_of_ne hdw, move_src (Ne.symm htd)] at hu
  have htmp : t.contents env.btgt (env.tmpKey t.tmpName) ≠ none := by
    have hu := congrFun h.contents (env.tmpKey t.tmpName)
    rw [RenEnv.undoWh_of_ne htw, move_dst, RenEnv.undoWh_of_ne hdw] at hu
    rw [hu]
    exact (hp.thargs_iff.mp hin).2
  obtain ⟨ps, io, hrun, hio', helse, hcont⟩ := (@auRenRevWhtmp_spec env t hio).2 hat htmp
  have hback : env.undoWh ((auRenRevWhtmp env t).contents env.btgt) = env.undoWh (s.contents env.btgt) := by
    rw [hcont, RenEnv.undoWh_move htw hdw, h.contents, move_back (Ne.symm htd), drop_eq_self_iff,
      RenEnv.undoWh_of_ne htw]
    exact h.free
  have hdst : (auRenRevWhtmp env t).dst = s.dst := by
    rw [hrun]
    show t.dst.setHDptr env.btgt t.hDst = s.dst
    rw [h.hDst]
    exact h.dst
  have hsw : Swept env (auRenRevWhtmp env t) (outWhtmp env t) := by
    unfold outWhtmp
    rw [h.thargs, if_pos rfl]
    refine outWhdst_swept ?_ ?_
    · rw [hrun]
      exact hio'
    · rw [hrun]
      exact h.whSrc
  refine ⟨?_, ?_, ?_⟩
  · rw [← hdst]
    refine hsw.undone ?_ hback (fun hwatch => ?_) ?_
    · rw [hrun]
      exact h.elsewhere.trans helse
    · rw [hrun]
      show t.srcWatch.map _ = some true
      rw [h.srcWatch, hwatch]
      rfl
    · rw [hdst, hp.dstStart]
      omega
  · rw [hsw.srcStart, hrun]
    exact h.srcStart
  · rw [hsw.dstWatch, hrun]
    exact h.dstWatch

/-- A directory is moved back, and its watch stays suspended. -/
theorem Aside.restored_iff (hp : Prepared env before s) (h : Aside env s t) (hio : Willing t.io) (hin : thargsOf env s = true) :
    RenRestored env before s (afterError env (outWhtmp env t)) ↔ DirsThere env before ∧ WhSrcNew env s ∧
      NoWatch env s ∧ (auUpdateDbstart s.dst).diBstart = env.bstartDst := by
  obtain ⟨hund, hstart, hwatch⟩ := h.undone hp hio hin
  rw [hund.restored_iff hp, hstart, hwatch]
  constructor
  · rintro ⟨hthere, hnew, -, hd, hw⟩
    refine ⟨hthere, hnew, fun _ hact => ?_, hd⟩
    have hw := hw hact
    rw [hact] at hw
    cases hw
  · rintro ⟨hthere, hnew, hno, hd⟩
    exact ⟨hthere, hnew, hp.srcStart, hd, fun hact => absurd hact (hno hin)⟩

end Ladder

end KernelPatches.Aufs
