/-
  aufs: the whiteout base and its two directories.

  A writable branch has three entries in its root: the whiteout base, to which whiteouts are hard links, the
  directory for pseudo-links and the temporary one.  `au_wh_init` makes the entries, or removes them, for the
  permission that the branch has.  The dentries of the entries are kept in `br_wbr`, which only a writable
  branch has.

  * `auWhInit`                 — with every lookup and every operation that can fail;
  * `auBrInitWh`               — the same for a new permission, and without `br_wbr` where that is read-only;
  * `WhMade`, `whReached`      — when it is successful, and which dentries there are when it is not;
  * `auWhInit_writable`        — that this is what it does, with `br_wbr`.
-/
import KernelPatches.Aufs.Branch

namespace KernelPatches.Aufs

def ENOSYS : Int := 38

/-! ## The model -/

/-- What stands under a name in the root of a branch. -/
inductive WhEntry where
  | neg
  | reg
  | dir
  | other
  deriving DecidableEq, Repr

/-- AUFS_BASE_NAME, AUFS_PLINKDIR_NAME and AUFS_TMPDIR_NAME in the root of a branch. -/
structure WhNames where
  base : WhEntry
  plink : WhEntry
  tmp : WhEntry
  deriving DecidableEq, Repr

/-- `wbr_wh[]`: which of the dentries are there. -/
structure AuWbrWh where
  wbrWhbase : Bool
  wbrPlink : Bool
  wbrTmp : Bool
  deriving DecidableEq, Repr

/-- After `dput` of all of them. -/
def noWbrWh : AuWbrWh := ⟨false, false, false⟩

/-- What `au_wh_init` finds: the result of each lookup, PLINK, whether the root has `i_op->link`, and the
    results of removing and of making the three entries, `au_mnt_want_write` included. -/
structure WhEnv where
  lkupBase : Int
  lkupPlink : Int
  lkupTmp : Int
  doPlink : Bool
  linkable : Bool
  unlinkBase : Int
  rmdirPlink : Int
  rmdirTmp : Int
  createBase : Int
  mkdirPlink : Int
  mkdirTmp : Int
  deriving DecidableEq, Repr

/-- `clean_wh`, of which an error is ignored. -/
def cleanWh (e : WhEntry) (unlink : Int) : WhEntry :=
  match e with
  | .neg => .neg
  | .dir => .dir
  | e => if unlink = 0 then .neg else e

/-- `au_whdir_clean`, of which an error is ignored. -/
def auWhdirClean (e : WhEntry) (rmdir : Int) : WhEntry :=
  match e with
  | .dir => if rmdir = 0 then .neg else .dir
  | e => e

/-- `au_whdir` -/
def auWhdir (e : WhEntry) (mkdir : Int) : Int × WhEntry :=
  match e with
  | .neg => if mkdir = 0 then (0, .dir) else (mkdir, .neg)
  | .dir => (0, .dir)
  | e => (-EEXIST, e)

/-- The whiteout base of a branch with links. -/
def whBase (e : WhEntry) (create : Int) : Int × WhEntry :=
  match e with
  | .neg => if create = 0 then (0, .reg) else (create, .neg)
  | .reg => (0, .reg)
  | e => (-EEXIST, e)

/-- The result, the entries, and the dentries of `br_wbr`, which may be null. -/
abbrev WhResult := Except BrTrap (Int × WhNames × Option AuWbrWh)

/-- `test_linkable` -/
def testLinkable (env : WhEnv) : Int := if env.linkable then 0 else -ENOSYS

/-- The end of `au_wh_init` for both writable permissions: the temporary directory. -/
def whTmp (env : WhEnv) (names : WhNames) (wbr : Option AuWbrWh) : WhResult :=
  let tmp := auWhdir names.tmp env.mkdirTmp
  let names := { names with tmp := tmp.2 }
  if tmp.1 ≠ 0 then .ok (tmp.1, names, wbr)
  else
    match wbr with
    | none => .error .null
    | some wbr => .ok (0, names, some { wbr with wbrTmp := true })

/-- The directory for pseudo-links, and what follows. -/
def whPlink (env : WhEnv) (names : WhNames) (wbr : Option AuWbrWh)
    (next : WhNames → Option AuWbrWh → WhResult) : WhResult :=
  if env.doPlink then
    let plink := auWhdir names.plink env.mkdirPlink
    let names := { names with plink := plink.2 }
    if plink.1 ≠ 0 then .ok (plink.1, names, wbr)
    else
      match wbr with
      | none => .error .null
      | some wbr => next names (some { wbr with wbrPlink := true })
  else next { names with plink := auWhdirClean names.plink env.rmdirPlink } wbr

/-- The `switch` of `au_wh_init` -/
def whSwitch (env : WhEnv) (perm : BrPerm) (names : WhNames) (wbr : Option AuWbrWh) : WhResult :=
  match perm with
  | .rr | .ro | .rrWh | .roWh =>
    .ok (0,
      { base := cleanWh names.base env.unlinkBase
        plink := auWhdirClean names.plink env.rmdirPlink
        tmp := auWhdirClean names.tmp env.rmdirTmp }, wbr)
  | .rwNoLinkWh =>
    let names := { names with base := cleanWh names.base env.unlinkBase }
    if env.doPlink ∧ testLinkable env ≠ 0 then .ok (testLinkable env, names, wbr)
    else whPlink env names wbr (whTmp env)
  | .rw =>
    if testLinkable env ≠ 0 then .ok (testLinkable env, names, wbr)
    else
      let base := whBase names.base env.createBase
      let names := { names with base := base.2 }
      if base.1 ≠ 0 then .ok (base.1, names, wbr)
      else
        whPlink env names wbr fun names wbr =>
          match wbr with
          | none => .error .null
          | some wbr => whTmp env names (some { wbr with wbrWhbase := true })

/-- `au_wh_init`, for a branch of the permission. -/
def auWhInit (env : WhEnv) (perm : BrPerm) (names : WhNames) (wbr : Option AuWbrWh) : WhResult :=
  if env.lkupBase ≠ 0 then .ok (env.lkupBase, names, wbr)
  else if env.lkupPlink ≠ 0 then .ok (env.lkupPlink, names, wbr)
  else if env.lkupTmp ≠ 0 then .ok (env.lkupTmp, names, wbr)
  else whSwitch env perm names (wbr.map fun _ => noWbrWh)

/-- `au_br_init_wh`: `br_wbr` is null afterwards if the new permission is read-only. -/
def auBrInitWh (env : WhEnv) (newPerm : BrPerm) (names : WhNames) (wbr : Option AuWbrWh) : WhResult :=
  match auWhInit env newPerm names wbr with
  | .error t => .error t
  | .ok (err, names, wbr) =>
    .ok (err, names, if err = 0 ∧ ¬ auBrWritable newPerm then none else wbr)

/-! ## What it does -/

section

variable (env : WhEnv) (perm : BrPerm) (names : WhNames)

/-- All three lookups are successful. -/
def WhFound : Prop := env.lkupBase = 0 ∧ env.lkupPlink = 0 ∧ env.lkupTmp = 0

/-- The directory is there, or can be made. -/
def WhdirMade (e : WhEntry) (mkdir : Int) : Prop := e = .dir ∨ e = .neg ∧ mkdir = 0

/-- The whiteout base is there, or can be made. -/
def BaseMade (e : WhEntry) (create : Int) : Prop := e = .reg ∨ e = .neg ∧ create = 0

/-- Everything for a writable permission that comes before the directory for pseudo-links. -/
def WhStarts : Prop :=
  if perm = .rw then env.linkable ∧ BaseMade names.base env.createBase else env.doPlink → env.linkable

/-- The directory for pseudo-links is made, if there is to be one. -/
def PlinkMade : Prop := env.doPlink → WhdirMade names.plink env.mkdirPlink

/-- All entries of a writable permission are made. -/
def WhMade : Prop := WhStarts env perm names ∧ PlinkMade env names ∧ WhdirMade names.tmp env.mkdirTmp

instance (e : WhEntry) (mkdir : Int) : Decidable (WhdirMade e mkdir) := inferInstanceAs (Decidable (_ ∨ _))

instance (e : WhEntry) (create : Int) : Decidable (BaseMade e create) := inferInstanceAs (Decidable (_ ∨ _))

instance : Decidable (WhFound env) := inferInstanceAs (Decidable (_ ∧ _))

instance : Decidable (WhStarts env perm names) := inferInstanceAs (Decidable (ite _ _ _))

instance : Decidable (PlinkMade env names) := inferInstanceAs (Decidable (_ → _))

instance : Decidable (WhMade env perm names) := inferInstanceAs (Decidable (_ ∧ _))

/-- The dentries there are for a writable permission in the end, of a failure too. -/
def whReached : AuWbrWh :=
  { wbrWhbase := perm = .rw ∧ WhStarts env perm names ∧ PlinkMade env names
    wbrPlink := env.doPlink ∧ WhStarts env perm names ∧ PlinkMade env names
    wbrTmp := WhMade env perm names }

variable {env perm names}

theorem auWhdir_iff (e : WhEntry) (mkdir : Int) : (auWhdir e mkdir).1 = 0 ↔ WhdirMade e mkdir := by
  unfold WhdirMade auWhdir EEXIST
  cases e with
  | neg =>
    by_cases h : mkdir = 0
    · simp [h]
    · simp [h]
  | reg => simp
  | dir => simp
  | other => simp

theorem whBase_iff (e : WhEntry) (create : Int) : (whBase e create).1 = 0 ↔ BaseMade e create := by
  unfold BaseMade whBase EEXIST
  cases e with
  | neg =>
    by_cases h : create = 0
    · simp [h]
    · simp [h]
  | reg => simp
  | dir => simp
  | other => simp

theorem testLinkable_iff : testLinkable env = 0 ↔ env.linkable = true := by
  unfold testLinkable ENOSYS
  cases env.linkable with
  | true => simp
  | false => simp

/-- The temporary directory, with `br_wbr`. -/
theorem whTmp_some (wbr : AuWbrWh) : ∃ err names', whTmp env names (some wbr) =
    .ok (err, names', some { wbr with wbrTmp := wbr.wbrTmp || decide (WhdirMade names.tmp env.mkdirTmp) }) ∧
      (err = 0 ↔ WhdirMade names.tmp env.mkdirTmp) := by
  have hiff := auWhdir_iff names.tmp env.mkdirTmp
  unfold whTmp
  by_cases htmp : WhdirMade names.tmp env.mkdirTmp
  · rw [if_neg (not_not.mpr (hiff.mpr htmp)), decide_eq_true htmp, Bool.or_true]
    exact ⟨0, _, rfl, iff_of_true rfl htmp⟩
  · have herr := mt hiff.mp htmp
    rw [if_pos herr, decide_eq_false htmp, Bool.or_false]
    exact ⟨_, _, rfl, iff_of_false herr htmp⟩

/-- The directory for pseudo-links, with `br_wbr`: what follows is only done if it is made. -/
theorem whPlink_some (next : WhNames → Option AuWbrWh → WhResult) (wbr : AuWbrWh) :
    (¬ PlinkMade env names ∧ ∃ err names', err ≠ 0 ∧
        whPlink env names (some wbr) next = .ok (err, names', some wbr)) ∨
    (PlinkMade env names ∧ ∃ names', names'.tmp = names.tmp ∧ whPlink env names (some wbr) next =
        next names' (some { wbr with wbrPlink := wbr.wbrPlink || env.doPlink })) := by
  have hiff := auWhdir_iff names.plink env.mkdirPlink
  unfold whPlink PlinkMade
  by_cases hplink : env.doPlink = true
  · rw [if_pos hplink]
    dsimp only
    by_cases hmade : WhdirMade names.plink env.mkdirPlink
    · rw [if_neg (not_not.mpr (hiff.mpr hmade)), hplink, Bool.or_true]
      exact Or.inr ⟨fun _ => hmade, { names with plink := (auWhdir names.plink env.mkdirPlink).2 }, rfl, rfl⟩
    · have herr := mt hiff.mp hmade
      rw [if_pos herr]
      exact Or.inl ⟨fun h => hmade (h hplink), _, _, herr, rfl⟩
  · rw [if_neg hplink, Bool.eq_false_iff.mpr hplink, Bool.or_false]
    exact Or.inr ⟨fun h => absurd h Bool.false_ne_true,
      { names with plink := auWhdirClean names.plink env.rmdirPlink }, rfl, rfl⟩

/-- From the directory for pseudo-links on, with the base or without. -/
theorem whPlink_whTmp (names' : WhNames) (base : Bool) (next : WhNames → Option AuWbrWh → WhResult)
    (hnames : names'.plink = names.plink ∧ names'.tmp = names.tmp) (hstarts : WhStarts env perm names)
    (hbase : base = decide (perm = .rw))
    (hnext : ∀ n w, next n (some w) = whTmp env n (some { w with wbrWhbase := base || w.wbrWhbase })) :
    ∃ err names'', whPlink env names' (some noWbrWh) next =
        .ok (err, names'', some (whReached env perm names)) ∧ (err = 0 ↔ WhMade env perm names) := by
  have hplinkIff : PlinkMade env names' ↔ PlinkMade env names := by
    unfold PlinkMade
    rw [hnames.1]
  rcases @whPlink_some env names' next noWbrWh with ⟨hno, err, n, herr, hplink⟩ | ⟨hmade, n, htmp, hplink⟩
  · rw [hplinkIff] at hno
    refine ⟨err, n, ?_, iff_of_false herr fun h => hno h.2.1⟩
    rw [hplink, whReached]
    simp [hno, WhMade, noWbrWh]
  · rw [hplinkIff] at hmade
    have htmp' : n.tmp = names.tmp := htmp.trans hnames.2
    obtain ⟨err, n', hwhTmp, hiff⟩ := @whTmp_some env n ⟨base || false, env.doPlink, false⟩
    rw [htmp'] at hwhTmp hiff
    refine ⟨err, n', ?_, hiff.trans ⟨fun h => ⟨hstarts, hmade, h⟩, fun h => h.2.2⟩⟩
    rw [hplink, hnext]
    refine Eq.trans hwhTmp ?_
    rw [whReached, hbase]
    simp [WhMade, hstarts, hmade]


/-- A lookup fails, and nothing is changed. -/
theorem auWhInit_not_found (hfound : ¬ WhFound env) (wbr : Option AuWbrWh) :
    ∃ err, err ≠ 0 ∧ auWhInit env perm names wbr = .ok (err, names, wbr) := by
  unfold auWhInit
  by_cases hbase : env.lkupBase = 0
  · rw [if_neg (not_not.mpr hbase)]
    by_cases hplink : env.lkupPlink = 0
    · rw [if_neg (not_not.mpr hplink)]
      have htmp : env.lkupTmp ≠ 0 := fun htmp => hfound ⟨hbase, hplink, htmp⟩
      rw [if_pos htmp]
      exact ⟨_, htmp, rfl⟩
    · rw [if_pos hplink]
      exact ⟨_, hplink, rfl⟩
  · rw [if_pos hbase]
    exact ⟨_, hbase, rfl⟩

theorem auWhInit_found (hfound : WhFound env) (wbr : Option AuWbrWh) :
    auWhInit env perm names wbr = whSwitch env perm names (wbr.map fun _ => noWbrWh) := by
  obtain ⟨hbase, hplink, htmp⟩ := hfound
  rw [auWhInit, if_neg (not_not.mpr hbase), if_neg (not_not.mpr hplink), if_neg (not_not.mpr htmp)]

/-- A read-only branch: the switch cannot fail. -/
theorem whSwitch_ro (hperm : auBrWritable perm = false) (wbr : Option AuWbrWh) :
    ∃ names', whSwitch env perm names wbr = .ok (0, names', wbr) := by
  cases perm with
  | rw => cases hperm
  | rwNoLinkWh => cases hperm
  | ro => exact ⟨_, rfl⟩
  | rr => exact ⟨_, rfl⟩
  | roWh => exact ⟨_, rfl⟩
  | rrWh => exact ⟨_, rfl⟩

/-- **With `br_wbr`, and a writable permission**: it is successful iff everything is made, and the dentries are
    those it came to. -/
theorem auWhInit_writable (hperm : auBrWritable perm = true) (hfound : WhFound env) (wbr : AuWbrWh) :
    ∃ err names', auWhInit env perm names (some wbr) = .ok (err, names', some (whReached env perm names)) ∧
      (err = 0 ↔ WhMade env perm names) := by
  rw [auWhInit_found hfound]
  show ∃ err names', whSwitch env perm names (some noWbrWh) = _ ∧ _
  have hearly : ∀ {err : Int} {n : WhNames}, err ≠ 0 → ¬ WhStarts env perm names → ∃ err' names',
      (Except.ok (err, n, some noWbrWh) : WhResult) = .ok (err', names', some (whReached env perm names)) ∧
        (err' = 0 ↔ WhMade env perm names) := by
    intro err n herr hstarts
    refine ⟨err, n, ?_, iff_of_false herr fun h => hstarts h.1⟩
    simp [whReached, noWbrWh, WhMade, hstarts]
  have hcases : perm = .rw ∨ perm = .rwNoLinkWh := by simpa [auBrWritable] using hperm
  rcases hcases with rfl | rfl
  · unfold whSwitch
    dsimp only
    by_cases hlink : testLinkable env = 0
    · rw [if_neg (not_not.mpr hlink)]
      by_cases hmade : (whBase names.base env.createBase).1 = 0
      · rw [if_neg (not_not.mpr hmade)]
        have hstarts : WhStarts env .rw names := ⟨testLinkable_iff.mp hlink, (whBase_iff _ _).mp hmade⟩
        exact whPlink_whTmp _ true _ ⟨rfl, rfl⟩ hstarts rfl fun _ _ => rfl
      · rw [if_pos hmade]
        exact hearly hmade fun h => hmade ((whBase_iff _ _).mpr h.2)
    · rw [if_pos hlink]
      exact hearly hlink fun h => hlink (testLinkable_iff.mpr h.1)
  · unfold whSwitch
    dsimp only
    have hstarts : WhStarts env .rwNoLinkWh names ↔ (env.doPlink = true → env.linkable = true) := Iff.rfl
    by_cases hlink : env.doPlink = true ∧ testLinkable env ≠ 0
    · rw [if_pos hlink]
      exact hearly hlink.2 fun h => hlink.2 (testLinkable_iff.mpr (hstarts.mp h hlink.1))
    · rw [if_neg hlink]
      refine whPlink_whTmp _ false _ ⟨rfl, rfl⟩ (hstarts.mpr fun hplink => ?_) rfl fun _ _ => rfl
      rw [← testLinkable_iff]
      by_contra hne
      exact hlink ⟨hplink, hne⟩

/-- With `br_wbr`, and a writable permission, it comes back. -/
theorem auWhInit_some (env : WhEnv) (names : WhNames) (hperm : auBrWritable perm = true) (wbr : AuWbrWh) :
    ∃ err names' wh, auWhInit env perm names (some wbr) = .ok (err, names', some wh) := by
  by_cases hfound : WhFound env
  · obtain ⟨err, names', hinit, -⟩ := @auWhInit_writable env perm names hperm hfound wbr
    exact ⟨err, names', _, hinit⟩
  · obtain ⟨err, -, hinit⟩ := @auWhInit_not_found env perm names hfound (some wbr)
    exact ⟨err, _, _, hinit⟩

/-- A new permission that is writable: `br_wbr` stays, with the dentries it came to. -/
theorem auBrInitWh_writable (env : WhEnv) (names : WhNames) (hperm : auBrWritable perm = true) (wbr : AuWbrWh) :
    ∃ err names', auBrInitWh env perm names (some wbr) =
      .ok (err, names', some (if WhFound env then whReached env perm names else wbr)) ∧
        (err = 0 ↔ WhFound env ∧ WhMade env perm names) := by
  unfold auBrInitWh
  by_cases hfound : WhFound env
  · obtain ⟨err, names', hinit, hiff⟩ := @auWhInit_writable env perm names hperm hfound wbr
    rw [hinit, if_pos hfound]
    dsimp only
    rw [if_neg fun h => h.2 hperm]
    exact ⟨err, names', rfl, hiff.trans (and_iff_right hfound).symm⟩
  · obtain ⟨err, herr, hinit⟩ := @auWhInit_not_found env perm names hfound (some wbr)
    rw [hinit, if_neg hfound]
    dsimp only
    rw [if_neg fun h => herr h.1]
    exact ⟨err, names, rfl, iff_of_false herr fun h => hfound h.1⟩

/-- A new permission that is read-only: `br_wbr` is freed, if there is no error. -/
theorem auBrInitWh_ro (env : WhEnv) (names : WhNames) (hperm : auBrWritable perm = false) (wbr : AuWbrWh) :
    ∃ err names', auBrInitWh env perm names (some wbr) =
      .ok (err, names', if WhFound env then none else some wbr) ∧ (err = 0 ↔ WhFound env) := by
  have hro : ¬ auBrWritable perm = true := by rw [hperm]; exact Bool.false_ne_true
  unfold auBrInitWh
  by_cases hfound : WhFound env
  · obtain ⟨names', hswitch⟩ := @whSwitch_ro env perm names hperm (some noWbrWh)
    rw [auWhInit_found hfound, Option.map_some, hswitch, if_pos hfound]
    dsimp only
    rw [if_pos ⟨rfl, hro⟩]
    exact ⟨0, names', rfl, iff_of_true rfl hfound⟩
  · obtain ⟨err, herr, hinit⟩ := @auWhInit_not_found env perm names hfound (some wbr)
    rw [hinit, if_neg hfound]
    dsimp only
    rw [if_neg fun h => herr h.1]
    exact ⟨err, names, rfl, iff_of_false herr hfound⟩

end

end KernelPatches.Aufs
