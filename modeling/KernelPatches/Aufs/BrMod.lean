/-
  aufs: changing the permission of a branch.

  `au_br_mod` takes a writable branch apart before it knows that the change can be made.  For another writable
  permission `au_wh_init` first drops the three dentries.  For a read-only one `br_wbr` is freed first, and
  only then `au_br_mod_files_ro` goes through the open files, and stops at one that is mapped.  The branch
  stays writable then, without a `br_wbr`.

  * `WbrSb`                    — the union, the entries in the roots of its branches, and the open files;
  * `auBrMod`                  — with `auBrModFilesRo` and the re-initialization;
  * `wbrAdd`, `wbrDel`         — the other two operations with their part of `br_wbr`;
  * `verifyOpts`               — the loop over the branches, which reads `br_wbr`;
  * `run_mod_kept`             — where no change drops what it does not restore, `br_wbr` is there iff the
                                 branch is writable, and a change that fails leaves the branch as it was;
  * `mapped_file`              — a branch that is writable, and has no `br_wbr`.
-/
import KernelPatches.Aufs.BranchArrays
import KernelPatches.Aufs.WhInit

namespace KernelPatches.Aufs

open KernelPatches.Lib

/-! ## The model -/

/-- An open file: whether it is one of aufs, S_ISREG, FMODE_WRITE, `au_fbstart`, whether it is mapped, and
    FMODE_WRITE of its hidden file. -/
structure AuFile where
  aufs : Bool
  reg : Bool
  fmodeWrite : Bool
  fbstart : Int
  mmapped : Bool
  hFmodeWrite : Bool
  deriving DecidableEq, Repr

/-- The union, for each root what stands under the three names in it and the dentries of its `br_wbr`, and
    `s_files`. -/
structure WbrSb where
  union : UnionSb
  names : HRoot → WhNames
  wbrWh : HRoot → AuWbrWh
  files : List AuFile

/-- `struct au_opt_mod` -/
structure AuOptMod where
  perm : BrPerm
  hRoot : HRoot
  deriving DecidableEq, Repr

/-- `br_wbr` of a branch with its dentries. -/
def WbrSb.wbr (s : WbrSb) (br : AuBranch) (hRoot : HRoot) : Option AuWbrWh := br.brWbr.map fun _ => s.wbrWh hRoot

/-- What `au_wh_init` leaves: the entries, and `br_wbr`, which keeps its `wbr_bytes`. -/
def WbrSb.setWh (s : WbrSb) (bindex : Nat) (br : AuBranch) (hRoot : HRoot) (names : WhNames)
    (wbr : Option AuWbrWh) : WbrSb :=
  { s with
    union := { s.union with
      siBranch := s.union.siBranch.set bindex (some { br with brWbr := wbr.map fun _ => br.brWbr.getD 0 }) }
    names := Function.update s.names hRoot names
    wbrWh := match wbr with
      | none => s.wbrWh
      | some wh => Function.update s.wbrWh hRoot wh }

/-- `br_perm` of a branch. -/
def WbrSb.setPerm (s : WbrSb) (bindex : Nat) (perm : BrPerm) : WbrSb :=
  { s with
    union := { s.union with
      siBranch := s.union.siBranch.modify bindex fun br => br.map fun br => { br with brPerm := perm } } }

/-- The file is a regular one on the branch, open for writing. -/
def AuFile.writes (f : AuFile) (bindex : Nat) : Bool := f.aufs && f.reg && f.fmodeWrite && f.fbstart = bindex

/-- `au_br_mod_files_ro` -/
def auBrModFilesRo (bindex : Nat) : List AuFile → Int × List AuFile
  | [] => (0, [])
  | f :: files =>
    if !f.writes bindex then
      let r := auBrModFilesRo bindex files
      (r.1, f :: r.2)
    else if f.mmapped then (-EBUSY, f :: files)
    else
      let r := auBrModFilesRo bindex files
      (r.1, { f with hFmodeWrite := false } :: r.2)

/-- `need_sigen_inc` -/
def needSigenInc (old new : BrPerm) : Bool :=
  (auBrWhable old && !auBrWhable new) || (auBrWhable new && !auBrWhable old)

section

variable (cfg : BrConfig) (fs : LowerFs)

/-- `au_br_mod`, between the comparison of the permissions and the new one: `memory` is whether there is
    some for a new `br_wbr`. -/
def modWbr (env : WhEnv) (memory : Bool) (s : WbrSb) (bindex : Nat) (br : AuBranch) (mod : AuOptMod) :
    Except BrTrap (Int × WbrSb) :=
  if auBrWritable br.brPerm then
    -- remove whiteout base
    match auBrInitWh env mod.perm (s.names mod.hRoot) (s.wbr br mod.hRoot) with
    | .error t => .error t
    | .ok (err, names, wbr) =>
      let s := s.setWh bindex br mod.hRoot names wbr
      if err ≠ 0 then .ok (err, s)
      else if !auBrWritable mod.perm then
        -- rw --> ro, file might be mmapped
        let r := auBrModFilesRo bindex s.files
        .ok (r.1, { s with files := r.2 })
      else .ok (0, s)
  else if auBrWritable mod.perm then
    -- ro --> rw
    if !memory then .ok (negENOMEM, s)
    else
      match auBrInitWh env mod.perm (s.names mod.hRoot) (some noWbrWh) with
      | .error t => .error t
      | .ok (err, names, wbr) =>
        .ok (err, s.setWh bindex { br with brWbr := none } mod.hRoot names (if err = 0 then wbr else none))
  else .ok (0, s)

/-- `au_br_mod`: the result, and `do_update`. -/
def auBrMod (env : WhEnv) (memory : Bool) (s : WbrSb) (mod : AuOptMod) (remount : Bool) :
    Except BrTrap (Int × Bool × WbrSb) :=
  let bindex := auFindDbindex s.union mod.hRoot
  if bindex < 0 then .ok (if remount then 0 else -ENOENT, false, s)
  else if testBr fs mod.hRoot mod.perm ≠ 0 then .ok (testBr fs mod.hRoot mod.perm, false, s)
  else
    match auSbr s.union bindex.toNat with
    | .error t => .error t
    | .ok br =>
      if br.brPerm = mod.perm then .ok (0, false, s)
      else
        match modWbr env memory s bindex.toNat br mod with
        | .error t => .error t
        | .ok (err, s) =>
          if err = 0 then .ok (0, needSigenInc br.brPerm mod.perm, s.setPerm bindex.toNat mod.perm)
          else .ok (err, false, s)

/-- `au_br_add` with what `au_br_init_wh` does, if it comes to that. -/
def wbrAdd (env : WhEnv) (s : WbrSb) (add : AuOptAdd) (xino : Bool) (xinoBr : Int) (mem : Kmem)
    (remount : Bool) : Except BrTrap (Int × WbrSb) :=
  let reached := testAdd cfg fs s.union add remount = 0 ∧
    (allocAddbr s.union (s.union.siBend + 2).toNat add.perm mem).1 ∧ auBrWritable add.perm
  let init : WhResult :=
    if reached then auBrInitWh env add.perm (s.names add.dentry) (some noWbrWh)
    else .ok (0, s.names add.dentry, none)
  match init with
  | .error t => .error t
  | .ok (whInit, names, wbr) =>
    match auBrAdd cfg fs s.union add ⟨whInit, xino, xinoBr⟩ mem remount with
    | .error t => .error t
    | .ok (err, union) =>
      .ok (err,
        { s with
          union
          names := Function.update s.names add.dentry names
          wbrWh := match wbr with
            | none => s.wbrWh
            | some wh => Function.update s.wbrWh add.dentry wh })

/-- `au_br_del` with what it does to `br_wbr`: the dentries are dropped, and come back if the branch is
    busy. -/
def wbrDel (env : WhEnv) (s : WbrSb) (hRoot : HRoot) (brCount : Nat) (busy : Int) (remount : Bool) :
    Except BrTrap (Int × WbrSb) :=
  let bindex := auFindDbindex s.union hRoot
  match auBrDel s.union hRoot brCount busy remount with
  | .error t => .error t
  | .ok (err, union) =>
    if bindex < 0 ∨ s.union.siBend = 0 ∨ brCount ≠ 0 then .ok (err, { s with union })
    else
      match auSbr s.union bindex.toNat with
      | .error t => .error t
      | .ok br =>
        if br.brWbr.isNone ∨ s.wbrWh hRoot = noWbrWh then .ok (err, { s with union })
        else
          let s := { s with wbrWh := Function.update s.wbrWh hRoot noWbrWh }
          if busy ≠ 0 then
            -- revert
            match auBrInitWh env br.brPerm (s.names hRoot) (s.wbr br hRoot) with
            | .error t => .error t
            | .ok (_, names, wbr) => .ok (err, s.setWh bindex.toNat br hRoot names wbr)
          else .ok (err, { s with union })

/-- Whether `verify_opts` passes over a branch. -/
def verifySkip (doPlink : Bool) (perm : BrPerm) (wbr : Option AuWbrWh) : Bool :=
  match perm with
  | .rr | .ro | .rrWh | .roWh => wbr.all fun wh => wh = noWbrWh
  | .rwNoLinkWh => wbr.all fun wh => !wh.wbrWhbase && (if doPlink then wh.wbrPlink else !wh.wbrPlink)
  | .rw => wbr.any fun wh => wh.wbrWhbase && (if doPlink then wh.wbrPlink else !wh.wbrPlink)

/-- The loop of `verify_opts`, over `n` branches from `bindex` on. -/
def verifyFrom (env : Nat → WhEnv) : Nat → Nat → WbrSb → Except BrTrap (Int × WbrSb)
  | 0, _, s => .ok (0, s)
  | n + 1, bindex, s =>
    match auSbr s.union bindex, s.union.diHdentry.getD bindex none with
    | .error t, _ => .error t
    | .ok _, none => .error .null
    | .ok br, some hRoot =>
      let wbr := s.wbr br hRoot
      if verifySkip (env bindex).doPlink br.brPerm wbr then verifyFrom env n (bindex + 1) s
      else
        match auWhInit (env bindex) br.brPerm (s.names hRoot) wbr with
        | .error t => .error t
        | .ok (err, names, wbr') =>
          -- do_free
          let free := err = 0 ∧ ¬ auBrWritable br.brPerm ∧ wbr.isSome
          let s := s.setWh bindex br hRoot names (if free then none else wbr')
          if err ≠ 0 then .ok (err, s) else verifyFrom env n (bindex + 1) s

/-- `verify_opts`, as far as the branches go. -/
def verifyOpts (msRdonly : Bool) (env : Nat → WhEnv) (s : WbrSb) : Except BrTrap (Int × WbrSb) :=
  if msRdonly then verifyFrom env (s.union.siBend + 1).toNat 0 s
  else
    match auSbr s.union 0 with
    | .error t => .error t
    | .ok _ => verifyFrom env (s.union.siBend + 1).toNat 0 s

/-! ## Runs -/

/-- An operation on the branches, or other open files. -/
inductive WbrEvent where
  | add (env : WhEnv) (add : AuOptAdd) (xino : Bool) (xinoBr : Int) (mem : Kmem) (remount : Bool)
  | del (env : WhEnv) (hRoot : HRoot) (brCount : Nat) (busy : Int) (remount : Bool)
  | mod (env : WhEnv) (memory : Bool) (mod : AuOptMod) (remount : Bool)
  | opened (files : List AuFile)

inductive WbrStep : WbrSb → WbrEvent → WbrSb → Prop
  | add {s s' : WbrSb} {env : WhEnv} {add : AuOptAdd} {xino : Bool} {xinoBr : Int} {mem : Kmem} {remount : Bool}
      {err : Int} (h : wbrAdd cfg fs env s add xino xinoBr mem remount = .ok (err, s')) :
      WbrStep s (.add env add xino xinoBr mem remount) s'
  | del {s s' : WbrSb} {env : WhEnv} {hRoot : HRoot} {brCount : Nat} {busy : Int} {remount : Bool} {err : Int}
      (h : wbrDel env s hRoot brCount busy remount = .ok (err, s')) :
      WbrStep s (.del env hRoot brCount busy remount) s'
  | mod {s s' : WbrSb} {env : WhEnv} {memory : Bool} {mod : AuOptMod} {remount : Bool} {err : Int} {upd : Bool}
      (h : auBrMod fs env memory s mod remount = .ok (err, upd, s')) : WbrStep s (.mod env memory mod remount) s'
  | opened {s : WbrSb} {files : List AuFile} : WbrStep s (.opened files) { s with files := files }

/-- Before the mount options. -/
def WbrSb.unmounted (names : HRoot → WhNames) (files : List AuFile) : WbrSb :=
  ⟨Aufs.unmounted, names, fun _ => noWbrWh, files⟩

/-- The dentries or `br_wbr` go, and the change fails.  If the branch is to be read-only, a file that is open
    for writing on it is mapped.  If not, one of the entries for the new permission cannot be made, and the
    dentries there were are not those there are then. -/
def WbrDrops (env : WhEnv) (s : WbrSb) (k : Nat) (br : AuBranch) (mod : AuOptMod) : Prop :=
  auBrWritable br.brPerm ∧ WhFound env ∧
    if auBrWritable mod.perm then
      ¬ WhMade env mod.perm (s.names mod.hRoot) ∧
        s.wbrWh mod.hRoot ≠ whReached env mod.perm (s.names mod.hRoot)
    else ∃ f ∈ s.files, f.writes k ∧ f.mmapped

/-- **The change drops what it does not restore**: it comes to a writable branch, and drops. -/
def ModDrops (env : WhEnv) (s : WbrSb) (mod : AuOptMod) : Prop :=
  ∃ (k : Nat) (br : AuBranch), auFindDbindex s.union mod.hRoot = k ∧ auSbr s.union k = .ok br ∧
    testBr fs mod.hRoot mod.perm = 0 ∧ br.brPerm ≠ mod.perm ∧ WbrDrops env s k br mod

/-- No step of the run does. -/
def KeepsWbr (s : WbrSb) : WbrEvent → Prop
  | .mod env _ mod _ => ¬ ModDrops fs env s mod
  | _ => True

/-- The branch is as it was: its permission and `br_wbr`, with the dentries, and the hidden files. -/
structure ModKept (hRoot : HRoot) (s s' : WbrSb) : Prop where
  branch : auSbr s'.union (auFindDbindex s.union hRoot).toNat = auSbr s.union (auFindDbindex s.union hRoot).toNat
  wbrWh : s'.wbrWh hRoot = s.wbrWh hRoot
  files : s'.files = s.files

/-- `br_wbr` is there iff the branch is writable. -/
def WbrOk (u : UnionSb) : Prop := ∀ br, some br ∈ u.siBranch → br.brWbr.isSome = auBrWritable br.brPerm

variable {cfg fs} {s s' : WbrSb} {L : List Member}

/-! ## The files -/

/-- It is successful iff no file is mapped that is open for writing on the branch. -/
theorem auBrModFilesRo_iff (bindex : Nat) (files : List AuFile) :
    (auBrModFilesRo bindex files).1 = 0 ↔ ¬ ∃ f ∈ files, f.writes bindex ∧ f.mmapped := by
  induction files with
  | nil => exact iff_of_true rfl fun ⟨_, hf, _⟩ => absurd hf List.not_mem_nil
  | cons f files ih =>
    have hcons : (∃ g ∈ f :: files, g.writes bindex ∧ g.mmapped) ↔
        (f.writes bindex ∧ f.mmapped) ∨ ∃ g ∈ files, g.writes bindex ∧ g.mmapped := by
      simp only [List.mem_cons, exists_eq_or_imp]
    rw [hcons, not_or, auBrModFilesRo]
    by_cases hw : f.writes bindex = true
    · rw [if_neg (by rw [hw]; exact Bool.false_ne_true)]
      by_cases hm : f.mmapped = true
      · rw [if_pos hm]
        exact iff_of_false (show -EBUSY ≠ 0 by decide) fun h => h.1 ⟨hw, hm⟩
      · rw [if_neg hm]
        exact ih.trans (and_iff_right fun h => hm h.2).symm
    · rw [if_pos (by rw [Bool.eq_false_iff.mpr hw]; rfl)]
      exact ih.trans (and_iff_right fun h => hw h.1).symm

/-! ## A change of the permission -/

/-- What `modWbr` does to a branch that has `br_wbr` iff it is writable. -/
structure Modded (env : WhEnv) (s : WbrSb) (k : Nat) (br : AuBranch) (mod : AuOptMod) (err : Int) (s' : WbrSb)
    (w : Option Nat) : Prop where
  union : s'.union = { s.union with siBranch := s.union.siBranch.set k (some { br with brWbr := w }) }
  done : err = 0 → ¬ WbrDrops env s k br mod ∧ w.isSome = auBrWritable mod.perm
  kept : err ≠ 0 → ¬ WbrDrops env s k br mod →
    w = br.brWbr ∧ s'.wbrWh mod.hRoot = s.wbrWh mod.hRoot ∧ s'.files = s.files
  dropped : err ≠ 0 → WbrDrops env s k br mod → w ≠ br.brWbr ∨ s'.wbrWh mod.hRoot ≠ s.wbrWh mod.hRoot

section

variable {env : WhEnv} {k : Nat} {br : AuBranch} {mod : AuOptMod}

/-- From one writable permission to another. -/
theorem modWbr_rw (memory : Bool) (hold : auBrWritable br.brPerm = true) (hnew : auBrWritable mod.perm = true)
    (hok : br.brWbr.isSome = true) :
    ∃ err s' w, modWbr env memory s k br mod = .ok (err, s') ∧ Modded env s k br mod err s' w := by
  obtain ⟨bytes, hbytes⟩ := Option.isSome_iff_exists.mp hok
  have hwbr : s.wbr br mod.hRoot = some (s.wbrWh mod.hRoot) := by
    rw [WbrSb.wbr, hbytes]
    rfl
  have hdrops : WbrDrops env s k br mod ↔ WhFound env ∧ ¬ WhMade env mod.perm (s.names mod.hRoot) ∧
      s.wbrWh mod.hRoot ≠ whReached env mod.perm (s.names mod.hRoot) := by
    unfold WbrDrops
    rw [if_pos hnew]
    exact and_iff_right hold
  obtain ⟨err, names', hinit, hiff⟩ := auBrInitWh_writable env (s.names mod.hRoot) hnew (s.wbrWh mod.hRoot)
  have hmod : ∃ s', modWbr env memory s k br mod = .ok (err, s') ∧ s' = s.setWh k br mod.hRoot names'
      (some (if WhFound env then whReached env mod.perm (s.names mod.hRoot) else s.wbrWh mod.hRoot)) := by
    unfold modWbr
    rw [if_pos hold, hwbr, hinit, hnew]
    dsimp only
    by_cases herr : err = 0
    · rw [if_neg (not_not.mpr herr), herr]
      exact ⟨_, rfl, rfl⟩
    · rw [if_pos herr]
      exact ⟨_, rfl, rfl⟩
  obtain ⟨s', hmod, rfl⟩ := hmod
  have hwh : (s.setWh k br mod.hRoot names'
      (some (if WhFound env then whReached env mod.perm (s.names mod.hRoot) else s.wbrWh mod.hRoot))).wbrWh
        mod.hRoot = if WhFound env then whReached env mod.perm (s.names mod.hRoot) else s.wbrWh mod.hRoot :=
    Function.update_self _ _ _
  refine ⟨err, _, some (br.brWbr.getD 0), hmod, rfl, fun herr => ⟨fun h => ?_, hnew.symm⟩, fun herr hkept => ?_,
    fun herr h => Or.inr ?_⟩
  · exact (hdrops.mp h).2.1 (hiff.mp herr).2
  · refine ⟨by rw [hbytes]; rfl, ?_, rfl⟩
    rw [hwh]
    split
    · rename_i hfound
      by_contra hne
      exact hkept (hdrops.mpr ⟨hfound, fun h => herr (hiff.mpr ⟨hfound, h⟩), fun h => hne h.symm⟩)
    · rfl
  · obtain ⟨hfound, -, hne⟩ := hdrops.mp h
    rw [hwh, if_pos hfound]
    exact hne.symm

/-- From a writable permission to a read-only one. -/
theorem modWbr_rw_ro (memory : Bool) (hold : auBrWritable br.brPerm = true)
    (hnew : auBrWritable mod.perm = false) (hok : br.brWbr.isSome = true) :
    ∃ err s' w, modWbr env memory s k br mod = .ok (err, s') ∧ Modded env s k br mod err s' w := by
  obtain ⟨bytes, hbytes⟩ := Option.isSome_iff_exists.mp hok
  have hwbr : s.wbr br mod.hRoot = some (s.wbrWh mod.hRoot) := by
    rw [WbrSb.wbr, hbytes]
    rfl
  have hdrops : WbrDrops env s k br mod ↔ WhFound env ∧ ∃ f ∈ s.files, f.writes k ∧ f.mmapped := by
    unfold WbrDrops
    rw [if_neg (by rw [hnew]; exact Bool.false_ne_true)]
    exact and_iff_right hold
  obtain ⟨err, names', hinit, hiff⟩ := auBrInitWh_ro env (s.names mod.hRoot) hnew (s.wbrWh mod.hRoot)
  unfold modWbr
  rw [if_pos hold, hwbr, hinit, hnew]
  dsimp only
  by_cases hfound : WhFound env
  · rw [if_neg (not_not.mpr (hiff.mpr hfound)), if_pos hfound, if_pos (by rfl)]
    have hfiles := auBrModFilesRo_iff k s.files
    refine ⟨_, _, none, rfl, rfl, fun herr => ⟨fun h => ?_, hnew.symm⟩, fun herr hkept => ?_,
      fun herr h => Or.inl ?_⟩
    · exact hfiles.mp herr (hdrops.mp h).2
    · exact absurd (hfiles.mpr fun h => hkept (hdrops.mpr ⟨hfound, h⟩)) herr
    · rw [hbytes]
      exact (Option.some_ne_none bytes).symm
  · have herr : err ≠ 0 := mt hiff.mp hfound
    rw [if_pos herr, if_neg hfound]
    refine ⟨err, _, some (br.brWbr.getD 0), rfl, rfl, fun h => absurd h herr, fun _ _ => ⟨by rw [hbytes]; rfl, ?_, rfl⟩,
      fun _ h => absurd (hdrops.mp h).1 hfound⟩
    exact Function.update_self _ _ _

/-- From a read-only permission. -/
theorem modWbr_ro (memory : Bool) (hold : auBrWritable br.brPerm = false) (hok : br.brWbr.isSome = false)
    (hslot : s.union.siBranch[k]? = some (some br)) :
    ∃ err s' w, modWbr env memory s k br mod = .ok (err, s') ∧ Modded env s k br mod err s' w := by
  have hnone : br.brWbr = none := Option.isNone_iff_eq_none.mp (by rw [← Option.not_isSome, hok]; rfl)
  have hdrops : ¬ WbrDrops env s k br mod := fun h => absurd (hold.symm.trans h.1) Bool.false_ne_true
  -- the branch as it is
  have hself : s.union = { s.union with siBranch := s.union.siBranch.set k (some { br with brWbr := none }) } := by
    have hset : s.union.siBranch.set k (some { br with brWbr := none }) = s.union.siBranch := by
      obtain ⟨hk, hget⟩ := List.getElem?_eq_some_iff.mp hslot
      rw [← hnone, ← hget, List.set_getElem_self]
    rw [hset]
  unfold modWbr
  rw [if_neg (by rw [hold]; exact Bool.false_ne_true)]
  by_cases hnew : auBrWritable mod.perm = true
  · rw [if_pos hnew]
    cases memory with
    | false =>
      exact ⟨_, s, none, rfl, hself, fun h => absurd h (by decide), fun _ _ => ⟨hnone.symm, rfl, rfl⟩,
        fun _ h => absurd h hdrops⟩
    | true =>
      obtain ⟨err, names', hinit, -⟩ := auBrInitWh_writable env (s.names mod.hRoot) hnew noWbrWh
      rw [hinit]
      dsimp only
      by_cases herr : err = 0
      · rw [if_pos herr]
        exact ⟨err, _, some 0, rfl, rfl, fun _ => ⟨hdrops, hnew.symm⟩, fun h => absurd herr h, fun h => absurd herr h⟩
      · rw [if_neg herr]
        exact ⟨err, _, none, rfl, rfl, fun h => absurd h herr, fun _ _ => ⟨hnone.symm, rfl, rfl⟩,
          fun _ h => absurd h hdrops⟩
  · rw [if_neg hnew]
    exact ⟨0, s, none, rfl, hself, fun _ => ⟨hdrops, (Bool.eq_false_iff.mpr hnew).symm⟩, fun h => absurd rfl h,
      fun h => absurd rfl h⟩

/-- **A change between two permissions**, of a branch that has `br_wbr` iff it is writable. -/
theorem modWbr_spec (memory : Bool) (hok : br.brWbr.isSome = auBrWritable br.brPerm)
    (hslot : s.union.siBranch[k]? = some (some br)) :
    ∃ err s' w, modWbr env memory s k br mod = .ok (err, s') ∧ Modded env s k br mod err s' w := by
  cases hold : auBrWritable br.brPerm with
  | true =>
    cases hnew : auBrWritable mod.perm with
    | true => exact modWbr_rw memory hold hnew (hok.trans hold)
    | false => exact modWbr_rw_ro memory hold hnew (hok.trans hold)
  | false => exact modWbr_ro memory hold (hok.trans hold) hslot

end

/-! ## What holds of the branches -/

theorem auSbr_set {u : UnionSb} {k : Nat} {b : AuBranch} (hk : k < u.siBranch.length) :
    auSbr { u with siBranch := u.siBranch.set k (some b) } k = .ok b := by
  have hget : (u.siBranch.set k (some b)).getD k none = some b := by
    rw [List.getD_eq_getElem?_getD, List.getElem?_set_self hk]
    rfl
  rw [auSbr]
  dsimp only
  rw [hget]

theorem WbrOk.set {u : UnionSb} (h : WbrOk u) {k : Nat} {b : AuBranch}
    (hb : b.brWbr.isSome = auBrWritable b.brPerm) :
    WbrOk { u with siBranch := u.siBranch.set k (some b) } := by
  intro br hbr
  rcases List.mem_or_eq_of_mem_set hbr with hmem | heq
  · exact h br hmem
  · obtain rfl := Option.some.inj heq
    exact hb

/-- The permission of a branch that was just set. -/
theorem setPerm_set {u : UnionSb} {k : Nat} {b : AuBranch} (perm : BrPerm)
    (hu : s.union = { u with siBranch := u.siBranch.set k (some b) }) :
    (s.setPerm k perm).union = { u with siBranch := u.siBranch.set k (some { b with brPerm := perm }) } := by
  have hlist : (u.siBranch.set k (some b)).modify k (fun br => br.map fun br => { br with brPerm := perm }) =
      u.siBranch.set k (some { b with brPerm := perm }) := by
    apply List.ext_getElem?
    intro i
    rw [List.getElem?_modify, List.getElem?_set, List.getElem?_set]
    by_cases hki : k = i
    · by_cases hlt : k < u.siBranch.length
      · simp [hki, hki ▸ hlt]
      · simp [hki, hki ▸ hlt]
    · simp [hki]
  unfold WbrSb.setPerm
  dsimp only
  rw [hu]
  dsimp only
  rw [hlist]

/-- **A change of the permission**, where every branch has `br_wbr` iff it is writable: it returns, and fails
    where it drops.  Where it does not, the branches keep what holds of them, and if it fails the branch is as it
    was. -/
theorem auBrMod_spec (h : InLine cfg s.union L) (hok : WbrOk s.union) (fs : LowerFs) (env : WhEnv)
    (memory : Bool) (mod : AuOptMod) (remount : Bool) :
    ∃ err upd s', auBrMod fs env memory s mod remount = .ok (err, upd, s') ∧
      (¬ ModDrops fs env s mod → (∃ L', InLine cfg s'.union L') ∧ WbrOk s'.union) ∧
      (¬ ModDrops fs env s mod → err ≠ 0 → ModKept mod.hRoot s s') ∧
      (ModDrops fs env s mod → err ≠ 0 ∧ ¬ ModKept mod.hRoot s s') := by
  -- the calls that do not come to a branch, or to a change of it
  have hkeep : ∀ err, (∀ k br, auFindDbindex s.union mod.hRoot = (k : Nat) → auSbr s.union k = .ok br →
      testBr fs mod.hRoot mod.perm = 0 → br.brPerm ≠ mod.perm → False) →
      ∃ err' upd s', (Except.ok (err, false, s) : Except BrTrap (Int × Bool × WbrSb)) = .ok (err', upd, s') ∧
        (¬ ModDrops fs env s mod → (∃ L', InLine cfg s'.union L') ∧ WbrOk s'.union) ∧
        (¬ ModDrops fs env s mod → err' ≠ 0 → ModKept mod.hRoot s s') ∧
        (ModDrops fs env s mod → err' ≠ 0 ∧ ¬ ModKept mod.hRoot s s') := by
    intro err hno
    refine ⟨err, false, s, rfl, fun _ => ⟨⟨L, h⟩, hok⟩, fun _ _ => ⟨rfl, rfl, rfl⟩, ?_⟩
    rintro ⟨k, br, hfind, hsbr, htest, hne, -⟩
    exact (hno k br hfind hsbr htest hne).elim
  unfold auBrMod
  dsimp only
  rcases auFindDbindex_spec h mod.hRoot with hnone | ⟨k, m, hk, hm, hroot⟩
  · rw [hnone, if_pos (by decide)]
    exact hkeep _ fun k br hfind => by omega
  · have hlt : k < L.length := (List.getElem?_eq_some_iff.mp hm).1
    rw [hk, if_neg (by omega), Int.toNat_natCast]
    by_cases htest : testBr fs mod.hRoot mod.perm = 0
    · rw [if_neg (not_not.mpr htest)]
      obtain ⟨m', hm', hsbr⟩ := h.sbr hlt
      obtain rfl := Option.some.inj (hm.symm.trans hm')
      rw [hsbr]
      dsimp only
      by_cases hsame : m.branch.brPerm = mod.perm
      · rw [if_pos hsame]
        refine hkeep 0 fun k' br hfind hsbr' _ hne => ?_
        obtain rfl : k = k' := by omega
        obtain rfl := Except.ok.inj (hsbr.symm.trans hsbr')
        exact hne hsame
      · rw [if_neg hsame]
        have hslot := h.slot hm
        have hslotlt : k < s.union.siBranch.length := (List.getElem?_eq_some_iff.mp hslot).1
        have hbranch := hok m.branch (List.mem_of_getElem? hslot)
        obtain ⟨err, s₁, w, hmod, hmodded⟩ := @modWbr_spec s env k m.branch mod memory hbranch hslot
        have hdrops : ModDrops fs env s mod ↔ WbrDrops env s k m.branch mod := by
          constructor
          · rintro ⟨k', br, hfind, hsbr', -, -, hd⟩
            obtain rfl : k = k' := by omega
            obtain rfl := Except.ok.inj (hsbr.symm.trans hsbr')
            exact hd
          · exact fun hd => ⟨k, m.branch, hk, hsbr, htest, hsame, hd⟩
        have hindex : (auFindDbindex s.union mod.hRoot).toNat = k := by rw [hk]; rfl
        rw [hmod]
        dsimp only
        by_cases herr : err = 0
        · rw [if_pos herr]
          obtain ⟨hno, hw⟩ := hmodded.done herr
          have hset := setPerm_set mod.perm hmodded.union
          have hline := @InLine.setBranch cfg s.union L h k m hm
            { m.branch with brWbr := w, brPerm := mod.perm } rfl rfl
          rw [← hset] at hline
          have hok' : WbrOk (s₁.setPerm k mod.perm).union := by
            rw [hset]
            exact hok.set hw
          exact ⟨0, _, _, rfl, fun _ => ⟨⟨_, hline⟩, hok'⟩, fun _ h0 => absurd rfl h0,
            fun hd => absurd (hdrops.mp hd) hno⟩
        · rw [if_neg herr]
          refine ⟨err, false, s₁, rfl, fun hd => ?_, fun hd _ => ?_, fun hd => ⟨herr, fun hkept => ?_⟩⟩
          · obtain ⟨rfl, -, -⟩ := hmodded.kept herr (mt hdrops.mpr hd)
            rw [hmodded.union]
            exact ⟨⟨_, h.setBranch hm rfl rfl⟩, hok.set hbranch⟩
          · obtain ⟨rfl, hwh, hfiles⟩ := hmodded.kept herr (mt hdrops.mpr hd)
            refine ⟨?_, hwh, hfiles⟩
            rw [hindex, hmodded.union, auSbr_set hslotlt, hsbr]
          · have hbr := hkept.branch
            rw [hindex, hmodded.union, auSbr_set hslotlt, hsbr] at hbr
            have hweq : w = m.branch.brWbr := congrArg AuBranch.brWbr (Except.ok.inj hbr)
            rcases hmodded.dropped herr (hdrops.mp hd) with hw | hwh
            · exact hw hweq
            · exact hwh hkept.wbrWh
    · rw [if_pos htest]
      exact hkeep _ fun _ _ _ _ h0 => absurd h0 htest

/-! ## Additions and deletions -/

/-- The branches of `u'` are among those of `u`. -/
def Among (u' u : UnionSb) : Prop := ∀ br, some br ∈ u'.siBranch → some br ∈ u.siBranch

theorem growArrays_among (u : UnionSb) (n : Nat) (mem : Kmem) : Among (growArrays u n mem).2.1 u := by
  have hgrown : ∀ {p sz}, (auKzrealloc u.siBranch sz n none mem).1 = some p → ∀ br : AuBranch,
      some br ∈ p → some br ∈ u.siBranch := by
    intro p sz hp br hbr
    unfold auKzrealloc at hp
    split at hp
    · obtain rfl := Option.some.inj hp
      exact hbr
    · dsimp only at hp
      split at hp
      · cases hp
      · obtain rfl := Option.some.inj hp
        rcases mem_of_mem_regrow hbr with hmem | hnone
        · exact hmem
        · cases hnone
  unfold growArrays
  dsimp only
  split
  · exact fun _ hbr => hbr
  · rename_i p hp
    split
    · exact hgrown hp
    · split
      · exact hgrown hp
      · exact hgrown hp

theorem allocAddbr_among (u : UnionSb) (n : Nat) (perm : BrPerm) (mem : Kmem) :
    Among (allocAddbr u n perm mem).2.1 u := by
  unfold allocAddbr
  dsimp only
  split
  · exact fun _ hbr => hbr
  split
  · exact fun _ hbr => hbr
  split
  · split
    · exact fun _ hbr => hbr
    · exact growArrays_among u n _
  · exact growArrays_among u n _

/-- A branch that is added has `br_wbr` iff it is writable. -/
theorem auBrAdd_wbrOk {u u' : UnionSb} {add : AuOptAdd} {env : BrInit} {mem : Kmem} {remount : Bool} {err : Int}
    (h : auBrAdd cfg fs u add env mem remount = .ok (err, u')) (hok : WbrOk u) : WbrOk u' := by
  unfold auBrAdd at h
  dsimp only at h
  split at h
  · cases h
    exact hok
  split at h
  · cases h
    exact hok
  have hmid := allocAddbr_among u (u.siBend + 2).toNat add.perm mem
  generalize allocAddbr u (u.siBend + 2).toNat add.perm mem = a at h hmid
  have hok₁ : WbrOk a.2.1 := fun br hbr => hok br (hmid br hbr)
  split at h
  · cases h
    exact hok₁
  unfold auBrInit at h
  split at h
  · cases h
  · -- `au_br_init` fails
    rename_i err' u₁ hinit
    cases h
    split at hinit
    · cases hinit
      exact hok₁
    split at hinit
    · cases hinit
      exact hok₁
    split at hinit
    · cases hinit
    · cases hinit
  · rename_i br u₁ hinit
    cases h
    split at hinit
    · cases hinit
    split at hinit
    · cases hinit
    split at hinit
    · cases hinit
    rename_i brId u₂ hid
    cases hinit
    have hu₁ : u₁.siBranch = a.2.1.siBranch := by
      unfold auNewBrId at hid
      split at hid
      · cases hid
      · cases hid
        rfl
    intro b hb
    rcases List.mem_or_eq_of_mem_set hb with hmem | heq
    · have := mem_of_mem_memmove hmem
      rw [hu₁] at this
      exact hok₁ b this
    · obtain rfl := Option.some.inj heq
      cases hperm : auBrWritable add.perm with
      | true => rfl
      | false => rfl

theorem auBrDel_among {u u' : UnionSb} {hRoot : HRoot} {brCount : Nat} {busy : Int} {remount : Bool} {err : Int}
    (h : auBrDel u hRoot brCount busy remount = .ok (err, u')) : Among u' u := by
  have hremoved : ∀ k, Among (removeBranch u k) u := by
    intro k br hbr
    rcases List.mem_or_eq_of_mem_set hbr with hmem | heq
    · split at hmem
      · exact mem_of_mem_memmove hmem
      · exact hmem
    · cases heq
  unfold auBrDel at h
  dsimp only at h
  split at h
  · cases h
    exact fun _ hbr => hbr
  split at h
  · cases h
    exact fun _ hbr => hbr
  split at h
  · cases h
  split at h
  · cases h
    exact fun _ hbr => hbr
  split at h
  · cases h
    exact fun _ hbr => hbr
  split at h
  · split at h
    · cases h
    · cases h
      exact hremoved _
  · cases h
    exact hremoved _

/-- **What holds in a run**: the arrays are in line, and `br_wbr` is there iff the branch is writable. -/
def WbrInv (cfg : BrConfig) (s : WbrSb) : Prop := (∃ L, InLine cfg s.union L) ∧ WbrOk s.union

theorem wbrAdd_inv {env : WhEnv} {add : AuOptAdd} {xino : Bool} {xinoBr : Int} {mem : Kmem} {remount : Bool}
    {err : Int} (h : wbrAdd cfg fs env s add xino xinoBr mem remount = .ok (err, s')) (hinv : WbrInv cfg s) :
    WbrInv cfg s' := by
  obtain ⟨⟨L, hline⟩, hok⟩ := hinv
  unfold wbrAdd at h
  dsimp only at h
  split at h
  · cases h
  rename_i whInit names wbr _
  split at h
  · cases h
  rename_i err₁ union hadd
  cases h
  obtain ⟨err', u', hadd', L', -, hline'⟩ := auBrAdd_spec fs hline add ⟨whInit, xino, xinoBr⟩ mem remount
  rw [hadd] at hadd'
  cases hadd'
  exact ⟨⟨L', hline'⟩, auBrAdd_wbrOk hadd hok⟩

theorem wbrDel_inv {env : WhEnv} {hRoot : HRoot} {brCount : Nat} {busy : Int} {remount : Bool} {err : Int}
    (h : wbrDel env s hRoot brCount busy remount = .ok (err, s')) (hinv : WbrInv cfg s) : WbrInv cfg s' := by
  obtain ⟨⟨L, hline⟩, hok⟩ := hinv
  unfold wbrDel at h
  dsimp only at h
  split at h
  · cases h
  rename_i err₁ union hdel
  have hdone : WbrInv cfg { s with union := union } := by
    obtain ⟨err', u', hdel', L', -, hline'⟩ := auBrDel_spec hline hRoot brCount busy remount
    rw [hdel] at hdel'
    cases hdel'
    exact ⟨⟨L', hline'⟩, fun br hbr => hok br (auBrDel_among hdel br hbr)⟩
  split at h
  · cases h
    exact hdone
  rename_i hreach
  split at h
  · cases h
  rename_i br hsbr
  split at h
  · cases h
    exact hdone
  rename_i hwh
  split at h
  · -- the branch is busy, and its dentries come back
    rcases auFindDbindex_spec hline hRoot with hnone | ⟨k, m, hk, hm, -⟩
    · exact absurd (Or.inl (by rw [hnone]; decide)) hreach
    have hlt : k < L.length := (List.getElem?_eq_some_iff.mp hm).1
    obtain ⟨m', hm', hsbr'⟩ := hline.sbr hlt
    obtain rfl := Option.some.inj (hm.symm.trans hm')
    rw [hk, Int.toNat_natCast] at hsbr h
    obtain rfl := Except.ok.inj (hsbr'.symm.trans hsbr)
    have hbranch := hok m.branch (List.mem_of_getElem? (hline.slot hm))
    obtain ⟨bytes, hbytes⟩ : ∃ bytes, m.branch.brWbr = some bytes := by
      cases hw : m.branch.brWbr with
      | none => exact absurd (Or.inl (by rw [hw]; rfl)) hwh
      | some bytes => exact ⟨bytes, rfl⟩
    have hperm : auBrWritable m.branch.brPerm = true := by rw [← hbranch, hbytes]; rfl
    obtain ⟨rerr, names', hinit, -⟩ := auBrInitWh_writable env (s.names hRoot) hperm
      (Function.update s.wbrWh hRoot noWbrWh hRoot)
    have hwbr : ({ s with wbrWh := Function.update s.wbrWh hRoot noWbrWh } : WbrSb).wbr m.branch hRoot =
        some (Function.update s.wbrWh hRoot noWbrWh hRoot) := by
      rw [WbrSb.wbr, hbytes]
      rfl
    rw [hwbr, hinit] at h
    cases h
    exact ⟨⟨_, hline.setBranch hm rfl rfl⟩, hok.set hperm.symm⟩
  · cases h
    exact hdone

/-- One step. -/
theorem WbrInv.step {e : WbrEvent} (hinv : WbrInv cfg s) (hkeeps : KeepsWbr fs s e)
    (hs : WbrStep cfg fs s e s') : WbrInv cfg s' := by
  cases hs with
  | add h => exact wbrAdd_inv h hinv
  | del h => exact wbrDel_inv h hinv
  | @mod _ env memory mod remount err upd h =>
    obtain ⟨⟨L, hline⟩, hok⟩ := hinv
    obtain ⟨err', upd', s₁, hmod, hnext, -, -⟩ := auBrMod_spec hline hok fs env memory mod remount
    rw [h] at hmod
    cases hmod
    exact hnext hkeeps
  | opened => exact hinv

/-! ## `verify_opts` -/

theorem verifyFrom_returns (env : Nat → WhEnv) {n bindex : Nat} (hline : InLine cfg s.union L)
    (hok : WbrOk s.union) (hn : bindex + n = L.length) : ∃ r, verifyFrom env n bindex s = .ok r := by
  induction n generalizing bindex s L with
  | zero => exact ⟨_, rfl⟩
  | succ n ih =>
    obtain ⟨m, hm, hsbr⟩ := hline.sbr (show bindex < L.length by omega)
    have hroot : s.union.diHdentry.getD bindex none = some m.root := by
      obtain ⟨rest, hrest⟩ := hline.diHdentry
      rw [← hrest, List.getD_eq_getElem?_getD,
        List.getElem?_append_left (by rw [List.length_map]; omega), List.getElem?_map, hm]
      rfl
    have hbranch := hok m.branch (List.mem_of_getElem? (hline.slot hm))
    unfold verifyFrom
    rw [hsbr, hroot]
    dsimp only
    by_cases hskip : verifySkip (env bindex).doPlink m.branch.brPerm (s.wbr m.branch m.root) = true
    · rw [if_pos hskip]
      exact ih hline hok (by omega)
    · rw [if_neg hskip]
      by_cases hperm : auBrWritable m.branch.brPerm = true
      · obtain ⟨bytes, hbytes⟩ := Option.isSome_iff_exists.mp (hbranch.trans hperm)
        have hwbr : s.wbr m.branch m.root = some (s.wbrWh m.root) := by
          rw [WbrSb.wbr, hbytes]
          rfl
        obtain ⟨err, names', wh, hinit⟩ := auWhInit_some (env bindex) (s.names m.root) hperm (s.wbrWh m.root)
        have hfree : ¬ (err = 0 ∧ ¬ auBrWritable m.branch.brPerm = true ∧
            (some (s.wbrWh m.root)).isSome = true) := fun h => h.2.1 hperm
        rw [hwbr, hinit]
        dsimp only
        rw [if_neg hfree]
        split
        · exact ⟨_, rfl⟩
        · exact ih (hline.setBranch hm rfl rfl) (hok.set hperm.symm) (by rw [List.length_set]; omega)
      · -- a read-only branch has no `br_wbr`, and is passed over
        have hnone : m.branch.brWbr = none := by
          rw [Bool.eq_false_iff.mpr hperm] at hbranch
          exact Option.not_isSome_iff_eq_none.mp (by rw [hbranch]; exact Bool.false_ne_true)
        refine absurd ?_ hskip
        rw [WbrSb.wbr, hnone]
        cases hp : m.branch.brPerm with
        | rw => exact absurd (by rw [hp]; rfl) hperm
        | rwNoLinkWh => exact absurd (by rw [hp]; rfl) hperm
        | ro => rfl
        | rr => rfl
        | roWh => rfl
        | rrWh => rfl

/-- `verify_opts` comes back. -/
theorem verifyOpts_returns (msRdonly : Bool) (env : Nat → WhEnv) (hinv : WbrInv cfg s)
    (hbend : 0 ≤ s.union.siBend) : ∃ r, verifyOpts msRdonly env s = .ok r := by
  obtain ⟨⟨L, hline⟩, hok⟩ := hinv
  have hlen := hline.siBend
  have hfrom := verifyFrom_returns env hline hok (show 0 + (s.union.siBend + 1).toNat = L.length by omega)
  obtain ⟨m, -, hsbr⟩ := hline.sbr (show 0 < L.length by omega)
  unfold verifyOpts
  cases msRdonly with
  | true => exact hfrom
  | false =>
    rw [if_neg Bool.false_ne_true, hsbr]
    exact hfrom

/-- **Every run in which no change drops what it does not restore**: `br_wbr` is there iff the branch is
    writable, and `verify_opts` comes back.  Of the next change of a permission, a failure leaves the branch as it
    was iff it does not drop either. -/
theorem run_mod_kept {es : List WbrEvent} (cfg : BrConfig) (fs : LowerFs) (names : HRoot → WhNames)
    (files : List AuFile)
    (hrun : Run (Guarded (WbrStep cfg fs) (KeepsWbr fs)) (WbrSb.unmounted names files) es s) :
    (∀ br, some br ∈ s.union.siBranch → (br.brWbr ≠ none ↔ auBrWritable br.brPerm = true)) ∧
    (0 ≤ s.union.siBend → ∀ msRdonly env, ∃ r, verifyOpts msRdonly env s = .ok r) ∧
    ∀ env memory mod remount,
      (∀ err upd s', auBrMod fs env memory s mod remount = .ok (err, upd, s') → err ≠ 0 → ModKept mod.hRoot s s') ↔
        ¬ ModDrops fs env s mod := by
  have hstart : WbrInv cfg (WbrSb.unmounted names files) := by
    refine ⟨⟨[], inLine_unmounted⟩, fun br hbr => ?_⟩
    cases List.mem_singleton.mp hbr
  have hinv : WbrInv cfg s := hrun.inv hstart fun s e s' h hs => h.step hs.1 hs.2
  refine ⟨fun br hbr => ?_, fun hbend msRdonly env => verifyOpts_returns msRdonly env hinv hbend,
    fun env memory mod remount => ?_⟩
  · rw [← hinv.2 br hbr, Option.isSome_iff_ne_none]
  · obtain ⟨⟨L, hline⟩, hok⟩ := hinv
    obtain ⟨err, upd, s', hmod, -, hkept, hdropped⟩ := auBrMod_spec hline hok fs env memory mod remount
    constructor
    · intro hall hd
      obtain ⟨herr, hnot⟩ := hdropped hd
      exact hnot (hall err upd s' hmod herr)
    · intro hd err' upd' s₁ hmod' herr
      rw [hmod] at hmod'
      cases hmod'
      exact hkept hd herr

end

/-! ## A mapped file -/

/-- Lower operations that are successful, on a file system with links, and plink. -/
def whFine : WhEnv := ⟨0, 0, 0, true, true, 0, 0, 0, 0, 0, 0⟩

/-- Roots without the entries. -/
def freshRoots : HRoot → WhNames := fun _ => ⟨.neg, .neg, .neg⟩

/-- A writable branch is added. -/
def addRw (n : Nat) : WbrEvent := .add whFine ⟨0, .rw, plainRoot n⟩ false 0 [] false

/-- After that. -/
def oneRw (files : List AuFile) : WbrSb :=
  { union := mountedOne
    names := Function.update freshRoots (plainRoot 1) ⟨.reg, .dir, .dir⟩
    wbrWh := Function.update (fun _ => noWbrWh) (plainRoot 1) ⟨true, true, true⟩
    files }

theorem oneRw_step (files : List AuFile) :
    WbrStep branchMax127 plainFs (WbrSb.unmounted freshRoots files) (addRw 1) (oneRw files) := by
  have h : wbrAdd branchMax127 plainFs whFine (WbrSb.unmounted freshRoots files) ⟨0, .rw, plainRoot 1⟩ false 0 []
      false = .ok (0, oneRw files) := rfl
  exact .add h

theorem run_mod_kept_one :
    (∀ br, some br ∈ (oneRw []).union.siBranch → (br.brWbr ≠ none ↔ auBrWritable br.brPerm = true)) ∧
    (0 ≤ (oneRw []).union.siBend → ∀ msRdonly env, ∃ r, verifyOpts msRdonly env (oneRw []) = .ok r) ∧
    ∀ env memory mod remount,
      (∀ err upd s', auBrMod plainFs env memory (oneRw []) mod remount = .ok (err, upd, s') → err ≠ 0 →
        ModKept mod.hRoot (oneRw []) s') ↔ ¬ ModDrops plainFs env (oneRw []) mod :=
  run_mod_kept branchMax127 plainFs freshRoots []
    (Run.nil.snoc ⟨show KeepsWbr plainFs _ (addRw 1) from trivial, oneRw_step []⟩)

/-- A file that is open for writing, and one that is mapped as well. -/
def openFiles : List AuFile := [⟨true, true, true, 0, false, true⟩, ⟨true, true, true, 0, true, true⟩]

def toRo : AuOptMod := ⟨.ro, plainRoot 1⟩

/-- After the change to a read-only branch has failed. -/
def afterToRo : WbrSb :=
  { union := { mountedOne with siBranch := [some ⟨1, .rw, ⟨1, 1000⟩, none⟩] }
    names := Function.update (oneRw openFiles).names (plainRoot 1) ⟨.neg, .neg, .neg⟩
    wbrWh := (oneRw openFiles).wbrWh
    files := [⟨true, true, true, 0, false, false⟩, ⟨true, true, true, 0, true, true⟩] }

/-- **A mapped file.**  The change fails with EBUSY.  The branch is writable as before, `br_wbr` is freed, the
    file that comes first cannot be written any more, and `verify_opts` reads a null pointer. -/
theorem mapped_file :
    auBrMod plainFs whFine true (oneRw openFiles) toRo true = .ok (-EBUSY, false, afterToRo) ∧
    ¬ ModKept toRo.hRoot (oneRw openFiles) afterToRo ∧
    Run (WbrStep branchMax127 plainFs) (WbrSb.unmounted freshRoots openFiles)
      [addRw 1, .mod whFine true toRo true] afterToRo ∧
    auSbr afterToRo.union 0 = .ok ⟨1, .rw, ⟨1, 1000⟩, none⟩ ∧
    verifyOpts false (fun _ => whFine) afterToRo = .error .null := by
  have hmod : auBrMod plainFs whFine true (oneRw openFiles) toRo true = .ok (-EBUSY, false, afterToRo) := rfl
  refine ⟨hmod, fun h => ?_, (Run.nil.snoc (oneRw_step openFiles)).snoc (.mod hmod), rfl, rfl⟩
  exact absurd h.files (by decide)

end KernelPatches.Aufs
