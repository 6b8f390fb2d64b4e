/-
  aufs: what a failed `rename` leaves.

  The steps of `do_rename` that are undone wrongly:

  * the watch of a destination directory is suspended, and the one of the SOURCE is resumed;
  * a source that was copied up over the destination stays there;
  * a directory that was copied up under the new name would have to be removed, and is unlinked;
  * a destination that was replaced is gone;
  * a whiteout of the source that had been there before is removed like a new one;
  * `au_update_dbstart` looks for the first positive hidden dentry, where the call has moved `di_bstart`, or
    finds the negative one that a copy-up has turned positive;
  * parent directories that were copied up for the call stay.

  `failed_rename_restores_iff` is the list in the order of the steps, for each step with what comes before it:
  one lemma a step, on top of what the renaming (`Renamed`) and the ladder leave.
-/
import KernelPatches.Aufs.RenameRevert

namespace KernelPatches.Aufs

open Lib Lib.Contents

/-! ## The renaming and its undoing -/

section Renaming

variable {env : RenEnv} {before : Bool → Dinfo} {s m t r : RenState} {err : Int}

/-- **The source is under the destination's name**, where it was not in the state `m`: renamed, or copied up. -/
structure Renamed (env : RenEnv) (m t : RenState) : Prop where
  elsewhere : SameElsewhere env.btgt m.parents t.parents
  thargs : t.thargs = m.thargs
  hDst : t.hDst = m.hDst
  whSrc : t.whSrc = m.whSrc
  tmpName : t.tmpName = m.tmpName
  srcWatch : t.srcWatch = m.srcWatch
  dstWatch : t.dstWatch = m.dstWatch
  how : (t.bycpup = false ∧ m.src.diBstart = env.btgt ∧ t.src.diBstart = env.btgt ∧ t.dst = m.dst ∧
      m.contents env.btgt env.srcKey ≠ none ∧
      t.contents env.btgt = (m.contents env.btgt).move env.srcKey env.dstKey) ∨
    (t.bycpup = true ∧ env.btgt < env.bstartSrc ∧ m.src.diBstart = env.bstartSrc ∧
      (∃ hd : HDentry, hd.inode.isSome = true ∧ t.dst = m.dst.setHDptr env.btgt (some hd)) ∧
      ∃ v, (v.mode = sIfdir ↔ env.isdir = true) ∧
        t.contents env.btgt = (m.contents env.btgt).put env.dstKey v)

theorem Ready.elsewhere (h : Ready env s m) : SameElsewhere env.btgt s.parents m.parents := by
  cases h with
  | plain _ h _ => exact h.elsewhere
  | aside _ h _ => exact h.elsewhere
  | besides _ h _ _ => exact h.elsewhere

theorem Ready.whSrc (h : Ready env s m) : m.whSrc = env.whSrc := by
  cases h with
  | plain _ h _ => exact h.whSrc
  | aside _ h _ => exact h.whSrc
  | besides _ h _ _ => exact h.whSrc

section Prepared

variable (hp : Prepared env before s)

include hp

/-- The entry of the source, where it starts on the branch. -/
theorem Ready.srcThere (h : Ready env s m) (hstart : m.src.diBstart = env.btgt) :
    m.contents env.btgt env.srcKey ≠ none := by
  have hsw := @srcKey_ne_whKey env
  cases h with
  | plain _ h _ =>
    rw [h.at hsw]
    rw [h.srcStart, hp.srcStart] at hstart
    exact hp.srcHere (by omega)
  | aside _ h _ =>
    obtain ⟨n, hn⟩ := h.tmp
    rw [h.srcStart, hp.srcStart] at hstart
    have hu := congrFun h.contents env.srcKey
    rw [RenEnv.undoWh_of_ne hsw, move_of_ne hp.keys (by rw [hn]; exact Ne.symm (hp.tmpKey_ne_srcKey n)),
      RenEnv.undoWh_of_ne hsw] at hu
    rw [hu]
    exact hp.srcHere (by omega)
  | besides _ h _ _ =>
    obtain ⟨new, hnew⟩ := h.contents
    have hu := congrFun hnew env.srcKey
    rw [RenEnv.undoWh_of_ne hsw, put_self] at hu
    rw [hu]
    exact Option.some_ne_none new

/-- Where the source starts, if it does not start on the branch, and what it is. -/
theorem Ready.srcBelow (h : Ready env s m) (hstart : m.src.diBstart ≠ env.btgt) :
    m.src.diBstart = env.bstartSrc ∧ env.bstartSrc ≠ env.btgt ∧ (env.btgt < env.bstartSrc →
      thargsOf env s = true ∨ s.contents env.btgt env.dstKey = none) ∧
      (env.btgt < env.bstartSrc → ∀ hSrc, (m.src.hDptr env.bstartSrc).bind HDentry.inode = some hSrc →
        (hSrc.mode = sIfdir ↔ env.isdir = true)) := by
  have hmode : SrcKept s m → ∀ hSrc, (m.src.hDptr env.bstartSrc).bind HDentry.inode = some hSrc →
      (hSrc.mode = sIfdir ↔ env.isdir = true) := by
    rintro ⟨bwh, hsrc⟩ hSrc hread
    obtain ⟨hd, hSrc', hptr, hinode, hmode⟩ := hp.srcThere
    rw [hsrc] at hread
    have hread : (s.src.hDptr env.bstartSrc).bind HDentry.inode = some hSrc := hread
    rw [hptr, Option.bind_some, hinode] at hread
    rw [← Option.some.inj hread]
    exact hmode
  cases h with
  | plain _ h hno =>
    have hs := h.srcStart.trans hp.srcStart
    have hne : env.bstartSrc ≠ env.btgt := fun hc => hstart (hs.trans (by rw [hc]))
    refine ⟨hs, hne, fun _ => Or.inr ?_, fun _ => hmode h.src⟩
    by_contra hat
    exact hno ⟨hat, hne⟩
  | aside hin h hsrc =>
    have hs := h.srcStart.trans hp.srcStart
    exact ⟨hs, fun hc => hstart (hs.trans (by rw [hc])), fun _ => Or.inl hin, fun _ => hmode hsrc⟩
  | besides _ h _ hne =>
    have hs := h.srcStart
    by_cases hlt : env.btgt < env.bstartSrc
    · rw [if_pos hlt] at hs
      exact absurd hs hstart
    · rw [if_neg hlt] at hs
      exact ⟨hs, hne, fun hc => absurd hc hlt, fun hc => absurd hc hlt⟩

/-- **The renaming done.** -/
theorem Ready.renamed (h : Ready env s m) (hren : renameOrCpup env m = some (0, t)) :
    Renamed env m t ∧ (t.needDiropq = true → env.isdir = true) := by
  have hdir : HasDir (m.parents env.dstDir) env.btgt := (h.elsewhere.dirs env.dstDir).mpr (hp.dirs env.dstDir (Or.inr rfl))
  by_cases hstart : m.src.diBstart = env.btgt
  · obtain ⟨nd, hnd, -, hok⟩ := renameOrCpup_renames hdir hstart hren
    obtain ⟨ps, io, ht, helse, hcont⟩ := hok rfl
    have hthere := h.srcThere hp hstart
    have hcont := hcont hthere
    subst ht
    exact ⟨⟨helse, rfl, rfl, rfl, rfl, rfl, rfl, Or.inl ⟨rfl, hstart, hstart, rfl, hthere, hcont⟩⟩, hnd⟩
  · obtain ⟨hsrc, hne, -, hmode⟩ := h.srcBelow hp hstart
    obtain ⟨hlt, hd, hSrc, nd, hnd, hread, -, hok⟩ := renameOrCpup_copies hdir hsrc hne hren
    obtain ⟨ps, src, io, -, ht, helse, hcont⟩ := hok rfl
    subst ht
    refine ⟨⟨helse, rfl, rfl, rfl, rfl, rfl, rfl, Or.inr ⟨rfl, hlt, hsrc, ⟨_, rfl, rfl⟩, _, ?_, hcont⟩⟩, hnd⟩
    exact hmode hlt hSrc hread

end Prepared

/-- What the source is renamed to has its name. -/
theorem Renamed.dstThere (h : Renamed env m t) : t.contents env.btgt env.dstKey ≠ none := by
  rcases h.how with ⟨-, -, -, -, hthere, hcont⟩ | ⟨-, -, -, -, v, -, hcont⟩
  · rw [hcont, move_dst]
    exact hthere
  · rw [hcont, put_self]
    exact Option.some_ne_none v

theorem Renamed.starts_here (h : Renamed env m t) (hby : t.bycpup = false) : m.src.diBstart = env.btgt := by
  rcases h.how with ⟨-, hms, -⟩ | ⟨hc, -⟩
  · exact hms
  · rw [hby] at hc
    cases hc

/-- A copy-up is from a branch below. -/
theorem Renamed.copied (h : Renamed env m t) (hby : t.bycpup = true) :
    env.btgt < env.bstartSrc ∧ m.src.diBstart = env.bstartSrc := by
  rcases h.how with ⟨hc, -⟩ | ⟨-, hlt, hms, -⟩
  · rw [hby] at hc
    cases hc
  · exact ⟨hlt, hms⟩

/-- Other answers to come make no difference. -/
theorem Renamed.io (h : Renamed env m t) (io : List Int) : Renamed env m { t with io := io } := { h with }

/-- The marker made and removed. -/
theorem withEntries_eraseName {dir : HInode} (hfree : dir.find whDiropq = none) :
    (dir.withEntries ((whDiropq, newFile) :: dir.entries)).withEntries
      (eraseName whDiropq (dir.withEntries ((whDiropq, newFile) :: dir.entries)).entries) = dir := by
  have hskip : eraseName whDiropq ((whDiropq, newFile) :: dir.entries) = eraseName whDiropq dir.entries :=
    List.filter_cons_of_neg (by rw [decide_eq_true_eq]; exact not_not_intro rfl)
  show (dir.withEntries _).withEntries (eraseName whDiropq ((whDiropq, newFile) :: dir.entries)) = dir
  rw [hskip, eraseName_of_lookup hfree]
  cases dir
  rfl

/-- **The directory made opaque, and no longer**: as after the renaming. -/
theorem Renamed.outDiropq (h : Renamed env m t) (hdir : HasDir (t.parents env.dstDir) env.btgt)
    (hopq : auRenDiropq env t = some (0, r)) {io : List Int} (hio : Willing io) :
    ∃ t', Renamed env m t' ∧ Willing t'.io ∧
      outDiropq env { r with io := io } = outRename env t' := by
  obtain ⟨hno, hyes⟩ := auRenDiropq_spec hdir hopq
  cases hnd : t.needDiropq with
  | false =>
    obtain ⟨-, rfl⟩ := hno hnd
    refine ⟨_, h.io io, hio, ?_⟩
    unfold KernelPatches.Aufs.outDiropq
    rw [if_neg (by dsimp only; rw [hnd]; exact Bool.false_ne_true)]
  | true =>
    obtain ⟨dir, ps, io', hat, hfree, hr, helse, hcont⟩ := (hyes hnd).2 rfl
    subst hr
    have hout : KernelPatches.Aufs.outDiropq env { t with
        parents := ps, io := io, src := { t.src with diBdiropq := env.btgt } } =
        outRename env (auRenRevDiropq env { t with
          parents := ps, io := io, src := { t.src with diBdiropq := env.btgt } }) := by
      unfold KernelPatches.Aufs.outDiropq
      rw [if_pos hnd]
    -- the directory with the marker, and without it again
    have hat' : RenState.contents { t with
        parents := ps, io := io, src := { t.src with diBdiropq := env.btgt } } env.btgt env.dstKey =
        some (dir.withEntries ((whDiropq, newFile) :: dir.entries)) := by
      refine (congrFun hcont env.dstKey).trans ?_
      exact put_self
    obtain ⟨ps', io'', bdiropq, hrun, hio'', helse', hcont'⟩ := @auRenRevDiropq_spec env
      { t with parents := ps, io := io, src := { t.src with diBdiropq := env.btgt } } hio _ hat'
    rw [hrun] at hcont' hout
    refine ⟨{ t with
        parents := ps', io := io'', src := { { t.src with diBdiropq := env.btgt } with diBdiropq := bdiropq } },
      ⟨h.elsewhere.trans (helse.trans helse'), h.thargs, h.hDst, h.whSrc, h.tmpName, h.srcWatch, h.dstWatch, ?_⟩,
      hio'', hout⟩
    have hsame : RenState.contents { t with
        parents := ps', io := io'', src := { { t.src with diBdiropq := env.btgt } with diBdiropq := bdiropq } }
        env.btgt = t.contents env.btgt := by
      refine hcont'.trans ?_
      rw [withEntries_eraseName hfree]
      have hput : RenState.contents { t with
          parents := ps, io := io, src := { t.src with diBdiropq := env.btgt } } env.btgt =
          (t.contents env.btgt).put env.dstKey (dir.withEntries ((whDiropq, newFile) :: dir.entries)) := hcont
      rw [hput, put_put, put_eq_self hat]
    rcases h.how with ⟨hby, hm, ht, hdst, hthere, hc⟩ | ⟨hby, hne, hm, hdst, v, hmode, hc⟩
    · exact Or.inl ⟨hby, hm, ht, hdst, hthere, hsame.trans hc⟩
    · exact Or.inr ⟨hby, hne, hm, hdst, v, hmode, hsame.trans hc⟩

section Prepared

variable (hp : Prepared env before s)

include hp

/-- A file is not moved aside. -/
theorem Prepared.file_of_plain (hin : thargsOf env s = false) (hat : s.contents env.btgt env.dstKey ≠ none) :
    env.isdir = false := by
  cases hd : env.isdir with
  | false => rfl
  | true =>
    have hc := hp.thargs_iff.mpr ⟨hd, hat⟩
    rw [hin] at hc
    cases hc

/-- **Renamed back**, from `vfs_rename`. -/
theorem Renamed.renamed_back (hm : Ready env s m) (h : Renamed env m t) (hio : Willing t.io) (hby : t.bycpup = false) :
    RenRestored env before s (afterError env (outRename env t)) ↔
      DirsThere env before ∧ WhSrcNew env s ∧ NoWatch env s ∧
      (env.isdir = false → s.contents env.btgt env.dstKey = none) ∧
      env.bstartSrc = env.btgt ∧ (auUpdateDbstart s.dst).diBstart = env.bstartDst := by
  rcases h.how with ⟨-, hms, hts, hdst, hthere, hcont⟩ | ⟨hc, -⟩
  case inr =>
    rw [hby] at hc
    cases hc
  have hdir : HasDir (t.parents false) env.btgt :=
    (h.elsewhere.dirs false).mpr ((hm.elsewhere.dirs false).mpr (hp.dirs false (Or.inl rfl)))
  obtain ⟨ps, io, hrun, hio', helse, hback⟩ := auRenRevRename_spec hio hdir h.dstThere
  rw [hcont, move_back hp.keys, hrun] at hback
  have hout : outRename env t = outWhtmp env { t with parents := ps, io := io } := by
    unfold outRename
    rw [if_neg (by rw [hby]; exact Bool.false_ne_true), hrun]
  have helse' : SameElsewhere env.btgt s.parents ps := hm.elsewhere.trans (h.elsewhere.trans helse)
  have hwh : t.whSrc = env.whSrc := h.whSrc.trans hm.whSrc
  rw [hout]
  cases hm with
  | plain hin ha hno =>
    have heq : env.bstartSrc = env.btgt := by
      rw [ha.srcStart, hp.srcStart] at hms
      omega
    have hsw := outWhtmp_swept (t := { t with parents := ps, io := io }) hio' hwh (h.thargs.trans (ha.thargs.trans hin))
    by_cases hat : s.contents env.btgt env.dstKey = none
    · have hdst' : t.dst = s.dst := hdst.trans ha.dst
      have hcont' : env.undoWh (RenState.contents { t with parents := ps, io := io } env.btgt) =
          env.undoWh (s.contents env.btgt) := by
        rw [hback, RenEnv.undoWh_drop, ha.contents, drop_eq_self_iff, RenEnv.undoWh_of_ne hp.dstKey_ne_whKey]
        exact hat
      have h0 : 0 ≤ t.dst.diBstart := by
        rw [hdst']
        exact hp.dst_nonneg
      refine (hsw.restored_iff hp helse' hcont' (h.srcWatch.trans ha.srcWatch) (h.dstWatch.trans ha.dstWatch)
        h0).trans ?_
      show _ ∧ _ ∧ t.src.diBstart = _ ∧ (auUpdateDbstart t.dst).diBstart = _ ↔ _
      rw [hts, heq, hdst']
      constructor
      · rintro ⟨hthere, hnew, -, hd⟩
        exact ⟨hthere, hnew, fun hc => absurd (hin.symm.trans hc) Bool.false_ne_true, fun _ => hat, rfl, hd⟩
      · rintro ⟨hthere, hnew, -, -, -, hd⟩
        exact ⟨hthere, hnew, rfl, hd⟩
    · refine iff_of_false ?_ fun hc => hat (hc.2.2.2.1 (hp.file_of_plain hin hat))
      refine hsw.not_restored hp helse' env.dstKey (Or.inr rfl) hp.dstKey_ne_whKey fun hc => hat ?_
      rw [← hc, hback]
      exact drop_self
  | aside hin ha hsrc =>
    have heq : env.bstartSrc = env.btgt := by
      rw [ha.srcStart, hp.srcStart] at hms
      omega
    have hisdir := (hp.thargs_iff.mp hin).1
    have ha' : Aside env s { t with parents := ps, io := io } := by
      refine ⟨helse', ?_, ?_, ?_, h.thargs.trans ha.thargs, h.hDst.trans ha.hDst, hwh, hts.trans ?_, ?_,
        h.srcWatch.trans ha.srcWatch, h.dstWatch.trans ha.dstWatch⟩
      · rw [h.tmpName]
        exact ha.tmp
      · rw [h.tmpName]
        exact ha.free
      · obtain ⟨n, hn⟩ := ha.tmp
        refine (congrArg env.undoWh hback).trans ?_
        rw [h.tmpName, RenEnv.undoWh_drop, ha.contents, drop_eq_self_iff]
        exact move_src (by rw [hn]; exact Ne.symm (tmpKey_ne_dstKey n))
      · rw [hp.srcStart, heq]
      · show t.dst.setHDptr env.btgt s.hDentryDst = s.dst
        rw [hdst]
        exact ha.dst
    rw [ha'.restored_iff hp hio' hin]
    constructor
    · rintro ⟨hthere, hnew, hno, hd⟩
      exact ⟨hthere, hnew, hno, fun hc => absurd (hisdir.symm.trans hc) (by decide), heq, hd⟩
    · rintro ⟨hthere, hnew, hno, -, -, hd⟩
      exact ⟨hthere, hnew, hno, hd⟩
  | besides hin hov hat hne =>
    have hsw := outWhtmp_swept (t := { t with parents := ps, io := io }) hio' hwh (h.thargs.trans hov.thargs)
    refine iff_of_false ?_ fun hc => hne hc.2.2.2.2.1
    refine hsw.not_restored hp helse' env.dstKey (Or.inr rfl) hp.dstKey_ne_whKey fun hc => hat ?_
    rw [← hc, hback]
    exact drop_self

/-- **The copy of a directory** is not unlinked: it stays, or the old directory keeps its temporary name. -/
theorem Renamed.dir_copied_back (hm : Ready env s m) (h : Renamed env m t) (hio : Willing t.io)
    (hby : t.bycpup = true) (hisdir : env.isdir = true) :
    ¬ RenRestored env before s (afterError env (outRename env t)) := by
  rcases h.how with ⟨hc, -⟩ | ⟨-, hlt, -, -, v, hmode, hcont⟩
  case inl =>
    rw [hby] at hc
    cases hc
  have hwh : t.whSrc = env.whSrc := h.whSrc.trans hm.whSrc
  have helse := hm.elsewhere.trans h.elsewhere
  have hat : t.contents env.btgt env.dstKey = some v := by
    rw [hcont]
    exact put_self
  obtain ⟨src, -, hrun⟩ := (@auRenRevCpup_spec env t hio).1 v hat (hmode.mpr hisdir)
  have hout : outRename env t = outWhtmp env { t with src := src } := by
    unfold outRename
    rw [if_pos hby, hrun]
  rw [hout]
  have hsw := outWhtmp_blocked (t := { t with src := src }) hio hwh
    (show t.contents env.btgt env.dstKey ≠ none from h.dstThere)
  cases hm with
  | plain hin ha hno =>
    refine hsw.not_restored hp helse env.dstKey (Or.inr rfl) hp.dstKey_ne_whKey fun hc => hno ⟨?_, by omega⟩
    rw [← hc]
    exact h.dstThere
  | aside hin ha hsrc =>
    obtain ⟨n, hn⟩ := ha.tmp
    have htw : env.tmpKey m.tmpName ≠ env.whKey := by
      rw [hn]
      exact hp.tmpKey_ne_whKey n
    have htd : env.tmpKey m.tmpName ≠ env.dstKey := by
      rw [hn]
      exact tmpKey_ne_dstKey n
    refine hsw.not_restored hp helse (env.tmpKey m.tmpName) (Or.inr rfl) htw ?_
    -- what the destination was has the temporary name
    have htmp : t.contents env.btgt (env.tmpKey m.tmpName) = s.contents env.btgt env.dstKey := by
      have hu := congrFun ha.contents (env.tmpKey m.tmpName)
      rw [RenEnv.undoWh_of_ne htw, move_dst, RenEnv.undoWh_of_ne hp.dstKey_ne_whKey] at hu
      rw [hcont, put_of_ne htd, hu]
    rw [ha.free]
    intro hc
    exact (hp.thargs_iff.mp hin).2 (htmp.symm.trans hc)
  | besides hin hov hthere hne => exact absurd (hisdir.symm.trans (hp.file_of_plain hin hthere)) (by decide)

/-- **The copy of a file** is unlinked, and its hidden dentry found as the start of the destination. -/
theorem Renamed.file_copied_back (hm : Ready env s m) (h : Renamed env m t) (hio : Willing t.io)
    (hby : t.bycpup = true) (hisdir : env.isdir = false) :
    RenRestored env before s (afterError env (outRename env t)) ↔
      DirsThere env before ∧ WhSrcNew env s ∧ env.btgt = env.bstartDst := by
  rcases h.how with ⟨hc, -⟩ | ⟨-, hlt, hms, ⟨hd, hpos, hdst⟩, v, hmode, hcont⟩
  case inl =>
    rw [hby] at hc
    cases hc
  have hwh : t.whSrc = env.whSrc := h.whSrc.trans hm.whSrc
  have helse := hm.elsewhere.trans h.elsewhere
  have hfile : ∀ w, t.contents env.btgt env.dstKey = some w → w.mode ≠ sIfdir := by
    intro w hw hdir
    rw [hcont, put_self] at hw
    rw [← Option.some.inj hw] at hdir
    exact absurd (hisdir.symm.trans (hmode.mp hdir)) (by decide)
  obtain ⟨ps, src, io, hstart, hrun, hio', helse', hback⟩ := (@auRenRevCpup_spec env t hio).2 hfile
  rw [hcont, drop_put, hrun] at hback
  have hout : outRename env t = outWhtmp env { t with parents := ps, src := src, io := io } := by
    unfold outRename
    rw [if_pos hby, hrun]
  rw [hout]
  cases hm with
  | plain hin ha hno =>
    have hfree : s.contents env.btgt env.dstKey = none := by
      by_contra hc
      exact hno ⟨hc, by omega⟩
    have hsw := outWhtmp_swept (t := { t with parents := ps, src := src, io := io }) hio' hwh
      (h.thargs.trans (ha.thargs.trans hin))
    have hcont' : env.undoWh (RenState.contents { t with parents := ps, src := src, io := io } env.btgt) =
        env.undoWh (s.contents env.btgt) := by
      refine (congrArg env.undoWh hback).trans ?_
      rw [RenEnv.undoWh_drop, ha.contents, drop_eq_self_iff, RenEnv.undoWh_of_ne hp.dstKey_ne_whKey]
      exact hfree
    have hmade : t.dst = s.dst.setHDptr env.btgt (some hd) := by
      rw [hdst, ha.dst]
    have h0 : 0 ≤ t.dst.diBstart := by
      rw [hmade]
      exact hp.dst_nonneg
    have hlinger : (auUpdateDbstart t.dst).diBstart = env.btgt := by
      rw [hmade]
      exact auUpdateDbstart_made hp.dstStart hp.dstEnd hpos
    refine (hsw.restored_iff hp (helse.trans helse') hcont' (h.srcWatch.trans ha.srcWatch)
      (h.dstWatch.trans ha.dstWatch) h0).trans ?_
    show _ ∧ _ ∧ src.diBstart = _ ∧ (auUpdateDbstart t.dst).diBstart = _ ↔ _
    rw [hstart, hlinger]
    constructor
    · rintro ⟨hthere, hnew, -, heq⟩
      exact ⟨hthere, hnew, Int.natCast_inj.mp heq⟩
    · rintro ⟨hthere, hnew, heq⟩
      exact ⟨hthere, hnew, rfl, Int.natCast_inj.mpr heq⟩
  | aside hin ha hsrc => exact absurd ((hp.thargs_iff.mp hin).1.symm.trans hisdir) (by decide)
  | besides hin hov hthere hne =>
    -- the source would have been copied up before
    have hs := hov.srcStart
    rw [if_pos hlt, hms] at hs
    omega

end Prepared

end Renaming

/-! ## The call that fails -/

section Failing

variable {env : RenEnv} {before : Bool → Dinfo} {k : RenStep} {s s₁ t r s' : RenState} {err : Int}

/-- **The ladder is what is left to do.** -/
theorem RenFailsAt.outcome (h : RenFailsAt env k s s₁ r err) :
    aufsRename env s = some (err, afterError env (revert env k r)) := by
  obtain ⟨hrun, hstep, herr⟩ := h
  have hsplit : ∃ rest, renSteps = renSteps.takeWhile (· ≠ k) ++ k :: rest := by
    cases k <;> exact ⟨_, rfl⟩
  obtain ⟨rest, hsplit⟩ := hsplit
  have hfails : runSteps env renSteps s = some (some (k, err), r) := by
    rw [hsplit]
    exact runSteps_fails hstep herr hrun
  unfold aufsRename doRename
  rw [hfails]
  dsimp only
  rw [if_neg herr]
  unfold afterError
  split <;> rfl

/-! ### di_bstart of the destination, by the step -/

theorem dstBack_of_kept (h : (k = .thargs ∨ k = .whSrc) ∧ env.isdir = false ∨ Lingers env k s s₁) :
    DstBack env k s s₁ ↔ env.btgt = env.bstartDst :=
  ⟨fun hb => hb.1 h, fun heq => ⟨fun _ => heq, fun hno => absurd h hno⟩⟩

theorem dstBack_of_looked (h : ¬ ((k = .thargs ∨ k = .whSrc) ∧ env.isdir = false ∨ Lingers env k s s₁)) :
    DstBack env k s s₁ ↔ (auUpdateDbstart s.dst).diBstart = env.bstartDst :=
  ⟨fun hb => hb.2 h, fun heq => ⟨fun hyes => absurd hyes h, fun _ => heq⟩⟩

/-- Past the two first steps, with nothing that lingers, the start is looked for. -/
theorem dstBack_iff (hth : k ≠ .thargs) (hwh : k ≠ .whSrc) (hno : ¬ Lingers env k s s₁) :
    DstBack env k s s₁ ↔ (auUpdateDbstart s.dst).diBstart = env.bstartDst := by
  refine dstBack_of_looked ?_
  rintro (⟨hc | hc, -⟩ | hc)
  · exact hth hc
  · exact hwh hc
  · exact hno hc

theorem not_lingers (hren : k ≠ .rename) (hunl : k ≠ .unlinkWh) : ¬ Lingers env k s s₁ := by
  rintro ⟨-, -, hc | ⟨hc, -⟩⟩
  · exact hunl hc
  · exact hren hc

/-- `di_bstart` of the destination in the two first steps: `do_rename` does not look for it yet. -/
theorem dstBack_early (hk : k = .thargs ∨ k = .whSrc) :
    DstBack env k s s₁ ↔
      (if env.isdir then (auUpdateDbstart s.dst).diBstart else env.btgt) = env.bstartDst := by
  have hno : ¬ Lingers env k s s₁ := by
    rcases hk with rfl | rfl
    · exact not_lingers (by decide) (by decide)
    · exact not_lingers (by decide) (by decide)
  cases hd : env.isdir with
  | true =>
    rw [if_pos rfl]
    refine dstBack_of_looked ?_
    rintro (⟨-, hc⟩ | hc)
    · exact Bool.false_ne_true (hc.symm.trans hd)
    · exact hno hc
  | false =>
    rw [if_neg Bool.false_ne_true, dstBack_of_kept (Or.inl ⟨hk, hd⟩)]
    exact Int.natCast_inj.symm

section Prepared

variable (hp : Prepared env before s)

include hp

/-! ### The first steps -/

/-- Nothing is undone where nothing has been done, but `di_bstart` of a directory is looked for. -/
theorem untouched_restored_iff (hpar : t.parents = s.parents) (hsrc : t.src = s.src) (hdst : t.dst = s.dst)
    (hsw : t.srcWatch = s.srcWatch) (hdw : t.dstWatch = s.dstWatch) :
    RenRestored env before s (afterError env t) ↔ DirsThere env before ∧
      (if env.isdir then (auUpdateDbstart s.dst).diBstart else env.btgt) = env.bstartDst := by
  have helse : SameElsewhere env.btgt s.parents (afterError env t).parents := by
    rw [afterError_parents, hpar]
    exact SameElsewhere.refl _ _
  have hstart : (afterError env t).dst.diBstart =
      if env.isdir then (auUpdateDbstart s.dst).diBstart else env.btgt := by
    unfold afterError
    split
    · show (auUpdateDbstart t.dst).diBstart = _
      rw [hdst]
    · rw [hdst]
      exact hp.dstStart
  rw [restored_iff hp helse (by rw [afterError_srcWatch, hsw]; exact id), afterError_src, afterError_dstWatch,
    hstart, hsrc, hdw]
  constructor
  · rintro ⟨hthere, -, -, hd, -⟩
    exact ⟨hthere, hd⟩
  · rintro ⟨hthere, hd⟩
    refine ⟨hthere, fun p name _ => ?_, hp.srcStart, hd, id⟩
    show entryAt ((afterError env t).parents p) name env.btgt = entryAt (s.parents p) name env.btgt
    rw [afterError_parents, hpar]

theorem thargs_failed (hfail : RenFailsAt env .thargs s s₁ r err) :
    RenRestored env before s (afterError env (revert env .thargs r)) ↔
      DirsThere env before ∧ DstBack env .thargs s s₁ ∧ CanUndo env .thargs s s₁ := by
  obtain ⟨hrun, hstep, herr⟩ := hfail
  cases hrun
  obtain ⟨io, hr, -⟩ := prepareThargs_spec hstep
  have hr := hr herr
  rw [dstBack_early (Or.inl rfl)]
  show RenRestored env before s (afterError env r) ↔ _
  refine (untouched_restored_iff hp ?_ ?_ ?_ ?_ ?_).trans (and_congr_right fun _ => (and_iff_left trivial).symm)
  all_goals rw [hr]

theorem whSrc_failed (hfail : RenFailsAt env .whSrc s s₁ r err) :
    RenRestored env before s (afterError env (revert env .whSrc r)) ↔
      DirsThere env before ∧ DstBack env .whSrc s s₁ ∧ CanUndo env .whSrc s s₁ := by
  obtain ⟨hrun, hstep, herr⟩ := hfail
  obtain ⟨u, hth, hnil⟩ := runSteps_cons (k := .thargs) (l := []) hrun
  cases hnil
  obtain ⟨io, -, hu⟩ := prepareThargs_spec hth
  have hu := hu rfl
  have hdir : HasDir (s₁.parents false) env.btgt := by
    rw [hu]
    exact hp.dirs false (Or.inl rfl)
  obtain ⟨io', hr⟩ := (createWhSrc_spec hdir hstep).1 herr
  rw [hu] at hr
  rw [dstBack_early (Or.inr rfl)]
  show RenRestored env before s (afterError env r) ↔ _
  refine (untouched_restored_iff hp ?_ ?_ ?_ ?_ ?_).trans (and_congr_right fun _ => (and_iff_left trivial).symm)
  all_goals rw [hr]

/-! ### The steps before the renaming -/

theorem whDst_failed (hfail : RenFailsAt env .whDst s s₁ r err) (hio : Willing r.io) :
    RenRestored env before s (afterError env (revert env .whDst r)) ↔
      DirsThere env before ∧ DstBack env .whDst s s₁ ∧ CanUndo env .whDst s s₁ := by
  obtain ⟨hrun, hstep, herr⟩ := hfail
  have ha := (hp.before_whDst hrun).whDst hstep
  rw [dstBack_iff (by decide) (by decide) (not_lingers (by decide) (by decide))]
  refine (ha.restored_iff hp (outWhsrc_swept hio ha.whSrc)).trans (and_congr_right fun _ => ?_)
  exact and_comm

theorem whtmp_failed (hfail : RenFailsAt env .whtmp s s₁ r err) (hio : Willing r.io) :
    RenRestored env before s (afterError env (revert env .whtmp r)) ↔
      DirsThere env before ∧ DstBack env .whtmp s s₁ ∧ CanUndo env .whtmp s s₁ := by
  obtain ⟨hrun, hstep, herr⟩ := hfail
  have ha := (hp.before_whtmp hrun).whtmp_failed hstep herr
  rw [dstBack_iff (by decide) (by decide) (not_lingers (by decide) (by decide))]
  refine (ha.restored_iff hp (outWhdst_swept hio ha.whSrc)).trans (and_congr_right fun _ => ?_)
  exact and_comm

theorem lkupNeg_failed (hfail : RenFailsAt env .lkupNeg s s₁ r err) (hio : Willing r.io) :
    RenRestored env before s (afterError env (revert env .lkupNeg r)) ↔
      DirsThere env before ∧ DstBack env .lkupNeg s s₁ ∧ CanUndo env .lkupNeg s s₁ := by
  obtain ⟨hrun, hstep, herr⟩ := hfail
  rw [dstBack_iff (by decide) (by decide) (not_lingers (by decide) (by decide))]
  rcases hp.before_lkupNeg hrun with ⟨hin, ha⟩ | ⟨hin, ha, -⟩
  · -- without a directory aside nothing is looked up
    have hrange : s₁.dst.diBstart = env.btgt ∧ s₁.dst.diBstart ≤ s₁.dst.diBend := by
      rw [ha.dst, hp.dstStart]
      exact ⟨rfl, hp.dstEnd⟩
    exact absurd ((lookupNegDst_spec hrange.1 hrange.2 hstep).1 (ha.thargs.trans hin)).1 herr
  · refine ((ha.lkupNeg_failed hp hstep herr).restored_iff hp hio hin).trans (and_congr_right fun _ => ?_)
    constructor
    · rintro ⟨hnew, hno, hd⟩
      exact ⟨hd, hnew, hno⟩
    · rintro ⟨hd, hnew, hno⟩
      exact ⟨hnew, hno, hd⟩

theorem cpupSrc_failed (hfail : RenFailsAt env .cpupSrc s s₁ r err) (hrev : RevertsSucceed env .cpupSrc s₁ r) :
    RenRestored env before s (afterError env (revert env .cpupSrc r)) ↔
      DirsThere env before ∧ DstBack env .cpupSrc s s₁ ∧ CanUndo env .cpupSrc s s₁ := by
  obtain ⟨hrun, hstep, herr⟩ := hfail
  obtain ⟨hio, hcopy⟩ := hrev
  rw [dstBack_iff (by decide) (by decide) (not_lingers (by decide) (by decide))]
  rcases hp.before_cpupSrc hrun with ⟨hin, ha⟩ | ⟨hin, ha, -, hneg⟩
  · have hdir : HasDir (s₁.parents false) env.btgt := (ha.elsewhere.dirs false).mpr (hp.dirs false (Or.inl rfl))
    obtain ⟨hskip, hcopies⟩ := copyUpSrc_spec hdir (ha.srcThere hp) hstep
    by_cases hcond : (s₁.hDentryDst.bind HDentry.inode).isSome = true ∧ env.bstartSrc ≠ env.btgt
    case neg => exact absurd (hskip hcond).1 herr
    obtain ⟨src, io, rfl, hstart⟩ := (hcopies hcond.1 hcond.2).1 herr fun hSrc e io hread => hcopy hSrc e io hread
    have hsw := outWhtmp_swept (t := { s₁ with src := src, io := io }) hio ha.whSrc (ha.thargs.trans hin)
    have h0 : 0 ≤ s₁.dst.diBstart := by
      rw [ha.dst]
      exact hp.dst_nonneg
    have hback : src.diBstart = env.bstartSrc ↔
        env.btgt < env.bstartSrc ∨ ¬ NegativeAt env.srcName (s₁.parents false) env.btgt := by
      rw [ha.srcStart, hp.srcStart, Int.ofNat_lt] at hstart
      exact hstart
    refine (hsw.restored_iff hp ha.elsewhere ha.contents ha.srcWatch ha.dstWatch h0).trans ?_
    show _ ∧ _ ∧ src.diBstart = _ ∧ (auUpdateDbstart s₁.dst).diBstart = _ ↔ _
    rw [hback, ha.dst]
    constructor
    · rintro ⟨hthere, hnew, hs, hd⟩
      exact ⟨hthere, hd, hnew, hs⟩
    · rintro ⟨hthere, hd, hnew, hs⟩
      exact ⟨hthere, hnew, hs, hd⟩
  · -- the destination is negative, and nothing is copied up
    have hstep' : copyUpSrc env s₁ = some (err, r) := hstep
    unfold copyUpSrc at hstep'
    rw [hneg, if_neg (by rw [Option.isSome_none, Bool.false_and]; exact Bool.false_ne_true)] at hstep'
    exact absurd (congrArg Prod.fst (Option.some.inj hstep')).symm herr

/-! ### The renaming -/

/-- Whether the source starts on the branch when it is to be renamed. -/
theorem Ready.startsHere (h : Ready env s t) (hne : env.bstartSrc ≠ env.btgt) (hstart : t.src.diBstart = env.btgt) :
    env.isdir = false ∧ s.contents env.btgt env.dstKey ≠ none := by
  cases h with
  | plain _ h _ =>
    rw [h.srcStart, hp.srcStart] at hstart
    exact absurd (Int.ofNat_inj.mp hstart) hne
  | aside _ h _ =>
    rw [h.srcStart, hp.srcStart] at hstart
    exact absurd (Int.ofNat_inj.mp hstart) hne
  | besides hin _ hat _ => exact ⟨hp.file_of_plain hin hat, hat⟩

/-- **The renaming that fails**, as `vfs_rename` or as a copy-up, in which the destination's hidden dentry may
    have become positive. -/
theorem rename_outcome (hm : Ready env s s₁) (hren : renameOrCpup env s₁ = some (err, r)) (herr : err ≠ 0)
    (hrev : RevertsSucceed env .rename s₁ r) :
    r.parents = s₁.parents ∧ r.src.diBstart = s₁.src.diBstart ∧ r.thargs = s₁.thargs ∧ r.hDst = s₁.hDst ∧
      r.whSrc = s₁.whSrc ∧ r.tmpName = s₁.tmpName ∧ r.srcWatch = s₁.srcWatch ∧ r.dstWatch = s₁.dstWatch ∧
      ((r.dst = s₁.dst ∧ (thargsOf env s = false → ¬ Lingers env .rename s s₁)) ∨
        ((thargsOf env s = false → Lingers env .rename s s₁) ∧
          ∃ hd : HDentry, hd.inode.isSome = true ∧ r.dst = s₁.dst.setHDptr env.btgt (some hd))) := by
  have hdir : HasDir (s₁.parents env.dstDir) env.btgt :=
    (hm.elsewhere.dirs env.dstDir).mpr (hp.dirs env.dstDir (Or.inr rfl))
  by_cases hstart : s₁.src.diBstart = env.btgt
  · obtain ⟨nd, -, hfail, -⟩ := renameOrCpup_renames hdir hstart hren
    obtain ⟨io, rfl⟩ := hfail herr
    refine ⟨rfl, rfl, rfl, rfl, rfl, rfl, rfl, rfl, Or.inl ⟨rfl, fun _ => ?_⟩⟩
    rintro ⟨-, -, hc | ⟨-, hSrc, hcopied, -⟩⟩
    · cases hc
    · unfold copiedBy at hcopied
      dsimp only at hcopied
      rw [if_pos hstart] at hcopied
      cases hcopied
  · obtain ⟨hsrc, hne, -, -⟩ := hm.srcBelow hp hstart
    obtain ⟨-, hd, hSrc, nd, -, hread, hfail, -⟩ := renameOrCpup_copies hdir hsrc hne hren
    have hcopied : copiedBy env .rename s₁ = some hSrc := by
      unfold copiedBy
      dsimp only
      rw [if_neg hstart]
      exact hread
    obtain ⟨src, io, hs, rfl⟩ := hfail herr fun e io hsingle => hrev.2 hSrc e io hcopied hsingle
    refine ⟨rfl, hs, rfl, rfl, rfl, rfl, rfl, rfl, ?_⟩
    by_cases hmakes : cpupMakes env.cpup hSrc s₁.io = true
    · refine Or.inr ⟨fun hin => ⟨hin, hne, Or.inr ⟨rfl, hSrc, hcopied, hmakes⟩⟩, _, ?_, if_pos hmakes⟩
      rfl
    · refine Or.inl ⟨if_neg hmakes, fun _ => ?_⟩
      rintro ⟨-, -, hc | ⟨-, hSrc', hcopied', hmakes'⟩⟩
      · cases hc
      · rw [hcopied] at hcopied'
        rw [← Option.some.inj hcopied'] at hmakes'
        exact hmakes hmakes'

theorem rename_failed (hfail : RenFailsAt env .rename s s₁ r err) (hrev : RevertsSucceed env .rename s₁ r) :
    RenRestored env before s (afterError env (revert env .rename r)) ↔
      DirsThere env before ∧ DstBack env .rename s s₁ ∧ CanUndo env .rename s s₁ := by
  obtain ⟨hrun, hstep, herr⟩ := hfail
  have hm := hp.before_rename hrun
  obtain ⟨hps, hsrc, hth, hhd, hwh, htmp, hsw, hdw, hdst⟩ := rename_outcome hp hm hstep herr hrev
  have hio := hrev.1
  have hcont : r.contents env.btgt = s₁.contents env.btgt := by
    funext k
    show entryAt (r.parents k.1) k.2 env.btgt = entryAt (s₁.parents k.1) k.2 env.btgt
    rw [hps]
  show RenRestored env before s (afterError env (outWhtmp env r)) ↔ _
  cases hm with
  | plain hin ha hno =>
    have hs := outWhtmp_swept hio (hwh.trans ha.whSrc) (hth.trans (ha.thargs.trans hin))
    have hundo : CanUndo env .rename s s₁ ↔ WhSrcNew env s := by
      refine and_iff_left ⟨fun hc => absurd (hin.symm.trans hc) Bool.false_ne_true, fun hat _ => ?_⟩
      by_contra hne
      exact hno ⟨hat, hne⟩
    have h0 : 0 ≤ r.dst.diBstart := by
      rcases hdst with ⟨hd, -⟩ | ⟨-, hd, -, hset⟩
      · rw [hd, ha.dst]
        exact hp.dst_nonneg
      · rw [hset, ha.dst]
        exact hp.dst_nonneg
    have hstart : r.src.diBstart = env.bstartSrc := hsrc.trans (ha.srcStart.trans hp.srcStart)
    have hback : DstBack env .rename s s₁ ↔ (auUpdateDbstart r.dst).diBstart = env.bstartDst := by
      rcases hdst with ⟨hd, hno⟩ | ⟨hyes, hd, hpos, hset⟩
      · rw [dstBack_iff (by decide) (by decide) (hno hin), hd, ha.dst]
      · rw [dstBack_of_kept (Or.inr (hyes hin)), hset, ha.dst,
          auUpdateDbstart_made hp.dstStart hp.dstEnd hpos]
        exact Int.natCast_inj.symm
    rw [hs.restored_iff hp (by rw [hps]; exact ha.elsewhere) ((congrArg env.undoWh hcont).trans ha.contents)
      (hsw.trans ha.srcWatch) (hdw.trans ha.dstWatch) h0, hstart, hback, hundo]
    constructor
    · rintro ⟨hthere, hnew, -, hd⟩
      exact ⟨hthere, hd, hnew⟩
    · rintro ⟨hthere, hd, hnew⟩
      exact ⟨hthere, hnew, rfl, hd⟩
  | aside hin ha hkept =>
    have ha' : Aside env s r := by
      refine ⟨?_, ?_, ?_, ?_, hth.trans ha.thargs, hhd.trans ha.hDst, hwh.trans ha.whSrc, hsrc.trans ha.srcStart, ?_,
        hsw.trans ha.srcWatch, hdw.trans ha.dstWatch⟩
      · rw [hps]
        exact ha.elsewhere
      · rw [htmp]
        exact ha.tmp
      · rw [htmp]
        exact ha.free
      · rw [htmp, hcont]
        exact ha.contents
      · rcases hdst with ⟨hd, -⟩ | ⟨-, hd, -, hset⟩
        · rw [hd]
          exact ha.dst
        · rw [hset, Dinfo.setHDptr_again]
          exact ha.dst
    have hno : ¬ Lingers env .rename s s₁ := fun hc => Bool.false_ne_true (hc.1.symm.trans hin)
    have hisdir := (hp.thargs_iff.mp hin).1
    rw [ha'.restored_iff hp hio hin, dstBack_iff (by decide) (by decide) hno]
    constructor
    · rintro ⟨hthere, hnew, hw, hd⟩
      exact ⟨hthere, hd, hnew, hw, fun _ hc => absurd (hc.symm.trans hisdir) Bool.false_ne_true⟩
    · rintro ⟨hthere, hd, hnew, hw, -⟩
      exact ⟨hthere, hnew, hw, hd⟩
  | besides hin hov hat hne =>
    -- the copy of the source stays
    have hs := outWhtmp_swept hio (hwh.trans hov.whSrc) (hth.trans hov.thargs)
    obtain ⟨new, hnew⟩ := hov.contents
    refine iff_of_false ?_ fun hc => hne (hc.2.2.2.2 hat (hp.file_of_plain hin hat))
    refine hs.not_restored hp (by rw [hps]; exact hov.elsewhere) env.srcKey (Or.inl rfl) srcKey_ne_whKey ?_
    have hcopy := congrFun hnew env.srcKey
    rw [RenEnv.undoWh_of_ne srcKey_ne_whKey, put_self] at hcopy
    rw [hcont, hcopy, hov.free]
    exact Option.some_ne_none new

/-! ### The steps after the renaming -/

theorem diropq_failed (hfail : RenFailsAt env .diropq s s₁ r err) (hio : Willing r.io) :
    RenRestored env before s (afterError env (revert env .diropq r)) ↔
      DirsThere env before ∧ DstBack env .diropq s s₁ ∧ CanUndo env .diropq s s₁ := by
  obtain ⟨hrun, hstep, herr⟩ := hfail
  obtain ⟨m, hrun, hren⟩ :=
    runSteps_snoc (l := [.thargs, .whSrc, .whDst, .whtmp, .lkupNeg, .cpupSrc]) (k := .rename) hrun
  have hm := hp.before_rename hrun
  obtain ⟨hrd, hnd⟩ := hm.renamed hp hren
  have hdir : HasDir (s₁.parents env.dstDir) env.btgt :=
    (hrd.elsewhere.dirs env.dstDir).mpr ((hm.elsewhere.dirs env.dstDir).mpr (hp.dirs env.dstDir (Or.inr rfl)))
  obtain ⟨hskip, hfails⟩ := auRenDiropq_spec hdir hstep
  rw [dstBack_iff (by decide) (by decide) (not_lingers (by decide) (by decide))]
  cases hneed : s₁.needDiropq with
  | false => exact absurd (hskip hneed).1 herr
  | true =>
    have hisdir := hnd hneed
    obtain ⟨io, rfl⟩ := (hfails hneed).1 herr
    have hrd' := hrd.io io
    show RenRestored env before s (afterError env (outRename env { s₁ with io := io })) ↔ _
    rcases Bool.eq_false_or_eq_true s₁.bycpup with hby | hby
    · refine iff_of_false (hrd'.dir_copied_back hp hm hio hby hisdir) fun hc => ?_
      exact absurd hc.2.2.2.2 (Nat.ne_of_gt (hrd.copied hby).1)
    · rw [hrd'.renamed_back hp hm hio hby]
      constructor
      · rintro ⟨hthere, hnew, hw, -, heq, hd⟩
        exact ⟨hthere, hd, hnew, hw, heq⟩
      · rintro ⟨hthere, hd, hnew, hw, heq⟩
        exact ⟨hthere, hnew, hw, fun hc => absurd (hc.symm.trans hisdir) Bool.false_ne_true, heq, hd⟩

theorem unlinkWh_failed (hfail : RenFailsAt env .unlinkWh s s₁ r err) (hio : Willing r.io) :
    RenRestored env before s (afterError env (revert env .unlinkWh r)) ↔
      DirsThere env before ∧ DstBack env .unlinkWh s s₁ ∧ CanUndo env .unlinkWh s s₁ := by
  obtain ⟨hrun, hstep, herr⟩ := hfail
  obtain ⟨t, hrun, hopq⟩ :=
    runSteps_snoc (l := [.thargs, .whSrc, .whDst, .whtmp, .lkupNeg, .cpupSrc, .rename]) (k := .diropq) hrun
  obtain ⟨m, hrun, hren⟩ :=
    runSteps_snoc (l := [.thargs, .whSrc, .whDst, .whtmp, .lkupNeg, .cpupSrc]) (k := .rename) hrun
  have hm := hp.before_rename hrun
  have hrd := (hm.renamed hp hren).1
  have hdir : HasDir (t.parents env.dstDir) env.btgt :=
    (hrd.elsewhere.dirs env.dstDir).mpr ((hm.elsewhere.dirs env.dstDir).mpr (hp.dirs env.dstDir (Or.inr rfl)))
  obtain ⟨io, rfl⟩ := unlinkWhDst_failed hstep herr
  obtain ⟨t', hrd', hio', hout⟩ := hrd.outDiropq hdir hopq hio
  show RenRestored env before s (afterError env (outDiropq env { s₁ with io := io })) ↔ _
  rw [hout]
  cases hby : t'.bycpup with
  | false =>
    rw [hrd'.renamed_back hp hm hio' hby]
    by_cases heq : env.bstartSrc = env.btgt
    · have hno : ¬ Lingers env .unlinkWh s s₁ := fun hc => hc.2.1 heq
      rw [dstBack_iff (by decide) (by decide) hno]
      have hundo : CanUndo env .unlinkWh s s₁ ↔ WhSrcNew env s ∧ NoWatch env s ∧
          (env.isdir = false → s.contents env.btgt env.dstKey = none) := by
        refine and_congr_right fun _ => and_congr_right fun _ => ?_
        cases env.isdir with
        | true => exact iff_of_true heq fun hc => absurd hc.symm Bool.false_ne_true
        | false => exact ⟨fun h _ => h, fun h => h rfl⟩
      rw [hundo]
      constructor
      · rintro ⟨hthere, hnew, hw, hfree, -, hd⟩
        exact ⟨hthere, hd, hnew, hw, hfree⟩
      · rintro ⟨hthere, hd, hnew, hw, hfree⟩
        exact ⟨hthere, hnew, hw, hfree, heq, hd⟩
    · -- a file that was copied up over the destination
      refine iff_of_false (fun hc => heq hc.2.2.2.2.1) fun hc => ?_
      obtain ⟨hisdir, hat⟩ := hm.startsHere hp heq (hrd'.starts_here hby)
      have hlast := hc.2.2.2.2
      rw [hisdir, if_neg Bool.false_ne_true] at hlast
      exact hat hlast
  | true =>
    obtain ⟨hlt, hms⟩ := hrd'.copied hby
    have hne : env.bstartSrc ≠ env.btgt := Nat.ne_of_gt hlt
    rcases Bool.eq_false_or_eq_true env.isdir with hisdir | hisdir
    · refine iff_of_false (hrd'.dir_copied_back hp hm hio' hby hisdir) fun hc => ?_
      have hlast := hc.2.2.2.2
      rw [hisdir, if_pos rfl] at hlast
      exact hne hlast
    · have hin : thargsOf env s = false := by
        unfold thargsOf
        rw [hisdir, Bool.false_and]
      rw [hrd'.file_copied_back hp hm hio' hby hisdir, dstBack_of_kept (Or.inr ⟨hin, hne, Or.inl rfl⟩)]
      constructor
      · rintro ⟨hthere, hnew, hd⟩
        refine ⟨hthere, hd, hnew, fun hc => absurd (hin.symm.trans hc) Bool.false_ne_true, ?_⟩
        rw [hisdir, if_neg Bool.false_ne_true]
        rcases (hm.srcBelow hp (by rw [hms]; exact fun hc => hne (Int.ofNat_inj.mp hc))).2.2.1 hlt with hc | hfree
        · exact absurd (hin.symm.trans hc) Bool.false_ne_true
        · exact hfree
      · rintro ⟨hthere, hd, hnew, -⟩
        exact ⟨hthere, hnew, hd⟩

/-- **A failed rename leaves everything as it was** iff what the call has got to can be undone: the parents had
    their directories, `di_bstart` of the destination comes back, and the steps up to the one that fails are
    none of those that are undone wrongly. -/
theorem failed_rename_restores_iff (hfail : RenFailsAt env k s s₁ r err) (hrev : RevertsSucceed env k s₁ r)
    (h : aufsRename env s = some (err, s')) :
    RenRestored env before s s' ↔ DirsThere env before ∧ DstBack env k s s₁ ∧ CanUndo env k s s₁ := by
  rw [hfail.outcome] at h
  cases h
  cases k with
  | thargs => exact thargs_failed hp hfail
  | whSrc => exact whSrc_failed hp hfail
  | whDst => exact whDst_failed hp hfail hrev.1
  | whtmp => exact whtmp_failed hp hfail hrev.1
  | lkupNeg => exact lkupNeg_failed hp hfail hrev.1
  | cpupSrc => exact cpupSrc_failed hp hfail hrev
  | rename => exact rename_failed hp hfail hrev
  | diropq => exact diropq_failed hp hfail hrev.1
  | unlinkWh => exact unlinkWh_failed hp hfail hrev.1

end Prepared

end Failing

/-! ## A directory renamed over another -/

/-- The directories `a` and `b` are in the root. -/
def dirsOfRoot : Dinfo :=
  ⟨0, 0, -1, -1, fun b =>
    some ⟨b, [], some (.mk 2 sIfdir [([97], .mk 5 sIfdir [] fun _ => 0), ([98], .mk 6 sIfdir [] fun _ => 0)]
      fun _ => 0)⟩⟩

/-- `a` is to become `b`. -/
def dirOverDir : RenEnv where
  rm := rwOverRo
  cpup := plainEnv
  isdir := true
  whSrc := false
  sameDir := true
  alwaysDiropq := false
  btgt := 0
  bstartSrc := 0
  bstartDst := 0
  srcName := [97]
  dstName := [98]

/-- Of the requests, the fifth one fails: renaming `a`, with `b` aside. -/
def dirOverDirState (watch : Option Bool) : RenState where
  parents _ := dirsOfRoot
  src := ⟨0, 0, -1, -1, fun b => some ⟨b, [[97]], some (.mk 5 sIfdir [] fun _ => 0)⟩⟩
  dst := ⟨0, 0, -1, -1, fun b => some ⟨b, [[98]], some (.mk 6 sIfdir [] fun _ => 0)⟩⟩
  hDentryDst := some ⟨0, [[98]], some (.mk 6 sIfdir [] fun _ => 0)⟩
  hDst := none
  tmpName := []
  thargs := false
  whSrc := false
  whDst := false
  needDiropq := false
  bycpup := false
  srcWatch := watch
  dstWatch := watch
  io := [0, 0, 0, 0, -28]
  cnt := 0

theorem dirOverDirState_prepared (watch : Option Bool) :
    Prepared dirOverDir (fun _ => dirsOfRoot) (dirOverDirState watch) where
  dirs _ _ := rfl
  before _ _ := Or.inl rfl
  srcStart := rfl
  srcThere := ⟨_, _, rfl, rfl, iff_of_true rfl rfl⟩
  srcHere _ := Option.some_ne_none _
  dstStart := rfl
  dstEnd := Int.le_refl 0
  dstThere := ⟨_, rfl, rfl, rfl⟩
  keys := by decide
  srcName := by decide
  dstName := by decide
  flags := ⟨rfl, rfl, rfl⟩

/-- Without watches the failed renaming leaves everything as it was. -/
theorem dirOverDir_restores : ∃ s₁ r s', RenFailsAt dirOverDir .rename (dirOverDirState none) s₁ r (-28) ∧
    aufsRename dirOverDir (dirOverDirState none) = some (-28, s') ∧
      RenRestored dirOverDir (fun _ => dirsOfRoot) (dirOverDirState none) s' := by
  obtain ⟨s₁, r, hfail, hrev⟩ : ∃ s₁ r, RenFailsAt dirOverDir .rename (dirOverDirState none) s₁ r (-28) ∧
      RevertsSucceed dirOverDir .rename s₁ r :=
    ⟨_, _, ⟨rfl, rfl, by decide⟩, fun x hx => absurd hx List.not_mem_nil, fun _ _ _ hc => by cases hc⟩
  refine ⟨s₁, r, _, hfail, hfail.outcome, ?_⟩
  refine (failed_rename_restores_iff (dirOverDirState_prepared none) hfail hrev hfail.outcome).mpr ⟨?_, ?_, ?_⟩
  · intro p _
    rfl
  · exact ⟨fun _ => rfl, fun _ => rfl⟩
  · refine ⟨?_, ?_, ?_⟩
    · intro hwh
      cases hwh
    · intro _ hact
      cases hact
    · intro _ hfile
      cases hfile

/-- **The watch of `b` stays suspended**: the one that is resumed is that of `a`. -/
theorem dirOverDir_stays_suspended : ∃ s₁ r s',
    Prepared dirOverDir (fun _ => dirsOfRoot) (dirOverDirState (some true)) ∧
      RenFailsAt dirOverDir .rename (dirOverDirState (some true)) s₁ r (-28) ∧
      RevertsSucceed dirOverDir .rename s₁ r ∧
      aufsRename dirOverDir (dirOverDirState (some true)) = some (-28, s') ∧ s'.dstWatch = some false ∧
      ¬ RenRestored dirOverDir (fun _ => dirsOfRoot) (dirOverDirState (some true)) s' := by
  refine ⟨_, _, _, dirOverDirState_prepared (some true), ⟨rfl, rfl, by decide⟩,
    ⟨fun x hx => absurd hx List.not_mem_nil, fun _ _ _ hc => by cases hc⟩, rfl, rfl, fun h => ?_⟩
  have hwatch : some false = some true := h.dstWatch rfl
  cases hwatch

end KernelPatches.Aufs
