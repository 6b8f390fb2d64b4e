/-
  aufs: from an NFS file handle back to a dentry.

  `aufs_decode_fh` looks for the inode in the cache, then in the directory it was in, if that is cached, and at
  last along the path that the handle of the hidden directory gives.  To look something up in aufs it has to
  drop the lock of the super block, and the branches may be others when it has the lock again:
  `si_nfsd_read_lock` validates the handle once more.  When that fails for the first time, the lock is dropped;
  from then on `force_lock` keeps it, so that there is one lock to be dropped on every exit.

  The index of the branch is worth nothing any more once the lock was dropped.

  * `auLkupByIno`, `decodeByDirIno`, `decodeByPath`, `aufsDecodeFh` — the functions, with what they hold;
  * `Ptr.refs`              — what the caller of such a function has to put;
  * `decodeByDirIno_run`, `decodeByPath_run` — either nothing was dropped, or only the new lock is held;
  * `aufsDecodeFh_run`      — nothing is held in the end but the dentry that is returned.
-/
import KernelPatches.Lib.Custody
import KernelPatches.Aufs.Finfo
import KernelPatches.Aufs.Inode

namespace KernelPatches.Aufs.DecodeFh

open KernelPatches.Lib
open KernelPatches.Lib.Prog

/-! ## What is held -/

/-- What is held: the lock of the super block, and the index of the branch while it is valid; the inode of
    `ilookup`; the dentry that is returned, and the parent; the two halves of the path, the file and the name of
    `au_lkup_by_ino`; the hidden parent, the page and the path of `decode_by_path`, and the lock of the root. -/
inductive FhRes where
  | si
  | bindex
  | inode
  | dentry
  | parent
  | pathDentry
  | pathMnt
  | file
  | name
  | hParent
  | page
  | ndDentry
  | ndMnt
  | diRoot
deriving DecidableEq, Repr

/-- A pointer to a dentry, as these functions return it: an error, a null pointer or a dentry. -/
inductive Ptr where
  | err (e : Int)
  | null
  | dentry
deriving DecidableEq, Repr

/-- The reference that comes with it. -/
def Ptr.refs (r : FhRes) : Ptr → List FhRes
  | err _ => []
  | null => []
  | dentry => [r]

/-! ## The lock -/

/-- `si_read_unlock`: the branches may change from here on. -/
def siReadUnlock : Prog FhRes Unit := do
  giving .si
  lapsing .bindex

/-- `si_nfsd_read_lock`: `ok` is whether the branch is there and the generation is not too old. -/
def siNfsdReadLock (forceLock ok : Bool) : Prog FhRes Bool := do
  taking .si
  needing [.si]
  if ok then
    return true
  else
    if !forceLock then siReadUnlock
    return false

/-- What the callers do that have dropped the lock: they take it, and put the dentry if the handle is not valid
    any more. -/
def relock (ok : Bool) (p : Ptr) : Prog FhRes Ptr := do
  let valid ← siNfsdReadLock true ok
  if !valid && p = .dentry then
    giving .dentry
    return .err (- ESTALE)
  else
    return p

/-! ## The look-ups -/

/-- What `decode_by_ino` meets: whether the inode is cached, whether it is bad or obsolete, whether it has an
    alias in the directory, and whether that is obsolete. -/
structure InoIo where
  cached : Bool
  bad : Bool
  aliased : Bool
  stale : Bool

/-- `decode_by_ino`: `r` is the reference it returns. -/
def decodeByIno (r : FhRes) (o : InoIo) : Prog FhRes Ptr := do
  if !o.cached then
    return .null
  else
    taking .inode
    needing [.si]
    if o.bad then
      giving .inode
      return .err (- ESTALE)
    else if !o.aliased then
      giving .inode
      return .null
    else
      taking r
      if o.stale then
        giving r
        giving .inode
        return .err (- ESTALE)
      else
        giving .inode
        return .dentry

/-- What `au_lkup_by_ino` meets: the errors of `dentry_open`, of the allocation of the name, of the readdir and
    of the look-up; whether the name is found, and whether what is looked up is negative. -/
structure LkupIo where
  openErr : Int
  noName : Bool
  readdirErr : Int
  found : Bool
  lookupErr : Int
  negative : Bool

/-- `out_file`, and `fput`, which puts the path as well. -/
def outFile (p : Ptr) : Prog FhRes Ptr := do
  giving .file
  giving .pathMnt
  giving .pathDentry
  return p

/-- The lookup of the name that was found. -/
def lookupName (o : LkupIo) : Prog FhRes Ptr := do
  if o.lookupErr ≠ 0 then
    return .err o.lookupErr
  else
    taking .dentry
    if o.negative then
      giving .dentry
      return .err (- ENOENT)
    else
      return .dentry

/-- `au_lkup_by_ino`, between the two times it has the lock. -/
def lkupPath (o : LkupIo) : Prog FhRes Ptr := do
  taking .pathDentry
  taking .pathMnt
  if o.openErr ≠ 0 then
    -- dentry_open() puts the path when it fails
    giving .pathMnt
    giving .pathDentry
    return .err o.openErr
  else
    taking .file
    if o.noName then
      outFile (.err (- ENOMEM))
    else
      taking .name
      let p ←
        if o.readdirErr ≠ 0 then pure (.err o.readdirErr)
        else if !o.found then pure (.err (- ENOENT))
        else lookupName o
      giving .name
      outFile p

/-- `au_lkup_by_ino`: with a lock to be dropped, `some` whether the handle is still valid afterwards. -/
def auLkupByIno (o : LkupIo) (nsiLock : Option Bool) : Prog FhRes Ptr :=
  match nsiLock with
  | none => lkupPath o
  | some ok => do
    siReadUnlock
    let p ← lkupPath o
    relock ok p

/-- The parent is put at the end of `decode_by_dir_ino`. -/
def putParent (p : Ptr) : Prog FhRes Ptr := do
  giving .parent
  return p

/-- `decode_by_dir_ino`: whether the directory is the root, and what is met otherwise and below. -/
def decodeByDirIno (dirRoot : Bool) (o : InoIo) (ol : LkupIo) (ok : Bool) : Prog FhRes Ptr := do
  let parent ←
    if dirRoot then do
      taking .parent
      pure .dentry
    else decodeByIno .parent o
  if parent = .dentry then
    -- the path is that of the mount of aufs
    needing [.si]
    let p ← auLkupByIno ol (some ok)
    putParent p
  else
    return parent

/-- What `decode_by_path` meets: what the `decode_fh` of the branch returns, and whether that is disconnected;
    whether there is no page; the errors of `au_build_path` and of the look-up of the path; whether that is
    negative, and whether it is the inode itself; and the look-up in it otherwise. -/
structure PathIo where
  hParent : Ptr
  anon : Bool
  noPage : Bool
  buildErr : Int
  lookupErr : Int
  negative : Bool
  sameIno : Bool
  lkup : LkupIo

/-- `out_nd` -/
def outNd (p : Ptr) : Prog FhRes Ptr := do
  giving .ndMnt
  giving .ndDentry
  return p

/-- The look-up of the path, without the lock. -/
def lookupBuilt (o : PathIo) : Prog FhRes Ptr := do
  if o.lookupErr ≠ 0 then
    return .err o.lookupErr
  else
    taking .ndDentry
    taking .ndMnt
    let p ←
      if o.negative then pure (.err (- ENOENT))
      else if !o.sameIno then auLkupByIno o.lkup none
      else do
        taking .dentry
        pure .dentry
    outNd p

/-- `out_pathname` and `out_h_parent` -/
def outPathname (p : Ptr) : Prog FhRes Ptr := do
  giving .page
  giving .hParent
  return p

/-- `decode_by_path` -/
def decodeByPath (o : PathIo) (ok : Bool) : Prog FhRes Ptr := do
  needing [.si]
  needing [.bindex]
  if o.hParent ≠ .dentry then
    return o.hParent
  else
    taking .hParent
    if o.anon then
      giving .hParent
      return .null
    else if o.noPage then
      giving .hParent
      return .err (- ENOMEM)
    else
      taking .page
      taking .diRoot
      needing [.bindex]
      giving .diRoot
      needing [.si]
      if o.buildErr ≠ 0 then
        outPathname (.err o.buildErr)
      else
        siReadUnlock
        let p ← lookupBuilt o
        let p ← relock ok p
        outPathname p

/-! ## The handle -/

/-- What `aufs_decode_fh` meets: whether the handle is valid at first; the inode; the directory, the look-up in
    it and whether the handle is valid after it; the path, and the same; and whether the dentry is accepted. -/
structure FhIo where
  valid : Bool
  ino : InoIo
  dirRoot : Bool
  dirIno : InoIo
  dirLkup : LkupIo
  validDir : Bool
  path : PathIo
  validPath : Bool
  accepted : Bool

/-- `accept` and `out_unlock`, where a dentry is accepted or put. -/
def accept (o : FhIo) (p : Ptr) : Prog FhRes Ptr := do
  if p = .dentry && !o.accepted then
    giving .dentry
    siReadUnlock
    return .err (- ESTALE)
  else
    siReadUnlock
    return p

/-- `aufs_decode_fh` -/
def aufsDecodeFh (o : FhIo) : Prog FhRes Ptr := do
  let valid ← siNfsdReadLock false o.valid
  if !valid then
    return .err (- ESTALE)
  else
    taking .bindex
    -- is this inode still cached?
    let p ← decodeByIno .dentry o.ino
    if p ≠ .null then
      accept o p
    else
      -- is the parent dir cached?
      let p ← decodeByDirIno o.dirRoot o.dirIno o.dirLkup o.validDir
      if p ≠ .null then
        accept o p
      else
        -- lookup path
        let p ← decodeByPath o.path o.validPath
        accept o p

/-! ## What each of them leaves -/

section

variable {held : List FhRes}

theorem decodeByIno_run (r : FhRes) (o : InoIo) (h : FhRes.si ∈ held) :
    ∃ p, (decodeByIno r o).run held = some (p, p.refs r ++ held) := by
  have hneed : (needing [FhRes.si]).run (.inode :: held) = some ((), .inode :: held) :=
    run_need ⟨.si, by simp, List.mem_cons_of_mem _ h⟩
  unfold decodeByIno
  cases hcached : o.cached with
  | false => exact ⟨.null, by simp [Ptr.refs]⟩
  | true =>
    cases hbad : o.bad with
    | true => exact ⟨.err (- ESTALE), by simp [Ptr.refs, hneed]⟩
    | false =>
      cases haliased : o.aliased with
      | false => exact ⟨.null, by simp [Ptr.refs, hneed]⟩
      | true =>
        cases hstale : o.stale with
        | true => exact ⟨.err (- ESTALE), by simp [Ptr.refs, hneed]⟩
        | false =>
          refine ⟨.dentry, ?_⟩
          by_cases hr : r = .inode
          · simp [Ptr.refs, hneed, hr]
          · simp [Ptr.refs, hneed, run_give_tail hr]

/-- The look-up keeps nothing but the dentry it returns, which is never a null pointer. -/
theorem lkupPath_run (o : LkupIo) :
    ∃ p, p ≠ .null ∧ (lkupPath o).run held = some (p, p.refs .dentry ++ held) := by
  unfold lkupPath
  by_cases hopen : o.openErr = 0
  · cases hname : o.noName with
    | true => exact ⟨.err (- ENOMEM), by decide, by simp [hopen, outFile, Ptr.refs]⟩
    | false =>
      by_cases hread : o.readdirErr = 0
      · cases hfound : o.found with
        | false => exact ⟨.err (- ENOENT), by decide, by simp [hopen, hread, outFile, Ptr.refs]⟩
        | true =>
          by_cases hlookup : o.lookupErr = 0
          · cases hneg : o.negative with
            | true =>
              exact ⟨.err (- ENOENT), by decide, by simp [hopen, hread, hlookup, hneg, lookupName, outFile, Ptr.refs]⟩
            | false =>
              exact ⟨.dentry, by decide,
                by simp [hopen, hread, hlookup, hneg, lookupName, outFile, Ptr.refs, run_give_tail]⟩
          · exact ⟨.err o.lookupErr, by simp, by simp [hopen, hread, hlookup, lookupName, outFile, Ptr.refs]⟩
      · exact ⟨.err o.readdirErr, by simp, by simp [hopen, hread, outFile, Ptr.refs]⟩
  · exact ⟨.err o.openErr, by simp, by simp [hopen, Ptr.refs]⟩

/-- With the lock again: it is held once, and a dentry that is not valid any more has been put. -/
theorem relock_run (ok : Bool) {p : Ptr} (hp : p ≠ .null) :
    ∃ p', p' ≠ .null ∧ (relock ok p).run (p.refs .dentry ++ held) = some (p', .si :: (p'.refs .dentry ++ held)) := by
  have hneed : ∀ l, (needing [FhRes.si]).run (.si :: l) = some ((), .si :: l) := fun l => run_need (by simp)
  unfold relock siNfsdReadLock
  cases ok with
  | true => exact ⟨p, hp, by simp [hneed]⟩
  | false =>
    by_cases hd : p = .dentry
    · subst hd
      exact ⟨.err (- ESTALE), by decide, by simp [hneed, Ptr.refs, run_give_tail]⟩
    · exact ⟨p, hp, by simp [hneed, hd]⟩

/-- What `aufs_decode_fh` holds when it goes on, beside the dentry, if there is one: the lock with the index it
    is about, or a new lock; and with the latter the answer is not a null pointer. -/
def Kept (p : Ptr) (out : List FhRes) : Prop :=
  out = p.refs .dentry ++ [.bindex, .si] ∨ (p ≠ .null ∧ out = .si :: p.refs .dentry)

theorem putParent_run (p : Ptr) :
    (putParent p).run (.si :: (p.refs .dentry ++ [.parent])) = some (p, .si :: p.refs .dentry) := by
  cases p <;> rfl

theorem outNd_run (p : Ptr) :
    (outNd p).run (p.refs .dentry ++ .ndMnt :: .ndDentry :: held) = some (p, p.refs .dentry ++ held) := by
  unfold outNd
  cases p <;> simp [Ptr.refs, run_give_tail]

theorem outPathname_run (p : Ptr) :
    (outPathname p).run (.si :: (p.refs .dentry ++ [.page, .hParent])) = some (p, .si :: p.refs .dentry) := by
  cases p <;> rfl

/-- **The look-up in the cached directory.**  When there is none, the lock was not dropped, and the index is
    still valid. -/
theorem decodeByDirIno_run (dirRoot : Bool) (o : InoIo) (ol : LkupIo) (ok : Bool) :
    ∃ p out, (decodeByDirIno dirRoot o ol ok).run [.bindex, .si] = some (p, out) ∧ Kept p out := by
  have hneed : (needing [FhRes.si]).run [.parent, .bindex, .si] = some ((), [.parent, .bindex, .si]) := rfl
  have hunlock : siReadUnlock.run [.parent, .bindex, .si] = some ((), [.parent]) := rfl
  obtain ⟨p, hp, hlkup⟩ := @lkupPath_run [.parent] ol
  obtain ⟨p', hp', hrelock⟩ := @relock_run [.parent] ok p hp
  -- with a parent, the lock is dropped and taken again
  have hfound : (auLkupByIno ol (some ok)).run [.parent, .bindex, .si] =
      some (p', .si :: (p'.refs .dentry ++ [.parent])) := by
    unfold auLkupByIno
    simp only [run_bind, hunlock, Option.bind_some, hlkup, hrelock]
  unfold decodeByDirIno
  cases dirRoot with
  | true =>
    refine ⟨p', _, ?_, Or.inr ⟨hp', rfl⟩⟩
    simp only [↓reduceIte, run_bind, run_taking, Option.bind_some, run_pure, hneed, hfound, putParent_run]
  | false =>
    obtain ⟨q, hq⟩ := decodeByIno_run .parent o (show FhRes.si ∈ [.bindex, .si] by decide)
    simp only [Bool.false_eq_true, ↓reduceIte, run_bind, hq, Option.bind_some]
    by_cases hd : q = .dentry
    · refine ⟨p', _, ?_, Or.inr ⟨hp', rfl⟩⟩
      rw [if_pos hd, hd, run_bind]
      show ((needing [FhRes.si]).run [.parent, .bindex, .si]).bind _ = _
      rw [hneed, Option.bind_some, run_bind, hfound, Option.bind_some, putParent_run]
    · refine ⟨q, _, by rw [if_neg hd]; rfl, Or.inl ?_⟩
      cases q with
      | err e => rfl
      | null => rfl
      | dentry => exact absurd rfl hd

/-- The look-up of the path keeps nothing but the dentry. -/
theorem lookupBuilt_run (o : PathIo) :
    ∃ p, p ≠ .null ∧ (lookupBuilt o).run held = some (p, p.refs .dentry ++ held) := by
  unfold lookupBuilt
  by_cases hlookup : o.lookupErr = 0
  · rw [if_neg (fun h => h hlookup)]
    cases hneg : o.negative with
    | true => exact ⟨.err (- ENOENT), by decide, rfl⟩
    | false =>
      cases hsame : o.sameIno with
      | true =>
        refine ⟨.dentry, by decide, ?_⟩
        simp only [Bool.false_eq_true, Bool.not_true, ↓reduceIte, run_bind, run_taking, Option.bind_some, run_pure]
        exact outNd_run .dentry
      | false =>
        obtain ⟨p, hp, hrun⟩ := @lkupPath_run (.ndMnt :: .ndDentry :: held) o.lkup
        refine ⟨p, hp, ?_⟩
        unfold auLkupByIno
        simp only [Bool.false_eq_true, Bool.not_false, ↓reduceIte, run_bind, run_taking, Option.bind_some, hrun]
        exact outNd_run p
  · rw [if_pos hlookup]
    exact ⟨.err o.lookupErr, by simp, rfl⟩

/-- **The look-up along the path**, which begins with the index still valid. -/
theorem decodeByPath_run (o : PathIo) (ok : Bool) :
    ∃ p out, (decodeByPath o ok).run [.bindex, .si] = some (p, out) ∧ Kept p out := by
  have hneed : (needing [FhRes.si]).run [.bindex, .si] = some ((), [.bindex, .si]) := rfl
  have hneed' : (needing [FhRes.bindex]).run [.bindex, .si] = some ((), [.bindex, .si]) := rfl
  have hroot : (needing [FhRes.bindex]).run [.diRoot, .page, .hParent, .bindex, .si] =
      some ((), [.diRoot, .page, .hParent, .bindex, .si]) := rfl
  have hbuilt : (needing [FhRes.si]).run [.page, .hParent, .bindex, .si] =
      some ((), [.page, .hParent, .bindex, .si]) := rfl
  have hunlock : siReadUnlock.run [.page, .hParent, .bindex, .si] = some ((), [.page, .hParent]) := rfl
  unfold decodeByPath
  simp only [run_bind, hneed, hneed', Option.bind_some]
  by_cases hpar : o.hParent = .dentry
  · rw [if_neg (fun h => h hpar)]
    cases hanon : o.anon with
    | true => exact ⟨.null, _, rfl, Or.inl rfl⟩
    | false =>
      cases hpage : o.noPage with
      | true => exact ⟨.err (- ENOMEM), _, rfl, Or.inl rfl⟩
      | false =>
        simp only [Bool.false_eq_true, ↓reduceIte, run_bind, run_taking, Option.bind_some, hroot, run_give_head,
          hbuilt]
        by_cases hbuild : o.buildErr = 0
        · obtain ⟨p, hp, hlookup⟩ := @lookupBuilt_run [.page, .hParent] o
          obtain ⟨p', hp', hrelock⟩ := @relock_run [.page, .hParent] ok p hp
          refine ⟨p', _, ?_, Or.inr ⟨hp', rfl⟩⟩
          rw [if_neg (fun h => h hbuild)]
          simp only [run_bind, hunlock, Option.bind_some, hlookup, hrelock, outPathname_run]
        · rw [if_pos hbuild]
          exact ⟨.err o.buildErr, _, rfl, Or.inl rfl⟩
  · rw [if_pos hpar]
    refine ⟨o.hParent, _, rfl, Or.inl ?_⟩
    generalize o.hParent = p at hpar
    cases p with
    | err e => rfl
    | null => rfl
    | dentry => exact absurd rfl hpar

/-- A dentry that is not accepted is put; the lock is dropped. -/
theorem accept_run (o : FhIo) {p : Ptr} {out : List FhRes} (h : Kept p out) :
    ∃ p', (accept o p).run out = some (p', p'.refs .dentry) := by
  unfold accept
  by_cases hd : p = .dentry
  · subst hd
    cases hacc : o.accepted with
    | true =>
      refine ⟨.dentry, ?_⟩
      rcases h with rfl | ⟨-, rfl⟩ <;> rfl
    | false =>
      refine ⟨.err (- ESTALE), ?_⟩
      rcases h with rfl | ⟨-, rfl⟩ <;> rfl
  · refine ⟨p, ?_⟩
    rw [if_neg (by simp [hd])]
    cases p with
    | err e => rcases h with rfl | ⟨-, rfl⟩ <;> rfl
    | null => rcases h with rfl | ⟨-, rfl⟩ <;> rfl
    | dentry => exact absurd rfl hd

end

/-! ## The handle as a whole -/

/-- **Every exit of `aufs_decode_fh` has dropped the lock, and put everything but the dentry it returns**; and
    the branches were read under the lock, by an index that was still valid. -/
theorem aufsDecodeFh_run (o : FhIo) : ∃ p, (aufsDecodeFh o).run [] = some (p, p.refs .dentry) := by
  unfold aufsDecodeFh
  cases hvalid : o.valid with
  | false => exact ⟨.err (- ESTALE), rfl⟩
  | true =>
    have hlock : (siNfsdReadLock false true).run [] = some (true, [.si]) := rfl
    simp only [run_bind, hlock, Option.bind_some, Bool.not_true, Bool.false_eq_true, ↓reduceIte, run_taking]
    obtain ⟨p, hp⟩ := decodeByIno_run .dentry o.ino (show FhRes.si ∈ [.bindex, .si] by decide)
    rw [hp, Option.bind_some]
    by_cases hnull : p = .null
    · subst hnull
      obtain ⟨q, out, hq, hkept⟩ := decodeByDirIno_run o.dirRoot o.dirIno o.dirLkup o.validDir
      have hnone : (Ptr.null, Ptr.refs FhRes.dentry Ptr.null ++ [FhRes.bindex, FhRes.si]).2 =
          [.bindex, .si] := rfl
      rw [if_neg (fun h => h rfl), run_bind, hnone, hq, Option.bind_some]
      by_cases hqnull : q = .null
      · -- the lock was not dropped, so that the index is still the one of the handle
        have hout : out = [.bindex, .si] := by
          rcases hkept with h | ⟨h, -⟩
          · rw [h, hqnull]
            rfl
          · exact absurd hqnull h
        obtain ⟨p, out', hp', hkept'⟩ := decodeByPath_run o.path o.validPath
        rw [if_neg (fun h => h hqnull), run_bind, hout, hp', Option.bind_some]
        exact accept_run o hkept'
      · rw [if_pos hqnull]
        exact accept_run o hkept
    · rw [if_pos hnull]
      exact accept_run o (Or.inl rfl)

end KernelPatches.Aufs.DecodeFh
