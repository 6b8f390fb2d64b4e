/-
  aufs: the hidden files of an open file.

  An open file keeps one slot for each branch, and a slot in use holds a hidden file together with its branch.
  `br_count` of the branch is taken in `au_h_open`, before the hidden file is there, and given back in
  `au_hfput`, by whoever empties the slot.  The slots are found by the index of the branch, which changes when
  branches are added or deleted; `refresh_file` moves them.

  * `AufsFile`, `FileSb`      — an open file, and the branches with their counts;
  * `auHOpen`, `auSetHFptr`   — opening a hidden file, and putting it into its slot or taking it out;
  * `auReopenNondir`          — a regular file is opened again where its dentry starts;
  * `auReadyToWrite`          — a file is made writable, on the branch it is on or on another one;
  * `refreshFile`             — after the branches were changed;
  * `auDoOpen`, `auFinfoFin`  — the first open, and the release.

  The steps answer through `OpenIo`, `WriteIo` and `RefreshIo`, zero or an error, which is negative.  A call
  that does not come back answers `oops`: it used a null or an error pointer, or it loops for ever.  The state
  beside the answer is the one it stopped in.
-/
import KernelPatches.Aufs.Branch

namespace KernelPatches.Aufs

open KernelPatches.Lib

def ENOMEM : Int := 12

/-! ## Files and branches -/

/-- FMODE_WRITE and FMODE_EXEC of `f_mode` -/
def fmodeWrite : Nat := 2
def fmodeExec : Nat := 16

/-- A bit of `f_mode`. -/
def hasMode (fMode bit : Nat) : Bool := fMode &&& bit ≠ 0

/-- A hidden file. -/
structure HiddenFile where
  id : Nat
  fDentry : HDentry
  fMode : Nat

/-- `struct au_hfile`, in use. -/
structure AuHfile where
  hfFile : HiddenFile
  hfBr : Nat

/-- The branches of a super block, by identity, its generation, and of each branch `br_id` and `br_count`. -/
structure FileSb where
  siBranch : List Nat
  siGeneration : Nat
  brId : Nat → Int
  brCount : Nat → Int

namespace FileSb

/-- `au_br_get` -/
def auBrGet (sb : FileSb) (br : Nat) : FileSb :=
  { sb with brCount := Function.update sb.brCount br (sb.brCount br + 1) }

/-- `au_br_put` -/
def auBrPut (sb : FileSb) (br : Nat) : FileSb :=
  { sb with brCount := Function.update sb.brCount br (sb.brCount br - 1) }

/-- `au_find_bindex` -/
def auFindBindex (sb : FileSb) (br : Nat) : Option Nat := sb.siBranch.idxOf? br

/-- `au_br_index` -/
def auBrIndex (sb : FileSb) (brId : Int) : Int :=
  match sb.siBranch.findIdx? (sb.brId · = brId) with
  | none => -1
  | some bindex => bindex

end FileSb

/-- An open file of aufs with its `au_finfo`. -/
structure AufsFile where
  fMode : Nat
  isDir : Bool
  fiBstart : Int
  fiBend : Int
  fiHfile : List (Option AuHfile)
  fiGeneration : Nat

namespace AufsFile

/-- A slot of `fi_hfile`. -/
def slot (f : AufsFile) (bindex : Nat) : Option AuHfile := f.fiHfile.getD bindex none

/-- `au_h_fptr` -/
def hFptr (f : AufsFile) (bindex : Int) : Option AuHfile := if bindex < 0 then none else f.slot bindex.toNat

/-- Two slots change places. -/
def swap (f : AufsFile) (i j : Nat) : AufsFile :=
  { f with fiHfile := (f.fiHfile.set j (f.slot i)).set i (f.slot j) }

end AufsFile

/-- The state of a call: the branches and the file. -/
structure FileSt where
  sb : FileSb
  f : AufsFile

/-- The answer of a call. -/
inductive Reply (α : Type) where
  | ok (a : α)
  | err (e : Int)
  | oops

/-! ## Hidden files -/

/-- What opening a hidden file meets: whether it was removed meanwhile, what `dentry_open`, or the intent of
    an nfs branch, answers, and `au_deny_write_access`. -/
structure OpenIo where
  enoent : Bool
  dentryOpen : Except Int HiddenFile
  denyWrite : Int

/-- `au_h_open`, for a file with the mode `file`, if there is one. -/
def auHOpen (o : OpenIo) (d : Dinfo) (bindex : Int) (file : Option Nat) (sb : FileSb) :
    Reply HiddenFile × FileSb :=
  if (d.hDptr bindex.toNat).isNone then (.oops, sb)
  else if o.enoent then (.err (- ENOENT), sb)
  else
    match sb.siBranch[bindex.toNat]? with
    | none => (.oops, sb)
    | some br =>
      let sb := sb.auBrGet br
      match o.dentryOpen with
      | .error err =>
        -- FMODE_EXEC is set in what is an error pointer
        if file.any (hasMode · fmodeExec) then (.oops, sb)
        else (.err err, sb.auBrPut br)
      | .ok hFile =>
        if file.any (hasMode · fmodeExec) then
          if o.denyWrite ≠ 0 then (.err o.denyWrite, sb.auBrPut br)
          else (.ok { hFile with fMode := hFile.fMode ||| fmodeExec }, sb)
        else (.ok hFile, sb)

/-- `au_set_h_fptr`: what is in the slot is put, and `val` takes its place, with the branch of the index. -/
def auSetHFptr (s : FileSt) (bindex : Nat) (val : Option HiddenFile) : FileSt :=
  { sb := match s.f.slot bindex with
      | none => s.sb
      | some hf => s.sb.auBrPut hf.hfBr
    f := { s.f with
      fiHfile := s.f.fiHfile.set bindex (val.bind fun h => s.sb.siBranch[bindex]?.map fun br => ⟨h, br⟩) } }

/-- `count` slots from `bindex` on are emptied. -/
def closeSlots : Nat → Nat → FileSt → FileSt
  | 0, _, s => s
  | count + 1, bindex, s => closeSlots count (bindex + 1) (auSetHFptr s bindex none)

/-- The slots from `bstart` to `bend` are emptied. -/
def closeRange (bstart bend : Int) (s : FileSt) : FileSt := closeSlots (bend + 1 - bstart).toNat bstart.toNat s

/-! ## Regular files -/

/-- `au_reopen_nondir` from where nothing is in the slot of `di_bstart`. -/
def reopenAt (o : OpenIo) (d : Dinfo) (s : FileSt) : Reply Unit × FileSt :=
  match auHOpen o d d.diBstart (some s.f.fMode) s.sb with
  | (.oops, sb) => (.oops, { s with sb := sb })
  | (.err err, sb) => (.err err, { s with sb := sb })
  | (.ok hFile, sb) =>
    let s := auSetHFptr ⟨sb, { s.f with fiBstart := d.diBstart }⟩ d.diBstart.toNat (some hFile)
    let s := { s with f := { s.f with fiGeneration := sb.siGeneration } }
    -- close lower files
    let s := closeRange (d.diBstart + 1) s.f.fiBend s
    (.ok (), { s with f := { s.f with fiBend := d.diBstart } })

/-- `au_reopen_nondir`.  The old hidden file is kept for the time of the call, but not in its slot. -/
def auReopenNondir (o : OpenIo) (d : Dinfo) (s : FileSt) : Reply Unit × FileSt :=
  if s.f.fiBstart = d.diBstart then
    match s.f.hFptr d.diBstart with
    | none => (.oops, s)
    | some hf =>
      if s.f.fMode = hf.hfFile.fMode then (.ok (), s)
      else reopenAt o d (auSetHFptr s d.diBstart.toNat none)
  else reopenAt o d s

/-! ## Before a write -/

/-- What `au_ready_to_write` meets: whether the branch of the file is read-only, the error of `au_pin` on it;
    the branch of the copy-up policy, the errors of `au_cpup_dirs` and of `au_pin` there; whether the dentry is
    unhashed, the `hi_wh` of the branch, the temporary dentry of the copy-up of a deleted file or the error of
    `au_whtmp_lkup`; the error of the copy-up, and the dentry after it; the open of the hidden file, and the
    error of unlinking the temporary name. -/
structure WriteIo where
  testRo : Bool
  pin : Int
  copyup : Int
  cpupDirs : Int
  pinCpup : Int
  unhashed : Bool
  hiWh : Option HDentry
  whDentry : Except Int HDentry
  cpup : Int
  cpupDinfo : Dinfo
  hOpen : OpenIo
  unlink : Int

/-- The dentry as if it started on `bcpup`, with `hDentry` there. -/
def Dinfo.redirect (d : Dinfo) (bcpup : Nat) (hDentry : Option HDentry) : Dinfo :=
  { d with diBstart := bcpup, diHdentry := Function.update d.diHdentry bcpup hDentry }

/-- The dentry as it was before: `di_bstart`, and what stood on `bcpup`. -/
def Dinfo.restore (d : Dinfo) (bcpup : Nat) (old : Dinfo) : Dinfo :=
  { d with diBstart := old.diBstart, diHdentry := Function.update d.diHdentry bcpup (old.diHdentry bcpup) }

section

variable (o : WriteIo)

/-- `au_do_cpup_wh` with the file. -/
def doCpupWhOpen (d : Dinfo) (bdst : Nat) (whDentry : HDentry) (s : FileSt) : Reply Unit × Dinfo × FileSt :=
  match s.f.hFptr s.f.fiBstart with
  | none => (.oops, d, s)
  | some hf =>
    let d' := (d.redirect bdst (some whDentry)).setHDptr d.diBstart.toNat (some hf.hfFile.fDentry)
    -- the hidden dentry of the old start stays replaced when the copy-up fails
    if o.cpup ≠ 0 then (.err o.cpup, d'.restore bdst d, s)
    else
      let r := auReopenNondir o.hOpen d' s
      (r.1, (d'.setHDptr d.diBstart.toNat (d.diHdentry d.diBstart.toNat)).restore bdst d, r.2)

/-- `au_cpup_wh` with the file. -/
def auCpupWh (d : Dinfo) (bdst : Nat) (s : FileSt) : Reply Unit × Dinfo × FileSt :=
  match o.whDentry with
  | .error err => (.err err, d, s)
  | .ok whDentry =>
    match doCpupWhOpen o d bdst whDentry s with
    | (.ok (), d, s) => (if o.unlink ≠ 0 then .err (- EIO) else .ok (), d, s)
    | r => r

/-- `au_ready_to_write_wh` -/
def auReadyToWriteWh (d : Dinfo) (bcpup : Nat) (s : FileSt) : Reply Unit × Dinfo × FileSt :=
  match o.hiWh with
  | none => auCpupWh o d bcpup s
  | some hiWh =>
    -- already copied-up after unlink
    let d' := d.redirect bcpup (some hiWh)
    let r := auReopenNondir o.hOpen d' s
    (r.1, d'.restore bcpup d, r.2)

/-- `au_ready_to_write` -/
def auReadyToWrite (d : Dinfo) (s : FileSt) : Reply Unit × Dinfo × FileSt :=
  let hf := s.f.hFptr s.f.fiBstart
  if !o.testRo && hf.isNone then (.oops, d, s)
  else if !o.testRo && hf.any (hasMode ·.hfFile.fMode fmodeWrite) then
    (if o.pin ≠ 0 then .err o.pin else .ok (), d, s)
  -- need to cpup
  else if o.copyup < 0 then (.err o.copyup, d, s)
  else if o.cpupDirs ≠ 0 then (.err o.cpupDirs, d, s)
  else if o.pinCpup ≠ 0 then (.err o.pinCpup, d, s)
  else if hf.isNone then (.oops, d, s)
  else if o.unhashed then auReadyToWriteWh o d o.copyup.toNat s
  else if (d.hDptr o.copyup.toNat).isSome then
    let r := auReopenNondir o.hOpen d s
    (r.1, d, r.2)
  else if o.cpup ≠ 0 then (.err o.cpup, d, s)
  else
    let r := auReopenNondir o.hOpen o.cpupDinfo s
    (r.1, o.cpupDinfo, r.2)

end

/-! ## Directories -/

/-- The missing hidden directories are opened, on `count` branches from `bindex` on. -/
def openDirs (o : Nat → OpenIo) (d : Dinfo) : Nat → Nat → FileSt → Reply Unit × FileSt
  | 0, _, s => (.ok (), s)
  | count + 1, bindex, s =>
    if (d.hDptr bindex).isNone || (s.f.slot bindex).isSome then openDirs o d count (bindex + 1) s
    else
      match auHOpen (o bindex) d bindex (some s.f.fMode) s.sb with
      | (.oops, sb) => (.oops, { s with sb := sb })
      | (.err err, sb) => (.err err, { s with sb := sb })
      | (.ok hFile, sb) => openDirs o d count (bindex + 1) (auSetHFptr ⟨sb, s.f⟩ bindex (some hFile))

/-- `reopen_dir` -/
def reopenDir (o : Nat → OpenIo) (d : Dinfo) (s : FileSt) : Reply Unit × FileSt :=
  let btail := auDbtaildir d
  let s := closeRange s.f.fiBstart (d.diBstart - 1) s
  let s := { s with f := { s.f with fiBstart := d.diBstart } }
  let s := closeRange (btail + 1) s.f.fiBend s
  let s := { s with f := { s.f with fiBend := btail } }
  match openDirs o d (btail + 1 - d.diBstart).toNat d.diBstart.toNat s with
  | (.ok (), s) => (.ok (), { s with f := { s.f with fiGeneration := s.sb.siGeneration } })
  | r => r

/-! ## After the branches were changed -/

/-- What `refresh_file` meets: whether there is memory, how far its first loop is followed, which hidden files
    have an inode, whether the file is mapped and its dentry unhashed; where the inode starts, whether that
    branch is read-only and the branch of the copy-up policy; whether there is a pseudo-link, and the error of
    its copy-up; the `hi_wh` of the branch and the open of it; and the dentry, which has an inode and so starts
    somewhere, and the opens of the reopen. -/
structure RefreshIo where
  nomem : Bool
  fuel : Nat
  dInode : Nat → Bool
  mmapped : Bool
  unhashed : Bool
  ibstart : Int
  testRo : Bool
  copyup : Int
  plinked : Bool
  cpup : Int
  hiWh : Option HDentry
  whOpen : OpenIo
  dinfo : Dinfo
  starts : 0 ≤ dinfo.diBstart
  hOpen : Nat → OpenIo

/-- The loop that moves the slots to where their branches are: whether it has come to its end. -/
def refreshSlots : Nat → Nat → FileSt → Bool × FileSt
  | 0, _, s => (false, s)
  | fuel + 1, bindex, s =>
    if s.f.fiBend < bindex then (true, s)
    else
      match s.f.slot bindex with
      | none => refreshSlots fuel (bindex + 1) s
      | some hf =>
        match s.sb.auFindBindex hf.hfBr with
        | none => refreshSlots fuel (bindex + 1) (auSetHFptr s bindex none)
        | some newBindex =>
          if newBindex = bindex then refreshSlots fuel (bindex + 1) s
          -- swap two hidden inode, and loop again
          else
            refreshSlots fuel (if (s.f.slot newBindex).isSome then bindex else bindex + 1)
              { s with f := s.f.swap bindex newBindex }

/-- From `bindex` on, the slots without an inode are emptied up to the first that has one: its index. -/
def closeDeadUp (dInode : Nat → Bool) : Nat → Nat → FileSt → Nat × FileSt
  | 0, bindex, s => (bindex, s)
  | count + 1, bindex, s =>
    match s.f.slot bindex with
    | none => closeDeadUp dInode count (bindex + 1) s
    | some hf =>
      if dInode hf.hfFile.id then (bindex, s)
      else closeDeadUp dInode count (bindex + 1) (auSetHFptr s bindex none)

/-- The same from above, down to `bstart`. -/
def closeDeadDown (dInode : Nat → Bool) (bstart : Nat) : Nat → FileSt → Int × FileSt
  | 0, s => (bstart - 1, s)
  | count + 1, s =>
    match s.f.slot (bstart + count) with
    | none => closeDeadDown dInode bstart count s
    | some hf =>
      if dInode hf.hfFile.id then ((bstart + count : Nat), s)
      else closeDeadDown dInode bstart count (auSetHFptr s (bstart + count) none)

/-- The new `fi_bstart`, with the slots below it emptied. -/
def refreshStart (o : RefreshIo) (brid : Int) (s : FileSt) : Nat × FileSt :=
  if !o.mmapped && !o.unhashed then closeDeadUp o.dInode s.sb.siBranch.length 0 s
  else
    let bend := s.sb.auBrIndex brid
    (bend.toNat, closeRange 0 (bend - 1) s)

/-- The middle of `refresh_file`: the new `fi_bstart` and `fi_bend`. -/
def refreshRange (o : RefreshIo) (brid : Int) (s : FileSt) : FileSt :=
  let start := refreshStart o brid s
  let s := { start.2 with f := { start.2.f with fiBstart := start.1 } }
  let stop := closeDeadDown o.dInode start.1 (s.sb.siBranch.length - start.1) s
  { stop.2 with f := { stop.2.f with fiBend := stop.1 } }

/-- `au_file_refresh_by_inode`: whether the file still needs to be reopened. -/
def auFileRefreshByInode (o : RefreshIo) (s : FileSt) : Reply Bool × FileSt :=
  if o.ibstart = s.f.fiBstart then (.ok true, s)
  else
    let newBstart := if o.testRo then o.copyup else o.ibstart
    if newBstart < 0 then (.err newBstart, s)
    else if o.plinked && !o.unhashed then (if o.cpup ≠ 0 then .err o.cpup else .ok true, s)
    else
      match o.hiWh with
      | none => (.ok true, s)
      | some hiWh =>
        match auReopenNondir o.whOpen (o.dinfo.redirect newBstart.toNat (some hiWh)) s with
        | (.ok (), s) => (.ok false, s)
        | (.err err, s) => (.err err, s)
        | (.oops, s) => (.oops, s)

/-- The `reopen` that is passed to `refresh_file`. -/
def reopen (o : RefreshIo) (s : FileSt) : Reply Unit × FileSt :=
  if s.f.isDir then reopenDir o.hOpen o.dinfo s
  else auReopenNondir (o.hOpen o.dinfo.diBstart.toNat) o.dinfo s

/-- The file is reopened, if it needs to be and its dentry is hashed. -/
def reopenNeeded (o : RefreshIo) : Reply Bool × FileSt → Reply Unit × FileSt
  | (.ok needReopen, s) => if needReopen && !o.unhashed then reopen o s else (.ok (), s)
  | (.err err, s) => (.err err, s)
  | (.oops, s) => (.oops, s)

/-- The end of `refresh_file`: the file is opened again, and closed when that fails. -/
def refreshReopen (o : RefreshIo) (s : FileSt) : Reply Unit × FileSt :=
  match reopenNeeded o (if o.mmapped then (.ok true, s) else auFileRefreshByInode o s) with
  | (.ok (), s) => (.ok (), { s with f := { s.f with fiGeneration := s.sb.siGeneration } })
  -- error, close all hidden files
  | (.err err, s) => (.err err, closeRange s.f.fiBstart s.f.fiBend s)
  | (.oops, s) => (.oops, s)

/-- `refresh_file` -/
def refreshFile (o : RefreshIo) (s : FileSt) : Reply Unit × FileSt :=
  if o.nomem then (.err (- ENOMEM), s)
  else
    let s := { s with f := { s.f with
      fiHfile := regrow s.f.fiHfile (s.f.fiBend + 1).toNat s.sb.siBranch.length none } }
    match s.f.hFptr s.f.fiBstart with
    | none => (.oops, s)
    | some hf =>
      let brid := s.sb.brId hf.hfBr
      match refreshSlots o.fuel s.f.fiBstart.toNat s with
      | (false, s) => (.oops, s)
      | (true, s) => refreshReopen o (refreshRange o brid s)

/-- What `au_reval_and_lock_fdi` meets: where the dentry and the inode start, the error of `au_reval_dpath`,
    if the dentry is old, and `refresh_file`. -/
structure RevalIo where
  dbstart : Int
  ibstart : Int
  revalDpath : Int
  refresh : RefreshIo

/-- `au_reval_and_lock_fdi` -/
def auRevalAndLockFdi (o : RevalIo) (s : FileSt) : Reply Unit × FileSt :=
  if s.sb.siGeneration = s.f.fiGeneration ∧ o.dbstart = o.ibstart ∧ s.f.fiBstart = o.dbstart then (.ok (), s)
  else if o.revalDpath < 0 then (.err o.revalDpath, s)
  else refreshFile o.refresh s

/-- `aufs_read`, up to the hidden file that is read. -/
def aufsRead (o : RevalIo) (s : FileSt) : Reply HiddenFile × FileSt :=
  match auRevalAndLockFdi o s with
  | (.err err, s) => (.err err, s)
  | (.oops, s) => (.oops, s)
  | (.ok (), s) =>
    match s.f.hFptr s.f.fiBstart with
    | none => (.oops, s)
    | some hf => (.ok hf.hfFile, s)

/-! ## Open and release -/

/-- `au_finfo_fin` -/
def auFinfoFin (s : FileSt) : FileSt :=
  if 0 ≤ s.f.fiBstart then closeRange s.f.fiBstart s.f.fiBend s else s

/-- What `au_do_open` meets: whether there is memory, the error of `do_coo`, by how much the generation of the
    dentry is behind, the dentry, and the opens. -/
structure DoOpenIo where
  nomem : Bool
  coo : Int
  behind : Nat
  dinfo : Dinfo
  starts : 0 ≤ dinfo.diBstart
  hOpen : Nat → OpenIo

/-- `au_finfo_init` -/
def auFinfoInit (o : DoOpenIo) (fMode : Nat) (isDir : Bool) (sb : FileSb) : AufsFile :=
  { fMode := fMode, isDir := isDir, fiBstart := -1, fiBend := -1
    fiHfile := List.replicate sb.siBranch.length none
    fiGeneration := sb.siGeneration - o.behind }

/-- `do_open_nondir` -/
def doOpenNondir (o : DoOpenIo) (s : FileSt) : Reply Unit × FileSt :=
  let bindex := o.dinfo.diBstart
  match auHOpen (o.hOpen bindex.toNat) o.dinfo bindex (some s.f.fMode) s.sb with
  | (.oops, sb) => (.oops, { s with sb := sb })
  | (.err err, sb) => (.err err, { s with sb := sb })
  | (.ok hFile, sb) =>
    let f := { s.f with fiBstart := bindex, fiBend := bindex }
    let s := auSetHFptr ⟨sb, f⟩ bindex.toNat (some hFile)
    (.ok (), { s with f := { s.f with fiGeneration := sb.siGeneration - o.behind } })

/-- `do_open_dir` -/
def doOpenDir (o : DoOpenIo) (s : FileSt) : Reply Unit × FileSt :=
  let btail := auDbtaildir o.dinfo
  let f := { s.f with fiBstart := o.dinfo.diBstart, fiBend := btail }
  let n := (btail + 1 - o.dinfo.diBstart).toNat
  match openDirs o.hOpen o.dinfo n o.dinfo.diBstart.toNat ⟨s.sb, f⟩ with
  | (.oops, s) => (.oops, s)
  | (.ok (), s) => (.ok (), { s with f := { s.f with fiGeneration := s.sb.siGeneration - o.behind } })
  | (.err err, s) =>
    -- close all
    let s := closeRange s.f.fiBstart btail s
    (.err err, { s with f := { s.f with
      fiBstart := -1, fiBend := -1, fiGeneration := s.sb.siGeneration - o.behind } })

/-- `au_do_open` -/
def auDoOpen (o : DoOpenIo) (fMode : Nat) (isDir : Bool) (sb : FileSb) : Reply Unit × FileSt :=
  let s : FileSt := ⟨sb, auFinfoInit o fMode isDir sb⟩
  if o.nomem then (.err (- ENOMEM), s)
  else if o.coo ≠ 0 then (.err o.coo, auFinfoFin s)
  else
    match if isDir then doOpenDir o s else doOpenNondir o s with
    | (.err err, s) => (.err err, auFinfoFin s)
    | r => r

/-! ## Slots -/

section

variable {f : AufsFile} {s : FileSt} {b i : Nat} {val : Option HiddenFile} {hf : AuHfile}

theorem AufsFile.slot_eq_some : f.slot i = some hf ↔ f.fiHfile[i]? = some (some hf) := by
  rw [AufsFile.slot, List.getD_eq_getElem?_getD]
  cases f.fiHfile[i]? with
  | none => simp
  | some x => simp

theorem AufsFile.hFptr_eq_some {bindex : Int} :
    f.hFptr bindex = some hf ↔ 0 ≤ bindex ∧ f.slot bindex.toNat = some hf := by
  rw [AufsFile.hFptr]
  by_cases h : bindex < 0
  · rw [if_pos h]
    constructor
    · intro h'
      cases h'
    · rintro ⟨h', -⟩
      omega
  · rw [if_neg h]
    exact ⟨fun h' => ⟨by omega, h'⟩, And.right⟩

/-- The slot is empty after it was emptied. -/
theorem slot_auSetHFptr_self : (auSetHFptr s b none).f.slot b = none := by
  show (s.f.fiHfile.set b none).getD b none = none
  rw [List.getD_eq_getElem?_getD]
  by_cases hb : b < s.f.fiHfile.length
  · rw [List.getElem?_set_self hb]
    rfl
  · rw [List.getElem?_eq_none (by rw [List.length_set]; omega)]
    rfl

/-- The slot holds the hidden file after it was put there. -/
theorem slot_auSetHFptr_some {h : HiddenFile} {br : Nat} (hb : b < s.f.fiHfile.length)
    (hbr : s.sb.siBranch[b]? = some br) : (auSetHFptr s b (some h)).f.slot b = some ⟨h, br⟩ := by
  rw [AufsFile.slot_eq_some]
  show (s.f.fiHfile.set b ((some h).bind fun h => s.sb.siBranch[b]?.map fun br => ⟨h, br⟩))[b]? = _
  rw [List.getElem?_set_self hb, hbr]
  rfl

/-- The other slots stay. -/
theorem slot_auSetHFptr_ne (hi : i ≠ b) : (auSetHFptr s b val).f.slot i = s.f.slot i := by
  show (s.f.fiHfile.set b _).getD i none = s.f.fiHfile.getD i none
  rw [List.getD_eq_getElem?_getD, List.getD_eq_getElem?_getD, List.getElem?_set_ne (Ne.symm hi)]

/-- The branches stay what they are, whatever is put. -/
theorem auSetHFptr_siBranch : (auSetHFptr s b val).sb.siBranch = s.sb.siBranch := by
  unfold auSetHFptr
  cases s.f.slot b <;> rfl

end

end KernelPatches.Aufs
