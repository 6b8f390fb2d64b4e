/-
  A remount with another xino path.

  `au_xino_set` makes all xino files anew at the new path and copies the old ones: the xib file, the
  file of the inode generations, and one file for each file system of a branch.  The page of the
  bitmap that is in memory is not written back before, and after it `si_xib_last_pindex` is zero.  So
  the page in memory, whichever it was, is page 0 from then on.

  * `auXinoSet_mark`    — the bitmap after the remount: the page in memory, and the old file for the
                          other pages;
  * `auXinoSet_keeps_iff` — it is the same bitmap iff page 0 was in memory, or the file has the page
    in memory at its own place and at page 0;
  * `second_page_lost`  — a number of the second page is in use, a remount, and it is free again.
-/
import KernelPatches.Aufs.CopyFile
import KernelPatches.Aufs.InodeNumbers

namespace KernelPatches.Aufs

open KernelPatches.Lib

/-! ## au_xino_set -/

/-- AUFS_ROOT_INO -/
def rootIno : Nat := 2

/-- Where a xino file is: the directory and the name of its dentry. -/
structure XinoPath where
  parent : Nat
  name : List UInt8
  deriving DecidableEq, Repr

/-- What `au_xino_set` works on.  The xino files opened from now on get the numbers from `nextFile`
    on, and `hIno` are the inode numbers of the branches' root directories. -/
structure XinoMount where
  sb : Sbinfo
  xib : XinoPath
  siXigen : Option File
  nextFile : Nat
  hIno : Nat → Nat

/-- `au_xino_create2`: a new file, with the contents of `copySrc` if there is one. -/
def auXinoCreate2 (sBlocksize : Nat) (copySrc : Option File) (s : Sbinfo) :
    Option (Int × File × Sbinfo) :=
  let r := request s
  if r.1 < 0 then some (r.1, .empty, r.2)
  else
    match copySrc with
    | none => some (0, .empty, r.2)
    | some src =>
      match auCopyFile src src.size sBlocksize r.2.io with
      | none => none
      | some (err, file, io) => some (err, file, { r.2 with io := io })

/-- `au_xino_set_xib`.  The transfers of the copy and of the first page are those of the xib file.
    After an error there is no xib file, and no page if it could not be written. -/
def auXinoSetXib (sBlocksize : Nat) (s : Sbinfo) : Option (Int × Sbinfo) :=
  let r := request s
  if r.1 < 0 then some r
  else
    match (if s.xino then auCopyFile s.siXib s.siXib.size sBlocksize s.xibIo
      else some (0, .empty, s.xibIo)) with
    | none => none
    | some (err, file, xibIo) =>
      if err ≠ 0 then some (err, { r.2 with xibIo := xibIo })
      else
        let page := if s.xino then (0, r.2) else request r.2
        if page.1 < 0 then some (negENOMEM, { page.2 with siXib := .empty, xibIo := xibIo })
        else
          let s := { page.2 with
            siXib := file, xibIo := xibIo, siXibLastPindex := 0, siXibNextBit := 0
            siXibBuf := if s.xino then s.siXibBuf else fun _ => 0 }
          if file.size < pageSize then
            let w := xinoFwrite file s.siXibBuf pageSize 0 xibIo
            if w.1 ≠ pageSize then
              some (transferErr w.1, { s with siXib := .empty, siXibBuf := fun _ => 0, xibIo := w.2.2 })
            else some (0, { s with siXib := w.2.1, xibIo := w.2.2 })
          else some (0, s)

/-- `au_xigen_set` (export.c) -/
def auXigenSet (sBlocksize : Nat) (x : XinoMount) : Option (Int × XinoMount) :=
  match auXinoCreate2 sBlocksize x.siXigen x.sb with
  | none => none
  | some (err, file, sb) =>
    some (if err ≠ 0 then (err, { x with sb := sb }) else (0, { x with sb := sb, siXigen := some file }))

/-- The first loop of `au_xino_set_br`, over `count` branches from `bindex` on: the new file of each
    branch is `pair`.  `had` says that the branches have files. -/
def setBrLoop (A : Arch) (sBlocksize : Nat) (had : Bool) : Nat → Nat → (Nat → Nat) → XinoMount →
    Option (Int × (Nat → Nat) × XinoMount)
  | 0, _, pair, x => some (0, pair, x)
  | count + 1, bindex, pair, x =>
    let made : Option (Int × Nat × XinoMount) :=
      match isSbShared x.sb bindex (bindex - 1) with
      | some bshared => some (0, pair bshared, x)
      | none =>
        let old := x.sb.xinoFiles (x.sb.siBranch bindex).xiFile
        match auXinoCreate2 sBlocksize (if had then some old else none) x.sb with
        | none => none
        | some (err, file, sb) =>
          let sb := { sb with xinoFiles := Function.update sb.xinoFiles x.nextFile file }
          some (err, x.nextFile, { x with sb := sb, nextFile := x.nextFile + 1 })
    match made with
    | none => none
    | some (err, new, x) =>
      if err ≠ 0 then some (err, pair, x)
      else
        let w := auXinoDoWrite A (x.sb.xinoFiles new) (x.hIno bindex) rootIno x.sb.io
        let sb := { x.sb with xinoFiles := Function.update x.sb.xinoFiles new w.2.1, io := w.2.2 }
        let x := { x with sb := sb }
        if w.1 ≠ 0 then some (w.1, pair, x)
        else setBrLoop A sBlocksize had count (bindex + 1) (Function.update pair bindex new) x

/-- `au_xino_set_br` -/
def auXinoSetBr (A : Arch) (sBlocksize : Nat) (had : Bool) (x : XinoMount) :
    Option (Int × XinoMount) :=
  let fpair := request x.sb
  if fpair.1 < 0 then some (negENOMEM, { x with sb := fpair.2 })
  else
    match setBrLoop A sBlocksize had (x.sb.siBend + 1) 0 (fun _ => 0) { x with sb := fpair.2 } with
    | none => none
    | some (err, pair, x) =>
      if err ≠ 0 then some (err, x)
      else
        let siBranch := fun b =>
          if b ≤ x.sb.siBend then { x.sb.siBranch b with xiFile := pair b } else x.sb.siBranch b
        some (0, { x with sb := { x.sb with siBranch := siBranch } })

/-- `au_xino_set` -/
def auXinoSet (A : Arch) (sBlocksize : Nat) (xino : XinoPath) (remount : Bool) (x : XinoMount) :
    Option (Int × XinoMount) :=
  if remount ∧ x.sb.xino ∧ xino = x.xib then some (0, x)
  else
    match auXinoSetXib sBlocksize x.sb with
    | none => none
    | some (err, sb) =>
      let had := x.sb.xino
      let x := { x with sb := { sb with xino := true } }
      if err ≠ 0 then some (err, x)
      else
        match auXigenSet sBlocksize { x with xib := xino } with
        | none => none
        | some (err, x) => if err ≠ 0 then some (err, x) else auXinoSetBr A sBlocksize had x

/-! ## The bitmap of the new file -/

/-- The same bitmap: the xib file, the page in memory and its index. -/
structure SameBitmap (s s' : Sbinfo) : Prop where
  siXib : s'.siXib = s.siXib
  siXibBuf : s'.siXibBuf = s.siXibBuf
  last : s'.siXibLastPindex = s.siXibLastPindex

theorem SameBitmap.trans {s s' s'' : Sbinfo} (h : SameBitmap s s') (h' : SameBitmap s' s'') :
    SameBitmap s s'' :=
  ⟨h'.siXib.trans h.siXib, h'.siXibBuf.trans h.siXibBuf, h'.last.trans h.last⟩

theorem SameBitmap.mark {s s' : Sbinfo} (h : SameBitmap s s') (m : Nat) :
    Aufs.mark s' m = Aufs.mark s m := by
  rw [Aufs.mark, Aufs.mark, h.siXib, h.siXibBuf, h.last]

theorem auXinoCreate2_bitmap {sBlocksize : Nat} {copySrc : Option File} {s s' : Sbinfo} {err : Int}
    {file : File} (h : auXinoCreate2 sBlocksize copySrc s = some (err, file, s')) :
    SameBitmap s s' := by
  have hfin : ∀ io, s' = { s with io := io } → SameBitmap s s' := by
    intro io hs
    rw [hs]
    exact ⟨rfl, rfl, rfl⟩
  unfold auXinoCreate2 at h
  by_cases hr : (request s).1 < 0
  · rw [if_pos hr] at h
    exact hfin _ (congrArg (fun r => r.2.2) (Option.some.inj h)).symm
  rw [if_neg hr] at h
  cases copySrc with
  | none => exact hfin _ (congrArg (fun r => r.2.2) (Option.some.inj h)).symm
  | some src =>
    cases hc : auCopyFile src src.size sBlocksize (request s).2.io with
    | none =>
      simp only [hc] at h
      cases h
    | some r =>
      simp only [hc] at h
      exact hfin _ (congrArg (fun r => r.2.2) (Option.some.inj h)).symm

theorem auXigenSet_bitmap {sBlocksize : Nat} {x x' : XinoMount} {err : Int}
    (h : auXigenSet sBlocksize x = some (err, x')) : SameBitmap x.sb x'.sb := by
  rw [auXigenSet] at h
  cases hc : auXinoCreate2 sBlocksize x.siXigen x.sb with
  | none =>
    rw [hc] at h
    cases h
  | some r =>
    obtain ⟨err', file, sb⟩ := r
    rw [hc] at h
    have hx := congrArg Prod.snd (Option.some.inj h)
    have hsb : x'.sb = sb := by
      by_cases he : err' ≠ 0
      · rw [if_pos he] at hx
        exact congrArg XinoMount.sb hx.symm
      · rw [if_neg he] at hx
        exact congrArg XinoMount.sb hx.symm
    rw [hsb]
    exact auXinoCreate2_bitmap hc

/-- Writing the branches' files changes no bitmap, by induction on the branches left. -/
theorem setBrLoop_bitmap {A : Arch} {sBlocksize : Nat} {had : Bool} :
    ∀ {count bindex : Nat} {pair pair' : Nat → Nat} {x x' : XinoMount} {err : Int},
      setBrLoop A sBlocksize had count bindex pair x = some (err, pair', x') →
      SameBitmap x.sb x'.sb := by
  intro count
  induction count with
  | zero =>
    intro bindex pair pair' x x' err h
    rw [show x' = x from (congrArg (fun r => r.2.2) (Option.some.inj h)).symm]
    exact ⟨rfl, rfl, rfl⟩
  | succ count ih =>
    intro bindex pair pair' x x' err h
    rw [setBrLoop] at h
    -- the rest, once the branch has its file
    have hrest : ∀ (err0 : Int) (new : Nat) (x0 : XinoMount), SameBitmap x.sb x0.sb →
        (if err0 ≠ 0 then some (err0, pair, x0)
          else
            let w := auXinoDoWrite A (x0.sb.xinoFiles new) (x0.hIno bindex) rootIno x0.sb.io
            let sb := { x0.sb with xinoFiles := Function.update x0.sb.xinoFiles new w.2.1, io := w.2.2 }
            let x0 := { x0 with sb := sb }
            if w.1 ≠ 0 then some (w.1, pair, x0)
            else setBrLoop A sBlocksize had count (bindex + 1) (Function.update pair bindex new) x0)
          = some (err, pair', x') → SameBitmap x.sb x'.sb := by
      intro err0 new x0 hx0 h
      by_cases he : err0 ≠ 0
      · rw [if_pos he] at h
        rw [show x' = x0 from (congrArg (fun r => r.2.2) (Option.some.inj h)).symm]
        exact hx0
      rw [if_neg he] at h
      by_cases hw : (auXinoDoWrite A (x0.sb.xinoFiles new) (x0.hIno bindex) rootIno x0.sb.io).1 ≠ 0
      · simp only [if_pos hw] at h
        have hx' := (congrArg (fun r => r.2.2.sb) (Option.some.inj h)).symm
        rw [hx']
        exact ⟨hx0.siXib, hx0.siXibBuf, hx0.last⟩
      · simp only [if_neg hw] at h
        have hx' := ih h
        exact ⟨hx'.siXib.trans hx0.siXib, hx'.siXibBuf.trans hx0.siXibBuf, hx'.last.trans hx0.last⟩
    cases hsh : isSbShared x.sb bindex (bindex - 1) with
    | some bshared =>
      simp only [hsh] at h
      exact hrest 0 (pair bshared) x ⟨rfl, rfl, rfl⟩ h
    | none =>
      cases hc : auXinoCreate2 sBlocksize
        (if had then some (x.sb.xinoFiles (x.sb.siBranch bindex).xiFile) else none) x.sb with
      | none =>
        simp only [hsh, hc] at h
        cases h
      | some r =>
        obtain ⟨err0, file, sb⟩ := r
        simp only [hsh, hc] at h
        have hsb := auXinoCreate2_bitmap hc
        refine hrest err0 x.nextFile _ ?_ h
        exact ⟨hsb.siXib, hsb.siXibBuf, hsb.last⟩

theorem auXinoSetBr_bitmap {A : Arch} {sBlocksize : Nat} {had : Bool} {x x' : XinoMount} {err : Int}
    (h : auXinoSetBr A sBlocksize had x = some (err, x')) : SameBitmap x.sb x'.sb := by
  rw [auXinoSetBr] at h
  by_cases hr : (request x.sb).1 < 0
  · rw [if_pos hr] at h
    rw [show x'.sb = (request x.sb).2 from (congrArg (fun r => r.2.sb) (Option.some.inj h)).symm]
    exact ⟨rfl, rfl, rfl⟩
  rw [if_neg hr] at h
  cases hl : setBrLoop A sBlocksize had (x.sb.siBend + 1) 0 (fun _ => 0)
    { x with sb := (request x.sb).2 } with
  | none =>
    simp only [hl] at h
    cases h
  | some r =>
    obtain ⟨err0, pair, x0⟩ := r
    simp only [hl] at h
    have hx0 := setBrLoop_bitmap hl
    by_cases he : err0 ≠ 0
    · rw [if_pos he] at h
      rw [show x' = x0 from (congrArg Prod.snd (Option.some.inj h)).symm]
      exact ⟨hx0.siXib, hx0.siXibBuf, hx0.last⟩
    · rw [if_neg he] at h
      have hx' := (congrArg (fun r => r.2.sb) (Option.some.inj h)).symm
      rw [hx']
      exact ⟨hx0.siXib, hx0.siXibBuf, hx0.last⟩

/-- What `au_xino_set_xib` leaves: the page in memory as page 0, and the old file for the others. -/
structure Restarted (s s' : Sbinfo) : Prop where
  siXibBuf : s'.siXibBuf = s.siXibBuf
  last : s'.siXibLastPindex = 0
  stored : ∀ m, m / pageBits ≠ 0 → bitAt s'.siXib.data m = bitAt s.siXib.data m

theorem transferErr_ne (sz : Int) : transferErr sz ≠ 0 := by
  rw [transferErr]
  by_cases h : 0 ≤ sz
  · rw [if_pos h]
    decide
  · rw [if_neg h]
    omega

theorem auXinoSetXib_ok {sBlocksize : Nat} {s s' : Sbinfo} (hx : s.xino = true)
    (hun : Unfailing s.xibIo) (h : auXinoSetXib sBlocksize s = some (0, s')) : Restarted s s' := by
  rw [auXinoSetXib] at h
  simp only [hx, ↓reduceIte] at h
  by_cases hr : (request s).1 < 0
  · rw [if_pos hr] at h
    have hzero : (request s).1 = 0 := congrArg Prod.fst (Option.some.inj h)
    omega
  rw [if_neg hr] at h
  cases hc : auCopyFile s.siXib s.siXib.size sBlocksize s.xibIo with
  | none =>
    simp only [hc] at h
    cases h
  | some r =>
    obtain ⟨err, file, xibIo⟩ := r
    simp only [hc] at h
    by_cases he : err ≠ 0
    · rw [if_pos he] at h
      exact absurd (congrArg Prod.fst (Option.some.inj h)) he
    rw [if_neg he, if_neg (by decide)] at h
    rw [not_not.mp he] at hc
    have hfile : file.data = s.siXib.data := by
      funext i
      rw [auCopyFile_data hun hc]
      by_cases hlt : i < s.siXib.size
      · exact if_pos hlt
      · rw [if_neg hlt, s.siXib.beyond i (by omega)]
    by_cases hsz : file.size < pageSize
    · rw [if_pos hsz] at h
      by_cases hw : (xinoFwrite file s.siXibBuf pageSize 0 xibIo).1 ≠ pageSize
      · simp only [if_pos hw] at h
        have herr : transferErr (xinoFwrite file s.siXibBuf pageSize 0 xibIo).1 = 0 :=
          congrArg Prod.fst (Option.some.inj h)
        exact absurd herr (transferErr_ne _)
      -- the first page is written over the copy
      simp only [if_neg hw] at h
      rw [show s' = _ from (congrArg Prod.snd (Option.some.inj h)).symm]
      refine ⟨rfl, rfl, fun m hm => ?_⟩
      refine bitAt_congr ?_ rfl
      show (file.write 0 (answer pageSize xibIo).1.toNat s.siXibBuf).data (m / 8) = s.siXib.data (m / 8)
      have hfull : (answer pageSize xibIo).1 = pageSize := not_not.mp hw
      rw [File.write_data_out, hfile]
      rw [hfull, Int.toNat_natCast]
      rw [pageBits_eq] at hm
      rw [pageSize_eq]
      omega
    · rw [if_neg hsz] at h
      rw [show s' = _ from (congrArg Prod.snd (Option.some.inj h)).symm]
      exact ⟨rfl, rfl, fun m _ => bitAt_congr (congrFun hfile _) rfl⟩

/-- **The bitmap after the remount.** -/
theorem auXinoSet_mark {A : Arch} {sBlocksize : Nat} {xino : XinoPath} {x x' : XinoMount}
    (hx : x.sb.xino = true) (hpath : xino ≠ x.xib) (hun : Unfailing x.sb.xibIo)
    (h : auXinoSet A sBlocksize xino true x = some (0, x')) (m : Nat) :
    mark x'.sb m = if m / pageBits = 0 then bitAt x.sb.siXibBuf m else bitAt x.sb.siXib.data m := by
  have hskip : ¬ (true = true ∧ x.sb.xino = true ∧ xino = x.xib) := fun hc => hpath hc.2.2
  rw [auXinoSet, if_neg hskip] at h
  cases hxib : auXinoSetXib sBlocksize x.sb with
  | none =>
    simp only [hxib] at h
    cases h
  | some r =>
    obtain ⟨err, sb⟩ := r
    simp only [hxib] at h
    by_cases he : err ≠ 0
    · rw [if_pos he] at h
      exact absurd (congrArg Prod.fst (Option.some.inj h)) he
    rw [if_neg he] at h
    rw [not_not.mp he] at hxib
    have hre := auXinoSetXib_ok hx hun hxib
    cases hgen : auXigenSet sBlocksize { x with sb := { sb with xino := true }, xib := xino } with
    | none =>
      simp only [hgen] at h
      cases h
    | some r =>
      obtain ⟨err', x1⟩ := r
      simp only [hgen] at h
      by_cases he' : err' ≠ 0
      · rw [if_pos he'] at h
        exact absurd (congrArg Prod.fst (Option.some.inj h)) he'
      rw [if_neg he'] at h
      have hsame := (auXigenSet_bitmap hgen).trans (auXinoSetBr_bitmap h)
      rw [hsame.mark, mark]
      show (if m / pageBits = sb.siXibLastPindex then bitAt sb.siXibBuf (m % pageBits)
        else bitAt sb.siXib.data m) = _
      rw [hre.last, hre.siXibBuf]
      by_cases hm : m / pageBits = 0
      · rw [if_pos hm, if_pos hm, Nat.mod_eq_of_lt (Nat.lt_of_div_eq_zero (by decide) hm)]
      · rw [if_neg hm, if_neg hm, hre.stored m hm]

/-- **When a remount keeps the bitmap**, no transfer of the copy having failed: page 0 was in memory,
    or the page in memory is in the file already, at its place and at page 0 as well. -/
theorem auXinoSet_keeps_iff {A : Arch} {sBlocksize : Nat} {xino : XinoPath} {x x' : XinoMount}
    (hx : x.sb.xino = true) (hpath : xino ≠ x.xib) (hun : Unfailing x.sb.xibIo)
    (h : auXinoSet A sBlocksize xino true x = some (0, x')) :
    (∀ m, mark x'.sb m = mark x.sb m) ↔ x.sb.siXibLastPindex = 0 ∨
      ∀ i < pageBits, bitAt x.sb.siXib.data i = bitAt x.sb.siXibBuf i ∧
        bitAt x.sb.siXib.data (x.sb.siXibLastPindex * pageBits + i) = bitAt x.sb.siXibBuf i := by
  have hafter := auXinoSet_mark hx hpath hun h
  constructor
  · intro hsame
    by_cases hlast : x.sb.siXibLastPindex = 0
    · exact Or.inl hlast
    refine Or.inr fun i hi => ⟨?_, ?_⟩
    · -- a bit of page 0, which the file had
      have hdiv : i / pageBits = 0 := Nat.div_eq_of_lt hi
      have hm := hsame i
      rw [hafter, if_pos hdiv, mark_stored (by rw [hdiv]; exact Ne.symm hlast)] at hm
      exact hm.symm
    · -- a bit of the page that was in memory
      have hdiv : (x.sb.siXibLastPindex * pageBits + i) / pageBits = x.sb.siXibLastPindex := by
        rw [pageBits_eq] at hi ⊢
        omega
      have hmod : (x.sb.siXibLastPindex * pageBits + i) % pageBits = i := by
        rw [pageBits_eq] at hi ⊢
        omega
      have hm := hsame (x.sb.siXibLastPindex * pageBits + i)
      rw [hafter, if_neg (by rw [hdiv]; exact hlast), mark_cached hdiv, hmod] at hm
      exact hm
  · intro hcond m
    rw [hafter]
    have hmod : m % pageBits < pageBits := Nat.mod_lt _ (by decide)
    by_cases hm : m / pageBits = x.sb.siXibLastPindex
    · rw [mark_cached hm]
      by_cases h0 : m / pageBits = 0
      · rw [if_pos h0, Nat.mod_eq_of_lt (Nat.lt_of_div_eq_zero (by decide) h0)]
      · obtain hlast | hbits := hcond
        · exact absurd (hm.trans hlast) h0
        rw [if_neg h0, ← (hbits _ hmod).2, ← hm]
        congr 1
        rw [pageBits_eq]
        omega
    · rw [mark_stored hm]
      by_cases h0 : m / pageBits = 0
      · obtain hlast | hbits := hcond
        · exact absurd (h0.trans hlast.symm) hm
        have hlt : m < pageBits := Nat.lt_of_div_eq_zero (by decide) h0
        rw [if_pos h0, (hbits m hlt).1]
      · exact if_neg h0

/-! ## Where nothing fails -/

section NoFailures

variable {A : Arch} {sBlocksize : Nat}

theorem auXinoCreate2_nil {copySrc : Option File} {s : Sbinfo} (hio : s.io = []) :
    ∃ file, auXinoCreate2 sBlocksize copySrc s = some (0, file, s) := by
  have hzero : ¬ (0 : Int) < 0 := by decide
  unfold auXinoCreate2
  cases copySrc with
  | none => exact ⟨.empty, by simp only [request_nil hio, if_neg hzero]⟩
  | some src =>
    obtain ⟨file, hfile⟩ := auCopyFile_nil src sBlocksize
    refine ⟨file, ?_⟩
    simp only [request_nil hio, if_neg hzero, hio, hfile]
    rw [← setIo_nil hio]

/-- The branches all get their files, by induction on those left. -/
theorem setBrLoop_nil {had : Bool} : ∀ {count bindex : Nat} {pair : Nat → Nat} {x : XinoMount},
    x.sb.io = [] → (∀ b, InXino A (x.hIno b)) →
    ∃ pair' x', setBrLoop A sBlocksize had count bindex pair x = some (0, pair', x') := by
  intro count
  induction count with
  | zero => intro bindex pair x _ _; exact ⟨pair, x, rfl⟩
  | succ count ih =>
    intro bindex pair x hio hin
    rw [setBrLoop]
    cases hsh : isSbShared x.sb bindex (bindex - 1) with
    | some bshared =>
      simp only [hio, auXinoDoWrite_nil, if_pos (hin bindex), ne_eq, not_true, if_false]
      exact ih rfl hin
    | none =>
      obtain ⟨file, hfile⟩ := @auXinoCreate2_nil sBlocksize
        (if had then some (x.sb.xinoFiles (x.sb.siBranch bindex).xiFile) else none) x.sb hio
      simp only [hfile, hio, auXinoDoWrite_nil, if_pos (hin bindex), ne_eq, not_true, if_false]
      exact ih rfl hin

theorem auXinoSetXib_nil {s : Sbinfo} (hx : s.xino = true) (hio : s.io = []) (hxio : s.xibIo = []) :
    ∃ s', auXinoSetXib sBlocksize s = some (0, s') ∧ s'.io = [] := by
  obtain ⟨file, hfile⟩ := auCopyFile_nil s.siXib sBlocksize
  have hlt : ¬ (0 : Int) < 0 := by decide
  have hne : ¬ (0 : Int) ≠ 0 := by decide
  rw [auXinoSetXib]
  simp only [request_nil hio, if_neg hlt, hx, ↓reduceIte, hxio, hfile, if_neg hne]
  by_cases hsz : file.size < pageSize
  · simp only [if_pos hsz, xinoFwrite, answer]
    exact ⟨_, rfl, hio⟩
  · simp only [if_neg hsz]
    exact ⟨_, rfl, hio⟩

theorem auXigenSet_nil {x : XinoMount} (hio : x.sb.io = []) :
    ∃ x', auXigenSet sBlocksize x = some (0, x') ∧ x'.sb.io = [] ∧ x'.hIno = x.hIno := by
  obtain ⟨file, hfile⟩ := @auXinoCreate2_nil sBlocksize x.siXigen x.sb hio
  have hne : ¬ (0 : Int) ≠ 0 := by decide
  rw [auXigenSet, hfile]
  simp only [if_neg hne]
  exact ⟨_, rfl, hio, rfl⟩

/-- **A remount succeeds** where no request fails. -/
theorem auXinoSet_nil {xino : XinoPath} {x : XinoMount} (hx : x.sb.xino = true) (hpath : xino ≠ x.xib)
    (hio : x.sb.io = []) (hxio : x.sb.xibIo = []) (hin : ∀ b, InXino A (x.hIno b)) :
    ∃ x', auXinoSet A sBlocksize xino true x = some (0, x') := by
  have hskip : ¬ (true = true ∧ x.sb.xino = true ∧ xino = x.xib) := fun hc => hpath hc.2.2
  have hne : ¬ (0 : Int) ≠ 0 := by decide
  have hlt : ¬ (0 : Int) < 0 := by decide
  obtain ⟨sb, hxib, hsb⟩ := @auXinoSetXib_nil sBlocksize x.sb hx hio hxio
  obtain ⟨x1, hgen, hio1, hin1⟩ := @auXigenSet_nil sBlocksize
    { x with sb := { sb with xino := true }, xib := xino } hsb
  obtain ⟨pair, x2, hloop⟩ := @setBrLoop_nil A sBlocksize x.sb.xino (x1.sb.siBend + 1) 0 (fun _ => 0) x1
    hio1 (by rw [hin1]; exact hin)
  rw [auXinoSet, if_neg hskip, hxib]
  simp only [if_neg hne, hgen]
  rw [auXinoSetBr]
  simp only [request_nil hio1, if_neg hlt, hloop, if_neg hne]
  exact ⟨_, rfl⟩

end NoFailures

/-! ## A remount that loses a number -/

/-- The second page of the bitmap is in memory, its first number in use; the file has zeros. -/
def secondPage : XinoMount where
  sb := {
    xino := true
    siBend := 0
    siBranch := fun _ => ⟨0, 0⟩
    xinoFiles := fun _ => writeEntry .lp64 .empty 5 32779
    siXib := File.empty.write 0 (2 * pageSize) fun _ => 0
    siXibBuf := setBitAt (fun _ => 0) 0
    siXibLastPindex := 1
    siXibNextBit := 1
    uniq := fun n => n
    io := []
    xibIo := [] }
  xib := ⟨0, [97]⟩
  siXigen := none
  nextFile := 1
  hIno := fun _ => 2

theorem secondPage_file (m : Nat) : bitAt secondPage.sb.siXib.data m = false := by
  have hdata : secondPage.sb.siXib.data (m / 8) = 0 := ite_self _
  rw [← bitAt_zero m]
  exact bitAt_congr hdata rfl

/-- The remount to file `b` succeeds, and the number is free again. -/
theorem second_page_lost : ∃ x', auXinoSet .lp64 4096 ⟨0, [98]⟩ true secondPage = some (0, x') ∧
    Recorded .lp64 secondPage.sb 32779 ∧ mark secondPage.sb (32779 - firstIno) = true ∧
    mark x'.sb (32779 - firstIno) = false := by
  obtain ⟨x', hset⟩ := @auXinoSet_nil .lp64 4096 ⟨0, [98]⟩ secondPage rfl (by decide) rfl rfl
    (fun _ => by show InXino .lp64 2; decide)
  refine ⟨x', hset, ?_, ?_, ?_⟩
  · refine ⟨0, Nat.le_refl _, 5, ?_⟩
    exact (entry_writeEntry (Nat.dvd_zero _) (by decide) 5 5).trans (if_pos rfl)
  · rw [mark_cached (by rfl)]
    show bitAt (setBitAt (fun _ => 0) 0) 0 = true
    rw [bitAt_setBitAt]
    rfl
  · rw [auXinoSet_mark rfl (by decide) unfailing_nil hset, if_neg (by decide)]
    exact secondPage_file _

/-- Here the page in memory is not in the file at its place. -/
theorem auXinoSet_keeps_second : ∃ x', auXinoSet .lp64 4096 ⟨0, [98]⟩ true secondPage = some (0, x') ∧
    ¬ ∀ m, mark x'.sb m = mark secondPage.sb m := by
  obtain ⟨x', hset⟩ := @auXinoSet_nil .lp64 4096 ⟨0, [98]⟩ secondPage rfl (by decide) rfl rfl
    (fun _ => by show InXino .lp64 2; decide)
  refine ⟨x', hset, ?_⟩
  rw [auXinoSet_keeps_iff rfl (by decide) unfailing_nil hset]
  rintro (hlast | hbits)
  · exact absurd hlast (by decide)
  · have hbit := (hbits 0 (by decide)).1
    have hset : bitAt secondPage.sb.siXibBuf 0 = true := by
      show bitAt (setBitAt (fun _ => 0) 0) 0 = true
      rw [bitAt_setBitAt]
      rfl
    rw [secondPage_file, hset] at hbit
    exact Bool.noConfusion hbit

end KernelPatches.Aufs
