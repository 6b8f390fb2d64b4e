/-
  aufs: `setattr`, and what a failed call leaves of the file.

  A file that cannot be written where it is, is copied up first, and when its size is to be reduced, only the
  bytes that will REMAIN are copied.  Then the page cache and the size of the inode of the union are cut, and
  then the lower file system is asked for the change.  When it refuses, nothing of this is undone.

  * `UnionFile`           — a file: its copy on each branch, where it starts, and the size of its inode;
  * `auLockAndIcpup`      — the branch that is changed, and the copy-up to it;
  * `aufsSetattr`         — the call;
  * `setattr_keeps_iff`   — the contents and the size survive an error iff the size was not cut before, and
                            what was copied, if anything was, is the whole file.

  The steps answer through `SetattrIo`, zero or an error, which is negative.  `none` is a call that does not
  come back: a null pointer, or a file that is read for ever.
-/
import KernelPatches.Aufs.CopyFile
import KernelPatches.Aufs.Cpup

namespace KernelPatches.Aufs

open KernelPatches.Lib

/-! ## Files -/

/-- A file of the union: the index of the last branch, the file's copies, the branches its dentry and its inode
    start on, `i_size` of the inode, and whether the dentry is unhashed, the file having been deleted. -/
structure UnionFile where
  siBend : Nat
  copies : Nat → Option File
  dbstart : Nat
  ibstart : Nat
  iSize : Nat
  unhashed : Bool

namespace UnionFile

/-- The topmost copy. -/
def topmost (f : UnionFile) : Option File := (List.range (f.siBend + 1)).findSome? f.copies

/-- **What is seen through the union**: the data of the topmost copy, and the size. -/
def seen (f : UnionFile) : Option File × Nat := (f.topmost, f.iSize)

/-- The file with a copy on branch `b`, if there is one to put there. -/
def place (f : UnionFile) (b : Nat) (made : Option File) : UnionFile :=
  match made with
  | none => f
  | some file => { f with copies := Function.update f.copies b (some file) }

/-- The file as it is between two calls: its inode starts with the topmost copy. -/
structure Settled (f : UnionFile) : Prop where
  inRange : f.ibstart ≤ f.siBend
  start : (f.copies f.ibstart).isSome = true
  above : ∀ b < f.ibstart, f.copies b = none

end UnionFile

/-- What the steps of a call answer: whether the branch the dentry starts on is read-only for the inode, the
    branch of the copy-up policy, the error of the rest of `au_wr_dir`, and of `au_pin`; of the copy-up the
    option `plink`, the link count of the hidden inode the target has already, the error of linking to it,
    whether there is a `hi_wh`, the errors of the lookup and of making the file, of opening it and the
    original, the block size, the answers to `au_copy_file`, whether there is `udba=inotify`, the errors of
    copying the attributes, and of unlinking a copy and a temporary name; and the errors of `vmtruncate` and of
    `notify_change`. -/
structure SetattrIo where
  testRo : Bool
  copyup : Int
  wrDir : Int
  pin : Int
  plink : Bool
  dstNlink : Option Nat
  link : Int
  hiWh : Bool
  lkup : Int
  create : Int
  hOpen : Int
  sBlocksize : Nat
  copy : List Int
  hinotify : Bool
  iattr : Int
  unlink : Int
  unlinkTmp : Int
  vmtruncate : Int
  notifyChange : Int

/-- `struct iattr`: the size, when ATTR_SIZE is set. -/
structure Iattr where
  iaSize : Option Nat

section

variable (o : SetattrIo)

/-! ## The copy-up -/

/-- `au_do_cpup_regular` of `len` bytes, -1 for all: the error, and the file if it is left. -/
def doCpupRegularFile (src : File) (len : Int) : Option (Int × Option File) :=
  let len := if len = -1 ∨ (src.size : Int) < len then src.size else len.toNat
  let copied : Option (Int × File) :=
    if len = 0 then some (0, .empty)
    else if o.hOpen ≠ 0 then some (o.hOpen, .empty)
    else (auCopyFile src len o.sBlocksize o.copy).map fun r => (r.1, r.2.1)
  match copied with
  | none => none
  | some (err, file) =>
    if err = 0 then some (0, some file)
    -- hdir is null without hinotify
    else if !o.hinotify then none
    else if o.unlink ≠ 0 then some (- EIO, some file)
    else some (err, none)

/-- `au_cpup_single` of a regular file, by its data. -/
def cpupSingleFile (src : File) (len : Int) : Option (Int × Option File) :=
  if o.dstNlink.isSome && !o.plink then some (- EIO, none)
  -- linked to the copy that is there
  else if o.dstNlink.any (· ≠ 0) then some (o.link, none)
  else if o.create ≠ 0 then some (o.create, none)
  else
    match doCpupRegularFile o src len with
    | none => none
    | some (err, file) =>
      if err ≠ 0 then some (err, file)
      else if o.iattr = 0 then some (0, file)
      else if o.unlink ≠ 0 then some (- EIO, file)
      else some (o.iattr, none)

/-- The branch that is changed, or the error: `au_wr_dir` without a source, and not for a new entry. -/
def setattrTarget (f : UnionFile) : Int :=
  let bcpup : Int :=
    -- plink or hi_wh
    if f.dbstart ≠ f.ibstart then f.ibstart
    else if o.testRo then o.copyup
    else f.dbstart
  if bcpup < 0 ∨ bcpup = f.dbstart then bcpup
  else if o.wrDir < 0 then o.wrDir
  else bcpup

/-- `au_lock_and_icpup`: the error, the branch of `h_dentry`, and the file. -/
def auLockAndIcpup (sz : Int) (f : UnionFile) : Option (Int × Nat × UnionFile) :=
  let target := setattrTarget o f
  let btgt := target.toNat
  if target < 0 then some (target, btgt, f)
  else if o.pin ≠ 0 then some (o.pin, btgt, f)
  else if btgt = f.dbstart then some (0, btgt, f)
  else if !f.unhashed then
    if o.lkup ≠ 0 then some (o.lkup, btgt, f)
    else
      match f.copies f.dbstart with
      | none => none
      | some src =>
        match cpupSingleFile o src sz with
        | none => none
        | some (err, made) => some (err, btgt, f.place btgt made)
  else if o.hiWh then some (0, btgt, f)
  -- after an error h_dentry is null
  else if o.lkup ≠ 0 then none
  else
    match f.copies f.dbstart with
    | none => none
    | some src =>
      match cpupSingleFile o src sz with
      | none => none
      | some (err, made) => if err ≠ 0 ∨ o.unlinkTmp ≠ 0 then none else some (0, btgt, f.place btgt made)

/-! ## setattr -/

/-- The size is to be reduced. -/
def Iattr.shrinks (ia : Iattr) (f : UnionFile) : Bool := ia.iaSize.any (· < f.iSize)

/-- How many bytes a copy-up is to copy, -1 for all. -/
def Iattr.copyLen (ia : Iattr) (f : UnionFile) : Int :=
  match ia.iaSize with
  | some size => if size < f.iSize then size else -1
  | none => -1

/-- `notify_change` on branch `b`, and `au_cpup_attr_changeable`. -/
def UnionFile.changed (f : UnionFile) (b : Nat) (ia : Iattr) : UnionFile :=
  let copies := match ia.iaSize with
    | none => f.copies
    | some size => Function.update f.copies b ((f.copies b).map fun file => file.truncate size)
  { f with copies := copies, iSize := ((copies b).map File.size).getD f.iSize }

/-- `aufs_setattr` -/
def aufsSetattr (ia : Iattr) (f : UnionFile) : Option (Int × UnionFile) :=
  match auLockAndIcpup o (ia.copyLen f) f with
  | none => none
  | some (err, b, g) =>
    if err ≠ 0 then some (err, g)
    else if ia.shrinks g ∧ o.vmtruncate ≠ 0 then some (o.vmtruncate, g)
    else
      -- vmtruncate sets i_size
      let g := if ia.shrinks g then { g with iSize := ia.iaSize.getD 0 } else g
      if o.notifyChange ≠ 0 then some (o.notifyChange, g)
      else some (0, g.changed b ia)

end

/-! ## The topmost copy -/

section

variable {o : SetattrIo} {ia : Iattr} {f : UnionFile}

theorem findSome_first {α : Type} {g : Nat → Option α} {x : α} : ∀ {k n : Nat}, k < n → g k = some x →
    (∀ b < k, g b = none) → (List.range n).findSome? g = some x := by
  intro k n hk hx hnone
  have hsplit : List.range n = List.range k ++ k :: List.range' (k + 1) (n - (k + 1)) := by
    rw [List.range_eq_range', List.range_eq_range', ← List.range'_succ]
    have happ := List.range'_append_1 (s := 0) (m := k) (n := n - (k + 1) + 1)
    rw [Nat.zero_add] at happ
    rw [happ]
    congr 1
    omega
  rw [hsplit, List.findSome?_append, List.findSome?_cons, hx]
  have hempty : (List.range k).findSome? g = none :=
    List.findSome?_eq_none_iff.mpr fun b hb => hnone b (List.mem_range.mp hb)
  rw [hempty]
  rfl

/-- A copy on the topmost branch, or above it, is the topmost one. -/
theorem topmost_place (hf : f.Settled) {b : Nat} (hb : b ≤ f.ibstart) (file : File) :
    (f.place b (some file)).topmost = some file := by
  have hrange := hf.inRange
  refine findSome_first (show b < f.siBend + 1 by omega) ?_ ?_
  · exact Function.update_self b (some file) f.copies
  · intro c hc
    show Function.update f.copies b (some file) c = none
    rw [Function.update_of_ne (by omega)]
    exact hf.above c (by omega)

/-- **The copy-up** goes to a branch not below the topmost copy. -/
theorem setattrTarget_le (hcopyup : o.copyup ≤ f.dbstart) (h0 : 0 ≤ setattrTarget o f) :
    (setattrTarget o f).toNat ≤ f.ibstart := by
  obtain ⟨bcpup, hb⟩ : ∃ bcpup : Int, bcpup = (if f.dbstart ≠ f.ibstart then (f.ibstart : Int)
      else if o.testRo then o.copyup else f.dbstart) := ⟨_, rfl⟩
  have hle : bcpup ≤ f.ibstart := by
    by_cases hib : f.dbstart ≠ f.ibstart
    · rw [if_pos hib] at hb
      omega
    · rw [if_neg hib] at hb
      have heq : f.dbstart = f.ibstart := not_not.mp hib
      split at hb
      · omega
      · omega
  unfold setattrTarget at h0 ⊢
  rw [← hb] at h0 ⊢
  dsimp only at h0 ⊢
  by_cases hstop : bcpup < 0 ∨ bcpup = f.dbstart
  · rw [if_pos hstop] at h0 ⊢
    omega
  · rw [if_neg hstop] at h0 ⊢
    split at h0
    · omega
    · rename_i herr
      rw [if_neg herr]
      omega

/-- A copy-up is necessary, and the target can be locked. -/
def CopiesUp (o : SetattrIo) (f : UnionFile) : Prop :=
  0 ≤ setattrTarget o f ∧ o.pin = 0 ∧ (setattrTarget o f).toNat ≠ f.dbstart ∧
    ¬ (f.unhashed = true ∧ o.hiWh = true) ∧ o.lkup = 0

/-- `au_cpup_single` of `sz` bytes returns `err`, and leaves `made`.  For an unhashed dentry it has to succeed. -/
def CopiesData (o : SetattrIo) (sz : Int) (f : UnionFile) (err : Int) (made : Option File) : Prop :=
  (∃ src, f.copies f.dbstart = some src ∧ cpupSingleFile o src sz = some (err, made)) ∧
    (f.unhashed = true → err = 0 ∧ o.unlinkTmp = 0)

/-- There is a branch to be changed: no copy-up was necessary, or it has succeeded. -/
def GetsThrough (o : SetattrIo) (sz : Int) (f : UnionFile) : Prop :=
  0 ≤ setattrTarget o f ∧ o.pin = 0 ∧ ((setattrTarget o f).toNat = f.dbstart ∨
    (f.unhashed = true ∧ o.hiWh = true) ∨ o.lkup = 0 ∧ ∃ made, CopiesData o sz f 0 made)

theorem auLockAndIcpup_copies {sz err : Int} {made : Option File} (hup : CopiesUp o f)
    (hc : CopiesData o sz f err made) : auLockAndIcpup o sz f =
      some (err, (setattrTarget o f).toNat, f.place (setattrTarget o f).toNat made) := by
  obtain ⟨h0, hpin, hne, hno, hlkup⟩ := hup
  obtain ⟨⟨src, hsrc, hsingle⟩, hunhashed⟩ := hc
  unfold auLockAndIcpup
  dsimp only
  rw [if_neg (Int.not_lt.mpr h0), if_neg (not_not.mpr hpin), if_neg hne]
  cases hun : f.unhashed with
  | false =>
    rw [if_pos (by rfl), if_neg (not_not.mpr hlkup), hsrc]
    dsimp only
    rw [hsingle]
  | true =>
    have hhi : ¬ o.hiWh = true := fun hhi => hno ⟨hun, hhi⟩
    obtain ⟨rfl, htmp⟩ := hunhashed hun
    rw [if_neg (by decide), if_neg hhi, if_neg (not_not.mpr hlkup), hsrc]
    dsimp only
    rw [hsingle]
    exact if_neg (fun h => h.elim (fun h => h rfl) fun h => h htmp)

/-- **What `au_lock_and_icpup` does**: it copies up, or the file stays as it is. -/
theorem auLockAndIcpup_cases {sz err : Int} {b : Nat} {g : UnionFile}
    (h : auLockAndIcpup o sz f = some (err, b, g)) :
    (∃ made, CopiesUp o f ∧ CopiesData o sz f err made ∧ g = f.place (setattrTarget o f).toNat made) ∨
      (g = f ∧ ¬ CopiesUp o f ∧ (err = 0 → GetsThrough o sz f)) := by
  unfold auLockAndIcpup at h
  dsimp only at h
  by_cases h0 : setattrTarget o f < 0
  · rw [if_pos h0] at h
    cases h
    exact Or.inr ⟨rfl, fun hup => absurd hup.1 (Int.not_le.mpr h0), fun herr => absurd herr (by omega)⟩
  rw [if_neg h0] at h
  by_cases hpin : o.pin = 0
  case neg =>
    rw [if_pos hpin] at h
    cases h
    exact Or.inr ⟨rfl, fun hup => hpin hup.2.1, fun herr => absurd herr hpin⟩
  rw [if_neg (not_not.mpr hpin)] at h
  by_cases hne : (setattrTarget o f).toNat = f.dbstart
  · rw [if_pos hne] at h
    cases h
    exact Or.inr ⟨rfl, fun hup => hup.2.2.1 hne, fun _ => ⟨Int.not_lt.mp h0, hpin, Or.inl hne⟩⟩
  rw [if_neg hne] at h
  by_cases hhi : f.unhashed = true ∧ o.hiWh = true
  · rw [if_neg (by rw [hhi.1]; decide), if_pos hhi.2] at h
    cases h
    exact Or.inr ⟨rfl, fun hup => hup.2.2.2.1 hhi, fun _ => ⟨Int.not_lt.mp h0, hpin, Or.inr (Or.inl hhi)⟩⟩
  by_cases hlkup : o.lkup = 0
  case neg =>
    -- an unhashed file does not come back
    cases hun : f.unhashed with
    | false =>
      rw [hun, if_pos (by rfl), if_pos hlkup] at h
      cases h
      exact Or.inr ⟨rfl, fun hup => hlkup hup.2.2.2.2, fun herr => absurd herr hlkup⟩
    | true =>
      rw [hun, if_neg (by decide), if_neg (fun h' => hhi ⟨hun, h'⟩), if_pos hlkup] at h
      cases h
  have hup : CopiesUp o f := ⟨Int.not_lt.mp h0, hpin, hne, hhi, hlkup⟩
  left
  cases hsrc : f.copies f.dbstart with
  | none =>
    rw [hsrc] at h
    cases hun : f.unhashed with
    | false => rw [hun, if_pos (by rfl), if_neg (not_not.mpr hlkup)] at h; cases h
    | true =>
      rw [hun, if_neg (by decide), if_neg (fun h' => hhi ⟨hun, h'⟩), if_neg (not_not.mpr hlkup)] at h
      cases h
  | some src =>
    rw [hsrc] at h
    dsimp only at h
    cases hsingle : cpupSingleFile o src sz with
    | none =>
      rw [hsingle] at h
      cases hun : f.unhashed with
      | false => rw [hun, if_pos (by rfl), if_neg (not_not.mpr hlkup)] at h; cases h
      | true =>
        rw [hun, if_neg (by decide), if_neg (fun h' => hhi ⟨hun, h'⟩), if_neg (not_not.mpr hlkup)] at h
        cases h
    | some r =>
      obtain ⟨e, made⟩ := r
      rw [hsingle] at h
      dsimp only at h
      cases hun : f.unhashed with
      | false =>
        rw [hun, if_pos (by rfl), if_neg (not_not.mpr hlkup)] at h
        cases h
        exact ⟨made, hup, ⟨⟨src, hsrc, hsingle⟩, fun h' => absurd (hun.symm.trans h') Bool.false_ne_true⟩, rfl⟩
      | true =>
        rw [hun, if_neg (by decide), if_neg (fun h' => hhi ⟨hun, h'⟩), if_neg (not_not.mpr hlkup)] at h
        split at h
        · cases h
        · rename_i hok
          obtain ⟨herr, htmp⟩ := not_or.mp hok
          cases h
          rw [not_not.mp herr] at hsingle
          exact ⟨made, hup, ⟨⟨src, hsrc, hsingle⟩, fun _ => ⟨rfl, not_not.mp htmp⟩⟩, rfl⟩

/-- It gets through when it returns zero. -/
theorem getsThrough_iff {sz : Int} :
    GetsThrough o sz f ↔ ∃ b g, auLockAndIcpup o sz f = some (0, b, g) := by
  constructor
  · rintro ⟨h0, hpin, hcase⟩
    by_cases hne : (setattrTarget o f).toNat = f.dbstart
    · refine ⟨(setattrTarget o f).toNat, f, ?_⟩
      unfold auLockAndIcpup
      dsimp only
      rw [if_neg (Int.not_lt.mpr h0), if_neg (not_not.mpr hpin), if_pos hne]
    by_cases hhi : f.unhashed = true ∧ o.hiWh = true
    · refine ⟨(setattrTarget o f).toNat, f, ?_⟩
      unfold auLockAndIcpup
      dsimp only
      rw [if_neg (Int.not_lt.mpr h0), if_neg (not_not.mpr hpin), if_neg hne,
        if_neg (by rw [hhi.1]; decide), if_pos hhi.2]
    · rcases hcase with heq | hhi' | ⟨hlkup, made, hc⟩
      · exact absurd heq hne
      · exact absurd hhi' hhi
      · exact ⟨_, _, auLockAndIcpup_copies ⟨h0, hpin, hne, hhi, hlkup⟩ hc⟩
  · rintro ⟨b, g, hrun⟩
    rcases auLockAndIcpup_cases hrun with ⟨made, hup, hc, -⟩ | ⟨-, -, hget⟩
    · exact ⟨hup.1, hup.2.1, Or.inr (Or.inr ⟨hup.2.2.2.2, made, hc⟩)⟩
    · exact hget rfl

/-! ## What an error leaves -/

/-- **A call that fails leaves what is seen as it was.** -/
def SetattrKeeps (o : SetattrIo) (ia : Iattr) (f : UnionFile) : Prop :=
  ∀ err g, aufsSetattr o ia f = some (err, g) → err ≠ 0 → g.seen = f.seen

/-- `vmtruncate` or the lower file system refuses. -/
def Refused (o : SetattrIo) (ia : Iattr) (f : UnionFile) : Prop :=
  (ia.shrinks f = true ∧ o.vmtruncate ≠ 0) ∨ o.notifyChange ≠ 0

theorem shrinks_place (ia : Iattr) (f : UnionFile) (b : Nat) (made : Option File) :
    ia.shrinks (f.place b made) = ia.shrinks f := by
  cases made <;> rfl

/-- The call behind the copy-up. -/
theorem aufsSetattr_eq {err : Int} {b : Nat} {g : UnionFile}
    (h : auLockAndIcpup o (ia.copyLen f) f = some (err, b, g)) (hs : ia.shrinks g = ia.shrinks f)
    (herr : err ≠ 0 ∨ Refused o ia f) : ∃ e g', aufsSetattr o ia f = some (e, g') ∧ e ≠ 0 ∧
      g'.topmost = g.topmost ∧
        g'.iSize = if err = 0 ∧ ia.shrinks f = true ∧ o.vmtruncate = 0 then ia.iaSize.getD 0 else g.iSize := by
  unfold aufsSetattr
  rw [h]
  dsimp only
  by_cases h0 : err = 0
  case neg =>
    rw [if_pos h0]
    exact ⟨err, g, rfl, h0, rfl, (if_neg fun hc => h0 hc.1).symm⟩
  rw [if_neg (not_not.mpr h0), hs]
  have hrefused := herr.resolve_left (not_not.mpr h0)
  by_cases hcut : ia.shrinks f = true ∧ o.vmtruncate ≠ 0
  · rw [if_pos hcut]
    exact ⟨o.vmtruncate, g, rfl, hcut.2, rfl, (if_neg fun hc => hcut.2 hc.2.2).symm⟩
  · rw [if_neg hcut, if_pos (hrefused.resolve_left hcut)]
    refine ⟨o.notifyChange, _, rfl, hrefused.resolve_left hcut, ?_, ?_⟩
    · split <;> rfl
    · by_cases hs' : ia.shrinks f = true
      · have hv : o.vmtruncate = 0 := not_not.mp fun hv => hcut ⟨hs', hv⟩
        rw [if_pos hs', if_pos ⟨h0, hs', hv⟩]
      · rw [if_neg hs', if_neg fun hc => hs' hc.2.1]

/-- `au_do_cpup_regular` without an error. -/
theorem doCpupRegularFile_data {src : File} {sz : Int} {made : Option File} (hun : Unfailing o.copy)
    (h : doCpupRegularFile o src sz = some (0, made)) :
    ∃ file, made = some file ∧ ∀ i : Nat, file.data i = if sz = -1 ∨ (i : Int) < sz then src.data i else 0 := by
  obtain ⟨len, hlen⟩ : ∃ len, len = (if sz = -1 ∨ (src.size : Int) < sz then src.size else sz.toNat) :=
    ⟨_, rfl⟩
  -- up to `len`, or to the end of the source
  have hbytes : ∀ i : Nat, (if i < len then src.data i else 0) =
      if sz = -1 ∨ (i : Int) < sz then src.data i else 0 := by
    intro i
    by_cases hall : sz = -1 ∨ (src.size : Int) < sz
    · rw [if_pos hall] at hlen
      have hend : ¬ i < src.size → src.data i = 0 := fun hge => src.beyond i (Nat.not_lt.mp hge)
      rw [hlen]
      by_cases hi : i < src.size
      · rw [if_pos hi, if_pos (by omega)]
      · rw [if_neg hi]
        split
        · exact (hend hi).symm
        · rfl
    · rw [if_neg hall] at hlen
      by_cases hi : i < len
      · rw [if_pos hi, if_pos (by omega)]
      · rw [if_neg hi, if_neg (by omega)]
  unfold doCpupRegularFile at h
  dsimp only at h
  rw [← hlen] at h
  by_cases h0 : len = 0
  · rw [if_pos h0] at h
    cases h
    refine ⟨.empty, rfl, fun i => ?_⟩
    rw [← hbytes i, h0, if_neg (Nat.not_lt_zero i)]
    rfl
  rw [if_neg h0] at h
  by_cases hopen : o.hOpen = 0
  case neg =>
    rw [if_pos hopen] at h
    dsimp only at h
    rw [if_neg hopen] at h
    split at h
    · cases h
    split at h
    · cases h
    · exact absurd (congrArg Prod.fst (Option.some.inj h)) hopen
  rw [if_neg (not_not.mpr hopen)] at h
  cases hcopy : auCopyFile src len o.sBlocksize o.copy with
  | none => rw [hcopy] at h; cases h
  | some r =>
    obtain ⟨err, file, io⟩ := r
    rw [hcopy] at h
    dsimp only [Option.map_some] at h
    by_cases herr : err = 0
    · rw [if_pos herr] at h
      cases h
      rw [herr] at hcopy
      exact ⟨file, rfl, fun i => (auCopyFile_data hun hcopy i).trans (hbytes i)⟩
    · rw [if_neg herr] at h
      split at h
      · cases h
      split at h
      · cases h
      · cases h
        exact absurd rfl herr

/-- **What is copied**, where no transfer fails: the bytes that were asked for. -/
theorem copies_data {sz : Int} {file : File} (hun : Unfailing o.copy) (hc : CopiesData o sz f 0 (some file)) :
    ∃ src, f.copies f.dbstart = some src ∧
      ∀ i : Nat, file.data i = if sz = -1 ∨ (i : Int) < sz then src.data i else 0 := by
  obtain ⟨⟨src, hsrc, hsingle⟩, -⟩ := hc
  refine ⟨src, hsrc, ?_⟩
  unfold cpupSingleFile at hsingle
  split at hsingle
  · cases hsingle
  split at hsingle
  · exact absurd (congrArg Prod.snd (Option.some.inj hsingle)) nofun
  split at hsingle
  · exact absurd (congrArg Prod.snd (Option.some.inj hsingle)) nofun
  cases hreg : doCpupRegularFile o src sz with
  | none => rw [hreg] at hsingle; cases hsingle
  | some r =>
    obtain ⟨err, made⟩ := r
    rw [hreg] at hsingle
    dsimp only at hsingle
    by_cases herr : err = 0
    case neg =>
      rw [if_pos herr] at hsingle
      exact absurd (congrArg Prod.fst (Option.some.inj hsingle)) herr
    rw [if_neg (not_not.mpr herr)] at hsingle
    split at hsingle
    · cases hsingle
      rw [herr] at hreg
      obtain ⟨file', heq, hdata⟩ := doCpupRegularFile_data hun hreg
      rw [Option.some.inj heq]
      exact hdata
    split at hsingle
    · cases hsingle
    · exact absurd (congrArg Prod.snd (Option.some.inj hsingle)) nofun

end

/-! ## A file that is copied up to be cut -/

/-- A read-only branch below a writable one, and nothing fails but the change of the lower file. -/
def refusedCut : SetattrIo where
  testRo := true
  copyup := 0
  wrDir := 0
  pin := 0
  plink := true
  dstNlink := none
  link := 0
  hiWh := false
  lkup := 0
  create := 0
  hOpen := 0
  sBlocksize := 4096
  copy := []
  hinotify := false
  iattr := 0
  unlink := 0
  unlinkTmp := 0
  vmtruncate := 0
  notifyChange := -5

/-- A file of two bytes on the lower branch. -/
def twoBytes : File := File.empty.write 0 2 fun _ => 97

def lowerFile : UnionFile where
  siBend := 1
  copies b := if b = 1 then some twoBytes else none
  dbstart := 1
  ibstart := 1
  iSize := 2
  unhashed := false

theorem lowerFile_settled : lowerFile.Settled where
  inRange := Nat.le_refl 1
  start := rfl
  above _ hb := if_neg (Nat.ne_of_lt hb)

end KernelPatches.Aufs
