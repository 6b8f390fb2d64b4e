/-
  aufs: `statfs` with the mount option `sum`.

  `au_statfs_sum` asks each lower super block once, however many branches are on it, and adds up the numbers of
  blocks and inodes.  Two things are done by hand there:

  * a super block is passed over if a LATER branch is on it, too, so that the last one counts; what is asked is
    `List.dedup` of the super blocks, from the last to the first;
  * `au_add_till_max` tells an overflow by comparing the sum with what it was before.  The comparison is `<`, so
    adding zero is taken for an overflow.

  A lower file system which is full, or has no inodes to count, is reported as `ULLONG_MAX` therefore.

  * `auAddTillMax_toNat`         — one addition;
  * `auStatfsSum_totals`         — the loop, over any branches;
  * `ReportsSums`                — the sums over the super blocks, for any order of the branches;
  * `auStatfsSum_reports_iff`    — when that is what comes out.
-/
import KernelPatches.Aufs.OptionFlags
import KernelPatches.Aufs.Branch
import Mathlib.Data.List.Dedup

namespace KernelPatches.Aufs.Statfs

open OptFlags

/-! ## The calls -/

/-- `struct kstatfs`, as far as it is read or written. -/
structure Kstatfs where
  fType : Int
  fBlocks : UInt64
  fBfree : UInt64
  fBavail : UInt64
  fFiles : UInt64
  fFfree : UInt64
  fFsid : Int × Int
  fNamelen : Int
  deriving DecidableEq, Repr

/-- What the lower file systems and the work queue answer, and whether the process is one of the work queue. -/
structure StatfsIo where
  configDlgt : Bool
  vfsStatfs : HSuper → Int × Kstatfs
  wkqWait : HSuper → Int
  testWkq : Bool

/-- ULLONG_MAX -/
def ullongMax : UInt64 := ~~~0

/-- AUFS_SUPER_MAGIC -/
def aufsSuperMagic : Int := 0x61756673

/-- `au_add_till_max` -/
def auAddTillMax (a b : UInt64) : UInt64 := if a < a + b then a + b else ullongMax

/-- The local variables of `au_statfs_sum`. -/
structure Totals where
  blocks : UInt64
  bfree : UInt64
  bavail : UInt64
  files : UInt64
  ffree : UInt64
  deriving DecidableEq, Repr

def Totals.zero : Totals := ⟨0, 0, 0, 0, 0⟩

def Totals.add (t : Totals) (buf : Kstatfs) : Totals where
  blocks := auAddTillMax t.blocks buf.fBlocks
  bfree := auAddTillMax t.bfree buf.fBfree
  bavail := auAddTillMax t.bavail buf.fBavail
  files := auAddTillMax t.files buf.fFiles
  ffree := auAddTillMax t.ffree buf.fFfree

/-- `au_sbr_sb` -/
def auSbrSb (u : UnionSb) (bindex : Nat) : Option HSuper := (auSbr u bindex).toOption.map AuBranch.brMntSb

section

variable (io : StatfsIo) (dlgt : Bool) (u : UnionSb)

/-- `vfsub_statfs`, with and without CONFIG_AUFS_DLGT: the error and the buffer. -/
def vfsubStatfs (hSb : HSuper) (buf : Kstatfs) : Int × Kstatfs :=
  if io.configDlgt && dlgt then
    if io.wkqWait hSb ≠ 0 then (io.wkqWait hSb, buf) else io.vfsStatfs hSb
  else io.vfsStatfs hSb

/-- The inner loop, over `n` branches from `i` on. -/
def sharedFrom (hSb : HSuper) : (n i : Nat) → Option Bool
  | 0, _ => some false
  | n + 1, i =>
    match auSbrSb u i with
    | none => none
    | some sb => if sb = hSb then some true else sharedFrom hSb n (i + 1)

/-- The loop of `au_statfs_sum`, over the branches below `bindex`, downwards: the error, and what it has come to. -/
def statfsSumFrom : (bindex : Nat) → Totals → Kstatfs → Option (Int × Totals × Kstatfs)
  | 0, t, buf => some (0, t, buf)
  | bindex + 1, t, buf =>
    match auSbrSb u bindex with
    | none => none
    | some hSb =>
      match sharedFrom u hSb (u.siBend - bindex).toNat (bindex + 1) with
      | none => none
      | some true => statfsSumFrom bindex t buf
      | some false =>
        let r := vfsubStatfs io dlgt hSb buf
        if r.1 ≠ 0 then some (r.1, t, r.2) else statfsSumFrom bindex (t.add r.2) r.2

/-- `au_statfs_sum`: the error and the buffer. -/
def auStatfsSum (buf : Kstatfs) : Option (Int × Kstatfs) :=
  match statfsSumFrom io dlgt u (u.siBend + 1).toNat Totals.zero buf with
  | none => none
  | some (err, t, buf) =>
    if err ≠ 0 then some (err, buf)
    else some (0, { buf with
      fBlocks := t.blocks, fBfree := t.bfree, fBavail := t.bavail, fFiles := t.files, fFfree := t.ffree })

end

/-- `aufs_statfs` -/
def aufsStatfs (cfg : OptsConfig) (io : StatfsIo) (mntFlags : Nat) (u : UnionSb) (buf : Kstatfs) :
    Option (Int × Kstatfs) :=
  let dlgt := auOptTest cfg mntFlags .dlgt && !io.testWkq
  let r :=
    if !auOptTest cfg mntFlags .sum then (auSbrSb u 0).map fun hSb => vfsubStatfs io dlgt hSb buf
    else auStatfsSum io dlgt u buf
  match r with
  | none => none
  | some (err, buf) =>
    if err ≠ 0 then some (err, buf)
    else some (0, { buf with
      fType := aufsSuperMagic, fNamelen := buf.fNamelen - whPfx.length, fFsid := (0, 0) })

/-! ## Fields -/

/-- The fields that are added up. -/
inductive StatField where
  | blocks
  | bfree
  | bavail
  | files
  | ffree
  deriving DecidableEq, Repr

def Kstatfs.get (buf : Kstatfs) : StatField → UInt64
  | .blocks => buf.fBlocks
  | .bfree => buf.fBfree
  | .bavail => buf.fBavail
  | .files => buf.fFiles
  | .ffree => buf.fFfree

def Totals.get (t : Totals) : StatField → UInt64
  | .blocks => t.blocks
  | .bfree => t.bfree
  | .bavail => t.bavail
  | .files => t.files
  | .ffree => t.ffree

theorem Totals.get_zero (f : StatField) : Totals.zero.get f = 0 := by
  cases f <;> rfl

theorem Totals.get_add (t : Totals) (buf : Kstatfs) (f : StatField) :
    (t.add buf).get f = auAddTillMax (t.get f) (buf.get f) := by
  cases f <;> rfl

/-! ## Adding up -/

section

variable {ι : Type} {v : ι → UInt64} {L L' : List ι}

theorem ullongMax_toNat : ullongMax.toNat = 2 ^ 64 - 1 := by decide

/-- **One addition** stops at the bound, and goes there with a zero. -/
theorem auAddTillMax_toNat (a b : UInt64) :
    (auAddTillMax a b).toNat = if b = 0 then 2 ^ 64 - 1 else min (a.toNat + b.toNat) (2 ^ 64 - 1) := by
  have ha := a.toNat_lt
  have hb := b.toNat_lt
  have hzero : b = 0 ↔ b.toNat = 0 := by
    rw [← UInt64.toNat_inj]
    rfl
  have hadd : (a + b).toNat = (a.toNat + b.toNat) % 2 ^ 64 := UInt64.toNat_add a b
  have hlt : a < a + b ↔ a.toNat < (a.toNat + b.toNat) % 2 ^ 64 := by
    rw [← hadd]
    exact UInt64.lt_iff_toNat_lt
  unfold auAddTillMax
  simp only [hzero]
  by_cases h : a < a + b
  · -- the sum fits, and is greater
    rw [if_pos h, hadd]
    rw [hlt] at h
    split <;> omega
  · rw [if_neg h, ullongMax_toNat]
    rw [hlt] at h
    split <;> omega

/-- The additions one after the other, from the last one on. -/
def addAll (v : ι → UInt64) (L : List ι) : UInt64 := L.foldr (fun i a => auAddTillMax a (v i)) 0

/-- The exact sum. -/
def exactSum (v : ι → UInt64) (L : List ι) : Nat := (L.map fun i => (v i).toNat).sum

/-- **All additions**: the bound, if there is a zero among them, and else the exact sum, up to the bound; by
    induction on what is added. -/
theorem addAll_toNat (v : ι → UInt64) (L : List ι) : (addAll v L).toNat =
    if ∃ i ∈ L, v i = 0 then 2 ^ 64 - 1 else min (exactSum v L) (2 ^ 64 - 1) := by
  induction L with
  | nil =>
    rw [if_neg (fun ⟨i, hi, _⟩ => absurd hi List.not_mem_nil)]
    rfl
  | cons i L ih =>
    have hcons : addAll v (i :: L) = auAddTillMax (addAll v L) (v i) := rfl
    have hsum : exactSum v (i :: L) = (v i).toNat + exactSum v L := rfl
    rw [hcons, auAddTillMax_toNat, ih, hsum]
    by_cases hi : v i = 0
    · rw [if_pos hi, if_pos ⟨i, List.mem_cons_self, hi⟩]
    · have hrest : (∃ j ∈ i :: L, v j = 0) ↔ ∃ j ∈ L, v j = 0 := by
        constructor
        · rintro ⟨j, hj, h0⟩
          rcases List.mem_cons.mp hj with rfl | hj
          · exact absurd h0 hi
          · exact ⟨j, hj, h0⟩
        · rintro ⟨j, hj, h0⟩
          exact ⟨j, List.mem_cons_of_mem i hj, h0⟩
      rw [if_neg hi]
      simp only [hrest]
      split <;> omega

/-- **The sum is exact**, up to the bound, iff nothing is zero, or it has reached the bound anyway. -/
theorem addAll_exact_iff (v : ι → UInt64) (L : List ι) :
    (addAll v L).toNat = min (exactSum v L) (2 ^ 64 - 1) ↔ (∀ i ∈ L, v i ≠ 0) ∨ 2 ^ 64 - 1 ≤ exactSum v L := by
  rw [addAll_toNat]
  by_cases hzero : ∃ i ∈ L, v i = 0
  · rw [if_pos hzero]
    obtain ⟨i, hi, h0⟩ := hzero
    constructor
    · intro h
      exact Or.inr (by omega)
    · rintro (hall | hle)
      · exact absurd h0 (hall i hi)
      · omega
  · rw [if_neg hzero]
    exact iff_of_true rfl (Or.inl fun i hi h0 => hzero ⟨i, hi, h0⟩)

/-- The order does not count, right or wrong. -/
theorem addAll_perm (h : L.Perm L') : addAll v L = addAll v L' := by
  have hsum : exactSum v L = exactSum v L' := (h.map _).sum_nat
  have hzero : (∃ i ∈ L, v i = 0) ↔ ∃ i ∈ L', v i = 0 := by
    simp only [h.mem_iff]
  rw [← UInt64.toNat_inj, addAll_toNat, addAll_toNat, hsum]
  simp only [hzero]

end

/-! ## The loop -/

section

variable {io : StatfsIo} {dlgt : Bool} {u u' : UnionSb} {t : Totals} {buf buf' b b' : Kstatfs}

/-- The super blocks of `n` branches from `i` on. -/
def sbsFrom (u : UnionSb) (i n : Nat) : List HSuper := (List.range' i n).filterMap (auSbrSb u)

/-- The super blocks of the branches, from the first branch to the last. -/
def lowerSbs (u : UnionSb) : List HSuper := sbsFrom u 0 (u.siBend + 1).toNat

/-- What the loop adds up, over the super blocks from the last one on. -/
def totals (io : StatfsIo) (L : List HSuper) : Totals := L.foldr (fun sb t => t.add (io.vfsStatfs sb).2) Totals.zero

/-- What a super block answers for a field. -/
def statOf (io : StatfsIo) (f : StatField) (sb : HSuper) : UInt64 := (io.vfsStatfs sb).2.get f

theorem totals_get (f : StatField) (L : List HSuper) : (totals io L).get f = addAll (statOf io f) L := by
  induction L with
  | nil => exact Totals.get_zero f
  | cons sb L ih =>
    show ((totals io L).add (io.vfsStatfs sb).2).get f = auAddTillMax (addAll (statOf io f) L) (statOf io f sb)
    rw [Totals.get_add, ih]
    rfl

theorem sbsFrom_succ {i n : Nat} {sb : HSuper} (h : auSbrSb u i = some sb) :
    sbsFrom u i (n + 1) = sb :: sbsFrom u (i + 1) n := by
  unfold sbsFrom
  rw [List.range'_succ, List.filterMap_cons, h]

/-- The inner loop tells whether the super block is one of theirs. -/
theorem sharedFrom_eq (hSb : HSuper) : ∀ (n i : Nat), (∀ k, i ≤ k → k < i + n → ∃ sb, auSbrSb u k = some sb) →
    sharedFrom u hSb n i = some (decide (hSb ∈ sbsFrom u i n)) := by
  intro n
  induction n with
  | zero =>
    intro i _
    rfl
  | succ n ih =>
    intro i h
    obtain ⟨sb, hsb⟩ := h i (Nat.le_refl i) (by omega)
    rw [sharedFrom, hsb, sbsFrom_succ hsb]
    dsimp only
    by_cases heq : sb = hSb
    · rw [if_pos heq, heq, decide_eq_true List.mem_cons_self]
    · rw [if_neg heq, ih (i + 1) fun k hk hlt => h k (by omega) (by omega)]
      simp only [List.mem_cons, Ne.symm heq, false_or]

theorem vfsubStatfs_ok {hSb : HSuper} (h : (vfsubStatfs io dlgt hSb b).1 = 0) :
    vfsubStatfs io dlgt hSb b = io.vfsStatfs hSb := by
  unfold vfsubStatfs at h ⊢
  split at h
  · split at h
    · rename_i hne
      exact absurd h hne
    · rename_i hdlgt hwkq
      rw [if_pos hdlgt, if_neg hwkq]
  · rename_i hdlgt
    rw [if_neg hdlgt]

/-- **The loop**, downwards from `bindex`, what it has come to being the totals of the super blocks from there on, each
    taken once. -/
theorem statfsSumFrom_totals : ∀ (bindex : Nat), bindex ≤ (u.siBend + 1).toNat →
    (∀ k, bindex ≤ k → k < (u.siBend + 1).toNat → ∃ sb, auSbrSb u k = some sb) → ∀ buf,
    statfsSumFrom io dlgt u bindex (totals io (sbsFrom u bindex ((u.siBend + 1).toNat - bindex)).dedup) buf =
      some (0, t, buf') → t = totals io (lowerSbs u).dedup := by
  intro bindex
  induction bindex with
  | zero =>
    intro _ _ buf h
    rw [statfsSumFrom] at h
    cases h
    rfl
  | succ bindex ih =>
    intro hle hthere buf h
    rw [statfsSumFrom] at h
    split at h
    · cases h
    rename_i hSb hsb
    have hthere' : ∀ k, bindex ≤ k → k < (u.siBend + 1).toNat → ∃ sb, auSbrSb u k = some sb := by
      intro k hk hlt
      by_cases heq : k = bindex
      · exact ⟨hSb, by rw [heq]; exact hsb⟩
      · exact hthere k (by omega) hlt
    have hn : (u.siBend - bindex).toNat = (u.siBend + 1).toNat - (bindex + 1) := by omega
    have hcons : sbsFrom u bindex ((u.siBend + 1).toNat - bindex) =
        hSb :: sbsFrom u (bindex + 1) ((u.siBend + 1).toNat - (bindex + 1)) := by
      rw [← sbsFrom_succ hsb]
      congr 1
      omega
    rw [hn, sharedFrom_eq hSb _ _ fun k hk hlt => hthere k hk (by omega)] at h
    have hnext := ih (by omega) hthere'
    rw [hcons] at hnext
    by_cases hmem : hSb ∈ sbsFrom u (bindex + 1) ((u.siBend + 1).toNat - (bindex + 1))
    · -- a later branch is on it, too
      rw [decide_eq_true hmem] at h
      rw [List.dedup_cons_of_mem hmem] at hnext
      exact hnext buf h
    · rw [decide_eq_false hmem] at h
      dsimp only at h
      split at h
      · rename_i hne
        exact absurd (congrArg Prod.fst (Option.some.inj h)) hne
      · rename_i hok
        rw [not_not] at hok
        rw [List.dedup_cons_of_notMem hmem] at hnext
        rw [vfsubStatfs_ok hok] at h
        exact hnext _ h

/-- **What `au_statfs_sum` reports**, field by field: the additions over the super blocks, each taken once. -/
theorem auStatfsSum_totals (h : auStatfsSum io dlgt u b = some (0, buf)) (f : StatField) :
    buf.get f = addAll (statOf io f) (lowerSbs u).dedup := by
  unfold auStatfsSum at h
  split at h
  · cases h
  rename_i err t buf₁ hloop
  split at h
  · rename_i hne
    exact absurd (congrArg Prod.fst (Option.some.inj h)) hne
  rename_i hok
  rw [not_not] at hok
  subst hok
  have hstart : totals io (sbsFrom u (u.siBend + 1).toNat ((u.siBend + 1).toNat - (u.siBend + 1).toNat)).dedup =
      Totals.zero := by
    rw [Nat.sub_self]
    rfl
  rw [← hstart] at hloop
  have ht := statfsSumFrom_totals _ (Nat.le_refl _) (fun k hk hlt => absurd hlt (by omega)) _ hloop
  rw [← totals_get, ← ht]
  cases h
  cases f <;> rfl

end

/-! ## The sums -/

section

variable {io : StatfsIo} {dlgt : Bool} {u : UnionSb} {b buf : Kstatfs}

variable (io dlgt u buf) in
/-- **What is to be reported**: the sum of each field over the lower super blocks, each counted once, and ULLONG_MAX
    where that does not fit; and the same for any other order of the branches. -/
structure ReportsSums : Prop where
  sums : ∀ f, (buf.get f).toNat =
    if exactSum (statOf io f) (lowerSbs u).dedup < 2 ^ 64 then exactSum (statOf io f) (lowerSbs u).dedup
    else 2 ^ 64 - 1
  anyOrder : ∀ u' b' buf', (lowerSbs u').Perm (lowerSbs u) → auStatfsSum io dlgt u' b' = some (0, buf') →
    ∀ f, buf'.get f = buf.get f

/-- **The sums are right** iff no super block has a zero in a field, unless the sum is as great as can be reported. -/
theorem auStatfsSum_reports_iff (h : auStatfsSum io dlgt u b = some (0, buf)) :
    ReportsSums io dlgt u buf ↔
      ∀ f, (∀ sb ∈ lowerSbs u, statOf io f sb ≠ 0) ∨ 2 ^ 64 - 1 ≤ exactSum (statOf io f) (lowerSbs u).dedup := by
  have hfield : ∀ f, (buf.get f).toNat = (if exactSum (statOf io f) (lowerSbs u).dedup < 2 ^ 64
      then exactSum (statOf io f) (lowerSbs u).dedup else 2 ^ 64 - 1) ↔
      (∀ sb ∈ lowerSbs u, statOf io f sb ≠ 0) ∨ 2 ^ 64 - 1 ≤ exactSum (statOf io f) (lowerSbs u).dedup := by
    intro f
    have hexact := addAll_exact_iff (statOf io f) (lowerSbs u).dedup
    simp only [List.mem_dedup] at hexact
    rw [auStatfsSum_totals h f, ← hexact]
    split <;> omega
  constructor
  · exact fun hr f => (hfield f).mp (hr.sums f)
  · intro hc
    refine ⟨fun f => (hfield f).mpr (hc f), fun u' b' buf' hperm h' f => ?_⟩
    rw [auStatfsSum_totals h f, auStatfsSum_totals h' f]
    exact addAll_perm hperm.dedup

/-- `statfs` with the option `sum` reports the same. -/
theorem aufsStatfs_get {cfg : OptsConfig} {mntFlags : Nat} (hsum : auOptTest cfg mntFlags .sum = true)
    (h : aufsStatfs cfg io mntFlags u b = some (0, buf)) :
    ∃ buf₁, auStatfsSum io (auOptTest cfg mntFlags .dlgt && !io.testWkq) u b = some (0, buf₁) ∧
      ∀ f, buf.get f = buf₁.get f := by
  unfold aufsStatfs at h
  rw [hsum] at h
  dsimp only at h
  rw [if_neg (show ¬ (!true) = true by decide)] at h
  split at h
  · cases h
  rename_i err buf₁ hr
  split at h
  · rename_i hne
    exact absurd (congrArg Prod.fst (Option.some.inj h)) hne
  rename_i hok
  rw [not_not] at hok
  subst hok
  refine ⟨buf₁, hr, fun f => ?_⟩
  cases h
  cases f <;> rfl

end

/-! ## A read-only branch -/

/-- A disk, and a file system on a CD, which has nothing free. -/
def disk : HSuper := ⟨1, 0⟩

def cdrom : HSuper := ⟨2, 0⟩

/-- Three branches, of which two are on the disk. -/
def diskOverCdrom : UnionSb :=
  { unmounted with
    siBend := 2
    siBranch := [some ⟨1, .rw, disk, some 0⟩, some ⟨2, .ro, cdrom, none⟩, some ⟨3, .ro, disk, none⟩] }

/-- What the two file systems answer, `free` of the blocks of the second one being free. -/
def answers (free : UInt64) : StatfsIo where
  configDlgt := false
  vfsStatfs sb := (0, if sb = disk then ⟨0xef53, 1000, 300, 200, 64, 32, (1, 1), 255⟩
    else ⟨0x9660, 650, free, free, 8, 4, (2, 2), 255⟩)
  wkqWait _ := 0
  testWkq := false

def noBuf : Kstatfs := ⟨0, 0, 0, 0, 0, 0, (0, 0), 0⟩

/-- The sums over the two of them: 1650 blocks, of which 310 are free. -/
theorem reports_disk_and_cdrom : ∃ buf, auStatfsSum (answers 10) false diskOverCdrom noBuf = some (0, buf) ∧
    ReportsSums (answers 10) false diskOverCdrom buf := by
  refine ⟨⟨0x9660, 1650, 310, 210, 72, 36, (2, 2), 255⟩, by decide, ?_⟩
  refine (auStatfsSum_reports_iff (b := noBuf) (by decide)).mpr fun f => Or.inl ?_
  cases f <;> decide

/-- **Nothing is free on the CD**, and what is free on the disk is reported as ULLONG_MAX. -/
theorem full_cdrom_reports_max : ∃ buf, auStatfsSum (answers 0) false diskOverCdrom noBuf = some (0, buf) ∧
    buf.fBfree = ullongMax ∧ exactSum (statOf (answers 0) .bfree) (lowerSbs diskOverCdrom).dedup = 300 ∧
    ¬ ReportsSums (answers 0) false diskOverCdrom buf := by
  refine ⟨⟨0x9660, 1650, ullongMax, ullongMax, 72, 36, (2, 2), 255⟩, by decide, rfl, by decide, fun h => ?_⟩
  have hsum := h.sums .bfree
  revert hsum
  decide

end KernelPatches.Aufs.Statfs
