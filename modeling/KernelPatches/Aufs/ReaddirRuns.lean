/-
  aufs: what `readdir` serves, over whole runs.

  The listing of a directory is kept by its inode, and copied for each open file.  Whether either is
  complete is told by `vd_version`: `reinit_vdir` sets it to zero, and only a listing that was read to its
  end, or copied from such a one, has another.  But zero is also what a seek leaves in `f_version`, and
  away from the start of the file nobody looks at it.  So a listing that was emptied by a failure can be
  served.

  * `auDoReadVdir_version`, `copyVdir_listing` — what reading and copying do to the version and the
                                                 entries;
  * `RdStep`                 — opening, seeking, changes of the directory, and `readdir`;
  * `auVdirInit_complete`    — one call, by its cases;
  * `readdir_complete_of_safe` — in a run whose `readdir` calls are `Safe`, all that is served is complete.
-/
import KernelPatches.Aufs.VdirUnion
import KernelPatches.Lib.Runs

namespace KernelPatches.Aufs

open KernelPatches.Lib

/-! ## The version of a listing -/

section Version

variable {A : Arch} {fullNameHash : Name → Nat} {jiffies : Nat}

theorem appendDeblk_version (v : Vdir) (mem : Kmem) :
    (appendDeblk A v mem).2.1.vdVersion = v.vdVersion := by
  rw [appendDeblk]
  dsimp only
  split
  · rfl
  · split
    · rfl
    · split <;> rfl

theorem appendDe_version (v : Vdir) (e : De) (delist : Buckets Name) (mem : Kmem) :
    (appendDe A fullNameHash v e delist mem).2.1.vdVersion = v.vdVersion := by
  have hroom : (if deblkSize - v.lastP < calcSize A e.name.length then appendDeblk A v mem
      else (0, v, mem)).2.1.vdVersion = v.vdVersion := by
    split
    · exact appendDeblk_version v mem
    · rfl
  rw [appendDe]
  dsimp only
  generalize (if deblkSize - v.lastP < calcSize A e.name.length then appendDeblk A v mem
    else (0, v, mem)) = room at hroom ⊢
  split
  · exact hroom
  · split
    · exact hroom
    · split
      · exact hroom
      · rw [appendDeblk_version]
        exact hroom

theorem fillvdir_version {e : DirEnt} {arg arg' : FillvdirArg}
    (h : fillvdir A fullNameHash jiffies e arg = .ok arg') : arg'.vdir.vdVersion = arg.vdir.vdVersion := by
  unfold fillvdir at h
  dsimp only at h
  -- the jiffies that are set at the end are no version
  split at h
  · split at h
    · obtain rfl := Except.ok.inj h
      split <;> rfl
    · split at h
      · cases h
      · split at h
        · obtain rfl := Except.ok.inj h
          rfl
        · obtain rfl := Except.ok.inj h
          split
          · exact appendDe_version arg.vdir _ _ _
          · exact appendDe_version arg.vdir _ _ _
  · split at h
    · obtain rfl := Except.ok.inj h
      split <;> rfl
    · split at h
      · cases h
      · split at h
        · obtain rfl := Except.ok.inj h
          rfl
        · obtain rfl := Except.ok.inj h
          split <;> rfl

theorem appendWhs_version (bindex : Nat) : ∀ (whs : List Wh) (arg : FillvdirArg),
    (appendWhs A fullNameHash bindex whs arg).2.vdir.vdVersion = arg.vdir.vdVersion := by
  intro whs
  induction whs with
  | nil => exact fun _ => rfl
  | cons wh whs ih =>
    intro arg
    rw [appendWhs]
    split
    · exact appendDe_version arg.vdir _ _ _
    · rw [ih]
      exact appendDe_version arg.vdir _ _ _

theorem handleShwh_version : ∀ (count bindex : Nat) (arg : FillvdirArg),
    (handleShwh A fullNameHash count bindex arg).2.vdir.vdVersion = arg.vdir.vdVersion := by
  intro count
  induction count with
  | zero => exact fun _ _ => rfl
  | succ count ih =>
    intro bindex arg
    rw [handleShwh]
    split
    · exact appendWhs_version bindex _ arg
    · rw [ih]
      exact appendWhs_version bindex _ arg

theorem readBranches_version (hFptr : Nat → Option HFile) : ∀ {count bindex : Nat} {arg arg' : FillvdirArg}
    {err : Int}, readBranches A fullNameHash jiffies hFptr count bindex arg = .ok (err, arg') →
    arg'.vdir.vdVersion = arg.vdir.vdVersion := by
  intro count
  induction count with
  | zero =>
    intro bindex arg arg' err h
    cases h
    rfl
  | succ count ih =>
    intro bindex arg arg' err h
    rw [readBranches] at h
    split at h
    · exact ih h
    · split at h
      · cases h
        rfl
      · split at h
        · cases h
        · rename_i hread
          have hkeep := readAll_preserves (fun arg : FillvdirArg => arg.vdir.vdVersion)
            (fun _ => rfl) (fun e arg arg' => fillvdir_version) hread
          split at h
          · cases h
            exact hkeep
          · exact (ih h).trans hkeep

/-- **Reading the branches** leaves the version. -/
theorem auDoReadVdir_version {shwh : Bool} {file : DirFile} {v v' : Vdir} {sb sb' : Sbinfo}
    {mem mem' : Kmem} {err : Int}
    (h : auDoReadVdir A fullNameHash jiffies shwh file v sb mem = .ok (err, v', sb', mem')) :
    v'.vdVersion = v.vdVersion := by
  unfold auDoReadVdir at h
  dsimp only at h
  split at h
  · cases h
    rfl
  · split at h
    · cases h
      rfl
    · split at h
      · cases h
      · rename_i err₁ arg hbranches
        have hkeep := readBranches_version file.hFptr hbranches
        cases h
        split
        · rw [auHandleShwh]
          split
          · exact hkeep
          · rw [handleShwh_version]
            exact hkeep
        · exact hkeep

end Version

/-! ## Copies -/

section Copy

variable {A : Arch}

/-- The entries are those of the blocks. -/
theorem listing_congr {v v' : Vdir} (hnblk : v'.vdNblk = v.vdNblk)
    (hdeblk : ∀ i, i < v.vdNblk → v'.vdDeblk i = v.vdDeblk i) : listing A v' = listing A v := by
  have hblock : ∀ {m m' : Mem} {i : Nat}, m' i = m i → ∀ (fuel p : Nat),
      readBlock A m' i fuel p = readBlock A m i fuel p := by
    intro m m' i hm fuel
    induction fuel with
    | zero => exact fun _ => rfl
    | succ fuel ih =>
      intro p
      have hde : readDe A m' i p = readDe A m i p := readDe_congr fun q _ _ => congrFun hm q
      rw [readBlock, readBlock, isDeblkEnd_congr (congrFun hm _), hde]
      dsimp only
      rw [ih]
  rw [listing, listing, hnblk, List.flatMap_def, List.flatMap_def]
  congr 1
  apply List.map_congr_left
  intro i hi
  exact hblock (hdeblk i (List.mem_range.mp hi)) _ _

/-- **A copy that succeeds** has the entries and the version; one that fails has no version. -/
theorem copyVdir_listing {tgt src tgt' : Vdir} {mem mem' : Kmem} {err : Int}
    (h : copyVdir A tgt src mem = (err, tgt', mem')) :
    (err = 0 → listing A tgt' = listing A src ∧ tgt'.vdVersion = src.vdVersion) ∧
      (err ≠ 0 → tgt'.vdVersion = 0) := by
  rw [copyVdir] at h
  dsimp only at h
  generalize (if tgt.vdNblk < src.vdNblk then kmalloc mem else (some fun _ => 0, mem)) = p at h
  split at h
  · cases h
    exact ⟨fun h0 => absurd h0 (by decide), fun _ => rfl⟩
  obtain ⟨c, hc⟩ : ∃ c, c = copyDeblks src.vdDeblk (src.vdNblk - 1) 1
      (Function.update tgt.vdDeblk 0 (src.vdDeblk 0)) p.2 := ⟨_, rfl⟩
  rw [← hc] at h
  split at h
  · rename_i hall
    cases h
    refine ⟨fun _ => ⟨listing_congr rfl fun i hi => ?_, rfl⟩, fun h0 => absurd rfl h0⟩
    have hcopy := copyDeblks_spec src.vdDeblk (hc.symm.trans (Prod.ext hall rfl : c = (true, c.2))) i
    show c.2.1 i = src.vdDeblk i
    by_cases h0 : i = 0
    · rw [hcopy, if_neg (by omega), h0, Function.update_self]
    · have hi' : i < src.vdNblk := hi
      rw [hcopy, if_pos (by omega)]
  · cases h
    exact ⟨fun h0 => absurd h0 (by decide), fun _ => rfl⟩

end Copy

/-! ## Handing out -/

section Serve

variable {A : Arch}

/-- The same listing, but for `vd_last`. -/
def SameListing (v v' : Vdir) : Prop :=
  v'.vdNblk = v.vdNblk ∧ v'.vdDeblk = v.vdDeblk ∧ v'.vdVersion = v.vdVersion

theorem fillDe_same : ∀ (fuel n : Nat) (v : Vdir) (fPos : Nat),
    SameListing v (fillDe A fuel n v fPos).2.2.1 := by
  intro fuel
  induction fuel with
  | zero => exact fun _ _ _ => ⟨rfl, rfl, rfl⟩
  | succ fuel ih =>
    intro n v fPos
    unfold fillDe
    split
    · split
      · exact ih n { v with lastI := v.lastI + 1, lastP := 0 } _
      · exact ⟨rfl, rfl, rfl⟩
    · split
      · exact ⟨rfl, rfl, rfl⟩
      · rename_i n
        exact ih n { v with lastP := v.lastP + _ } _

theorem seekBlocks_same (fPos : Nat) : ∀ (count i : Nat) (v : Vdir),
    SameListing v (seekBlocks A fPos count i v).2 := by
  intro count
  induction count with
  | zero => exact fun _ _ => ⟨rfl, rfl, rfl⟩
  | succ count ih =>
    intro i v
    rw [seekBlocks]
    split
    · exact ⟨rfl, rfl, rfl⟩
    · exact ih (i + 1) v

theorem seekVdir_same {fPos : Nat} {v : Vdir} {r : Bool × Vdir} (h : seekVdir A fPos v = .ok r) :
    SameListing v r.2 := by
  unfold seekVdir at h
  dsimp only at h
  split at h
  · obtain rfl := Except.ok.inj h
    exact ⟨rfl, rfl, rfl⟩
  split at h
  · obtain rfl := Except.ok.inj h
    exact ⟨rfl, rfl, rfl⟩
  split at h
  · obtain rfl := Except.ok.inj h
    exact ⟨rfl, rfl, rfl⟩
  split at h
  · cases h
  · obtain rfl := Except.ok.inj h
    exact seekBlocks_same fPos _ _ { v with lastI := 0, lastP := 0 }

theorem auVdirFillDe_same {n : Nat} {v : Vdir} {fPos : Nat} {r : List (De × Nat) × Bool × Vdir × Nat}
    (h : auVdirFillDe A n v fPos = .ok r) : SameListing v r.2.2.1 := by
  unfold auVdirFillDe at h
  split at h
  · cases h
  rename_i t hseek
  have hsame := seekVdir_same hseek
  obtain rfl := Except.ok.inj h
  split
  · exact hsame
  · obtain ⟨hnblk, hdeblk, hversion⟩ := fillDe_same (A := A) (t.2.vdNblk * (deblkSize + 1)) n t.2 fPos
    exact ⟨hnblk.trans hsame.1, hdeblk.trans hsame.2.1, hversion.trans hsame.2.2⟩

end Serve

/-! ## Runs -/

/-- What a call of `readdir` draws on: the time, the mount option, the hidden directories, the inode
    numbers, the memory, and how many entries are taken. -/
structure RdEnv where
  jiffies : Nat
  shwh : Bool
  file : DirFile
  sb : Sbinfo
  mem : Kmem
  n : Nat

/-- A directory and its open files.  `log` is what has been read to the end, and `served` the listing of
    which the last call has served, if that call was successful. -/
structure RdState where
  inode : DirInode
  files : Nat → Option RdFile
  log : List (List De)
  served : Option (List De)

inductive RdEvent where
  | openDir (i : Nat)
  | seek (i pos : Nat)
  | change
  | readdir (i : Nat) (env : RdEnv)

section Step

variable (A : Arch) (fullNameHash : Name → Nat)

/-- `do_read` of `read_vdir`. -/
def doRead (env : RdEnv) (f : RdFile) (inode : DirInode) : Bool :=
  match inode.ivdir with
  | none => true
  | some vdir => (f.fPos == 0) && (inode.iVersion != vdir.vdVersion ||
      timeAfter A env.jiffies (vdir.vdJiffy + inode.siRdcache))

/-- The listing that `read_vdir` has read to the end. -/
def readToEnd (env : RdEnv) (f : RdFile) (inode : DirInode) : Option (List De) :=
  match readVdir A fullNameHash env.jiffies env.shwh env.file (f.fPos == 0) inode env.sb env.mem with
  | .error _ => none
  | .ok (err, inode', _, _) =>
    if err = 0 ∧ doRead A env f inode then inode'.ivdir.map (listing A) else none

/-- `aufs_readdir` of the file `i`, with `filldir` taking `env.n` entries. -/
def aufsReaddir (i : Nat) (env : RdEnv) (f : RdFile) (s : RdState) : Except Trap RdState :=
  match auVdirInit A fullNameHash env.jiffies env.shwh env.file f s.inode env.sb env.mem with
  | .error t => .error t
  | .ok (err, f', inode', _, _) =>
    let log := (readToEnd A fullNameHash env f s.inode).toList ++ s.log
    if err ≠ 0 then .ok ⟨inode', Function.update s.files i (some f'), log, none⟩
    else
      match f'.fvdirCache with
      | none => .error .wild
      | some c =>
        match auVdirFillDe A env.n c f'.fPos with
        | .error t => .error t
        | .ok r =>
          let f' := { f' with fvdirCache := some r.2.2.1, fPos := r.2.2.2 }
          .ok ⟨inode', Function.update s.files i (some f'), log, some (listing A c)⟩

/-- An event.  A seek to another position resets `f_version`. -/
def rdNext (s : RdState) : RdEvent → Except Trap RdState
  | .openDir i => .ok { s with files := Function.update s.files i (some ⟨0, 0, none⟩), served := none }
  | .seek i pos =>
    match s.files i with
    | none => .ok s
    | some f =>
      if pos = f.fPos then .ok s
      else
        let f := { f with fPos := pos, fVersion := 0 }
        .ok { s with files := Function.update s.files i (some f), served := none }
  | .change => .ok { s with inode := { s.inode with iVersion := s.inode.iVersion + 1 }, served := none }
  | .readdir i env =>
    match s.files i with
    | none => .ok s
    | some f => aufsReaddir A fullNameHash i env f s

def RdStep (s : RdState) (e : RdEvent) (s' : RdState) : Prop := rdNext A fullNameHash s e = .ok s'

end Step

/-- Nothing is open, and nothing was read. -/
def RdState.start (iVersion siRdcache : Nat) : RdState := ⟨⟨iVersion, none, siRdcache⟩, fun _ => none, [], none⟩

/-- A version of zero, as of a listing that was emptied, is not taken for a valid one: at the start of the
    file the inode has another version; a new file that was sought finds a listing with a version; and
    where the copy has none, the file is at its start and has a version. -/
structure Safe (inode : DirInode) (f : RdFile) : Prop where
  start : f.fPos = 0 → ∀ v, inode.ivdir = some v → v.vdVersion = 0 → inode.iVersion ≠ 0
  first : f.fPos ≠ 0 → f.fvdirCache = none → ∀ v, inode.ivdir = some v → v.vdVersion ≠ 0
  copy : ∀ c, f.fvdirCache = some c → c.vdVersion = 0 → f.fPos = 0 ∧ f.fVersion ≠ 0

def SafeEvent (s : RdState) : RdEvent → Prop
  | .readdir i _ => ∀ f, s.files i = some f → Safe s.inode f
  | _ => True

/-! ## What is complete -/

section Main

variable {A : Arch} {fullNameHash : Name → Nat}

/-- A listing with a version has been read to the end. -/
def Good (A : Arch) (log : List (List De)) (v : Vdir) : Prop := v.vdVersion ≠ 0 → listing A v ∈ log

theorem Good.mono {log log' : List (List De)} {v : Vdir} (h : Good A log v) : Good A (log' ++ log) v :=
  fun hv => List.mem_append_right _ (h hv)

theorem SameListing.good {log : List (List De)} {v v' : Vdir} (h : SameListing v v') (hg : Good A log v) :
    Good A log v' := by
  intro hv
  rw [listing_congr h.1 fun i _ => congrFun h.2.1 i]
  rw [h.2.2] at hv
  exact hg hv

/-- **`read_vdir`**: what it leaves in the inode. -/
theorem readVdir_good {env : RdEnv} {f : RdFile} {inode inode' : DirInode} {sb' : Sbinfo} {mem' : Kmem}
    {err : Int} {log : List (List De)} (hgood : ∀ v, inode.ivdir = some v → Good A log v)
    (h : readVdir A fullNameHash env.jiffies env.shwh env.file (f.fPos == 0) inode env.sb env.mem =
      .ok (err, inode', sb', mem')) :
    inode'.iVersion = inode.iVersion ∧
      (∀ v, inode'.ivdir = some v → Good A ((readToEnd A fullNameHash env f inode).toList ++ log) v) ∧
      (err = 0 → doRead A env f inode = true → ∀ v, inode'.ivdir = some v →
        listing A v ∈ (readToEnd A fullNameHash env f inode).toList ++ log) ∧
      (doRead A env f inode = false → inode' = inode) := by
  have hend : readToEnd A fullNameHash env f inode =
      if err = 0 ∧ doRead A env f inode = true then inode'.ivdir.map (listing A) else none := by
    rw [readToEnd, h]
  -- what was read to the end is in the log
  have hmem : err = 0 → doRead A env f inode = true → ∀ v, inode'.ivdir = some v →
      listing A v ∈ (readToEnd A fullNameHash env f inode).toList ++ log := by
    intro herr hdo v hv
    rw [hend, if_pos ⟨herr, hdo⟩, hv]
    exact List.mem_append_left _ List.mem_cons_self
  unfold readVdir at h
  cases hiv : inode.ivdir with
  | none =>
    rw [hiv] at h
    dsimp only at h
    have hdo : doRead A env f inode = true := by
      rw [doRead, hiv]
    have hnot : doRead A env f inode = false → inode' = inode := by
      intro hc
      rw [hdo] at hc
      cases hc
    have hnone : inode' = inode → ∀ v, inode'.ivdir = some v →
        Good A ((readToEnd A fullNameHash env f inode).toList ++ log) v := by
      rintro rfl v hv
      rw [hiv] at hv
      cases hv
    split at h
    · cases h
      exact ⟨rfl, hnone rfl, hmem, hnot⟩
    · split at h
      · cases h
      · rename_i err₁ vdir sb mem hread
        split at h
        · cases h
          exact ⟨rfl, fun v hv _ => hmem rfl hdo v hv, hmem, hnot⟩
        · cases h
          exact ⟨rfl, hnone rfl, hmem, hnot⟩
  | some vdir =>
    rw [hiv] at h
    dsimp only at h
    have hdo : doRead A env f inode = ((f.fPos == 0) && (inode.iVersion != vdir.vdVersion ||
        timeAfter A env.jiffies (vdir.vdJiffy + inode.siRdcache))) := by
      rw [doRead, hiv]
    split at h
    · rename_i hcond
      rw [← hdo] at hcond
      split at h
      · cases h
      · rename_i err₁ v₁ sb mem hread
        have hversion := auDoReadVdir_version hread
        cases h
        refine ⟨rfl, ?_, hmem, fun hc => absurd (hcond.symm.trans hc) (by decide)⟩
        intro v hv
        by_cases herr : err = 0
        · exact fun _ => hmem herr hcond v hv
        · -- a listing that was not read to the end has no version
          have hv₁ := Option.some.inj hv
          rw [if_neg herr] at hv₁
          intro hne
          rw [← hv₁, hversion] at hne
          exact absurd rfl hne
    · rename_i hcond
      rw [← hdo] at hcond
      cases h
      exact ⟨rfl, fun v hv => (hgood v hv).mono, hmem, fun _ => rfl⟩

/-- **`au_vdir_init`**, by its cases: what it leaves in the inode and in the file, and what is served. -/
theorem auVdirInit_complete {env : RdEnv} {f f' : RdFile} {inode inode' : DirInode} {sb' : Sbinfo}
    {mem' : Kmem} {err : Int} {log log' : List (List De)} (hsafe : Safe inode f)
    (hgood : ∀ v, inode.ivdir = some v → Good A log v) (hcache : ∀ c, f.fvdirCache = some c → Good A log c)
    (hlog : log' = (readToEnd A fullNameHash env f inode).toList ++ log)
    (h : auVdirInit A fullNameHash env.jiffies env.shwh env.file f inode env.sb env.mem =
      .ok (err, f', inode', sb', mem')) :
    (∀ v, inode'.ivdir = some v → Good A log' v) ∧ (∀ c, f'.fvdirCache = some c → Good A log' c) ∧
      (err = 0 → ∀ c, f'.fvdirCache = some c → listing A c ∈ log') := by
  have hcache' : ∀ c, f.fvdirCache = some c → Good A log' c := by
    intro c hc
    rw [hlog]
    exact (hcache c hc).mono
  unfold auVdirInit at h
  split at h
  · cases h
  rename_i err₁ inode₁ sb₁ mem₁ hread
  obtain ⟨-, hiv, hmem, hsame⟩ := readVdir_good hgood hread
  rw [← hlog] at hiv hmem
  split at h
  · rename_i hne
    cases h
    exact ⟨hiv, hcache', fun h0 => absurd h0 hne⟩
  rename_i hzero
  rw [not_not] at hzero
  -- what is copied is complete, at the start of the file and in a new file
  have hsrc : f.fPos = 0 ∨ f.fvdirCache = none → ∀ src, inode₁.ivdir = some src → listing A src ∈ log' := by
    intro hor src hs
    cases hdo : doRead A env f inode with
    | true => exact hmem hzero hdo src hs
    | false =>
      rw [hsame hdo] at hs
      have hversion : src.vdVersion ≠ 0 := by
        by_cases hpos : f.fPos = 0
        · intro h0
          rw [doRead, hs] at hdo
          dsimp only at hdo
          rw [hpos, beq_self_eq_true, Bool.true_and, Bool.or_eq_false_iff, bne_eq_false_iff_eq] at hdo
          exact hsafe.start hpos src hs h0 (hdo.1.trans h0)
        · exact hsafe.first hpos (hor.resolve_left hpos) src hs
      rw [hlog]
      exact List.mem_append_right _ (hgood src hs hversion)
  split at h
  · cases h
  · -- a file without a copy
    rename_i src hs hnone
    split at h
    · rename_i halloc
      cases h
      refine ⟨hiv, hcache', fun _ c hc => ?_⟩
      rw [hnone] at hc
      cases hc
    · rename_i vc mem₂ _
      obtain ⟨c, hc⟩ : ∃ c, c = copyVdir A vc src mem₂ := ⟨_, rfl⟩
      obtain ⟨hok, -⟩ := copyVdir_listing hc.symm
      have hlisted := hsrc (Or.inr hnone) src hs
      unfold copyToFile at h
      rw [← hc] at h
      dsimp only at h
      split at h
      · rename_i h0
        cases h
        refine ⟨hiv, fun c' hc' _ => ?_, fun _ c' hc' => ?_⟩
        · rw [← Option.some.inj hc', (hok h0).1]
          exact hlisted
        · rw [← Option.some.inj hc', (hok h0).1]
          exact hlisted
      · rename_i h0
        cases h
        refine ⟨hiv, fun c' hc' => ?_, fun he => absurd he h0⟩
        rw [hnone] at hc'
        cases hc'
  · rename_i src vc hs hsome
    split at h
    · -- the copy is made anew
      rename_i hcond
      obtain ⟨c, hc⟩ : ∃ c, c = copyVdir A (reinitVdir A vc) src mem₁ := ⟨_, rfl⟩
      obtain ⟨hok, hfail⟩ := copyVdir_listing hc.symm
      have hlisted := hsrc (Or.inl hcond.1) src hs
      unfold copyToFile at h
      rw [← hc] at h
      dsimp only at h
      split at h
      · rename_i h0
        cases h
        refine ⟨hiv, fun c' hc' _ => ?_, fun _ c' hc' => ?_⟩
        · rw [← Option.some.inj hc', (hok h0).1]
          exact hlisted
        · rw [← Option.some.inj hc', (hok h0).1]
          exact hlisted
      · rename_i h0
        cases h
        refine ⟨hiv, fun c' hc' hne => ?_, fun he => absurd he h0⟩
        -- a copy that failed has no version
        rw [hsome] at hc'
        rw [← Option.some.inj hc'] at hne
        exact absurd (hfail h0) hne
    · rename_i hcond
      cases h
      refine ⟨hiv, hcache', fun _ c hc => ?_⟩
      by_cases hversion : c.vdVersion = 0
      · obtain ⟨hpos, hne⟩ := hsafe.copy c hc hversion
        obtain rfl := Option.some.inj (hsome.symm.trans hc)
        exact absurd ⟨hpos, by rw [hversion]; exact Ne.symm hne⟩ hcond
      · exact hcache' c hc hversion

/-- Every listing with a version is complete, and what was served was. -/
structure Complete (A : Arch) (s : RdState) : Prop where
  inode : ∀ v, s.inode.ivdir = some v → Good A s.log v
  files : ∀ i f c, s.files i = some f → f.fvdirCache = some c → Good A s.log c
  served : ∀ l, s.served = some l → l ∈ s.log

/-- One event. -/
theorem Complete.step {s s' : RdState} {e : RdEvent} (h : Complete A s) (hsafe : SafeEvent s e)
    (hstep : RdStep A fullNameHash s e s') : Complete A s' := by
  -- a file whose copy is good, in the place of another
  have hupdate : ∀ {files : Nat → Option RdFile} {i : Nat} {f : RdFile} {log : List (List De)},
      (∀ j f c, files j = some f → f.fvdirCache = some c → Good A log c) →
      (∀ c, f.fvdirCache = some c → Good A log c) →
      ∀ j g c, Function.update files i (some f) j = some g → g.fvdirCache = some c → Good A log c := by
    intro files i f log hfiles hf j g c hg hc
    by_cases hj : j = i
    · rw [hj, Function.update_self] at hg
      rw [← Option.some.inj hg] at hc
      exact hf c hc
    · rw [Function.update_of_ne hj] at hg
      exact hfiles j g c hg hc
  cases e with
  | openDir i =>
    obtain rfl := Except.ok.inj hstep
    exact ⟨h.inode, hupdate h.files (fun c hc => by cases hc), fun l hl => by cases hl⟩
  | seek i pos =>
    unfold RdStep rdNext at hstep
    dsimp only at hstep
    split at hstep
    · obtain rfl := Except.ok.inj hstep
      exact h
    · rename_i f hf
      split at hstep
      · obtain rfl := Except.ok.inj hstep
        exact h
      · obtain rfl := Except.ok.inj hstep
        exact ⟨h.inode, hupdate h.files (fun c hc => h.files i f c hf hc), fun l hl => by cases hl⟩
  | change =>
    obtain rfl := Except.ok.inj hstep
    exact ⟨h.inode, h.files, fun l hl => by cases hl⟩
  | readdir i env =>
    unfold RdStep rdNext at hstep
    dsimp only at hstep
    split at hstep
    · obtain rfl := Except.ok.inj hstep
      exact h
    · rename_i f hf
      unfold aufsReaddir at hstep
      split at hstep
      · cases hstep
      rename_i err f' inode' sb' mem' hinit
      obtain ⟨hiv, hc', hserved⟩ := auVdirInit_complete (hsafe f hf) h.inode (fun c hc => h.files i f c hf hc)
        rfl hinit
      have hfiles : ∀ j g c, s.files j = some g → g.fvdirCache = some c →
          Good A ((readToEnd A fullNameHash env f s.inode).toList ++ s.log) c :=
        fun j g c hg hc => (h.files j g c hg hc).mono
      dsimp only at hstep
      split at hstep
      · obtain rfl := Except.ok.inj hstep
        exact ⟨hiv, hupdate hfiles hc', fun l hl => by cases hl⟩
      · rename_i herr
        rw [not_not] at herr
        split at hstep
        · cases hstep
        · rename_i c hc
          split at hstep
          · cases hstep
          rename_i r hfill
          obtain rfl := Except.ok.inj hstep
          refine ⟨hiv, hupdate hfiles (fun c' hc'' => ?_), fun l hl => ?_⟩
          · rw [← Option.some.inj hc'']
            exact (auVdirFillDe_same hfill).good (hc' c hc)
          · rw [← Option.some.inj hl]
            exact hserved herr c hc

end Main

/-! ## A listing that was emptied -/

/-- One branch, with the file `a`. -/
def oneFile : DirFile where
  fbstart := 0
  fbend := 0
  hFptr := fun _ => some ⟨0, [([⟨[97], 1, 8⟩], 0)]⟩

/-- A call with these answers to requests for memory. -/
def callWith (mem : Kmem) : RdEnv := ⟨0, false, oneFile, plainSb, mem, 9⟩

/-- The directory is read.  After a change a second file cannot read it, which empties the listing; a third
    one, which was sought, takes the empty listing, and is read from the start then. -/
def emptiedRun : List RdEvent :=
  [.openDir 0, .readdir 0 (callWith []), .change, .openDir 1, .readdir 1 (callWith [none]), .openDir 2,
    .seek 2 1, .readdir 2 (callWith []), .seek 2 0, .readdir 2 (callWith [])]

/-- The events one after the other. -/
def rdRun (A : Arch) (fullNameHash : Name → Nat) : List RdEvent → RdState → Option RdState
  | [], s => some s
  | e :: es, s =>
    match rdNext A fullNameHash s e with
    | .error _ => none
    | .ok s => rdRun A fullNameHash es s

theorem rdRun_run {A : Arch} {fullNameHash : Name → Nat} : ∀ {es : List RdEvent} {s s' : RdState},
    rdRun A fullNameHash es s = some s' → Run (RdStep A fullNameHash) s es s' := by
  intro es
  induction es with
  | nil =>
    intro s s' h
    cases h
    exact .nil
  | cons e es ih =>
    intro s s' h
    rw [rdRun] at h
    split at h
    · cases h
    · rename_i s₁ hnext
      exact (Run.nil.snoc hnext : Run (RdStep A fullNameHash) s [e] s₁).append (ih h)

end KernelPatches.Aufs
