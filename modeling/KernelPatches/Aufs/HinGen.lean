/-
  aufs: a file that was changed on its branch directly, and the dentries that are made obsolete.

  An inotify event of a hidden directory carries the name of a child.  `postproc` looks the dentry of that name
  up in the aufs directory, `lookup_wlock_by_name`, takes its inode, or else the one the xino file knows, and
  `hin_job` makes the generation obsolete: by the inode, `hin_gen_by_inode`, where the alias of that name is
  dropped, and if there was none by the dentry, `hin_gen_by_name`.

  The loop over the aliases passes over one whose length differs *and* whose bytes differ, so that it takes the
  first one with as many bytes as the name, or that begins with it.  And it does not look at the directory of
  the alias, which may be another one than that of the event.

  * `hinGenByInode`, `hinGenByName`, `hinJobGen`, `postprocChild`
                              — the calls;
  * `aliasTaken_iff`          — the aliases the loop takes;
  * `lookupWlockByName_spec`  — the dentry that is found, and what is dropped on the way;
  * `Obsoletes`               — what an event is to do to the dentries;
  * `TakesFound`              — when the alias that is taken is the one that was meant;
  * `postprocChild_obsoletes_iff`
                              — then and only then.
-/
import KernelPatches.Aufs.Lookup
import KernelPatches.Aufs.XinoRemount

namespace KernelPatches.Aufs.HinGen

/-! ## Dentries and inodes -/

/-- `struct dentry`: `d_name`, whether it is hashed, `d_count`, whether there is a dinfo, its `di_generation`, the
    inode, and whether it is a root. -/
structure Dentry where
  dName : Name
  hashed : Bool
  dCount : Nat
  dFsdata : Bool
  diGeneration : Int
  dInode : Option Nat
  isRoot : Bool

/-- `struct inode`: `i_ino`, whether it is a directory, `i_dentry`, which has its aliases, and `ii_generation`.  The
    root is a directory. -/
structure Inode where
  iIno : Nat
  isDir : Bool
  iDentry : List Nat
  iiGeneration : Int
  root : iIno = rootIno → isDir = true

/-- The dentries and inodes by their addresses, and of the super block `si_generation` and
    AuSi_FAILED_REFRESH_DIRS. -/
structure Dcache where
  dentry : Nat → Dentry
  inode : Nat → Inode
  siGeneration : Int
  failedRefreshDirs : Bool

namespace Dcache

/-- A dentry is changed. -/
def setDentry (s : Dcache) (d : Nat) (v : Dentry) : Dcache := { s with dentry := Function.update s.dentry d v }

/-- `__d_drop` -/
def dDrop (s : Dcache) (d : Nat) : Dcache := s.setDentry d { s.dentry d with hashed := false }

/-- `au_digen_dec` -/
def digenDec (s : Dcache) (d : Nat) : Dcache :=
  s.setDentry d { s.dentry d with diGeneration := (s.dentry d).diGeneration - 1 }

/-- `au_iigen_dec` -/
def iigenDec (s : Dcache) (i : Nat) : Dcache :=
  let inode := { s.inode i with iiGeneration := (s.inode i).iiGeneration - 1 }
  { s with inode := Function.update s.inode i inode }

/-- The same, if there is an inode. -/
def iigenDecOpt (s : Dcache) : Option Nat → Dcache
  | none => s
  | some i => s.iigenDec i

/-- The dentry is cached, and of the present generation. -/
def Current (s : Dcache) (d : Nat) : Prop :=
  (s.dentry d).hashed = true ∧ (s.dentry d).diGeneration = s.siGeneration

end Dcache

/-- The name an event carries, `h_child_name`, up to its terminator. -/
structure ChildName where
  bytes : Name
  noNul : 0 ∉ bytes

/-- `!memcmp(dname->name, name, nlen)`.  Behind the name of a dentry is its terminator, where a comparison with the
    bytes of a child name comes to its end. -/
def sameBytes (dname : Name) (name : ChildName) : Bool :=
  (dname ++ [0]).take name.bytes.length = name.bytes

/-- What is not known of the kernel here: `d_find_alias` of a directory, and `hin_gen_tree`. -/
structure GenIo where
  dFindAlias : Nat → Option Nat
  hinGenTree : Nat → Dcache → Int × Dcache

/-! ## The calls -/

/-- `dname->len != nlen && memcmp(dname->name, name, nlen)`, negated. -/
def aliasTaken (name : ChildName) (dname : Name) : Bool :=
  !(dname.length != name.bytes.length && !sameBytes dname name)

/-- The loop of `hin_gen_by_inode` over the aliases: whether one was dropped. -/
def genAlias (name : ChildName) : List Nat → Dcache → Bool × Dcache
  | [], s => (false, s)
  | d :: ds, s =>
    if aliasTaken name (s.dentry d).dName then (true, (s.dDrop d).digenDec d) else genAlias name ds s

/-- `hin_gen_by_inode`: 0 if processed. -/
def hinGenByInode (io : GenIo) (name : ChildName) (i : Nat) (isdir : Bool) (s : Dcache) : Int × Dcache :=
  if (s.inode i).iIno = rootIno then (0, s)
  else if !isdir then
    let r := genAlias name (s.inode i).iDentry (s.iigenDec i)
    (if r.1 then 0 else 1, r.2)
  else
    let s := { s with failedRefreshDirs := true }
    match io.dFindAlias i with
    | none => (1, s.iigenDec i)
    | some d =>
      if (s.dentry d).dName.length = name.bytes.length ∧ sameBytes (s.dentry d).dName name then io.hinGenTree d s
      else (1, s)

/-- `hin_gen_by_name` -/
def hinGenByName (io : GenIo) (d : Nat) (isdir : Bool) (s : Dcache) : Int × Dcache :=
  if (s.dentry d).isRoot then (0, s)
  else if !isdir then
    (0, ((s.dDrop d).digenDec d).iigenDecOpt (s.dentry d).dInode)
  else
    let s := { s with failedRefreshDirs := true }
    if (s.dentry d).dInode.isSome then io.hinGenTree d s else (0, s)

/-- `struct hin_job_args`, as far as the generation is concerned. -/
structure HinJobArgs where
  isdir : Bool
  inode : Option Nat
  dentry : Option Nat
  hName : ChildName

/-- `hin_job` with AuHinJob_GEN: it makes the generation obsolete.  What it does for its other flags is not done to
    dentries. -/
def hinJobGen (io : GenIo) (a : HinJobArgs) (s : Dcache) : Dcache :=
  let r : Int × Dcache := match a.inode with
    | none => (-1, s)
    | some i => hinGenByInode io a.hName i a.isdir s
  match a.dentry with
  | none => r.2
  | some d => if r.1 ≠ 0 then (hinGenByName io d a.isdir r.2).2 else r.2

/-- The loop of `lookup_wlock_by_name` over `d_subdirs`.  The dentries of the name that are not in use are dropped. -/
def lookupSubdirs (name : ChildName) : List Nat → Dcache → Option Nat × Dcache
  | [], s => (none, s)
  | d :: ds, s =>
    if (s.dentry d).dName.length ≠ name.bytes.length ∨ sameBytes (s.dentry d).dName name = false then
      lookupSubdirs name ds s
    else if (s.dentry d).dCount = 0 ∨ (s.dentry d).dFsdata = false then lookupSubdirs name ds (s.dDrop d)
    else (some d, s)

/-- `lookup_wlock_by_name`, where `subdirs` are the children of the directory's dentry, if it has one. -/
def lookupWlockByName (name : ChildName) (subdirs : Option (List Nat)) (s : Dcache) : Option Nat × Dcache :=
  match subdirs with
  | none => (none, s)
  | some ds => lookupSubdirs name ds s

/-- What an event meets: the name, the children of its directory, and the inode `lookup_wlock_by_ino` finds. -/
structure Event where
  name : ChildName
  subdirs : Option (List Nat)
  byIno : Option Nat

/-- `postproc` up to the lookup of the dentry. -/
def Event.found (ev : Event) (s : Dcache) : Option Nat × Dcache :=
  if ev.name.bytes = [] then (none, s) else lookupWlockByName ev.name ev.subdirs s

/-- The inode of that dentry, or the one the xino file knows. -/
def Event.inode (ev : Event) (s : Dcache) : Option Nat :=
  ((ev.found s).1.bind fun d => ((ev.found s).2.dentry d).dInode).or ev.byIno

/-- `postproc`, for a child that is not a directory and an event that makes it obsolete. -/
def postprocChild (io : GenIo) (ev : Event) (s : Dcache) : Dcache :=
  hinJobGen io ⟨false, ev.inode s, (ev.found s).1, ev.name⟩ (ev.found s).2

/-! ## Names -/

section

variable {name : ChildName} {dname : Name}

/-- The bytes are the same as far as the child name goes if the name of the dentry begins with it. -/
theorem sameBytes_iff : sameBytes dname name = true ↔ name.bytes <+: dname := by
  unfold sameBytes
  rw [decide_eq_true_iff]
  constructor
  · intro h
    by_cases hle : name.bytes.length ≤ dname.length
    · rw [List.take_append_of_le_length hle] at h
      rw [← h]
      exact List.take_prefix _ _
    · -- the terminator would be one of the bytes
      have hall : (dname ++ [0]).take name.bytes.length = dname ++ [0] := by
        apply List.take_of_length_le
        rw [List.length_append, List.length_singleton]
        omega
      rw [hall] at h
      have hmem : 0 ∈ name.bytes := by
        rw [← h]
        exact List.mem_append_right _ (List.mem_singleton_self _)
      exact absurd hmem name.noNul
  · intro h
    rw [List.take_append_of_le_length h.length_le]
    exact (List.prefix_iff_eq_take.mp h).symm

/-- **What the loop takes**: an alias with as many bytes as the child name, or that begins with it. -/
theorem aliasTaken_iff :
    aliasTaken name dname = true ↔ dname.length = name.bytes.length ∨ name.bytes <+: dname := by
  rw [← sameBytes_iff]
  unfold aliasTaken
  simp

/-- Both checks together are the equality of the names. -/
theorem sameName_iff :
    (¬ (dname.length ≠ name.bytes.length ∨ sameBytes dname name = false)) ↔ dname = name.bytes := by
  rw [not_or, not_not, Bool.not_eq_false, sameBytes_iff]
  constructor
  · rintro ⟨hlen, hpre⟩
    exact (hpre.eq_of_length hlen.symm).symm
  · rintro rfl
    exact ⟨rfl, List.prefix_rfl⟩

end

/-! ## The dentry that is found -/

/-- A dentry that has the name and is in use. -/
def Dentry.inUse (name : ChildName) (v : Dentry) : Bool := v.dName = name.bytes ∧ v.dCount ≠ 0 ∧ v.dFsdata = true

/-- Some dentries of the name that were not in use were dropped, and nothing else was done. -/
structure DropsUnused (name : ChildName) (s s' : Dcache) : Prop where
  inode : s'.inode = s.inode
  siGeneration : s'.siGeneration = s.siGeneration
  dentry : ∀ d, s'.dentry d = s.dentry d ∨ (s'.dentry d = { s.dentry d with hashed := false } ∧
    (s.dentry d).dName = name.bytes ∧ (s.dentry d).inUse name = false)

section

variable {name : ChildName} {s s' t : Dcache} {d : Nat}

@[simp] theorem Dcache.setDentry_self (s : Dcache) (d : Nat) (v : Dentry) : (s.setDentry d v).dentry d = v := by
  show Function.update s.dentry d v d = v
  rw [Function.update_self]

theorem Dcache.setDentry_ne {d d' : Nat} (h : d' ≠ d) (s : Dcache) (v : Dentry) :
    (s.setDentry d v).dentry d' = s.dentry d' := by
  show Function.update s.dentry d v d' = _
  rw [Function.update_of_ne h]

theorem DropsUnused.refl (name : ChildName) (s : Dcache) : DropsUnused name s s := ⟨rfl, rfl, fun _ => Or.inl rfl⟩

/-- One more is dropped. -/
theorem DropsUnused.drop (hn : (s.dentry d).dName = name.bytes) (hu : (s.dentry d).inUse name = false)
    (h : DropsUnused name (s.dDrop d) t) : DropsUnused name s t where
  inode := h.inode
  siGeneration := h.siGeneration
  dentry := by
    intro x
    by_cases hx : x = d
    · rw [hx]
      have hself : (s.dDrop d).dentry d = { s.dentry d with hashed := false } := Dcache.setDentry_self _ _ _
      refine Or.inr ⟨?_, hn, hu⟩
      rcases h.dentry d with hd | ⟨hd, -⟩
      · rw [hd, hself]
      · rw [hd, hself]
    · have hne : (s.dDrop d).dentry x = s.dentry x := Dcache.setDentry_ne hx _ _
      rw [← hne]
      exact h.dentry x

/-- What is asked for does not change by that. -/
theorem DropsUnused.inUse_eq (h : DropsUnused name s t) (x : Nat) :
    (t.dentry x).inUse name = (s.dentry x).inUse name := by
  rcases h.dentry x with hx | ⟨hx, -⟩
  · rw [hx]
  · rw [hx]
    rfl

/-- **The lookup** finds the first dentry in use that has the name. -/
theorem lookupSubdirs_spec : ∀ (ds : List Nat) (s : Dcache),
    (lookupSubdirs name ds s).1 = ds.find? (fun d => (s.dentry d).inUse name) ∧
      DropsUnused name s (lookupSubdirs name ds s).2 := by
  intro ds
  induction ds with
  | nil => exact fun s => ⟨rfl, DropsUnused.refl _ _⟩
  | cons d ds ih =>
    intro s
    unfold lookupSubdirs
    rw [List.find?_cons]
    by_cases hname : (s.dentry d).dName.length ≠ name.bytes.length ∨ sameBytes (s.dentry d).dName name = false
    · have hno : (s.dentry d).inUse name = false := by
        unfold Dentry.inUse
        rw [decide_eq_false_iff_not]
        exact fun h => sameName_iff.mpr h.1 hname
      rw [if_pos hname, hno]
      exact ih s
    · have heq := sameName_iff.mp hname
      rw [if_neg hname]
      by_cases huse : (s.dentry d).dCount = 0 ∨ (s.dentry d).dFsdata = false
      · have hno : (s.dentry d).inUse name = false := by
          unfold Dentry.inUse
          rw [decide_eq_false_iff_not]
          rintro ⟨-, hc, hf⟩
          rcases huse with h | h
          · exact hc h
          · rw [h] at hf
            cases hf
        rw [if_pos huse, hno]
        obtain ⟨hfind, hdrop⟩ := ih (s.dDrop d)
        have hone : DropsUnused name s (s.dDrop d) := DropsUnused.drop heq hno (DropsUnused.refl _ _)
        refine ⟨?_, DropsUnused.drop heq hno hdrop⟩
        rw [hfind, funext hone.inUse_eq]
      · have hyes : (s.dentry d).inUse name = true := by
          unfold Dentry.inUse
          rw [decide_eq_true_iff]
          rw [not_or, Bool.not_eq_false] at huse
          exact ⟨heq, huse⟩
        rw [if_neg huse, hyes]
        exact ⟨rfl, DropsUnused.refl _ _⟩

/-- The dentry that is meant: the first child of the directory that has the name and is in use. -/
def Event.meant (ev : Event) (s : Dcache) : Option Nat :=
  if ev.name.bytes = [] then none
  else ev.subdirs.bind fun ds => ds.find? fun d => (s.dentry d).inUse ev.name

/-- The inode that is meant. -/
def Event.child (ev : Event) (s : Dcache) : Option Nat :=
  ((ev.meant s).bind fun d => (s.dentry d).dInode).or ev.byIno

theorem Event.found_spec (ev : Event) (s : Dcache) :
    (ev.found s).1 = ev.meant s ∧ DropsUnused ev.name s (ev.found s).2 := by
  unfold Event.found Event.meant
  split
  · exact ⟨rfl, DropsUnused.refl _ _⟩
  · unfold lookupWlockByName
    cases ev.subdirs with
    | none => exact ⟨rfl, DropsUnused.refl _ _⟩
    | some ds => exact lookupSubdirs_spec ds s

/-- What is found is in use, and was not touched by the lookup. -/
theorem Event.meant_inUse {ev : Event} (h : ev.meant s = some d) : (s.dentry d).inUse ev.name = true := by
  unfold Event.meant at h
  split at h
  · cases h
  · obtain ⟨ds, -, hfind⟩ := Option.bind_eq_some_iff.mp h
    exact @List.find?_some _ (fun d => (s.dentry d).inUse ev.name) _ _ hfind

theorem Event.found_dentry {ev : Event} (h : ev.meant s = some d) : (ev.found s).2.dentry d = s.dentry d := by
  rcases (ev.found_spec s).2.dentry d with hd | ⟨-, -, hno⟩
  · exact hd
  · rw [Event.meant_inUse h] at hno
    cases hno

theorem Event.inode_eq (ev : Event) (s : Dcache) : ev.inode s = ev.child s := by
  unfold Event.inode Event.child
  rw [(ev.found_spec s).1]
  cases h : ev.meant s with
  | none => rfl
  | some d =>
    show ((((ev.found s).2.dentry d).dInode).or ev.byIno) = _
    rw [Event.found_dentry h]
    rfl

end

/-! ## The alias that is taken -/

/-- The alias of the inode that the loop takes. -/
def Event.taken (ev : Event) (s : Dcache) (i : Nat) : Option Nat :=
  (s.inode i).iDentry.find? fun d => aliasTaken ev.name (s.dentry d).dName

/-- A dentry that was made obsolete: dropped, and of an earlier generation. -/
def Dentry.obsolete (v : Dentry) : Dentry := { v with hashed := false, diGeneration := v.diGeneration - 1 }

/-- It is made so. -/
def Dcache.obsolete (s : Dcache) (d : Nat) : Dcache := (s.dDrop d).digenDec d

section

variable {io : GenIo} {ev : Event} {name : ChildName} {s t : Dcache} {ds : List Nat} {d i : Nat}

theorem Dcache.obsolete_self (s : Dcache) (d : Nat) : (s.obsolete d).dentry d = (s.dentry d).obsolete := by
  unfold obsolete digenDec dDrop
  rw [setDentry_self, setDentry_self]
  rfl

theorem Dcache.obsolete_ne {x : Nat} (h : x ≠ d) (s : Dcache) : (s.obsolete d).dentry x = s.dentry x := by
  unfold obsolete digenDec dDrop
  rw [setDentry_ne h, setDentry_ne h]

/-- **The loop** passes over all of them, or makes the first that it takes obsolete. -/
theorem genAlias_none (h : ds.find? (fun d => aliasTaken name (s.dentry d).dName) = none) :
    genAlias name ds s = (false, s) := by
  induction ds with
  | nil => rfl
  | cons x ds ih =>
    rw [List.find?_cons] at h
    unfold genAlias
    cases hx : aliasTaken name (s.dentry x).dName with
    | true =>
      rw [hx] at h
      cases h
    | false =>
      rw [hx] at h
      rw [if_neg Bool.false_ne_true]
      exact ih h

theorem genAlias_some (h : ds.find? (fun d => aliasTaken name (s.dentry d).dName) = some d) :
    genAlias name ds s = (true, s.obsolete d) := by
  induction ds with
  | nil => cases h
  | cons x ds ih =>
    rw [List.find?_cons] at h
    unfold genAlias
    cases hx : aliasTaken name (s.dentry x).dName with
    | true =>
      rw [hx] at h
      rw [if_pos rfl, Option.some.inj h]
      rfl
    | false =>
      rw [hx] at h
      rw [if_neg Bool.false_ne_true]
      exact ih h

/-- An inode that is not a directory is not the root's. -/
theorem hinGenByInode_file (h : (s.inode i).isDir = false) : hinGenByInode io name i false s =
    (if (genAlias name (s.inode i).iDentry (s.iigenDec i)).1 then 0 else 1,
      (genAlias name (s.inode i).iDentry (s.iigenDec i)).2) := by
  have hroot : (s.inode i).iIno ≠ rootIno := by
    intro heq
    rw [(s.inode i).root heq] at h
    cases h
  unfold hinGenByInode
  rw [if_neg hroot]
  rfl

/-- **By the inode**, when no alias is taken. -/
theorem hinGenByInode_none (h : (s.inode i).isDir = false) (ht : ev.taken s i = none) :
    hinGenByInode io ev.name i false s = (1, s.iigenDec i) := by
  rw [hinGenByInode_file h, @genAlias_none ev.name (s.iigenDec i) _ ht]
  rfl

/-- **By the inode**, when one is. -/
theorem hinGenByInode_some (h : (s.inode i).isDir = false) (ht : ev.taken s i = some d) :
    hinGenByInode io ev.name i false s = (0, (s.iigenDec i).obsolete d) := by
  rw [hinGenByInode_file h, @genAlias_some ev.name (s.iigenDec i) _ _ ht]
  rfl

theorem Dcache.iigenDecOpt_dentry (s : Dcache) (inode : Option Nat) : (s.iigenDecOpt inode).dentry = s.dentry := by
  cases inode <;> rfl

/-- **By the name**: the dentry is not cached any more. -/
theorem hinGenByName_hashed (h : (s.dentry d).isRoot = false) :
    (((hinGenByName io d false s).2).dentry d).hashed = false := by
  unfold hinGenByName
  rw [h, if_neg Bool.false_ne_true]
  show (((s.obsolete d).iigenDecOpt (s.dentry d).dInode).dentry d).hashed = false
  rw [Dcache.iigenDecOpt_dentry, s.obsolete_self d]
  rfl

/-- The lookup does not change what is taken. -/
theorem DropsUnused.taken_eq (h : DropsUnused ev.name s t) (i : Nat) : ev.taken t i = ev.taken s i := by
  have hname : ∀ x, (t.dentry x).dName = (s.dentry x).dName := by
    intro x
    rcases h.dentry x with hx | ⟨hx, -⟩ <;> rw [hx]
  unfold Event.taken
  rw [h.inode]
  simp only [hname]

end

/-! ## What an event is to do -/

/-- **What an event is to do.**  If the call by the inode says that it is done, an alias of just that name was dropped
    and made obsolete; those of other names are as they were; and the dentry of that name that was found is not
    cached any more, or not of the present generation. -/
structure Obsoletes (io : GenIo) (ev : Event) (s : Dcache) : Prop where
  dropped : ∀ i, ev.inode s = some i → (hinGenByInode io ev.name i false (ev.found s).2).1 = 0 →
    ∃ d ∈ (s.inode i).iDentry, (s.dentry d).dName = ev.name.bytes ∧
      (hinGenByInode io ev.name i false (ev.found s).2).2.dentry d = (s.dentry d).obsolete
  cached : ∀ i, ev.inode s = some i → ∀ d ∈ (s.inode i).iDentry, (s.dentry d).dName ≠ ev.name.bytes →
    (hinGenByInode io ev.name i false (ev.found s).2).2.dentry d = s.dentry d
  gone : ∀ d, (ev.found s).1 = some d → ¬ (postprocChild io ev s).Current d

/-- **The alias that is taken is the one that was meant**: it has the name, and it is the dentry of that name in the
    directory, if this one is cached and of the present generation. -/
structure TakesFound (ev : Event) (s : Dcache) : Prop where
  name : ∀ i d, ev.child s = some i → ev.taken s i = some d → (s.dentry d).dName = ev.name.bytes
  found : ∀ i d d', ev.child s = some i → ev.taken s i = some d → ev.meant s = some d' → s.Current d' → d = d'

section

variable {io : GenIo} {ev : Event} {s : Dcache} {d i : Nat}

theorem Dcache.current_congr {t : Dcache} (hd : t.dentry d = s.dentry d) (hg : t.siGeneration = s.siGeneration) :
    t.Current d ↔ s.Current d := by
  unfold Current
  rw [hd, hg]

/-- A dentry is not cached any more, whatever its generation. -/
theorem Dcache.not_current (h : (s.dentry d).hashed = false) : ¬ s.Current d := by
  rintro ⟨hh, -⟩
  rw [h] at hh
  cases hh

/-- The dentry that was found, when no alias was taken: it is dropped by its name. -/
theorem postprocChild_fallback (hroot : (s.dentry d).isRoot = false) (hd : ev.meant s = some d)
    (hfile : ∀ i, ev.child s = some i → (s.inode i).isDir = false)
    (hnone : ∀ i, ev.child s = some i → ev.taken s i = none) : ¬ (postprocChild io ev s).Current d := by
  obtain ⟨hfound, hdrops⟩ := ev.found_spec s
  have hsame := Event.found_dentry hd
  unfold postprocChild hinJobGen
  rw [ev.inode_eq, hfound, hd]
  cases hc : ev.child s with
  | none =>
    apply Dcache.not_current
    exact hinGenByName_hashed (by rw [hsame]; exact hroot)
  | some i =>
    have hdir : ((ev.found s).2.inode i).isDir = false := by
      rw [hdrops.inode]
      exact hfile i hc
    have htaken : ev.taken (ev.found s).2 i = none := (hdrops.taken_eq i).trans (hnone i hc)
    dsimp only
    rw [hinGenByInode_none hdir htaken, if_pos one_ne_zero]
    apply Dcache.not_current
    exact hinGenByName_hashed (by show ((ev.found s).2.dentry d).isRoot = false; rw [hsame]; exact hroot)

/-- When one was taken, nothing else is done. -/
theorem postprocChild_taken (hc : ev.child s = some i) (hfile : (s.inode i).isDir = false)
    (ht : ev.taken s i = some d) :
    hinGenByInode io ev.name i false (ev.found s).2 = (0, ((ev.found s).2.iigenDec i).obsolete d) ∧
      postprocChild io ev s = ((ev.found s).2.iigenDec i).obsolete d := by
  obtain ⟨-, hdrops⟩ := ev.found_spec s
  have hdir : ((ev.found s).2.inode i).isDir = false := by
    rw [hdrops.inode]
    exact hfile
  have hrun := @hinGenByInode_some io ev _ d i hdir ((hdrops.taken_eq i).trans ht)
  refine ⟨hrun, ?_⟩
  unfold postprocChild hinJobGen
  rw [ev.inode_eq, hc]
  dsimp only
  rw [hrun]
  cases (ev.found s).1 <;> rfl

/-- No alias was taken: the call by the inode changes no dentry, and says that it is not done. -/
theorem hinGenByInode_untaken (hfile : (s.inode i).isDir = false) (ht : ev.taken s i = none) :
    hinGenByInode io ev.name i false (ev.found s).2 = (1, (ev.found s).2.iigenDec i) := by
  obtain ⟨-, hdrops⟩ := ev.found_spec s
  apply hinGenByInode_none
  · rw [hdrops.inode]
    exact hfile
  · rw [hdrops.taken_eq]
    exact ht

section

variable (hfile : ∀ i, ev.child s = some i → (s.inode i).isDir = false)

include hfile

/-- An event that does its work takes the alias that was meant: nothing but the alias that is taken has another
    generation, and nothing but it is dropped. -/
theorem Obsoletes.takesFound (h : Obsoletes io ev s) : TakesFound ev s := by
  obtain ⟨hfound, hdrops⟩ := ev.found_spec s
  refine ⟨fun i d hc ht => ?_, fun i d d' hc ht hd' hcur => ?_⟩
  · obtain ⟨hrun, -⟩ := @postprocChild_taken io ev s d i hc (hfile i hc) ht
    obtain ⟨x, -, hname, hx⟩ := h.dropped i ((ev.inode_eq s).trans hc) (by rw [hrun])
    by_cases hxd : x = d
    · rw [← hxd]
      exact hname
    · rw [hrun] at hx
      have hx : (((ev.found s).2.iigenDec i).obsolete d).dentry x = _ := hx
      rw [Dcache.obsolete_ne hxd] at hx
      have hgen : ((ev.found s).2.dentry x).diGeneration = (s.dentry x).diGeneration - 1 :=
        congrArg Dentry.diGeneration hx
      rcases hdrops.dentry x with hsame | ⟨hsame, -⟩
      · rw [hsame] at hgen
        omega
      · rw [hsame] at hgen
        dsimp only at hgen
        omega
  · by_contra hne
    obtain ⟨-, hrun⟩ := @postprocChild_taken io ev s d i hc (hfile i hc) ht
    have hgone := h.gone d' (hfound.trans hd')
    rw [hrun] at hgone
    refine hgone ((Dcache.current_congr ?_ ?_).mpr hcur)
    · rw [Dcache.obsolete_ne (Ne.symm hne)]
      exact Event.found_dentry hd'
    · exact hdrops.siGeneration

/-- The alias of the name was dropped. -/
theorem TakesFound.dropped (h : TakesFound ev s) (hi : ev.child s = some i)
    (hret : (hinGenByInode io ev.name i false (ev.found s).2).1 = 0) :
    ∃ d ∈ (s.inode i).iDentry, (s.dentry d).dName = ev.name.bytes ∧
      (hinGenByInode io ev.name i false (ev.found s).2).2.dentry d = (s.dentry d).obsolete := by
  obtain ⟨-, hdrops⟩ := ev.found_spec s
  cases ht : ev.taken s i with
  | none =>
    rw [hinGenByInode_untaken (hfile i hi) ht] at hret
    cases hret
  | some d =>
    obtain ⟨hrun, -⟩ := @postprocChild_taken io ev s d i hi (hfile i hi) ht
    refine ⟨d, List.mem_of_find?_eq_some ht, h.name i d hi ht, ?_⟩
    rw [hrun, Dcache.obsolete_self]
    show ((ev.found s).2.dentry d).obsolete = _
    rcases hdrops.dentry d with hsame | ⟨hsame, -⟩
    · rw [hsame]
    · rw [hsame]
      rfl

/-- The aliases of other names are as they were. -/
theorem TakesFound.cached (h : TakesFound ev s) (hi : ev.child s = some i)
    (hname : (s.dentry d).dName ≠ ev.name.bytes) :
    (hinGenByInode io ev.name i false (ev.found s).2).2.dentry d = s.dentry d := by
  obtain ⟨-, hdrops⟩ := ev.found_spec s
  have hsame : (ev.found s).2.dentry d = s.dentry d := by
    rcases hdrops.dentry d with hd | ⟨-, heq, -⟩
    · exact hd
    · exact absurd heq hname
  cases ht : ev.taken s i with
  | none =>
    rw [hinGenByInode_untaken (hfile i hi) ht]
    exact hsame
  | some d' =>
    obtain ⟨hrun, -⟩ := @postprocChild_taken io ev s d' i hi (hfile i hi) ht
    have hne : d ≠ d' := by
      rintro rfl
      exact hname (h.name i d hi ht)
    rw [hrun]
    exact (Dcache.obsolete_ne hne _).trans hsame

/-- The dentry that was found is of no use any more: it is the alias that was taken, or was not current before, or
    is dropped by its name. -/
theorem TakesFound.gone (hroot : (s.dentry d).isRoot = false) (h : TakesFound ev s) (hd : ev.meant s = some d) :
    ¬ (postprocChild io ev s).Current d := by
  obtain ⟨-, hdrops⟩ := ev.found_spec s
  cases hc : ev.child s with
  | none =>
    refine postprocChild_fallback hroot hd hfile (fun i hi => ?_)
    rw [hc] at hi
    cases hi
  | some i =>
    cases ht : ev.taken s i with
    | none =>
      refine postprocChild_fallback hroot hd hfile (fun j hj => ?_)
      rw [hc] at hj
      rw [← Option.some.inj hj, ht]
    | some d' =>
      obtain ⟨-, hrun⟩ := @postprocChild_taken io ev s d' i hc (hfile i hc) ht
      rw [hrun]
      by_cases hdd : d = d'
      · rw [hdd]
        apply Dcache.not_current
        rw [Dcache.obsolete_self]
        rfl
      · intro hcur
        have hsame := (Dcache.obsolete_ne hdd ((ev.found s).2.iigenDec i)).trans (Event.found_dentry hd)
        exact hdd (h.found i d' d hc ht hd ((Dcache.current_congr hsame hdrops.siGeneration).mp hcur)).symm

end

/-- **An event makes the right dentry obsolete** if and only if the alias that is taken is the one that was meant. -/
theorem postprocChild_obsoletes_iff (hfile : ∀ i, ev.child s = some i → (s.inode i).isDir = false)
    (hroot : ∀ d, ev.meant s = some d → (s.dentry d).isRoot = false) : Obsoletes io ev s ↔ TakesFound ev s := by
  constructor
  · exact Obsoletes.takesFound hfile
  · intro h
    refine ⟨fun i hi hret => ?_, fun i hi d _ hname => ?_, fun d hd => ?_⟩
    · exact h.dropped hfile ((ev.inode_eq s).symm.trans hi) hret
    · exact h.cached hfile ((ev.inode_eq s).symm.trans hi) hname
    · have hmeant : ev.meant s = some d := (ev.found_spec s).1.symm.trans hd
      exact h.gone hfile (hroot d hmeant) hmeant

end

/-! ## A hard link -/

/-- A file with the name `bar`, which is hashed as its one alias, and a negative dentry of the name `foo`. -/
def linked : Dcache where
  dentry d := ⟨if d = 0 then [98, 97, 114] else [102, 111, 111], true, 1, true, 1, if d = 0 then some 0 else none, false⟩
  inode _ := ⟨7, false, [0], 1, fun h => absurd h (by decide)⟩
  siGeneration := 1
  failedRefreshDirs := false

def noTree : GenIo := ⟨fun _ => none, fun _ s => (0, s)⟩

/-- On the branch, the file is linked to `foo` too. -/
def linkFoo : Event := ⟨⟨[102, 111, 111], by decide⟩, some [1], some 0⟩

/-- On the branch, `bar` is removed. -/
def removeBar : Event := ⟨⟨[98, 97, 114], by decide⟩, some [0], none⟩

theorem removeBar_obsoletes : Obsoletes noTree removeBar linked := by
  refine (postprocChild_obsoletes_iff (fun _ _ => rfl) (fun _ _ => rfl)).mpr ⟨fun i d _ ht => ?_, fun i d d' _ ht hd _ => ?_⟩
  · obtain rfl : 0 = d := Option.some.inj ht
    rfl
  · obtain rfl : 0 = d := Option.some.inj ht
    exact Option.some.inj hd

/-- **The wrong alias**: `bar` has as many bytes as `foo`.  It is dropped, and the negative dentry stays. -/
theorem linkFoo_drops_bar : (hinGenByInode noTree linkFoo.name 0 false (linkFoo.found linked).2).1 = 0 ∧
    ((postprocChild noTree linkFoo linked).dentry 0).hashed = false ∧
    (postprocChild noTree linkFoo linked).Current 1 ∧ ¬ Obsoletes noTree linkFoo linked :=
  ⟨rfl, rfl, ⟨rfl, rfl⟩, fun h => h.gone 1 rfl ⟨rfl, rfl⟩⟩

end KernelPatches.Aufs.HinGen
