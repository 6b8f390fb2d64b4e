/-
  aufs: `br_count` over whole runs.

  Files are opened, revalidated, made writable, unlocked and released, copy-ups take and put the references of
  their two hidden files, and the branches are changed by remounts, in any order.  A call on a file is one step;
  between the revalidation and the unlock the file is locked, so that other files and copy-ups come in between
  but no remount does.  A call that does not come back leaves its file stuck.

  * `OpenStep`                — the steps;
  * `OpenState.uses`          — the slots that refer to a branch, and what the copy-ups in progress hold;
  * `Meets`                   — no open of a file for execution fails in `dentry_open`, and no regular file is
                                opened again below a hidden file it has;
  * `countsInv_step`          — the invariant of one step, case by case;
  * `counts_right`            — in a run of such steps, every count is right.

  A remount with several branches to add or delete is several remounts here: nothing comes in between, and the
  generations are only compared.
-/
import KernelPatches.Aufs.HiddenFiles
import KernelPatches.Lib.Runs

namespace KernelPatches.Aufs

open KernelPatches.Lib

/-! ## Copy-ups -/

/-- `au_sbr_put` -/
def FileSb.auSbrPut (sb : FileSb) (bindex : Nat) : FileSb :=
  match sb.siBranch[bindex]? with
  | none => sb
  | some br => sb.auBrPut br

/-- A copy-up in progress: the indexes of the hidden files `cpup_regular` has open, and whether it never comes
    back. -/
structure CopyUp where
  held : List Nat
  stuck : Bool

/-- The end of `cpup_regular`: the hidden files are put, the last one first. -/
def cpupExit (held : List Nat) (sb : FileSb) : FileSb := held.foldr (fun bindex sb => sb.auSbrPut bindex) sb

/-- One turn of the loop of `cpup_regular`, where `fOp` says that the hidden file has an `f_op`: the copy-up that
    goes on, if it does. -/
def cpupOpen (o : OpenIo) (fOp : Bool) (d : Dinfo) (bindex : Nat) (held : List Nat) (sb : FileSb) :
    Option CopyUp × FileSb :=
  match auHOpen o d bindex none sb with
  | (.ok _, sb) =>
    if fOp then (some ⟨held ++ [bindex], false⟩, sb) else (none, cpupExit (held ++ [bindex]) sb)
  | (.err _, sb) => (none, cpupExit held sb)
  | (.oops, sb) => (some ⟨held, true⟩, sb)

/-! ## Remounts -/

/-- `au_br_add` of a new branch. -/
def FileSb.addBr (sb : FileSb) (br : Nat) (brId : Int) (bindex : Nat) : FileSb :=
  { siBranch := sb.siBranch.insertIdx bindex br
    siGeneration := sb.siGeneration + 1
    brId := Function.update sb.brId br brId
    brCount := Function.update sb.brCount br 0 }

/-- `au_br_del`, if it is not refused; `busy` is the answer of `test_children_busy`. -/
def FileSb.auBrDel (sb : FileSb) (bindex : Nat) (busy : Bool) : Option FileSb :=
  match sb.siBranch[bindex]? with
  | none => none
  | some br =>
    -- no more branches left
    if sb.siBranch.length = 1 then none
    else if sb.brCount br ≠ 0 then none
    else if busy then none
    else some { sb with siBranch := sb.siBranch.eraseIdx bindex, siGeneration := sb.siGeneration + 1 }

/-! ## Runs -/

/-- What a file is doing: nothing, a system call has it locked, or a call on it never comes back. -/
inductive Phase where
  | idle
  | locked
  | stuck
  deriving DecidableEq

structure OpenFile where
  f : AufsFile
  phase : Phase

/-- The branches, the open files and the copy-ups in progress. -/
structure OpenState where
  sb : FileSb
  files : List OpenFile
  cpups : List CopyUp

/-- The locked file after a call that failed with `failed`. -/
def Reply.phase (failed : Phase) : Reply Unit → Phase
  | .ok () => .locked
  | .err _ => failed
  | .oops => .stuck

/-- The file that `au_do_open` leaves. -/
def Reply.opened (f : AufsFile) : Reply Unit → List OpenFile
  | .ok () => [⟨f, .idle⟩]
  | .err _ => []
  | .oops => [⟨f, .stuck⟩]

/-- Nobody holds the lock of the super block. -/
def OpenState.Quiet (m : OpenState) : Prop := (∀ x ∈ m.files, x.phase = .idle) ∧ m.cpups = []

/-- What may happen; files and copy-ups are told by their places in the lists. -/
inductive OpenEv where
  | doOpen (o : DoOpenIo) (fMode : Nat) (isDir : Bool)
  | reval (i : Nat) (o : RevalIo)
  | write (i : Nat) (o : WriteIo) (d : Dinfo)
  | unlock (i : Nat)
  | release (i : Nat)
  | cpupStart
  | cpupOpen (i : Nat) (o : OpenIo) (fOp : Bool) (d : Dinfo) (bindex : Nat)
  | cpupEnd (i : Nat)
  | brAdd (br : Nat) (brId : Int) (bindex : Nat)
  | brDel (bindex : Nat) (busy : Bool)
  | refresh

/-- **The steps.** -/
inductive OpenStep (m : OpenState) : OpenEv → OpenState → Prop
  | doOpen {o : DoOpenIo} {fMode : Nat} {isDir : Bool} {r : Reply Unit} {s : FileSt}
      (hin : isDir = true → InBranches o.dinfo m.sb) (h : auDoOpen o fMode isDir m.sb = (r, s)) :
      OpenStep m (.doOpen o fMode isDir) { m with sb := s.sb, files := r.opened s.f ++ m.files }
  | reval {l₁ l₂ : List OpenFile} {f : AufsFile} {o : RevalIo} {r : Reply Unit} {s : FileSt}
      (hin : f.isDir = true → InBranches o.refresh.dinfo m.sb) (hf : m.files = l₁ ++ ⟨f, .idle⟩ :: l₂)
      (h : auRevalAndLockFdi o ⟨m.sb, f⟩ = (r, s)) :
      OpenStep m (.reval l₁.length o) { m with sb := s.sb, files := l₁ ++ ⟨s.f, r.phase .idle⟩ :: l₂ }
  | write {l₁ l₂ : List OpenFile} {f : AufsFile} {o : WriteIo} {d d' : Dinfo} {r : Reply Unit} {s : FileSt}
      (hf : m.files = l₁ ++ ⟨f, .locked⟩ :: l₂) (h : auReadyToWrite o d ⟨m.sb, f⟩ = (r, d', s)) :
      OpenStep m (.write l₁.length o d) { m with sb := s.sb, files := l₁ ++ ⟨s.f, r.phase .locked⟩ :: l₂ }
  | unlock {l₁ l₂ : List OpenFile} {f : AufsFile} (hf : m.files = l₁ ++ ⟨f, .locked⟩ :: l₂) :
      OpenStep m (.unlock l₁.length) { m with files := l₁ ++ ⟨f, .idle⟩ :: l₂ }
  | release {l₁ l₂ : List OpenFile} {f : AufsFile} (hf : m.files = l₁ ++ ⟨f, .idle⟩ :: l₂) :
      OpenStep m (.release l₁.length) { m with sb := (auFinfoFin ⟨m.sb, f⟩).sb, files := l₁ ++ l₂ }
  | cpupStart : OpenStep m .cpupStart { m with cpups := ⟨[], false⟩ :: m.cpups }
  | cpupOpen {c₁ c₂ : List CopyUp} {held : List Nat} {o : OpenIo} {fOp : Bool} {d : Dinfo} {bindex : Nat}
      {c : Option CopyUp} {sb : FileSb} (hc : m.cpups = c₁ ++ ⟨held, false⟩ :: c₂)
      (h : cpupOpen o fOp d bindex held m.sb = (c, sb)) :
      OpenStep m (.cpupOpen c₁.length o fOp d bindex) { m with sb := sb, cpups := c₁ ++ (c.toList ++ c₂) }
  | cpupEnd {c₁ c₂ : List CopyUp} {held : List Nat} (hc : m.cpups = c₁ ++ ⟨held, false⟩ :: c₂) :
      OpenStep m (.cpupEnd c₁.length) { m with sb := cpupExit held m.sb, cpups := c₁ ++ c₂ }
  | brAdd {br : Nat} {brId : Int} {bindex : Nat} (hq : m.Quiet) (hnew : br ∉ m.sb.siBranch)
      (hb : bindex ≤ m.sb.siBranch.length) :
      OpenStep m (.brAdd br brId bindex) { m with sb := m.sb.addBr br brId bindex }
  | brDel {bindex : Nat} {busy : Bool} {sb : FileSb} (hq : m.Quiet) (h : m.sb.auBrDel bindex busy = some sb) :
      OpenStep m (.brDel bindex busy) { m with sb := sb }
  | refresh (hq : m.Quiet) : OpenStep m .refresh { m with sb := { m.sb with siGeneration := m.sb.siGeneration + 1 } }

/-- **The condition on a step.**  An answer that is not asked for may be chosen to meet it. -/
def Meets (m : OpenState) : OpenEv → Prop
  | .doOpen o fMode _ => ∀ b, ¬ StopsAtError (o.hOpen b) fMode
  | .reval i o => ∀ x, m.files[i]? = some x → o.refresh.Suits m.sb x.f
  | .write i o d => ∀ x, m.files[i]? = some x → o.Suits d x.f
  | _ => True

/-! ## Counting -/

/-- The slots of a list of files that refer to a branch. -/
def fileRefs (files : List OpenFile) (br : Nat) : Nat := (files.map (·.f.refs br)).sum

/-- The references to a branch that copy-ups hold. -/
def cpupRefs (sb : FileSb) (cpups : List CopyUp) (br : Nat) : Nat :=
  (cpups.map fun c => c.held.countP (sb.siBranch[·]? = some br)).sum

/-- **The uses of a branch.** -/
def OpenState.uses (m : OpenState) (br : Nat) : Nat := fileRefs m.files br + cpupRefs m.sb m.cpups br

/-- An open file or a copy-up in progress uses the branch. -/
def OpenState.InUse (m : OpenState) (br : Nat) : Prop :=
  (∃ x ∈ m.files, ∃ i hf, x.f.slot i = some hf ∧ hf.hfBr = br) ∨
    ∃ c ∈ m.cpups, ∃ i ∈ c.held, m.sb.siBranch[i]? = some br

/-- **The counts are right**: they are the uses, zero exactly when there are none, and what is deleted was not
    in use. -/
structure OpenState.CountsRight (m : OpenState) : Prop where
  counts : ∀ br ∈ m.sb.siBranch, m.sb.brCount br = m.uses br
  zero : ∀ br ∈ m.sb.siBranch, m.sb.brCount br = 0 ↔ ¬ m.InUse br
  live : ∀ br, m.InUse br → br ∈ m.sb.siBranch
  del : ∀ bindex busy sb br, m.sb.auBrDel bindex busy = some sb → m.sb.siBranch[bindex]? = some br → ¬ m.InUse br

/-- Nothing is open, and no branch is counted. -/
def OpenState.Unused (m : OpenState) : Prop := m.files = [] ∧ m.cpups = [] ∧ ∀ br, m.sb.brCount br = 0

/-- **The invariant.** -/
structure CountsInv (m : OpenState) : Prop where
  counts : ∀ br, m.sb.brCount br = m.uses br
  live : ∀ x ∈ m.files, Live m.sb x.f
  held : ∀ c ∈ m.cpups, ∀ i ∈ c.held, i < m.sb.siBranch.length
  fit : ∀ x ∈ m.files, x.phase ≠ .stuck → Fit m.sb x.f
  fresh : ∀ x ∈ m.files, x.phase = .locked → x.f.fiGeneration = m.sb.siGeneration

section

variable {m : OpenState} {br : Nat}

theorem fileRefs_append (l₁ l₂ : List OpenFile) : fileRefs (l₁ ++ l₂) br = fileRefs l₁ br + fileRefs l₂ br := by
  rw [fileRefs, List.map_append, List.sum_append]
  rfl

theorem fileRefs_singleton (x : OpenFile) : fileRefs [x] br = x.f.refs br := Nat.add_zero _

theorem cpupRefs_append {sb : FileSb} (c₁ c₂ : List CopyUp) :
    cpupRefs sb (c₁ ++ c₂) br = cpupRefs sb c₁ br + cpupRefs sb c₂ br := by
  rw [cpupRefs, List.map_append, List.sum_append]
  rfl

theorem cpupRefs_congr {sb sb' : FileSb} (h : sb'.siBranch = sb.siBranch) (c : List CopyUp) :
    cpupRefs sb' c br = cpupRefs sb c br := by
  rw [cpupRefs, cpupRefs, h]

/-- Some slot of the file refers to the branch, or none does. -/
theorem AufsFile.refs_eq_zero_iff {f : AufsFile} :
    f.refs br = 0 ↔ ∀ i hf, f.slot i = some hf → hf.hfBr ≠ br := by
  rw [AufsFile.refs, Lib.refs_eq_zero_iff]
  constructor
  · intro h i hf hi
    exact h hf (List.mem_of_getElem? (AufsFile.slot_eq_some.mp hi))
  · intro h hf hmem
    obtain ⟨i, hi⟩ := List.mem_iff_getElem?.mp hmem
    exact h i hf (AufsFile.slot_eq_some.mpr hi)

/-- **A branch without uses is not in use**, and the other way round. -/
theorem OpenState.uses_eq_zero_iff : m.uses br = 0 ↔ ¬ m.InUse br := by
  rw [OpenState.uses, Nat.add_eq_zero_iff, fileRefs, cpupRefs, List.sum_eq_zero_iff_forall_eq_nat,
    List.sum_eq_zero_iff_forall_eq_nat, OpenState.InUse, not_or]
  constructor
  · rintro ⟨hfiles, hcpups⟩
    constructor
    · rintro ⟨x, hx, i, hf, hi, hbr⟩
      exact AufsFile.refs_eq_zero_iff.mp (hfiles _ (List.mem_map.mpr ⟨x, hx, rfl⟩)) i hf hi hbr
    · rintro ⟨c, hc, i, hi, hbr⟩
      have hzero := List.countP_eq_zero.mp (hcpups _ (List.mem_map.mpr ⟨c, hc, rfl⟩)) i hi
      exact hzero (decide_eq_true hbr)
  · rintro ⟨hfiles, hcpups⟩
    constructor
    · intro n hn
      obtain ⟨x, hx, rfl⟩ := List.mem_map.mp hn
      exact AufsFile.refs_eq_zero_iff.mpr fun i hf hi hbr => hfiles ⟨x, hx, i, hf, hi, hbr⟩
    · intro n hn
      obtain ⟨c, hc, rfl⟩ := List.mem_map.mp hn
      exact List.countP_eq_zero.mpr fun i hi hbr => hcpups ⟨c, hc, i, hi, of_decide_eq_true hbr⟩

/-- What is in use is one of the branches. -/
theorem CountsInv.mem_of_inUse (h : CountsInv m) (hu : m.InUse br) : br ∈ m.sb.siBranch := by
  rcases hu with ⟨x, hx, i, hf, hi, rfl⟩ | ⟨c, hc, i, hi, hbr⟩
  · exact h.live x hx i hf hi
  · exact List.mem_of_getElem? hbr

/-- What the invariant says of the counts. -/
theorem CountsInv.right (h : CountsInv m) : m.CountsRight where
  counts br _ := h.counts br
  zero br _ := by
    rw [h.counts br, ← OpenState.uses_eq_zero_iff]
    exact Int.natCast_eq_zero
  live br hu := h.mem_of_inUse hu
  del bindex busy sb br hdel hbr := by
    rw [← OpenState.uses_eq_zero_iff]
    unfold FileSb.auBrDel at hdel
    rw [hbr] at hdel
    dsimp only at hdel
    split at hdel
    · cases hdel
    split at hdel
    · cases hdel
    rename_i hzero
    rw [not_not, h.counts br] at hzero
    exact Int.natCast_eq_zero.mp hzero

end

/-! ## What a step preserves -/

section

variable {m : OpenState}

/-- **Some files take the place of others**, and the counts change with their slots. -/
theorem CountsInv.exchange {l₁ l₂ old new : List OpenFile} {sb : FileSb} (h : CountsInv m)
    (hfiles : m.files = l₁ ++ (old ++ l₂)) (hbr : sb.siBranch = m.sb.siBranch)
    (hgen : sb.siGeneration = m.sb.siGeneration)
    (hcounts : ∀ br, sb.brCount br + fileRefs old br = m.sb.brCount br + fileRefs new br)
    (hlive : ∀ x ∈ new, Live sb x.f) (hfit : ∀ x ∈ new, x.phase ≠ .stuck → Fit sb x.f)
    (hfresh : ∀ x ∈ new, x.phase = .locked → x.f.fiGeneration = sb.siGeneration) :
    CountsInv { m with sb := sb, files := l₁ ++ (new ++ l₂) } := by
  -- what is said of the other files depends on the branches and on the generation only
  have hold : ∀ x ∈ l₁ ++ (new ++ l₂), x ∈ new ∨ x ∈ m.files := by
    intro x hx
    rw [hfiles]
    simp only [List.mem_append] at hx ⊢
    tauto
  refine ⟨fun br => ?_, fun x hx => ?_, fun c hc i hi => ?_, fun x hx hp => ?_, fun x hx hp => ?_⟩
  · have h₁ := h.counts br
    have h₂ := hcounts br
    rw [OpenState.uses, hfiles, fileRefs_append, fileRefs_append] at h₁
    show sb.brCount br = ((fileRefs (l₁ ++ (new ++ l₂)) br + cpupRefs sb m.cpups br : Nat) : Int)
    rw [fileRefs_append, fileRefs_append, cpupRefs_congr hbr]
    omega
  · rcases hold x hx with hn | ho
    · exact hlive x hn
    · intro i hf hi
      rw [hbr]
      exact h.live x ho i hf hi
  · show i < sb.siBranch.length
    rw [hbr]
    exact h.held c hc i hi
  · rcases hold x hx with hn | ho
    · exact hfit x hn hp
    · obtain ⟨hs, hw⟩ := h.fit x ho hp
      refine ⟨⟨hs.inRange, hs.bend, ?_⟩, fun hg => ?_⟩
      · show x.f.fiGeneration ≤ sb.siGeneration
        rw [hgen]
        exact hs.past
      · show sb.siBranch.length ≤ _
        rw [hbr]
        exact hw (hg.trans hgen)
  · rcases hold x hx with hn | ho
    · exact hfresh x hn hp
    · exact (h.fresh x ho hp).trans hgen.symm

/-- A call on one file. -/
theorem CountsInv.call {l₁ l₂ : List OpenFile} {f : AufsFile} {p p' : Phase} {s : FileSt} (h : CountsInv m)
    (hfiles : m.files = l₁ ++ ⟨f, p⟩ :: l₂) (hb : Balanced ⟨m.sb, f⟩ s) (hfit : p' ≠ .stuck → Fit s.sb s.f)
    (hfresh : p' = .locked → s.f.fiGeneration = s.sb.siGeneration) :
    CountsInv { m with sb := s.sb, files := l₁ ++ ⟨s.f, p'⟩ :: l₂ } := by
  have hmem : (⟨f, p⟩ : OpenFile) ∈ m.files := by
    rw [hfiles]
    exact List.mem_append_right _ List.mem_cons_self
  have hlive : Live s.sb s.f := hb.live (h.live _ hmem)
  refine @CountsInv.exchange m l₁ l₂ [⟨f, p⟩] [⟨s.f, p'⟩] s.sb h hfiles hb.branches hb.generation
    (fun br => ?_) ?_ ?_ ?_
  · rw [fileRefs_singleton, fileRefs_singleton]
    exact hb.counts br
  · intro x hx
    rw [List.mem_singleton.mp hx]
    exact hlive
  · intro x hx hp
    rw [List.mem_singleton.mp hx] at hp ⊢
    exact hfit hp
  · intro x hx hp
    rw [List.mem_singleton.mp hx] at hp ⊢
    exact hfresh hp

/-- **Some copy-ups take the place of others.** -/
theorem CountsInv.exchangeCpups {c₁ c₂ old new : List CopyUp} {sb : FileSb} (h : CountsInv m)
    (hcpups : m.cpups = c₁ ++ (old ++ c₂)) (hbr : sb.siBranch = m.sb.siBranch)
    (hgen : sb.siGeneration = m.sb.siGeneration)
    (hcounts : ∀ br, sb.brCount br + cpupRefs m.sb old br = m.sb.brCount br + cpupRefs m.sb new br)
    (hheld : ∀ c ∈ new, ∀ i ∈ c.held, i < m.sb.siBranch.length) :
    CountsInv { m with sb := sb, cpups := c₁ ++ (new ++ c₂) } := by
  refine ⟨fun br => ?_, fun x hx i hf hi => ?_, fun c hc i hi => ?_, fun x hx hp => ?_, fun x hx hp => ?_⟩
  · have h₁ := h.counts br
    have h₂ := hcounts br
    rw [OpenState.uses, hcpups, cpupRefs_append, cpupRefs_append] at h₁
    show sb.brCount br = ((fileRefs m.files br + cpupRefs sb (c₁ ++ (new ++ c₂)) br : Nat) : Int)
    rw [cpupRefs_congr hbr, cpupRefs_append, cpupRefs_append]
    omega
  · show hf.hfBr ∈ sb.siBranch
    rw [hbr]
    exact h.live x hx i hf hi
  · show i < sb.siBranch.length
    rw [hbr]
    have hc : c ∈ new ∨ c ∈ m.cpups := by
      have hc : c ∈ c₁ ++ (new ++ c₂) := hc
      rw [hcpups]
      simp only [List.mem_append] at hc ⊢
      tauto
    rcases hc with hn | ho
    · exact hheld c hn i hi
    · exact h.held c ho i hi
  · obtain ⟨hs, hw⟩ := h.fit x hx hp
    refine ⟨⟨hs.inRange, hs.bend, ?_⟩, fun hg => ?_⟩
    · show x.f.fiGeneration ≤ sb.siGeneration
      rw [hgen]
      exact hs.past
    · show sb.siBranch.length ≤ _
      rw [hbr]
      exact hw (hg.trans hgen)
  · exact (h.fresh x hx hp).trans hgen.symm

end

section

variable {sb : FileSb} {br : Nat}

/-- How often a branch is among the hidden files a copy-up has open. -/
def heldRefs (sb : FileSb) (held : List Nat) (br : Nat) : Nat := held.countP (sb.siBranch[·]? = some br)

theorem cpupRefs_singleton (c : CopyUp) : cpupRefs sb [c] br = heldRefs sb c.held br := Nat.add_zero _

/-- One reference is put. -/
theorem auSbrPut_spec {bindex : Nat} (h : bindex < sb.siBranch.length) :
    (sb.auSbrPut bindex).siBranch = sb.siBranch ∧ (sb.auSbrPut bindex).siGeneration = sb.siGeneration ∧
      (sb.auSbrPut bindex).brCount br + heldRefs sb [bindex] br = sb.brCount br := by
  obtain ⟨b, hb⟩ : ∃ b, sb.siBranch[bindex]? = some b := ⟨_, List.getElem?_eq_getElem h⟩
  unfold FileSb.auSbrPut
  rw [hb]
  refine ⟨rfl, rfl, ?_⟩
  show Function.update sb.brCount b (sb.brCount b - 1) br + _ = _
  rw [heldRefs, List.countP_singleton, hb, Function.update_apply]
  by_cases heq : b = br
  · subst heq
    simp
  · simp [heq, Ne.symm heq]

/-- **The end of a copy-up** puts what it holds. -/
theorem cpupExit_spec {held : List Nat} (h : ∀ i ∈ held, i < sb.siBranch.length) :
    (cpupExit held sb).siBranch = sb.siBranch ∧ (cpupExit held sb).siGeneration = sb.siGeneration ∧
      ∀ br, (cpupExit held sb).brCount br + heldRefs sb held br = sb.brCount br := by
  induction held with
  | nil => exact ⟨rfl, rfl, fun br => Int.add_zero _⟩
  | cons bindex held ih =>
    obtain ⟨hbr, hgen, hcounts⟩ := ih fun i hi => h i (List.mem_cons_of_mem _ hi)
    have hlt : bindex < (cpupExit held sb).siBranch.length := by
      rw [hbr]
      exact h bindex List.mem_cons_self
    refine ⟨?_, ?_, fun br => ?_⟩
    · exact (@auSbrPut_spec (cpupExit held sb) 0 bindex hlt).1.trans hbr
    · exact (@auSbrPut_spec (cpupExit held sb) 0 bindex hlt).2.1.trans hgen
    · have hput := (@auSbrPut_spec (cpupExit held sb) br bindex hlt).2.2
      have hrest := hcounts br
      have hcons : heldRefs sb (bindex :: held) br = heldRefs sb held br + heldRefs (cpupExit held sb) [bindex] br := by
        rw [heldRefs, heldRefs, heldRefs, hbr, List.countP_cons, List.countP_singleton]
      show ((cpupExit held sb).auSbrPut bindex).brCount br + _ = _
      rw [hcons]
      omega

/-- **A turn of the loop of a copy-up**: what it holds is counted. -/
theorem cpupOpen_spec {o : OpenIo} {fOp : Bool} {d : Dinfo} {bindex : Nat} {held : List Nat} {c : Option CopyUp}
    {sb' : FileSb} (hheld : ∀ i ∈ held, i < sb.siBranch.length) (h : cpupOpen o fOp d bindex held sb = (c, sb')) :
    sb'.siBranch = sb.siBranch ∧ sb'.siGeneration = sb.siGeneration ∧
      (∀ br, sb'.brCount br + heldRefs sb held br = sb.brCount br + cpupRefs sb c.toList br) ∧
      ∀ c' ∈ c.toList, ∀ i ∈ c'.held, i < sb.siBranch.length := by
  unfold cpupOpen at h
  -- no file, and so no file that is open for execution
  have hx : ∀ m, (none : Option Nat) = some m → ¬ StopsAtError o m := fun m hm => by cases hm
  rcases @auHOpen_cases o d sb bindex none hx with ⟨hFile, b, hopen, hb, -, -⟩ | ⟨r, hopen, hr⟩
  · rw [hopen] at h
    dsimp only at h
    have hb : sb.siBranch[bindex]? = some b := hb
    have hlt : bindex < sb.siBranch.length := (List.getElem?_eq_some_iff.mp hb).1
    have hheld' : ∀ i ∈ held ++ [bindex], i < sb.siBranch.length := by
      intro i hi
      rcases List.mem_append.mp hi with hi | hi
      · exact hheld i hi
      · rw [List.mem_singleton.mp hi]
        exact hlt
    -- the branch was counted
    have hget : ∀ br, (sb.auBrGet b).brCount br + heldRefs sb held br =
        sb.brCount br + heldRefs sb (held ++ [bindex]) br := by
      intro br
      show Function.update sb.brCount b (sb.brCount b + 1) br + _ = _
      rw [heldRefs, heldRefs, List.countP_append, List.countP_singleton, hb, Function.update_apply]
      by_cases heq : b = br
      · subst heq
        simp
        omega
      · simp [heq, Ne.symm heq]
    cases fOp with
    | true =>
      rw [if_pos rfl] at h
      obtain ⟨rfl, rfl⟩ := Prod.mk.inj h
      refine ⟨rfl, rfl, fun br => ?_, fun c' hc => ?_⟩
      · rw [Option.toList_some, cpupRefs_singleton]
        exact hget br
      · rw [Option.toList_some, List.mem_singleton] at hc
        rw [hc]
        exact hheld'
    | false =>
      rw [if_neg Bool.false_ne_true] at h
      obtain ⟨rfl, rfl⟩ := Prod.mk.inj h
      obtain ⟨hbr, hgen, hcounts⟩ := @cpupExit_spec (sb.auBrGet b) _ hheld'
      refine ⟨hbr, hgen, fun br => ?_, fun c' hc => by cases hc⟩
      have h₁ := hcounts br
      have h₂ := hget br
      have h₃ : heldRefs (sb.auBrGet b) (held ++ [bindex]) br = heldRefs sb (held ++ [bindex]) br := rfl
      have h₄ : cpupRefs sb (none : Option CopyUp).toList br = 0 := rfl
      omega
  · rw [hopen] at h
    cases r with
    | ok hFile => exact absurd rfl (hr hFile)
    | err e =>
      obtain ⟨rfl, rfl⟩ := Prod.mk.inj h
      obtain ⟨hbr, hgen, hcounts⟩ := cpupExit_spec hheld
      refine ⟨hbr, hgen, fun br => ?_, fun c' hc => by cases hc⟩
      rw [hcounts br]
      exact (Int.add_zero _).symm
    | oops =>
      obtain ⟨rfl, rfl⟩ := Prod.mk.inj h
      refine ⟨rfl, rfl, fun br => ?_, fun c' hc => ?_⟩
      · rw [Option.toList_some, cpupRefs_singleton]
      · rw [Option.toList_some, List.mem_singleton] at hc
        rw [hc]
        exact hheld

end

section

variable {m m' : OpenState} {e : OpenEv}

/-- A remount: nothing is held or locked, and the slots refer to branches that stay. -/
theorem CountsInv.remount {sb : FileSb} (h : CountsInv m) (hq : m.Quiet)
    (hgen : sb.siGeneration = m.sb.siGeneration + 1) (hcounts : ∀ br, sb.brCount br = m.uses br)
    (hstay : ∀ br, m.InUse br → br ∈ sb.siBranch) : CountsInv { m with sb := sb } where
  counts br := by
    show sb.brCount br = ((fileRefs m.files br + cpupRefs sb m.cpups br : Nat) : Int)
    rw [hcounts br, OpenState.uses, hq.2]
    rfl
  live x hx i hf hi := hstay _ (Or.inl ⟨x, hx, i, hf, hi, rfl⟩)
  held c hc := by
    have hc : c ∈ m.cpups := hc
    rw [hq.2] at hc
    cases hc
  fit x hx hp := by
    obtain ⟨hs, -⟩ := h.fit x hx hp
    have hpast := hs.past
    refine ⟨⟨hs.inRange, hs.bend, ?_⟩, fun hg => ?_⟩
    · show x.f.fiGeneration ≤ sb.siGeneration
      omega
    · -- the generation is a new one
      have hg : x.f.fiGeneration = sb.siGeneration := hg
      omega
  fresh x hx hp := by
    rw [hq.1 x hx] at hp
    cases hp

/-- A new branch is not in use. -/
theorem CountsInv.brAdd {br bindex : Nat} {brId : Int} (h : CountsInv m) (hq : m.Quiet) (hnew : br ∉ m.sb.siBranch)
    (hb : bindex ≤ m.sb.siBranch.length) : CountsInv { m with sb := m.sb.addBr br brId bindex } := by
  refine h.remount hq rfl (fun b => ?_) fun b hu => ?_
  · show Function.update m.sb.brCount br 0 b = _
    rw [Function.update_apply]
    split
    · rename_i heq
      have hzero := OpenState.uses_eq_zero_iff.mpr fun hu => hnew (h.mem_of_inUse hu)
      rw [heq, hzero]
      rfl
    · exact h.counts b
  · exact (List.mem_insertIdx hb).mpr (Or.inr (h.mem_of_inUse hu))

/-- A branch that is deleted is not in use. -/
theorem CountsInv.brDel {bindex : Nat} {busy : Bool} {sb : FileSb} (h : CountsInv m) (hq : m.Quiet)
    (hdel : m.sb.auBrDel bindex busy = some sb) : CountsInv { m with sb := sb } := by
  obtain ⟨br, hbr⟩ : ∃ br, m.sb.siBranch[bindex]? = some br := by
    unfold FileSb.auBrDel at hdel
    cases hbr : m.sb.siBranch[bindex]? with
    | none =>
      rw [hbr] at hdel
      cases hdel
    | some br => exact ⟨br, rfl⟩
  have hunused := h.right.del bindex busy sb br hdel hbr
  obtain rfl : { m.sb with siBranch := m.sb.siBranch.eraseIdx bindex, siGeneration := m.sb.siGeneration + 1 } = sb := by
    unfold FileSb.auBrDel at hdel
    rw [hbr] at hdel
    dsimp only at hdel
    split at hdel
    · cases hdel
    split at hdel
    · cases hdel
    split at hdel
    · cases hdel
    · exact Option.some.inj hdel
  refine h.remount hq rfl h.counts fun b hu => ?_
  obtain ⟨j, hj⟩ := List.mem_iff_getElem?.mp (h.mem_of_inUse hu)
  refine List.mem_eraseIdx_iff_getElem?.mpr ⟨j, ?_, hj⟩
  rintro rfl
  rw [hbr] at hj
  exact hunused (Option.some.inj hj ▸ hu)

/-- A file is opened. -/
theorem CountsInv.doOpen {o : DoOpenIo} {fMode : Nat} {isDir : Bool} {r : Reply Unit} {s : FileSt} (h : CountsInv m)
    (hx : ∀ b, ¬ StopsAtError (o.hOpen b) fMode) (hin : isDir = true → InBranches o.dinfo m.sb)
    (hrun : auDoOpen o fMode isDir m.sb = (r, s)) :
    CountsInv { m with sb := s.sb, files := r.opened s.f ++ m.files } := by
  obtain ⟨hb, hfit, hempty⟩ := auDoOpen_spec hx hin hrun
  have hlive : Live s.sb s.f := hb.live fun i hf hi => by
    rw [slot_auFinfoInit] at hi
    cases hi
  have hnew : ∀ x ∈ r.opened s.f, x.f = s.f ∧ x.phase ≠ .locked ∧ (x.phase ≠ .stuck → r = .ok ()) := by
    intro x hx
    cases r with
    | ok u =>
      rw [List.mem_singleton.mp hx]
      exact ⟨rfl, by simp, fun _ => rfl⟩
    | err e => cases hx
    | oops =>
      rw [List.mem_singleton.mp hx]
      exact ⟨rfl, by simp, fun h => absurd rfl h⟩
  refine @CountsInv.exchange m [] m.files [] (r.opened s.f) s.sb h rfl hb.branches hb.generation (fun br => ?_) ?_ ?_ ?_
  · have hcounts := hb.counts br
    have hinit : (auFinfoInit o fMode isDir m.sb).refs br = 0 := AufsFile.refs_of_empty slot_auFinfoInit br
    have hrefs : fileRefs (r.opened s.f) br = s.f.refs br := by
      cases r with
      | ok u => exact fileRefs_singleton _
      | err e => exact (AufsFile.refs_of_empty (hempty e rfl) br).symm
      | oops => exact fileRefs_singleton _
    have hnil : fileRefs [] br = 0 := rfl
    rw [hrefs, hnil]
    rw [hinit] at hcounts
    exact hcounts
  · intro x hx
    rw [(hnew x hx).1]
    exact hlive
  · intro x hx hp
    rw [(hnew x hx).1]
    exact hfit ((hnew x hx).2.2 hp)
  · intro x hx hp
    exact absurd hp (hnew x hx).2.1

/-- The phase after a call, by its answer. -/
theorem Reply.phase_ne_stuck {r : Reply Unit} {failed : Phase} (h : r.phase failed ≠ .stuck) : r ≠ .oops := by
  rintro rfl
  exact h rfl

/-- **One step**, by cases. -/
theorem countsInv_step (h : CountsInv m) (hm : Meets m e) (hs : OpenStep m e m') : CountsInv m' := by
  cases hs with
  | doOpen hin hrun => exact h.doOpen hm hin hrun
  | @reval l₁ l₂ f o r s hin hf hrun =>
    have hx : m.files[l₁.length]? = some ⟨f, .idle⟩ := by
      rw [hf]
      exact List.getElem?_append_right (le_refl _) |>.trans (by simp)
    have hfit := h.fit _ (List.mem_of_getElem? hx) (by simp)
    obtain ⟨hb, hback, hok⟩ := @auRevalAndLockFdi_spec ⟨m.sb, f⟩ o hfit (hm _ hx) hin
    rw [hrun] at hb hback hok
    refine h.call hf hb (fun hp => hback (Reply.phase_ne_stuck hp)) fun hp => hok ?_
    -- it is locked when the call succeeded
    cases r with
    | ok u => rfl
    | err e => cases hp
    | oops => cases hp
  | @write l₁ l₂ f o d d' r s hf hrun =>
    have hx : m.files[l₁.length]? = some ⟨f, .locked⟩ := by
      rw [hf]
      exact List.getElem?_append_right (le_refl _) |>.trans (by simp)
    have hmem := List.mem_of_getElem? hx
    obtain ⟨hsound, hwide⟩ := h.fit _ hmem (by simp)
    have hfresh : f.fiGeneration = m.sb.siGeneration := h.fresh _ hmem rfl
    have hk := @auReadyToWrite_spec o d ⟨m.sb, f⟩ hsound (hwide hfresh) (hm _ hx)
    rw [hrun] at hk
    have hgen : s.f.fiGeneration = s.sb.siGeneration := by
      rw [hk.balanced.generation]
      rcases hk.gen with hg | hg
      · exact hg.trans hfresh
      · exact hg
    refine h.call hf hk.balanced (fun _ => ⟨hk.sound, fun _ => ?_⟩) fun _ => hgen
    rw [Wide, hk.balanced.branches, hk.length]
    exact hwide hfresh
  | @unlock l₁ l₂ f hf =>
    have hmem : (⟨f, .locked⟩ : OpenFile) ∈ m.files := by
      rw [hf]
      exact List.mem_append_right _ List.mem_cons_self
    exact h.call hf (Balanced.refl ⟨m.sb, f⟩) (fun _ => h.fit _ hmem (by simp)) fun hp => by cases hp
  | @release l₁ l₂ f hf =>
    have hmem : (⟨f, .idle⟩ : OpenFile) ∈ m.files := by
      rw [hf]
      exact List.mem_append_right _ List.mem_cons_self
    obtain ⟨hcl, hempty⟩ := @auFinfoFin_spec ⟨m.sb, f⟩ (h.fit _ hmem (by simp)).1
    refine @CountsInv.exchange m l₁ l₂ [⟨f, .idle⟩] [] _ h hf hcl.balanced.branches hcl.balanced.generation
      (fun br => ?_) (fun x hx => by cases hx) (fun x hx => by cases hx) (fun x hx => by cases hx)
    have hcounts := hcl.balanced.counts br
    rw [AufsFile.refs_of_empty hempty br] at hcounts
    rw [fileRefs_singleton]
    exact hcounts
  | cpupStart =>
    exact @CountsInv.exchangeCpups m [] m.cpups [] [⟨[], false⟩] m.sb h rfl rfl rfl (fun br => rfl)
      fun c hc i hi => by
        rw [List.mem_singleton.mp hc] at hi
        cases hi
  | @cpupOpen c₁ c₂ held o fOp d bindex c sb hc hrun =>
    have hmem : (⟨held, false⟩ : CopyUp) ∈ m.cpups := by
      rw [hc]
      exact List.mem_append_right _ List.mem_cons_self
    obtain ⟨hbr, hgen, hcounts, hheld⟩ := cpupOpen_spec (h.held _ hmem) hrun
    exact @CountsInv.exchangeCpups m c₁ c₂ [⟨held, false⟩] c.toList sb h hc hbr hgen
      (fun br => by rw [cpupRefs_singleton]; exact hcounts br) hheld
  | @cpupEnd c₁ c₂ held hc =>
    have hmem : (⟨held, false⟩ : CopyUp) ∈ m.cpups := by
      rw [hc]
      exact List.mem_append_right _ List.mem_cons_self
    obtain ⟨hbr, hgen, hcounts⟩ := cpupExit_spec (h.held _ hmem)
    exact @CountsInv.exchangeCpups m c₁ c₂ [⟨held, false⟩] [] _ h hc hbr hgen
      (fun br => by
        rw [cpupRefs_singleton, hcounts br]
        exact (Int.add_zero _).symm) fun c hc => by cases hc
  | brAdd hq hnew hb => exact h.brAdd hq hnew hb
  | brDel hq hdel => exact h.brDel hq hdel
  | refresh hq => exact h.remount hq rfl h.counts fun br hu => h.mem_of_inUse hu

/-- Where nothing is open, the invariant holds. -/
theorem CountsInv.of_unused (h : m.Unused) : CountsInv m := by
  obtain ⟨hfiles, hcpups, hcounts⟩ := h
  refine ⟨fun br => ?_, ?_, ?_, ?_, ?_⟩
  · rw [hcounts br, OpenState.uses, hfiles, hcpups]
    rfl
  · rw [hfiles]
    exact fun x hx => by cases hx
  · rw [hcpups]
    exact fun c hc => by cases hc
  · rw [hfiles]
    exact fun x hx => by cases hx
  · rw [hfiles]
    exact fun x hx => by cases hx

/-- **The counts over whole runs.**  As long as no open of a file for execution fails in `dentry_open`, and no
    regular file is opened again below a hidden file it has, every count is right. -/
theorem counts_right {m₀ : OpenState} {es : List OpenEv} (h₀ : m₀.Unused)
    (hrun : Run (Guarded OpenStep Meets) m₀ es m) : m.CountsRight :=
  (hrun.inv (CountsInv.of_unused h₀) fun _ _ _ h hs => countsInv_step h hs.1 hs.2).right

end

/-- What is below a closing loop stays. -/
theorem slot_closeSlots_below {i : Nat} : ∀ (count bindex : Nat) (s : FileSt), i < bindex →
    (closeSlots count bindex s).f.slot i = s.f.slot i := by
  intro count
  induction count with
  | zero => exact fun bindex s _ => rfl
  | succ count ih =>
    intro bindex s hi
    have hrest := ih (bindex + 1) (auSetHFptr s bindex none) (by omega)
    exact hrest.trans (slot_auSetHFptr_ne (by omega))

/-- **A regular file that is opened again below a hidden file** keeps that one over its release, and so its branch
    stays counted. -/
theorem reopen_below_leaks {o : OpenIo} {d : Dinfo} {s : FileSt} {i : Nat} {hf : AuHfile}
    (hslot : s.f.slot i = some hf) (hi : (i : Int) < d.diBstart) (hok : (reopenAt o d s).1 = .ok ()) :
    (auFinfoFin (reopenAt o d s).2).f.slot i = some hf := by
  unfold reopenAt at hok ⊢
  rcases hopen : auHOpen o d d.diBstart (some s.f.fMode) s.sb with ⟨r, sb⟩
  rw [hopen] at hok
  cases r with
  | err e => cases hok
  | oops => cases hok
  | ok hFile =>
    dsimp only
    let s₁ := auSetHFptr ⟨sb, { s.f with fiBstart := d.diBstart }⟩ d.diBstart.toNat (some hFile)
    let s₂ : FileSt := { s₁ with f := { s₁.f with fiGeneration := sb.siGeneration } }
    let s₃ := closeRange (d.diBstart + 1) s₂.f.fiBend s₂
    have h₁ : s₁.f.slot i = some hf := (slot_auSetHFptr_ne (by omega)).trans hslot
    have h₃ : s₃.f.slot i = some hf := (slot_closeSlots_below _ _ s₂ (by omega)).trans h₁
    have hstart : s₃.f.fiBstart = d.diBstart := closeRange_closes.fiBstart
    -- the release begins with the new start
    have hfin : auFinfoFin { s₃ with f := { s₃.f with fiBend := d.diBstart } } =
        closeRange s₃.f.fiBstart d.diBstart { s₃ with f := { s₃.f with fiBend := d.diBstart } } :=
      if_pos (by show 0 ≤ s₃.f.fiBstart; omega)
    show (auFinfoFin { s₃ with f := { s₃.f with fiBend := d.diBstart } }).f.slot i = some hf
    rw [hfin]
    exact (slot_closeSlots_below _ _ _ (by omega)).trans h₃

/-- One branch, and nothing is open. -/
def soleBranch : OpenState := ⟨⟨[0], 1, fun br => br, fun _ => 0⟩, [], []⟩

/-- A program on the branch is opened for execution, and `dentry_open` gives this answer. -/
def programOpen (answer : Except Int HiddenFile) : DoOpenIo :=
  { nomem := false, coo := 0, behind := 0, dinfo := onBranchZero, starts := onBranchZero_starts
    hOpen := fun _ => ⟨false, answer, 0⟩ }

/-- The state after it: the mode is FMODE_READ and FMODE_EXEC. -/
def programOpened (answer : Except Int HiddenFile) : OpenState :=
  let r := auDoOpen (programOpen answer) 17 false soleBranch.sb
  { soleBranch with sb := r.2.sb, files := r.1.opened r.2.f ++ soleBranch.files }

theorem programOpened_step (answer : Except Int HiddenFile) :
    OpenStep soleBranch (.doOpen (programOpen answer) 17 false) (programOpened answer) :=
  .doOpen (fun h => by cases h) rfl

theorem soleBranch_unused : soleBranch.Unused := ⟨rfl, rfl, fun _ => rfl⟩

theorem counts_right_programOpened : (programOpened (.ok (readOnlyHFile 0).hfFile)).CountsRight := by
  apply counts_right soleBranch_unused (Run.nil.snoc ⟨?_, programOpened_step _⟩)
  rintro b ⟨-, -, err, herr⟩
  cases herr

/-- **The lower open of a program fails**, ENFILE: the branch stays counted, and no file refers to it. -/
theorem program_stays_counted :
    ¬ ∀ (m₀ m : OpenState) (es : List OpenEv), m₀.Unused → Run OpenStep m₀ es m → m.CountsRight := by
  intro h
  have hright := h _ _ _ soleBranch_unused (Run.nil.snoc (programOpened_step (.error (-23))))
  have hcount : (programOpened (.error (-23))).sb.brCount 0 = (programOpened (.error (-23))).uses 0 :=
    hright.counts 0 List.mem_cons_self
  have hone : (programOpened (.error (-23))).sb.brCount 0 = 1 := rfl
  have hnone : (programOpened (.error (-23))).uses 0 = 0 := rfl
  rw [hone, hnone] at hcount
  cases hcount

end KernelPatches.Aufs
