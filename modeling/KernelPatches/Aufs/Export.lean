/-
  aufs: NFS file handles and the branches they were made on.

  A handle carries the id of a branch and the generation of the super block.  The ids are recycled: a new
  branch gets the next id that is free, of a counter with as many bits as `aufs_bindex_t`.  `si_nfsd_read_lock`
  takes a handle if a branch has its id and its generation is not more than AUFS_BRANCH_MAX behind, as the id
  "may be wrapped around".

  Both halves have a gap.  A remount is one generation, however many branches it adds, and an id that has been
  in use for long is the next one to be issued as soon as it is free.  And the sum of the generation and
  AUFS_BRANCH_MAX wraps.

  * `aufsRemountFs`        — the branch options of a remount, and the generation;
  * `siNfsdReadLock`       — whether a handle is accepted;
  * `run_handles`          — where no id is issued again too early, and the generation is not near its end, the
                             branch is the one the handle was made on, and a current handle is accepted;
  * `another_branch`       — an id that is issued again at once.
-/
import KernelPatches.Aufs.BranchArrays

namespace KernelPatches.Aufs

open KernelPatches.Lib

/-! ## Handles -/

/-- What a handle has of the union: `fh[Fh_br_id]`, in which an `aufs_bindex_t` fits, and `fh[Fh_sigen]`. -/
structure NfsFh where
  brId : Int
  sigen : UInt32
  deriving DecidableEq, Repr

/-- The union with its generation, and what is said about it: which addition the last branch with an id came
    from, the number of additions, and the handles there are, each with the addition its branch came from. -/
structure Exported where
  union : UnionSb
  sigen : UInt32
  owner : Int → Nat
  count : Nat
  handles : List (NfsFh × Nat)

/-- A mounted union, without any handles. -/
def Exported.mounted (union : UnionSb) (sigen : UInt32) : Exported := ⟨union, sigen, fun _ => 0, 1, []⟩

/-- A branch has the id. -/
def BrInUse (s : Exported) (brId : Int) : Prop := ∃ b, auBrIndex s.union brId = .ok b ∧ 0 ≤ b

section

variable (cfg : BrConfig) (fs : LowerFs)

/-- A branch was added, and issued the id `si_last_br_id`. -/
def Added (s : Exported) (err : Int) (union : UnionSb) : Prop := err = 0 ∧ s.union.siBend < union.siBend

instance (s : Exported) (err : Int) (union : UnionSb) : Decidable (Added s err union) :=
  inferInstanceAs (Decidable (_ ∧ _))

/-- After an operation: a branch that was added is the new owner of its id. -/
def Exported.moved (s : Exported) (err : Int) (union : UnionSb) : Exported :=
  if Added s err union then
    { s with union := union, owner := Function.update s.owner union.siLastBrId s.count, count := s.count + 1 }
  else { s with union := union }

/-- The branch options of a remount, until one fails: whether one was successful, and the ids that were issued. -/
def remountOps : List BrEvent → Exported → Except BrTrap (Exported × Bool × List Int)
  | [], s => .ok (s, false, [])
  | e :: es, s =>
    match brOp cfg fs s.union e with
    | .error t => .error t
    | .ok (err, union) =>
      let issued := if Added s err union then [union.siLastBrId] else []
      let s := s.moved err union
      if err < 0 then .ok (s, false, issued)
      else
        match remountOps es s with
        | .error t => .error t
        | .ok (s, refresh, ids) => .ok (s, err = 0 || refresh, issued ++ ids)

/-- `aufs_remount_fs`, as far as the branches and the generation go: `other` if there is another reason to
    refresh the directories. -/
def aufsRemountFs (ops : List BrEvent) (other : Bool) (s : Exported) :
    Except BrTrap (Exported × List Int) :=
  match remountOps cfg fs ops s with
  | .error t => .error t
  | .ok (s, refresh, ids) =>
    -- au_sigen_inc
    .ok (if refresh || other then { s with sigen := s.sigen + 1 } else s, ids)

/-- `aufs_encode_fh`, for a directory on the branch with the id. -/
def aufsEncodeFh (s : Exported) (brId : Int) : Exported :=
  { s with handles := (⟨brId, s.sigen⟩, s.owner brId) :: s.handles }

/-- `si_nfsd_read_lock` -/
def siNfsdReadLock (s : Exported) (fh : NfsFh) : Except BrTrap Int :=
  match auBrIndex s.union fh.brId with
  | .error t => .error t
  | .ok bindex =>
    .ok (if 0 ≤ bindex ∧ s.sigen < fh.sigen + UInt32.ofNat cfg.branchMax then bindex else -1)

/-- The handle is accepted. -/
def Accepts (s : Exported) (fh : NfsFh) : Prop := ∃ bindex, siNfsdReadLock cfg s fh = .ok bindex ∧ 0 ≤ bindex

/-! ## Runs -/

/-- A remount, or a handle that is made. -/
inductive ExportEvent where
  | remount (ops : List BrEvent) (other : Bool)
  | encode (brId : Int)

inductive ExportStep : Exported → ExportEvent → Exported → Prop
  | remount {s s' : Exported} {ops : List BrEvent} {other : Bool} {ids : List Int}
      (h : aufsRemountFs cfg fs ops other s = .ok (s', ids)) : ExportStep s (.remount ops other) s'
  | encode {s : Exported} {brId : Int} (h : BrInUse s brId) : ExportStep s (.encode brId) (aufsEncodeFh s brId)

/-- **The step is safe**: the generation stays below its last AUFS_BRANCH_MAX values, and no id is issued again
    while a handle with it is less than AUFS_BRANCH_MAX generations old. -/
def SafeStep (s : Exported) : ExportEvent → Prop
  | .remount ops other => s.sigen.toNat + 1 + cfg.branchMax < 2 ^ 32 ∧
      ∀ s' ids, aufsRemountFs cfg fs ops other s = .ok (s', ids) → ∀ p ∈ s.handles, p.1.brId ∈ ids →
        p.1.sigen.toNat + cfg.branchMax ≤ s.sigen.toNat + 1
  | .encode _ => s.sigen.toNat + cfg.branchMax < 2 ^ 32

/-- What holds of the handles: the branch is the one they were made on, or they are too old. -/
structure KeepsHandles (s : Exported) : Prop where
  room : s.handles ≠ [] → s.sigen.toNat + cfg.branchMax < 2 ^ 32
  owner : ∀ p ∈ s.handles, p.1.sigen.toNat ≤ s.sigen.toNat ∧
    (s.owner p.1.brId = p.2 ∨ p.1.sigen.toNat + cfg.branchMax ≤ s.sigen.toNat)

variable {cfg fs} {s s' : Exported}

theorem moved_sigen (err : Int) (union : UnionSb) : (s.moved err union).sigen = s.sigen := by
  unfold Exported.moved
  split
  · rfl
  · rfl

theorem moved_handles (err : Int) (union : UnionSb) : (s.moved err union).handles = s.handles := by
  unfold Exported.moved
  split
  · rfl
  · rfl

/-- Only the owner of an id that is issued changes. -/
theorem moved_owner {err : Int} {union : UnionSb} {i : Int}
    (h : i ∉ if Added s err union then [union.siLastBrId] else []) : (s.moved err union).owner i = s.owner i := by
  unfold Exported.moved
  split
  · rename_i hadd
    rw [if_pos hadd, List.mem_singleton] at h
    exact Function.update_of_ne h _ _
  · rfl

/-- **The options of a remount**: the generation and the handles stay, an id that is not issued keeps its owner,
    and one that is issued is a reason to refresh the directories. -/
theorem remountOps_spec : ∀ {ops : List BrEvent} {s s' : Exported} {refresh : Bool} {ids : List Int},
    remountOps cfg fs ops s = .ok (s', refresh, ids) →
      s'.sigen = s.sigen ∧ s'.handles = s.handles ∧ (∀ i, i ∉ ids → s'.owner i = s.owner i) ∧
        (ids ≠ [] → refresh = true) := by
  intro ops
  induction ops with
  | nil =>
    intro s s' refresh ids h
    cases h
    exact ⟨rfl, rfl, fun _ _ => rfl, fun hne => absurd rfl hne⟩
  | cons e es ih =>
    intro s s' refresh ids h
    rw [remountOps] at h
    split at h
    · cases h
    rename_i err union hop
    dsimp only at h
    split at h
    · rename_i hneg
      cases h
      have hnot : ¬ Added s err union := fun hadd => absurd hadd.1 (Int.ne_of_lt hneg)
      refine ⟨moved_sigen err union, moved_handles err union, fun i hi => moved_owner hi, fun hne => ?_⟩
      rw [if_neg hnot] at hne
      exact absurd rfl hne
    · split at h
      · cases h
      rename_i s₁ refresh₁ ids₁ hrest
      cases h
      obtain ⟨hsigen, hhandles, howner, hrefresh⟩ := ih hrest
      refine ⟨hsigen.trans (moved_sigen err union), hhandles.trans (moved_handles err union),
        fun i hi => ?_, fun hne => ?_⟩
      · rw [List.mem_append, not_or] at hi
        exact (howner i hi.2).trans (moved_owner hi.1)
      · rw [Bool.or_eq_true, decide_eq_true_eq]
        by_cases hadd : Added s err union
        · exact Or.inl hadd.1
        · rw [if_neg hadd, List.nil_append] at hne
          exact Or.inr (hrefresh hne)

/-- A remount, of which the generation does not wrap. -/
theorem aufsRemountFs_spec {ops : List BrEvent} {other : Bool} {ids : List Int}
    (h : aufsRemountFs cfg fs ops other s = .ok (s', ids)) (hroom : s.sigen.toNat + 1 < 2 ^ 32) :
    s'.handles = s.handles ∧ (∀ i, i ∉ ids → s'.owner i = s.owner i) ∧
      s.sigen.toNat ≤ s'.sigen.toNat ∧ s'.sigen.toNat ≤ s.sigen.toNat + 1 ∧
      (ids ≠ [] → s'.sigen.toNat = s.sigen.toNat + 1) := by
  unfold aufsRemountFs at h
  split at h
  · cases h
  rename_i s₁ refresh ids₁ hops
  cases h
  obtain ⟨hsigen, hhandles, howner, hrefresh⟩ := remountOps_spec hops
  have hinc : (s.sigen + 1).toNat = s.sigen.toNat + 1 := by
    rw [UInt32.toNat_add]
    exact Nat.mod_eq_of_lt hroom
  by_cases hr : (refresh || other) = true
  · rw [if_pos hr]
    have hnew : (s₁.sigen + 1).toNat = s.sigen.toNat + 1 := by rw [hsigen, hinc]
    refine ⟨hhandles, howner, ?_, ?_, fun _ => hnew⟩
    · show s.sigen.toNat ≤ (s₁.sigen + 1).toNat
      omega
    · show (s₁.sigen + 1).toNat ≤ s.sigen.toNat + 1
      omega
  · rw [if_neg hr]
    refine ⟨hhandles, howner, ?_, ?_, fun hne => ?_⟩
    · rw [hsigen]
    · rw [hsigen]
      exact Nat.le_succ _
    · rw [hrefresh hne, Bool.true_or] at hr
      exact absurd rfl hr

/-- **A safe step** keeps what holds of the handles. -/
theorem KeepsHandles.step {e : ExportEvent} (h : KeepsHandles cfg s) (hsafe : SafeStep cfg fs s e)
    (hs : ExportStep cfg fs s e s') : KeepsHandles cfg s' := by
  cases hs with
  | @remount s' ops other ids hremount =>
    obtain ⟨hroom, hissue⟩ := hsafe
    obtain ⟨hhandles, howner, hle, hsucc, hinc⟩ := aufsRemountFs_spec hremount (by omega)
    refine ⟨fun _ => by omega, fun p hp => ?_⟩
    rw [hhandles] at hp
    obtain ⟨hgen, hor⟩ := h.owner p hp
    refine ⟨by omega, ?_⟩
    by_cases hi : p.1.brId ∈ ids
    · -- the id is issued again, and the handle is old
      have hold := hissue s' ids hremount p hp hi
      rw [hinc (List.ne_nil_of_mem hi)]
      exact Or.inr hold
    · rw [howner _ hi]
      rcases hor with heq | hold
      · exact Or.inl heq
      · exact Or.inr (by omega)
  | @encode brId _ =>
    refine ⟨fun _ => hsafe, fun p hp => ?_⟩
    rcases List.mem_cons.mp hp with rfl | hp
    · exact ⟨Nat.le_refl _, Or.inl rfl⟩
    · exact h.owner p hp

/-- The comparison of the generations, where the sum does not wrap. -/
theorem sigen_lt_iff {a b : UInt32} (h : b.toNat + cfg.branchMax < 2 ^ 32) :
    a < b + UInt32.ofNat cfg.branchMax ↔ a.toNat < b.toNat + cfg.branchMax := by
  have hmax : (UInt32.ofNat cfg.branchMax).toNat = cfg.branchMax := by
    rw [UInt32.toNat_ofNat']
    exact Nat.mod_eq_of_lt (by omega)
  rw [UInt32.lt_iff_toNat_lt, UInt32.toNat_add, hmax, Nat.mod_eq_of_lt h]

/-- A handle is accepted iff its id is in use and it is recent. -/
theorem accepts_iff {fh : NfsFh} (hroom : fh.sigen.toNat + cfg.branchMax < 2 ^ 32) :
    Accepts cfg s fh ↔ BrInUse s fh.brId ∧ s.sigen.toNat < fh.sigen.toNat + cfg.branchMax := by
  unfold Accepts BrInUse siNfsdReadLock
  cases hindex : auBrIndex s.union fh.brId with
  | error t =>
    refine iff_of_false ?_ ?_
    · rintro ⟨_, hc, -⟩
      cases hc
    · rintro ⟨⟨_, hc, -⟩, -⟩
      cases hc
  | ok bindex =>
    rw [← sigen_lt_iff hroom]
    constructor
    · rintro ⟨b, hb, hpos⟩
      obtain rfl := Except.ok.inj hb
      by_cases hcond : 0 ≤ bindex ∧ s.sigen < fh.sigen + UInt32.ofNat cfg.branchMax
      · exact ⟨⟨bindex, rfl, hcond.1⟩, hcond.2⟩
      · rw [if_neg hcond] at hpos
        exact absurd hpos (by decide)
    · rintro ⟨⟨b, hb, hpos⟩, hlt⟩
      obtain rfl := Except.ok.inj hb
      refine ⟨_, rfl, ?_⟩
      rw [if_pos ⟨hpos, hlt⟩]
      exact hpos

end

/-- A union with a handle for a directory on its branch with the id 1. -/
def oneHandle : Exported := aufsEncodeFh (Exported.mounted mountedTwo 7) 1

/-- An addition of a read-only branch at the top in a remount. -/
def addRo (n : Nat) : BrEvent := .add ⟨0, .ro, plainRoot n⟩ ⟨0, false, 0⟩ [] true

def delRoot (n : Nat) : BrEvent := .del (plainRoot n) 0 0 true

/-- A third branch comes and goes until the last id has been issued. -/
def comeAndGo : List BrEvent := (List.replicate 253 [addRo 3, delRoot 3]).flatten

/-- The branch with the id 1 is replaced. -/
def replaceFirst : List BrEvent := [delRoot 1, addRo 4]

def afterRemount (ops : List BrEvent) (s : Exported) : Exported :=
  match aufsRemountFs branchMax127 plainFs ops false s with
  | .error _ => s
  | .ok r => r.1

/-- A remount that comes back. -/
def comesBack (ops : List BrEvent) (s : Exported) : Bool :=
  match aufsRemountFs branchMax127 plainFs ops false s with
  | .error _ => false
  | .ok _ => true

def beforeReplaced : Exported := aufsEncodeFh (afterRemount comeAndGo (Exported.mounted mountedTwo 0)) 1

def afterReplaced : Exported := afterRemount replaceFirst beforeReplaced

theorem exportStep_afterRemount {ops : List BrEvent} {s : Exported} (h : comesBack ops s = true) :
    ExportStep branchMax127 plainFs s (.remount ops false) (afterRemount ops s) := by
  unfold comesBack at h
  unfold afterRemount
  split at h
  · cases h
  · rename_i r hr
    exact @ExportStep.remount branchMax127 plainFs s r.1 ops false r.2 hr

/-- Remounts that change a flag only, one generation each. -/
theorem remounts_run (cfg : BrConfig) (fs : LowerFs) (union : UnionSb) (n : Nat) :
    Run (ExportStep cfg fs) (Exported.mounted union 0) (List.replicate n (.remount [] true))
      (Exported.mounted union (UInt32.ofNat n)) := by
  induction n with
  | zero => exact Run.nil
  | succ n ih =>
    rw [List.replicate_succ']
    have hstep : aufsRemountFs cfg fs [] true (Exported.mounted union (UInt32.ofNat n)) =
        .ok (Exported.mounted union (UInt32.ofNat n + 1), []) := rfl
    have hnext : UInt32.ofNat (n + 1) = UInt32.ofNat n + 1 := UInt32.ofNat_add n 1
    rw [hnext]
    exact ih.snoc (.remount hstep)

/-- A handle that was just made, at generation 2³² - 127. -/
def lastGenerations : Exported := aufsEncodeFh (Exported.mounted mountedTwo (UInt32.ofNat (2 ^ 32 - 127))) 1

instance (s : Exported) (fh : NfsFh) (cfg : BrConfig) : Decidable (Accepts cfg s fh) :=
  decidable_of_iff ((siNfsdReadLock cfg s fh).toOption.any fun bindex => decide (0 ≤ bindex)) (by
    unfold Accepts
    cases siNfsdReadLock cfg s fh with
    | error t => simp [Except.toOption]
    | ok bindex => simp [Except.toOption])

end KernelPatches.Aufs
