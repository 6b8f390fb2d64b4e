/-
  aufs: the branches that a new entry can be made on.

  Without a source, `au_wr_dir` asks the create policy, and if that names no branch or a read-only one the
  copy-up policy.  What the answer is depends on the stack and on what the policies REMEMBER: the free space
  known of each branch, the choice `mfs` has in its cache, and the counter of `rr`.

  * `newBranch`             — the decision;
  * `LowestWritable`        — the branch of `tdp`, for a name that starts where its parent does;
  * `Candidate`             — the branches that can be chosen;
  * `newBranch_reach_iff`   — these are exactly those for which the memory can be such that they are.

  The whole of what is remembered is a `PolicyMemory`; the other data of the branches do not change.
-/
import KernelPatches.Aufs.BrMod
import KernelPatches.Aufs.MfsCache
import KernelPatches.Aufs.PolicyChoice

namespace KernelPatches.Aufs

/-! ## The decision -/

section

variable (A : Arch) (env : RmEnv)

/-- The branch `au_wr_dir` decides on, or the error, without a source and for a new entry: the create policy
    is asked, and if its branch cannot be written the copy-up policy is. -/
def newBranch (s : PolicySb) (isdir : Bool) (d parent : Dinfo) : Option (Int × PolicySb) :=
  match auWbrCreate A env.wbr s d parent isdir with
  | .error _ => none
  | .ok (bcpup, s) =>
    let env := { env.negative with union := s.union }
    match (if bcpup < 0 then some true else auTestRo env bcpup.toNat) with
    | none => none
    | some true => (auWbrCopyup env d parent).map fun err => (err, s)
    | some false => some (bcpup, s)

end

/-! ## What is remembered -/

/-- The free space known of each branch, the cache of `mfs`, and the counter of `rr`. -/
structure PolicyMemory where
  bytes : Nat → Nat
  mfs : WbrMfs
  rrNext : Int

/-- The branches, with this free space known of the writable ones. -/
def UnionSb.withBytes (u : UnionSb) (bytes : Nat → Nat) : UnionSb :=
  { u with siBranch := u.siBranch.mapIdx fun b br =>
      br.map fun br => { br with brWbr := br.brWbr.map fun _ => bytes b } }

/-- The super block, as the policies see it. -/
def RmEnv.policySb (env : RmEnv) (create : WbrCreate) (mem : PolicyMemory) : PolicySb :=
  ⟨env.union.withBytes mem.bytes, create, mem.mfs, mem.rrNext⟩

/-- The same branches are read-only. -/
structure SameRdonly (wbr : WbrEnv) (u v : UnionSb) : Prop where
  bend : v.siBend = u.siBend
  rdonly : ∀ b, sbrRdonly wbr v b = sbrRdonly wbr u b

section Same

variable {wbr : WbrEnv} {u v : UnionSb} {b : Nat}

theorem auSbr_withBytes (u : UnionSb) (bytes : Nat → Nat) (b : Nat) : auSbr (u.withBytes bytes) b =
    (auSbr u b).map fun br => { br with brWbr := br.brWbr.map fun _ => bytes b } := by
  unfold auSbr UnionSb.withBytes
  dsimp only
  rw [List.getD_eq_getElem?_getD, List.getD_eq_getElem?_getD, List.getElem?_mapIdx]
  cases u.siBranch[b]? with
  | none => rfl
  | some br =>
    cases br with
    | none => rfl
    | some br => rfl

theorem sameRdonly_withBytes (wbr : WbrEnv) (u : UnionSb) (bytes : Nat → Nat) :
    SameRdonly wbr u (u.withBytes bytes) where
  bend := rfl
  rdonly b := by
    unfold sbrRdonly
    rw [auSbr_withBytes]
    cases auSbr u b with
    | error e => rfl
    | ok br => rfl

theorem Writable.branch (h : Writable wbr u b) : ∃ br, auSbr u b = .ok br := by
  unfold Writable sbrRdonly at h
  cases hbr : auSbr u b with
  | ok br => exact ⟨br, rfl⟩
  | error e =>
    rw [hbr] at h
    cases h

theorem SameRdonly.refl (u : UnionSb) : SameRdonly wbr u u := ⟨rfl, fun _ => rfl⟩

theorem SameRdonly.trans {u' : UnionSb} (h : SameRdonly wbr u v) (h' : SameRdonly wbr v u') : SameRdonly wbr u u' :=
  ⟨h'.bend.trans h.bend, fun b => (h'.rdonly b).trans (h.rdonly b)⟩

theorem SameRdonly.writable (h : SameRdonly wbr u v) (b : Nat) : Writable wbr v b ↔ Writable wbr u b := by
  rw [Writable, Writable, h.rdonly]

theorem SameRdonly.there (h : SameRdonly wbr u v) (hu : BranchesThere u) : BranchesThere v := by
  intro b hb
  obtain ⟨br, hbr⟩ := hu b (h.bend ▸ hb)
  have hread := h.rdonly b
  unfold sbrRdonly at hread
  rw [hbr] at hread
  cases hv : auSbr v b with
  | ok br' => exact ⟨br', rfl⟩
  | error e =>
    rw [hv] at hread
    cases hread

theorem sameRdonly_setBytes {br : AuBranch} (hbr : auSbr u b = .ok br) (w : Option Nat) :
    SameRdonly wbr u { u with siBranch := u.siBranch.set b (some { br with brWbr := w }) } where
  bend := rfl
  rdonly c := by
    unfold sbrRdonly
    by_cases hcb : c = b
    · -- the entry is one of the list
      have hlt : b < u.siBranch.length := by
        by_contra hge
        unfold auSbr at hbr
        rw [List.getD_eq_default _ _ (Nat.le_of_not_lt hge)] at hbr
        cases hbr
      have hget : auSbr { u with siBranch := u.siBranch.set b (some { br with brWbr := w }) } b =
          .ok { br with brWbr := w } := by
        unfold auSbr
        dsimp only
        rw [List.getD_eq_getElem?_getD, List.getElem?_set_self hlt]
        rfl
      rw [hcb, hget, hbr]
      rfl
    · have hget : auSbr { u with siBranch := u.siBranch.set b (some { br with brWbr := w }) } c = auSbr u c := by
        unfold auSbr
        dsimp only
        rw [List.getD_eq_getElem?_getD, List.getElem?_set_ne (Ne.symm hcb), ← List.getD_eq_getElem?_getD]
      rw [hget]

/-- Asking the branches for their free space does not change which are read-only; by induction on the branches
    left. -/
theorem auMfsFrom_same : ∀ {n bindex bavail : Nat} {s s' : PolicySb} {r : Nat},
    auMfsFrom wbr n bindex bavail s = .ok (r, s') → SameRdonly wbr s.union s'.union := by
  intro n
  induction n with
  | zero =>
    intro bindex bavail s s' r h
    cases h
    exact SameRdonly.refl _
  | succ n ih =>
    intro bindex bavail s s' r h
    rw [auMfsFrom] at h
    split at h
    · cases h
    rename_i br hbr
    split at h
    · exact ih h
    split at h
    · exact ih h
    split at h
    · exact ih h
    rename_i fBavail fBsize _
    have hset := @sameRdonly_setBytes wbr _ _ _ hbr (br.brWbr.map fun _ => fBavail * fBsize % 2 ^ 64)
    dsimp only at h
    split at h
    · exact hset.trans (ih h)
    · exact hset.trans (ih h)

theorem createMfs_same {A : Arch} {s s' : PolicySb} {err : Int} (h : createMfs A wbr s = .ok (err, s')) :
    SameRdonly wbr s.union s'.union := by
  rcases createMfs_cases h with ⟨-, rfl⟩ | ⟨-, hau⟩
  · exact SameRdonly.refl _
  · unfold auMfs at hau
    split at hau
    · cases hau
    · rename_i hfrom
      cases hau
      have hsame := auMfsFrom_same hfrom
      exact ⟨hsame.bend, hsame.rdonly⟩

/-- **A create policy** leaves the branches as they are, but for what it knows of their free space. -/
theorem auWbrCreate_same {A : Arch} {s s' : PolicySb} {d parent : Dinfo} {isdir : Bool} {err : Int}
    (h : auWbrCreate A wbr s d parent isdir = .ok (err, s')) : SameRdonly wbr s.union s'.union := by
  rcases auWbrCreate_cases h with ⟨-, hsame⟩ | ⟨-, e, s₁, hmfs, hsame⟩
  · rw [hsame.1]
    exact SameRdonly.refl _
  · rw [hsame.1]
    exact createMfs_same hmfs

end Same

/-! ## The policies -/

/-- The lowest writable branch that is not below where the parent starts. -/
def LowestWritable (wbr : WbrEnv) (u : UnionSb) (parent : Dinfo) (g : Nat) : Prop :=
  IsGreatest {b : Nat | (b : Int) ≤ parent.diBstart ∧ Writable wbr u b} g

/-- The branches `0..m` are there and no others, as many as there can be at most, with `br_wbr` where they are
    writable. -/
structure BranchesTo (u : UnionSb) (m : Nat) : Prop where
  there : BranchesThere u
  bend : u.siBend = m
  few : m + 1 < 2 ^ 31
  last : ∀ b br, auSbr u b = .ok br → b ≤ m
  wbrOk : WbrOk u

/-- On these branches, a new name that starts where its parent does. -/
structure NewIn (env : RmEnv) (d parent : Dinfo) (m : Nat) : Prop extends BranchesTo env.union m where
  start : d.diBstart = parent.diBstart
  startThere : 0 ≤ parent.diBstart ∧ parent.diBstart ≤ m
  tailThere : auDbtaildir parent ≤ m
  whThere : d.diBwh ≤ m
  opqThere : parent.diBdiropq ≤ m

section Policies

variable {A : Arch} {env : RmEnv} {d parent : Dinfo} {m : Nat} {wbr : WbrEnv} {u : UnionSb}

/-- **Bottom up** ends at the lowest writable branch, or there is none. -/
theorem auWbrBu_lowest (h : BranchesThere u) : ∀ {n : Nat}, (n : Int) ≤ u.siBend + 1 →
    (∃ g : Nat, auWbrBu wbr u n = .ok g ∧ IsGreatest {b | b < n ∧ Writable wbr u b} g) ∨
      (auWbrBu wbr u n = .ok (-EROFS) ∧ ∀ b < n, ¬ Writable wbr u b) := by
  intro n
  induction n with
  | zero => exact fun _ => Or.inr ⟨rfl, fun b hb => absurd hb (Nat.not_lt_zero b)⟩
  | succ n ih =>
    intro hn
    rw [auWbrBu]
    rcases @BranchesThere.rdonly wbr u h n (by omega) with hro | hw
    · rw [hro]
      -- the branch `n` does not count
      have hiff : ∀ b, b < n + 1 ∧ Writable wbr u b ↔ b < n ∧ Writable wbr u b := by
        intro b
        constructor
        · rintro ⟨hb, hw⟩
          refine ⟨?_, hw⟩
          rcases Nat.lt_succ_iff_lt_or_eq.mp hb with hlt | rfl
          · exact hlt
          · exact absurd hw (not_writable hro)
        · rintro ⟨hb, hw⟩
          exact ⟨by omega, hw⟩
      have hset : {b | b < n + 1 ∧ Writable wbr u b} = {b | b < n ∧ Writable wbr u b} := Set.ext hiff
      rw [hset]
      rcases ih (show (n : Int) ≤ u.siBend + 1 by omega) with hfound | ⟨hneg, hnone⟩
      · exact Or.inl hfound
      · exact Or.inr ⟨hneg, fun b hb hw => hnone b ((hiff b).mp ⟨hb, hw⟩).1 hw⟩
    · rw [hw]
      exact Or.inl ⟨n, rfl, ⟨Nat.lt_succ_self n, hw⟩, fun b hb => Nat.lt_succ_iff.mp hb.1⟩

/-- For a name that starts where its parent does, `tdp` goes bottom up from there. -/
theorem auWbrCreateTdp_start (hstart : d.diBstart = parent.diBstart) :
    auWbrCreateTdp wbr u d parent = auWbrBu wbr u (parent.diBstart.toNat + 1) := by
  unfold auWbrCreateTdp
  dsimp only
  rw [hstart, Nat.sub_self, auWbrBu]
  cases sbrRdonly wbr u parent.diBstart.toNat with
  | error e => rfl
  | ok rdonly =>
    cases rdonly with
    | true => rfl
    | false => rfl

/-- **`tdp`** chooses the lowest writable branch that is not below the parent's start, if there is one. -/
theorem auWbrBu_parent (h : BranchesThere u) (h0 : 0 ≤ parent.diBstart) (hm : parent.diBstart ≤ u.siBend) :
    (∃ g : Nat, auWbrBu wbr u (parent.diBstart.toNat + 1) = .ok g ∧ LowestWritable wbr u parent g) ∨
      (auWbrBu wbr u (parent.diBstart.toNat + 1) = .ok (-EROFS) ∧
        ∀ b : Nat, (b : Int) ≤ parent.diBstart → ¬ Writable wbr u b) := by
  have hset : {b : Nat | (b : Int) ≤ parent.diBstart ∧ Writable wbr u b} =
      {b | b < parent.diBstart.toNat + 1 ∧ Writable wbr u b} := by
    refine Set.ext fun b => and_congr_left' ?_
    show (b : Int) ≤ parent.diBstart ↔ b < parent.diBstart.toNat + 1
    omega
  unfold LowestWritable
  rw [hset]
  rcases @auWbrBu_lowest wbr u h (parent.diBstart.toNat + 1) (by omega) with hfound | ⟨hneg, hnone⟩
  · exact Or.inl hfound
  · exact Or.inr ⟨hneg, fun b hb => hnone b (by omega)⟩

theorem copyupBupFrom_writable : ∀ {n k : Nat} {b : Int}, copyupBupFrom env parent n k = some b → 0 ≤ b →
    Writable env.wbr env.union b.toNat := by
  intro n
  induction n with
  | zero =>
    intro k b h h0
    cases h
    exact absurd h0 (by decide)
  | succ n ih =>
    intro k b h h0
    rw [copyupBupFrom] at h
    split at h
    · exact ih h h0
    split at h
    · cases h
    rename_i rdonly hro
    split at h
    · rename_i htake
      cases h
      rw [Bool.and_eq_true, Bool.not_eq_true'] at htake
      rw [Int.toNat_natCast, Writable, hro, htake.1]
    · exact ih h h0

/-- What the copy-up policies choose, for such a name, is writable and not below the parent's start. -/
theorem auWbrCopyup_start {b : Int} (h : BranchesThere env.union) (hstart : d.diBstart = parent.diBstart)
    (h0 : 0 ≤ parent.diBstart) (hm : parent.diBstart ≤ env.union.siBend)
    (hb : auWbrCopyup env d parent = some b) (hb0 : 0 ≤ b) :
    b ≤ parent.diBstart ∧ Writable env.wbr env.union b.toNat := by
  have hneg : -EROFS < 0 := by decide
  -- bottom up
  have hbu : ∀ {n : Nat}, n ≤ parent.diBstart.toNat + 1 → auWbrBu env.wbr env.union n = .ok b →
      b ≤ parent.diBstart ∧ Writable env.wbr env.union b.toNat := by
    intro n hn hbu
    rcases @auWbrBu_lowest env.wbr env.union h n (by omega) with ⟨g, hg, hlowest⟩ | ⟨hno, -⟩
    · obtain rfl : b = g := Except.ok.inj (hbu.symm.trans hg)
      have hlt := hlowest.1.1
      exact ⟨by omega, hlowest.1.2⟩
    · have herr : b = -EROFS := Except.ok.inj (hbu.symm.trans hno)
      omega
  have hok : ∀ {r : Except BrTrap Int}, r.toOption = some b → r = .ok b := by
    intro r hr
    cases r with
    | error e => cases hr
    | ok b' => rw [Option.some.inj hr]
  unfold auWbrCopyup at hb
  split at hb
  · rw [auWbrCreateTdp_start hstart] at hb
    exact hbu (Nat.le_refl _) (hok hb)
  · split at hb
    · cases hb
    rename_i err hfrom
    split at hb
    · exact hbu (Nat.le_succ _) (hok hb)
    · cases hb
      have hle := copyupBupFrom_le hfrom
      exact ⟨by omega, copyupBupFrom_writable hfrom hb0⟩
  · rw [hstart] at hb
    exact hbu (Nat.le_refl _) (hok hb)

/-- Without an inode only the branch is asked, with the branches as they are then. -/
theorem auTestRo_new (v : UnionSb) (b : Nat) :
    auTestRo { env.negative with union := v } b = (sbrRdonly env.wbr v b).toOption := by
  unfold auTestRo RmEnv.negative
  dsimp only
  cases sbrRdonly env.wbr v b with
  | error e => rfl
  | ok rdonly => exact congrArg some (Bool.or_false rdonly)

/-- The branch decided on is the one the create policy names; or that is not writable, and the copy-up policy's is
    not below the parent's start. -/
theorem newBranch_cases {s s' : PolicySb} {isdir : Bool} {b : Int} (h : NewIn env d parent m)
    (hsame : SameRdonly env.wbr env.union s.union) (hb : newBranch A env s isdir d parent = some (b, s'))
    (hb0 : 0 ≤ b) : Writable env.wbr env.union b.toNat ∧ ∃ err, auWbrCreate A env.wbr s d parent isdir = .ok (err, s') ∧
      (b = err ∨ ¬ (0 ≤ err ∧ Writable env.wbr env.union err.toNat) ∧ b ≤ parent.diBstart) := by
  unfold newBranch at hb
  cases hc : auWbrCreate A env.wbr s d parent isdir with
  | error e =>
    rw [hc] at hb
    cases hb
  | ok r =>
  obtain ⟨err, s₁⟩ := r
  have hsame₁ := hsame.trans (auWbrCreate_same hc)
  rw [hc] at hb
  dsimp only at hb
  -- the copy-up policy is asked
  have hcopyup : ∀ {o : Option Int}, o = auWbrCopyup { env.negative with union := s₁.union } d parent →
      o.map (fun err => (err, s₁)) = some (b, s') → s₁ = s' ∧ b ≤ parent.diBstart ∧ Writable env.wbr env.union b.toNat := by
    intro o ho hmap
    obtain ⟨b', hb', heq⟩ := Option.map_eq_some_iff.mp hmap
    have hs : s₁ = s' := congrArg Prod.snd heq
    have hbb : b' = b := congrArg Prod.fst heq
    have hbend : parent.diBstart ≤ s₁.union.siBend := by
      rw [hsame₁.bend, h.bend]
      exact h.startThere.2
    have hup := @auWbrCopyup_start { env.negative with union := s₁.union } d parent b (hsame₁.there h.there) h.start
      h.startThere.1 hbend (ho.symm.trans (hbb ▸ hb')) hb0
    exact ⟨hs, hup.1, (hsame₁.writable _).mp hup.2⟩
  by_cases hneg : err < 0
  · rw [if_pos hneg] at hb
    obtain ⟨rfl, hle, hw⟩ := hcopyup rfl hb
    exact ⟨hw, err, rfl, Or.inr ⟨fun hpos => absurd hneg (Int.not_lt.mpr hpos.1), hle⟩⟩
  rw [if_neg hneg] at hb
  rw [auTestRo_new] at hb
  cases hro : sbrRdonly env.wbr s₁.union err.toNat with
  | error e =>
    rw [hro] at hb
    cases hb
  | ok rdonly =>
    rw [hro] at hb
    cases rdonly with
    | true =>
      obtain ⟨rfl, hle, hw⟩ := hcopyup rfl hb
      refine ⟨hw, err, rfl, Or.inr ⟨fun hpos => ?_, hle⟩⟩
      exact not_writable hro ((hsame₁.writable _).mpr hpos.2)
    | false =>
      cases hb
      exact ⟨(hsame₁.writable _).mp hro, b, rfl, Or.inl rfl⟩

/-- A writable branch that the create policy names is taken. -/
theorem newBranch_of {s s' : PolicySb} {isdir : Bool} {b : Nat} (hsame : SameRdonly env.wbr env.union s.union)
    (hc : auWbrCreate A env.wbr s d parent isdir = .ok ((b : Int), s')) (hw : Writable env.wbr env.union b) :
    newBranch A env s isdir d parent = some ((b : Int), s') := by
  have hro : sbrRdonly env.wbr s'.union b = .ok false := ((hsame.trans (auWbrCreate_same hc)).writable b).mpr hw
  unfold newBranch
  rw [hc]
  dsimp only
  rw [if_neg (Int.not_lt.mpr (Int.natCast_nonneg b)), Int.toNat_natCast]
  rw [auTestRo_new, hro]
  rfl

/-! ## The exception, and the free choice -/

/-- The branch of the exception is there, and can be written. -/
def ExpApplies (env : RmEnv) (d parent : Dinfo) : Prop :=
  0 ≤ expBranch d parent ∧ Writable env.wbr env.union (expBranch d parent).toNat

/-- The exception does not depend on the free space. -/
theorem auWbrCreateExp_bytes (h : NewIn env d parent m) (bytes : Nat → Nat) :
    (ExpApplies env d parent ∧
      auWbrCreateExp env.wbr (env.union.withBytes bytes) d parent = .ok (expBranch d parent)) ∨
    (¬ ExpApplies env d parent ∧ auWbrCreateExp env.wbr (env.union.withBytes bytes) d parent = .ok (-1)) := by
  have hsame := sameRdonly_withBytes env.wbr env.union bytes
  have hstack : OnStack (env.union.withBytes bytes) d parent m :=
    ⟨hsame.there h.there, h.bend, h.few, h.whThere, h.opqThere⟩
  rcases @auWbrCreateExp_spec env.wbr d parent m _ hstack with ⟨h0, hw, hexp⟩ | ⟨hno, hexp⟩
  · exact Or.inl ⟨⟨h0, (hsame.writable _).mp hw⟩, hexp⟩
  · exact Or.inr ⟨fun hex => hno ⟨hex.1, (hsame.writable _).mpr hex.2⟩, hexp⟩

/-- The policies that go by the exception alone, or choose freely. -/
def WbrCreate.free : WbrCreate → Bool
  | .tdp | .pmfs | .pmfsv => false
  | .rr | .mfs | .mfsv | .mfsrr | .mfsrrv => true

theorem auWbrCreate_exp {s : PolicySb} {isdir : Bool} {b : Int} (hfree : s.wbrCreate.free = true)
    (hexp : auWbrCreateExp wbr s.union d parent = .ok b) (h0 : 0 ≤ b) :
    auWbrCreate A wbr s d parent isdir = .ok (b, s) := by
  have hrr : auWbrCreateRr wbr s d parent isdir = .ok (b, s) := by
    unfold auWbrCreateRr
    rw [hexp]
    exact if_pos h0
  have hmfs : auWbrCreateMfs A wbr s d parent = .ok (b, s) := by
    unfold auWbrCreateMfs
    rw [hexp]
    exact if_pos h0
  have hmfsrr : auWbrCreateMfsrr A wbr s d parent isdir = .ok (b, s) := by
    unfold auWbrCreateMfsrr
    rw [hmfs]
    dsimp only
    split
    · exact hrr
    · rfl
  unfold auWbrCreate
  cases hcreate : s.wbrCreate with
  | tdp => rw [hcreate] at hfree; cases hfree
  | rr => exact hrr
  | mfs => exact hmfs
  | mfsv => exact hmfs
  | mfsrr => exact hmfsrr
  | mfsrrv => exact hmfsrr
  | pmfs => rw [hcreate] at hfree; cases hfree
  | pmfsv => rw [hcreate] at hfree; cases hfree

theorem timeAfter_self (A : Arch) (a : Nat) : timeAfter A a (a + 0) = false := by
  have hmod : (a + 2 ^ A.bitsPerLong - (a + 0) % 2 ^ A.bitsPerLong) % 2 ^ A.bitsPerLong = 0 := by
    have hdiv := Nat.mod_add_div a (2 ^ A.bitsPerLong)
    rw [Nat.add_zero, show a + 2 ^ A.bitsPerLong - a % 2 ^ A.bitsPerLong =
      2 ^ A.bitsPerLong * (a / 2 ^ A.bitsPerLong) + 2 ^ A.bitsPerLong by omega, Nat.add_mod_right, Nat.mul_mod_right]
  unfold timeAfter
  dsimp only
  rw [hmod]
  rfl

/-- With this memory `mfs` and `rr` take branch `b`, if it can be written. -/
def memoryOf (wbr : WbrEnv) (bytes : Nat → Nat) (b : Nat) : PolicyMemory := ⟨bytes, ⟨wbr.jiffies, 0, b, 0, 0⟩, b⟩

theorem createMfs_memory {s : PolicySb} {b : Nat} (hmfs : s.wbrMfs = ⟨wbr.jiffies, 0, b, 0, 0⟩)
    (hw : Writable wbr s.union b) : createMfs A wbr s = .ok ((b : Int), s) := by
  have hcached : cachedBindex A wbr s.wbrMfs = some b := by
    unfold cachedBindex
    rw [hmfs, timeAfter_self]
    exact if_neg (by simp)
  unfold createMfs
  rw [hcached]
  dsimp only
  rw [hw, hmfs]

/-- **Without the exception** each of the writable branches can be chosen, for a directory. -/
theorem auWbrCreate_memory {create : WbrCreate} {b : Nat} (h : NewIn env d parent m) (hfree : create.free = true)
    (hno : ¬ ExpApplies env d parent) (hw : Writable env.wbr env.union b) (hb : b ≤ m) :
    ∃ s', auWbrCreate A env.wbr (env.policySb create (memoryOf env.wbr (fun _ => 0) b)) d parent true =
      .ok ((b : Int), s') := by
  obtain ⟨s, hs⟩ : ∃ s, s = env.policySb create (memoryOf env.wbr (fun _ => 0) b) := ⟨_, rfl⟩
  have hcreate : s.wbrCreate = create := by rw [hs]; rfl
  have hmem : s.wbrMfs = ⟨env.wbr.jiffies, 0, b, 0, 0⟩ := by rw [hs]; rfl
  have hnext : s.wbrRrNext = b := by rw [hs]; rfl
  have hsame : SameRdonly env.wbr env.union s.union := by
    rw [hs]
    exact sameRdonly_withBytes env.wbr env.union _
  have hws : Writable env.wbr s.union b := (hsame.writable b).mpr hw
  have hexp : auWbrCreateExp env.wbr s.union d parent = .ok (-1) := by
    rw [hs]
    rcases auWbrCreateExp_bytes h (fun _ => 0) with ⟨hyes, -⟩ | ⟨-, hexp⟩
    · exact absurd hyes hno
    · exact hexp
  have hmfs : auWbrCreateMfs A env.wbr s d parent = .ok ((b : Int), s) := by
    unfold auWbrCreateMfs
    rw [hexp]
    exact createMfs_memory hmem hws
  have hmfsrr : auWbrCreateMfsrr A env.wbr s d parent true = .ok ((b : Int), s) := by
    unfold auWbrCreateMfsrr
    rw [hmfs]
    dsimp only
    rw [hmem]
    exact if_neg fun hlt => absurd hlt.2 (Nat.lt_irrefl 0)
  have hrr : ∃ s', auWbrCreateRr env.wbr s d parent true = .ok ((b : Int), s') := by
    have hfew := h.few
    have hindex : (rrTake true s.wbrRrNext).1 % 2 ^ 32 % (s.union.siBend + 1) = b := by
      have hbend : s.union.siBend = m := hsame.bend.trans h.bend
      show s.wbrRrNext % 2 ^ 32 % (s.union.siBend + 1) = b
      rw [hnext, hbend, Int.emod_eq_of_lt (by omega) (by omega), Int.emod_eq_of_lt (by omega) (by omega)]
    have htries : (s.union.siBend + 1).toNat = m + 1 := by
      rw [hsame.bend, h.bend]
      omega
    unfold auWbrCreateRr
    rw [hexp]
    dsimp only
    rw [if_neg (by decide), htries, createRrFrom_writable (by rw [hindex]; exact hws), hindex]
    exact ⟨_, rfl⟩
  rw [← hs]
  unfold auWbrCreate
  cases hkind : create with
  | tdp => rw [hkind] at hfree; cases hfree
  | rr => rw [hcreate, hkind]; exact hrr
  | mfs => rw [hcreate, hkind]; exact ⟨s, hmfs⟩
  | mfsv => rw [hcreate, hkind]; exact ⟨s, hmfs⟩
  | mfsrr => rw [hcreate, hkind]; exact ⟨s, hmfsrr⟩
  | mfsrrv => rw [hcreate, hkind]; exact ⟨s, hmfsrr⟩
  | pmfs => rw [hkind] at hfree; cases hfree
  | pmfsv => rw [hkind] at hfree; cases hfree

/-! ## pmfs -/

/-- What `au_wbr_create_pmfs` asks of a branch of the parent, besides that it can be written. -/
def permOf (wbr : WbrEnv) : Nat → Bool := if wbr.dirperm1 then fun b => wbr.hPerm b != 0 else fun _ => true

theorem permOf_iff {b : Nat} : permOf wbr b = true ↔ (wbr.dirperm1 = true → wbr.hPerm b ≠ 0) := by
  unfold permOf
  cases wbr.dirperm1 with
  | true => exact ⟨fun h _ => bne_iff_ne.mp h, fun h => bne_iff_ne.mpr (h rfl)⟩
  | false => exact ⟨fun _ h => absurd h Bool.false_ne_true, fun _ => rfl⟩

/-- The loop keeps the branch it starts with, or takes a suitable one; by induction on the branches left. -/
theorem createPmfsFrom_spec : ∀ {n k : Nat} {best r : Nat × Int},
    createPmfsFrom wbr u parent (permOf wbr) n k best = .ok r →
      r.2 = best.2 ∨ ∃ b : Nat, r.2 = b ∧ b < k + n ∧ Suitable wbr u parent b := by
  intro n
  induction n with
  | zero =>
    intro k best r h
    cases h
    exact Or.inl rfl
  | succ n ih =>
    intro k best r h
    rw [createPmfsFrom] at h
    have hnext : ∀ {best' : Nat × Int}, createPmfsFrom wbr u parent (permOf wbr) n (k + 1) best' = .ok r →
        r.2 = best'.2 ∨ ∃ b : Nat, r.2 = b ∧ b < k + (n + 1) ∧ Suitable wbr u parent b := by
      intro best' h'
      refine (ih h').imp_right ?_
      rintro ⟨b, hb, hlt, hs⟩
      exact ⟨b, hb, by omega, hs⟩
    split at h
    · exact hnext h
    rename_i hdir
    split at h
    · cases h
    rename_i rdonly hro
    split at h
    · exact hnext h
    rename_i htake
    split at h
    · cases h
    rename_i bytes _
    rcases hnext h with heq | hfound
    · by_cases hmore : best.1 < bytes
      · rw [if_pos hmore] at heq
        rw [Bool.not_eq_true', Bool.not_eq_false] at hdir
        rw [Bool.or_eq_true, Bool.not_eq_true', not_or, Bool.not_eq_true, Bool.not_eq_false] at htake
        refine Or.inr ⟨k, heq, by omega, hdir, ?_, permOf_iff.mp htake.2⟩
        rw [Writable, hro, htake.1]
      · rw [if_neg hmore] at heq
        exact Or.inl heq
    · exact Or.inr hfound

/-- A memory in which branch `b` has free space and no other one. -/
def onlyOn (b : Nat) (c : Nat) : Nat := if c = b then 1 else 0

theorem wbrBytes_writable {bytes : Nat → Nat} {b : Nat} (hok : WbrOk u) (hw : Writable wbr u b) :
    wbrBytes (u.withBytes bytes) b = .ok (bytes b) := by
  unfold Writable sbrRdonly at hw
  unfold wbrBytes
  rw [auSbr_withBytes]
  cases hbr : auSbr u b with
  | error e =>
    rw [hbr] at hw
    cases hw
  | ok br =>
    rw [hbr] at hw
    have hro : auBrRdonly wbr br = false := Except.ok.inj hw
    have hmem : some br ∈ u.siBranch := by
      unfold auSbr at hbr
      rw [List.getD_eq_getElem?_getD] at hbr
      cases hget : u.siBranch[b]? with
      | none =>
        rw [hget] at hbr
        cases hbr
      | some o =>
        rw [hget] at hbr
        cases o with
        | none => cases hbr
        | some br' =>
          rw [← Except.ok.inj hbr]
          exact List.mem_of_getElem? hget
    have hwritable : auBrWritable br.brPerm = true := by
      unfold auBrRdonly at hro
      rw [Bool.or_eq_false_iff, Bool.not_eq_false'] at hro
      exact hro.2
    obtain ⟨w, hsome⟩ := Option.isSome_iff_exists.mp ((hok br hmem).trans hwritable)
    simp only [Except.map, hsome, Option.map_some]

/-- Once the branch with the free space is taken, the loop keeps it. -/
theorem createPmfsFrom_keeps {b : Nat} (h : BranchesThere u) (hok : WbrOk u) : ∀ {n k : Nat},
    ((k + n : Nat) : Int) ≤ u.siBend + 1 →
    createPmfsFrom wbr (u.withBytes (onlyOn b)) parent (permOf wbr) n k (1, (b : Int)) = .ok (1, (b : Int)) := by
  intro n
  induction n with
  | zero => exact fun _ => rfl
  | succ n ih =>
    intro k hk
    have hnext := @ih (k + 1) (by omega)
    rw [createPmfsFrom]
    split
    · exact hnext
    rw [(sameRdonly_withBytes wbr u _).rdonly]
    rcases @BranchesThere.rdonly wbr u h k (by omega) with hro | hw
    · rw [hro]
      exact hnext
    · rw [hw]
      dsimp only
      split
      · exact hnext
      · rw [wbrBytes_writable hok hw]
        dsimp only
        have hle : onlyOn b k ≤ 1 := by
          unfold onlyOn
          split <;> omega
        rw [if_neg (Nat.not_lt.mpr hle)]
        exact hnext

/-- The loop takes the branch with the free space, when it comes to it. -/
theorem createPmfsFrom_takes {b : Nat} {g : Int} (h : BranchesThere u) (hok : WbrOk u) (hs : Suitable wbr u parent b) :
    ∀ {n k : Nat}, ((k + n : Nat) : Int) ≤ u.siBend + 1 → k ≤ b → b < k + n →
    createPmfsFrom wbr (u.withBytes (onlyOn b)) parent (permOf wbr) n k (0, g) = .ok (1, (b : Int)) := by
  intro n
  induction n with
  | zero => exact fun _ hkb hlt => absurd hlt (Nat.not_lt.mpr hkb)
  | succ n ih =>
    intro k hk hkb hlt
    rw [createPmfsFrom, (sameRdonly_withBytes wbr u _).rdonly]
    by_cases heq : k = b
    · obtain ⟨hdir, hw, hperm⟩ := hs
      have hone : onlyOn b b = 1 := if_pos rfl
      rw [heq, hdir, hw, permOf_iff.mpr hperm]
      dsimp only
      rw [if_neg (by decide), if_neg (by decide), wbrBytes_writable hok hw, hone]
      dsimp only
      rw [if_pos Nat.zero_lt_one, ← heq]
      exact createPmfsFrom_keeps h hok (by omega)
    · have hnext := @ih (k + 1) (by omega) (by omega) (by omega)
      split
      · exact hnext
      rcases @BranchesThere.rdonly wbr u h k (by omega) with hro | hw
      · rw [hro]
        exact hnext
      · rw [hw]
        dsimp only
        split
        · exact hnext
        · have hzero : onlyOn b k = 0 := if_neg heq
          rw [wbrBytes_writable hok hw, hzero]
          exact hnext

theorem SameRdonly.lowest (h : SameRdonly wbr u v) (g : Nat) :
    LowestWritable wbr v parent g ↔ LowestWritable wbr u parent g := by
  have hset : {b : Nat | (b : Int) ≤ parent.diBstart ∧ Writable wbr v b} =
      {b : Nat | (b : Int) ≤ parent.diBstart ∧ Writable wbr u b} :=
    Set.ext fun b => and_congr_right' (h.writable b)
  unfold LowestWritable
  rw [hset]

/-- `tdp`, in a super block with the same branches. -/
theorem auWbrCreateTdp_same {s : PolicySb} (h : NewIn env d parent m) (hsame : SameRdonly env.wbr env.union s.union) :
    (∃ g : Nat, auWbrCreateTdp env.wbr s.union d parent = .ok g ∧ LowestWritable env.wbr env.union parent g) ∨
      (auWbrCreateTdp env.wbr s.union d parent = .ok (-EROFS) ∧
        ∀ b : Nat, (b : Int) ≤ parent.diBstart → ¬ Writable env.wbr env.union b) := by
  have hle : parent.diBstart ≤ s.union.siBend := by
    rw [hsame.bend, h.bend]
    exact h.startThere.2
  rw [auWbrCreateTdp_start h.start]
  rcases @auWbrBu_parent parent env.wbr s.union (hsame.there h.there) h.startThere.1 hle with
    ⟨g, hg, hlow⟩ | ⟨hneg, hnone⟩
  · exact Or.inl ⟨g, hg, (hsame.lowest g).mp hlow⟩
  · exact Or.inr ⟨hneg, fun b hb hw => hnone b hb ((hsame.writable b).mpr hw)⟩

/-- **What `pmfs` chooses**: as `tdp`, or one of the suitable branches of the parent. -/
theorem auWbrCreatePmfs_spec {s s' : PolicySb} {err : Int} (h : NewIn env d parent m)
    (hsame : SameRdonly env.wbr env.union s.union)
    (hc : auWbrCreatePmfs A env.wbr s d parent = .ok (err, s')) :
    (err = -EROFS ∧ ∀ b : Nat, (b : Int) ≤ parent.diBstart → ¬ Writable env.wbr env.union b) ∨
      ∃ g, LowestWritable env.wbr env.union parent g ∧ (err = g ∨ parent.diBstart ≠ auDbtaildir parent ∧
        ∃ b : Nat, err = b ∧ (b : Int) ≤ auDbtaildir parent ∧ Suitable env.wbr env.union parent b) := by
  unfold auWbrCreatePmfs at hc
  rcases auWbrCreateTdp_same h hsame with ⟨g, hg, hlow⟩ | ⟨hneg, hnone⟩
  · rw [hg] at hc
    dsimp only at hc
    right
    refine ⟨g, hlow, ?_⟩
    split at hc
    · cases hc
      exact Or.inl rfl
    rename_i hin
    split at hc
    · cases hc
    rename_i e2 s₁ hmfs
    have hsame₁ : SameRdonly env.wbr env.union s₁.union := by
      rcases auWbrCreateMfs_cases hmfs with ⟨-, rfl⟩ | ⟨-, hc⟩
      · exact hsame
      · exact hsame.trans (createMfs_same hc)
    split at hc
    · cases hc
      exact Or.inl rfl
    split at hc
    · cases hc
    split at hc
    · cases hc
    rename_i best hbest
    cases hc
    rcases createPmfsFrom_spec hbest with heq | ⟨b, hb, hlt, hs⟩
    · exact Or.inl heq
    · right
      have hle := hs.le
      have h0 := h.startThere.1
      refine ⟨fun heq => hin (Or.inr heq), b, hb, by omega, hs.1, (hsame₁.writable b).mp hs.2.1, hs.2.2⟩
  · rw [hneg] at hc
    left
    dsimp only at hc
    rw [if_pos (Or.inl (by decide))] at hc
    cases hc
    exact ⟨rfl, hnone⟩

/-- **Each of these** can be chosen. -/
theorem auWbrCreatePmfs_memory {create : WbrCreate} {g b : Nat} (h : NewIn env d parent m)
    (hlow : LowestWritable env.wbr env.union parent g) (hb : b = g ∨ parent.diBstart ≠ auDbtaildir parent ∧
      (b : Int) ≤ auDbtaildir parent ∧ Suitable env.wbr env.union parent b) :
    ∃ s', auWbrCreatePmfs A env.wbr (env.policySb create (memoryOf env.wbr (onlyOn b) g)) d parent =
      .ok ((b : Int), s') := by
  obtain ⟨s, hs⟩ : ∃ s, s = env.policySb create (memoryOf env.wbr (onlyOn b) g) := ⟨_, rfl⟩
  have hunion : s.union = env.union.withBytes (onlyOn b) := by rw [hs]; rfl
  have hmem : s.wbrMfs = ⟨env.wbr.jiffies, 0, g, 0, 0⟩ := by rw [hs]; rfl
  have hsame : SameRdonly env.wbr env.union s.union := by
    rw [hunion]
    exact sameRdonly_withBytes env.wbr env.union _
  have htdp : auWbrCreateTdp env.wbr s.union d parent = .ok g := by
    rcases auWbrCreateTdp_same h hsame with ⟨g', hg', hlow'⟩ | ⟨-, hnone⟩
    · rw [hg', hlow'.unique hlow]
    · exact absurd hlow.1.2 (hnone g hlow.1.1)
  have hmfs : ∃ e2, auWbrCreateMfs A env.wbr s d parent = .ok (e2, s) ∧ 0 ≤ e2 := by
    unfold auWbrCreateMfs
    rw [hunion]
    rcases auWbrCreateExp_bytes h (onlyOn b) with ⟨hex, hexp⟩ | ⟨-, hexp⟩
    · rw [hexp]
      exact ⟨_, if_pos hex.1, hex.1⟩
    · rw [hexp]
      refine ⟨g, ?_, Int.natCast_nonneg g⟩
      exact createMfs_memory hmem ((hsame.writable g).mpr hlow.1.2)
  obtain ⟨e2, hmfs, he2⟩ := hmfs
  rw [← hs]
  unfold auWbrCreatePmfs
  rw [htdp]
  dsimp only
  by_cases hone : parent.diBstart = auDbtaildir parent
  · rw [if_pos (Or.inr hone)]
    rcases hb with rfl | ⟨hne, -⟩
    · exact ⟨s, rfl⟩
    · exact absurd hone hne
  rw [if_neg (by omega), hmfs]
  dsimp only
  rw [if_neg (Int.not_lt.mpr he2), Int.toNat_natCast, hunion, wbrBytes_writable h.wbrOk hlow.1.2]
  dsimp only
  have hloop : createPmfsFrom env.wbr (env.union.withBytes (onlyOn b)) parent (permOf env.wbr)
      (auDbtaildir parent + 1 - parent.diBstart).toNat parent.diBstart.toNat (onlyOn b g, (g : Int)) =
        .ok (1, (b : Int)) := by
    have hbend := h.bend
    obtain ⟨h0, hm⟩ := h.startThere
    have htail := h.tailThere
    by_cases hbg : b = g
    · rw [← hbg, show onlyOn b b = 1 from if_pos rfl]
      exact createPmfsFrom_keeps h.there h.wbrOk (by omega)
    · rcases hb with heq | ⟨-, hle, hsuit⟩
      · exact absurd heq hbg
      have hge := hsuit.le
      rw [show onlyOn b g = 0 from if_neg (Ne.symm hbg)]
      exact createPmfsFrom_takes h.there h.wbrOk hsuit (by omega) (by omega) (by omega)
  unfold permOf at hloop
  rw [hloop]
  exact ⟨s, rfl⟩

/-! ## All that can be chosen -/

/-- **The branches a create policy can choose.** -/
def Candidate (env : RmEnv) (create : WbrCreate) (d parent : Dinfo) (b : Nat) : Prop :=
  match create with
  | .tdp => LowestWritable env.wbr env.union parent b
  | .rr | .mfs | .mfsv | .mfsrr | .mfsrrv =>
    ExpApplies env d parent ∧ (b : Int) = expBranch d parent ∨
      ¬ ExpApplies env d parent ∧ Writable env.wbr env.union b
  | .pmfs | .pmfsv =>
    ∃ g, LowestWritable env.wbr env.union parent g ∧ (b = g ∨ parent.diBstart ≠ auDbtaildir parent ∧
      (b : Int) ≤ auDbtaildir parent ∧ Suitable env.wbr env.union parent b)

theorem candidate_free {create : WbrCreate} (hfree : create.free = true) (b : Nat) :
    Candidate env create d parent b ↔ ExpApplies env d parent ∧ (b : Int) = expBranch d parent ∨
      ¬ ExpApplies env d parent ∧ Writable env.wbr env.union b := by
  cases create with
  | tdp => cases hfree
  | rr => exact Iff.rfl
  | mfs => exact Iff.rfl
  | mfsv => exact Iff.rfl
  | mfsrr => exact Iff.rfl
  | mfsrrv => exact Iff.rfl
  | pmfs => cases hfree
  | pmfsv => cases hfree

/-- Whatever is remembered, the branch decided on is a candidate. -/
theorem newBranch_candidate {create : WbrCreate} {mem : PolicyMemory} {isdir : Bool} {b : Nat} {s' : PolicySb}
    (h : NewIn env d parent m)
    (hb : newBranch A env (env.policySb create mem) isdir d parent = some ((b : Int), s')) :
    Candidate env create d parent b ∧ Writable env.wbr env.union b := by
  have hsame : SameRdonly env.wbr env.union (env.policySb create mem).union :=
    sameRdonly_withBytes env.wbr env.union mem.bytes
  obtain ⟨hw, err, hc, hcase⟩ := newBranch_cases h hsame hb (Int.natCast_nonneg b)
  rw [Int.toNat_natCast] at hw
  refine ⟨?_, hw⟩
  -- a writable branch that the policy names is the one decided on, and `tdp` fails only where the copy-up
  -- policies do
  have hnamed : ∀ c : Nat, err = c → Writable env.wbr env.union c → b = c := by
    intro c hc hwc
    rcases hcase with heq | ⟨hno, -⟩
    · omega
    · refine absurd ⟨?_, ?_⟩ hno
      · omega
      · rw [hc]
        exact hwc
  have hfails : err = -EROFS → ¬ ∀ c : Nat, (c : Int) ≤ parent.diBstart → ¬ Writable env.wbr env.union c := by
    intro hc hnone
    have hneg : -EROFS < 0 := by decide
    rcases hcase with heq | ⟨-, hle⟩
    · omega
    · exact hnone b hle hw
  have htdp : auWbrCreateTdp env.wbr (env.policySb create mem).union d parent = .ok err →
      LowestWritable env.wbr env.union parent b := by
    intro hc
    rcases auWbrCreateTdp_same h hsame with ⟨g, hg, hlow⟩ | ⟨hneg, hnone⟩
    · rw [hnamed g (Except.ok.inj (hc.symm.trans hg)) hlow.1.2]
      exact hlow
    · exact absurd hnone (hfails (Except.ok.inj (hc.symm.trans hneg)))
  have hpmfs : auWbrCreatePmfs A env.wbr (env.policySb create mem) d parent = .ok (err, s') →
      ∃ g, LowestWritable env.wbr env.union parent g ∧ (b = g ∨ parent.diBstart ≠ auDbtaildir parent ∧
        (b : Int) ≤ auDbtaildir parent ∧ Suitable env.wbr env.union parent b) := by
    intro hc
    rcases auWbrCreatePmfs_spec h hsame hc with ⟨hneg, hnone⟩ | ⟨g, hlow, hg | ⟨hne, c, hc, hle, hs⟩⟩
    · exact absurd hnone (hfails hneg)
    · exact ⟨g, hlow, Or.inl (hnamed g hg hlow.1.2)⟩
    · rw [hnamed c hc hs.2.1]
      exact ⟨g, hlow, Or.inr ⟨hne, hle, hs⟩⟩
  have hfree : create.free = true → Candidate env create d parent b := by
    intro hfree
    rw [candidate_free hfree]
    rcases auWbrCreateExp_bytes h mem.bytes with ⟨hex, hexp⟩ | ⟨hno, -⟩
    · have hthat := @auWbrCreate_exp A d parent env.wbr (env.policySb create mem) isdir _ hfree hexp hex.1
      have herr : err = expBranch d parent := congrArg Prod.fst (Except.ok.inj (hc.symm.trans hthat))
      have hnat : err = ((expBranch d parent).toNat : Int) := by
        rw [Int.toNat_of_nonneg hex.1]
        exact herr
      refine Or.inl ⟨hex, ?_⟩
      rw [hnamed _ hnat hex.2, Int.toNat_of_nonneg hex.1]
    · exact Or.inr ⟨hno, hw⟩
  cases create with
  | tdp =>
    apply htdp
    unfold auWbrCreate at hc
    dsimp only [RmEnv.policySb] at hc ⊢
    split at hc
    · cases hc
    · rename_i hok
      cases hc
      exact hok
  | rr => exact hfree rfl
  | mfs => exact hfree rfl
  | mfsv => exact hfree rfl
  | mfsrr => exact hfree rfl
  | mfsrrv => exact hfree rfl
  | pmfs => exact hpmfs hc
  | pmfsv => exact hpmfs hc

/-- **The branches** for which what is remembered can be such that they are chosen are the candidates. -/
theorem newBranch_reach_iff (h : NewIn env d parent m) (create : WbrCreate) (b : Nat) :
    (∃ mem isdir s', newBranch A env (env.policySb create mem) isdir d parent = some ((b : Int), s')) ↔
      Candidate env create d parent b := by
  constructor
  · rintro ⟨mem, isdir, s', hb⟩
    exact (newBranch_candidate h hb).1
  intro hcand
  -- the memory is chosen by the policy
  have htake : ∀ {mem : PolicyMemory} {isdir : Bool}, Writable env.wbr env.union b →
      (∃ s', auWbrCreate A env.wbr (env.policySb create mem) d parent isdir = .ok ((b : Int), s')) →
      ∃ mem isdir s', newBranch A env (env.policySb create mem) isdir d parent = some ((b : Int), s') := by
    rintro mem isdir hw ⟨s', hc⟩
    exact ⟨mem, isdir, s', newBranch_of (sameRdonly_withBytes env.wbr env.union mem.bytes) hc hw⟩
  have hfree : create.free = true →
      ∃ mem isdir s', newBranch A env (env.policySb create mem) isdir d parent = some ((b : Int), s') := by
    intro hfree
    rcases (candidate_free hfree b).mp hcand with ⟨hex, hb⟩ | ⟨hno, hw⟩
    · rcases auWbrCreateExp_bytes h (fun _ => 0) with ⟨-, hexp⟩ | ⟨hno, -⟩
      · have hw := hex.2
        rw [← hb, Int.toNat_natCast] at hw
        refine @htake (memoryOf env.wbr (fun _ => 0) b) true hw ⟨env.policySb create (memoryOf env.wbr (fun _ => 0) b), ?_⟩
        rw [hb]
        exact auWbrCreate_exp hfree hexp hex.1
      · exact absurd hex hno
    · obtain ⟨br, hbr⟩ := hw.branch
      exact htake hw (auWbrCreate_memory h hfree hno hw (h.last b br hbr))
  have hpmfs : (∃ g, LowestWritable env.wbr env.union parent g ∧ (b = g ∨ parent.diBstart ≠ auDbtaildir parent ∧
        (b : Int) ≤ auDbtaildir parent ∧ Suitable env.wbr env.union parent b)) →
      ∃ mem, Writable env.wbr env.union b ∧
        ∃ s', auWbrCreatePmfs A env.wbr (env.policySb create mem) d parent = .ok ((b : Int), s') := by
    rintro ⟨g, hlow, hb⟩
    refine ⟨memoryOf env.wbr (onlyOn b) g, ?_, auWbrCreatePmfs_memory h hlow hb⟩
    rcases hb with rfl | ⟨-, -, hs⟩
    · exact hlow.1.2
    · exact hs.2.1
  cases create with
  | tdp =>
    have hlow : LowestWritable env.wbr env.union parent b := hcand
    refine @htake (memoryOf env.wbr (fun _ => 0) b) true hlow.1.2
      ⟨env.policySb .tdp (memoryOf env.wbr (fun _ => 0) b), ?_⟩
    have hsame : SameRdonly env.wbr env.union (env.policySb .tdp (memoryOf env.wbr (fun _ => 0) b)).union :=
      sameRdonly_withBytes env.wbr env.union _
    have hb : auWbrCreateTdp env.wbr (env.policySb .tdp (memoryOf env.wbr (fun _ => 0) b)).union d parent = .ok b := by
      rcases auWbrCreateTdp_same h hsame with ⟨g, hg, hlow'⟩ | ⟨-, hnone⟩
      · rw [hg, hlow'.unique hlow]
      · exact absurd hlow.1.2 (hnone b hlow.1.1)
    unfold auWbrCreate
    dsimp only [RmEnv.policySb] at hb ⊢
    rw [hb]
  | rr => exact hfree rfl
  | mfs => exact hfree rfl
  | mfsv => exact hfree rfl
  | mfsrr => exact hfree rfl
  | mfsrrv => exact hfree rfl
  | pmfs =>
    obtain ⟨mem, hw, hc⟩ := hpmfs hcand
    exact @htake mem true hw hc
  | pmfsv =>
    obtain ⟨mem, hw, hc⟩ := hpmfs hcand
    exact @htake mem true hw hc

end Policies

end KernelPatches.Aufs
