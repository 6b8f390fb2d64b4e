/-
  aufs: the three arrays of the branches stay in line.

  What the branches are for is a list of members: a lower root, and the branch made for it.  An addition
  inserts a member at the index it was given, a deletion removes the member with the given root, and
  everything else leaves the list as it is (`Moves`).  The arrays, the last indexes and `s_maxbytes` are
  what that list says (`InLine`).

  * `auNewBrId_spec`           — the id of a new branch is not 0 and not in use, and the loop ends: there
                                 are fewer branches than ids;
  * `growArrays_spec`          — whichever reallocation fails, the slots in use keep what they hold;
  * `insertBranch_spec`        — the gap is opened at the same index in all three;
  * `removeBranch_spec`        — and closed again;
  * `run_inLine`              — every run of additions and deletions, successful or not.
-/
import KernelPatches.Aufs.Branch
import KernelPatches.Lib.Runs
import Mathlib.Data.Finset.Card
import Mathlib.Order.Bounds.Defs
import Mathlib.Data.Int.ModEq

namespace KernelPatches.Aufs

open KernelPatches.Lib

/-! ## Members -/

/-- A lower root, and its branch. -/
structure Member where
  root : HRoot
  branch : AuBranch

/-- The entry of the root inode for a member. -/
def Member.hinode (m : Member) : AuHinode := ⟨some m.root.dInode, m.branch.brId⟩

/-- `b` is the largest `s_maxbytes` of the members, or 0 if there are none. -/
def MaxBytes (L : List Member) (b : Nat) : Prop :=
  (∀ m ∈ L, m.root.dSb.sMaxbytes ≤ b) ∧ ((∃ m ∈ L, m.root.dSb.sMaxbytes = b) ∨ L = [] ∧ b = 0)

/-- The arrays, their last indexes and `s_maxbytes` are those of the members. -/
structure InLine (cfg : BrConfig) (s : UnionSb) (L : List Member) : Prop where
  siBend : s.siBend = (L.length : Int) - 1
  diBend : s.diBend = (L.length : Int) - 1
  iiBend : s.iiBend = (L.length : Int) - 1
  diBstart : s.diBstart = if L = [] then -1 else 0
  iiBstart : s.iiBstart = if L = [] then -1 else 0
  siBranch : L.map (fun m => some m.branch) <+: s.siBranch
  diHdentry : L.map (fun m => some m.root) <+: s.diHdentry
  iiHinode : L.map Member.hinode <+: s.iiHinode
  siBranch_pos : s.siBranch ≠ []
  diHdentry_pos : s.diHdentry ≠ []
  iiHinode_pos : s.iiHinode ≠ []
  brMntSb : ∀ m ∈ L, m.branch.brMntSb = m.root.dSb
  brId_ne_zero : ∀ m ∈ L, m.branch.brId ≠ 0
  brId_nodup : (L.map fun m => m.branch.brId).Nodup
  sMaxbytes : MaxBytes L s.sMaxbytes
  length_le : L.length ≤ cfg.branchMax

/-- An addition or a deletion, with what it finds. -/
inductive BrEvent where
  | add (add : AuOptAdd) (env : BrInit) (mem : Kmem) (remount : Bool)
  | del (hRoot : HRoot) (brCount : Nat) (busy : Int) (remount : Bool)

def BrEvent.remount : BrEvent → Bool
  | .add _ _ _ remount => remount
  | .del _ _ _ remount => remount

/-- One operation. -/
def brOp (cfg : BrConfig) (fs : LowerFs) (s : UnionSb) : BrEvent → Except BrTrap (Int × UnionSb)
  | .add add env mem remount => auBrAdd cfg fs s add env mem remount
  | .del hRoot brCount busy remount => auBrDel s hRoot brCount busy remount

/-- What the operations, with their results, do to the members. -/
inductive Moves : List Member → BrEvent × Int → List Member → Prop
  | added {L : List Member} {add : AuOptAdd} {env : BrInit} {mem : Kmem} {remount : Bool} {k : Nat}
      {m : Member} (hk : k ≤ L.length) (hbindex : add.bindex = k) (hroot : m.root = add.dentry)
      (hperm : m.branch.brPerm = add.perm) :
      Moves L (.add add env mem remount, 0) (L.insertIdx k m)
  | deleted {L : List Member} {hRoot : HRoot} {brCount : Nat} {busy : Int} {remount : Bool} {k : Nat}
      {m : Member} (hm : L[k]? = some m) (hroot : m.root = hRoot) :
      Moves L (.del hRoot brCount busy remount, 0) (L.eraseIdx k)
  | kept {L : List Member} {e : BrEvent} {err : Int} (h : err ≠ 0 ∨ e.remount = true) : Moves L (e, err) L

section

variable {cfg : BrConfig} {fs : LowerFs} {s s' : UnionSb} {L : List Member}

theorem take_of_prefix {α : Type*} {l a : List α} {n : Nat} (h : l <+: a) (hn : n = l.length) :
    a.take n = l := by
  obtain ⟨rest, rfl⟩ := h
  rw [hn, List.take_left]

theorem InLine.branches (h : InLine cfg s L) :
    s.siBranch.take (s.siBend + 1).toNat = L.map fun m => some m.branch := by
  apply take_of_prefix h.siBranch
  rw [List.length_map, h.siBend]
  omega

theorem InLine.roots (h : InLine cfg s L) :
    s.diHdentry.take (s.diBend + 1).toNat = L.map fun m => some m.root := by
  apply take_of_prefix h.diHdentry
  rw [List.length_map, h.diBend]
  omega

theorem inLine_unmounted : InLine cfg unmounted [] where
  siBend := rfl
  diBend := rfl
  iiBend := rfl
  diBstart := rfl
  iiBstart := rfl
  siBranch := List.nil_prefix
  diHdentry := List.nil_prefix
  iiHinode := List.nil_prefix
  siBranch_pos := List.cons_ne_nil _ _
  diHdentry_pos := List.cons_ne_nil _ _
  iiHinode_pos := List.cons_ne_nil _ _
  brMntSb m h := by cases h
  brId_ne_zero m h := by cases h
  brId_nodup := List.nodup_nil
  sMaxbytes := ⟨fun m h => (List.not_mem_nil h).elim, Or.inr ⟨rfl, rfl⟩⟩
  length_le := Nat.zero_le _

theorem MaxBytes.congr {L' : List Member} {b : Nat} (h : MaxBytes L b)
    (hroot : L'.map Member.root = L.map Member.root) : MaxBytes L' b := by
  have hmem : ∀ {L₁ L₂ : List Member}, L₁.map Member.root = L₂.map Member.root → ∀ m ∈ L₁,
      ∃ m' ∈ L₂, m'.root = m.root := by
    intro L₁ L₂ hmap m hm
    apply List.mem_map.mp
    rw [← hmap]
    exact List.mem_map_of_mem hm
  obtain ⟨hle, hmax⟩ := h
  constructor
  · intro m hm
    obtain ⟨m', hm', heq⟩ := hmem hroot m hm
    rw [← heq]
    exact hle m' hm'
  · rcases hmax with ⟨m, hm, hb⟩ | ⟨rfl, hb⟩
    · obtain ⟨m', hm', heq⟩ := hmem hroot.symm m hm
      exact Or.inl ⟨m', hm', by rw [heq, hb]⟩
    · exact Or.inr ⟨List.map_eq_nil_iff.mp hroot, hb⟩

theorem map_set_self {α β : Type*} {f : α → β} {l : List α} {i : Nat} {x y : α} (h : l[i]? = some x)
    (hf : f y = f x) : (l.set i y).map f = l.map f := by
  obtain ⟨hi, rfl⟩ := List.getElem?_eq_some_iff.mp h
  rw [List.map_set, hf, ← List.getElem_map f (h := by rwa [List.length_map]), List.set_getElem_self]

theorem InLine.slot (h : InLine cfg s L) {i : Nat} {m : Member} (hm : L[i]? = some m) :
    s.siBranch[i]? = some (some m.branch) := by
  obtain ⟨rest, hrest⟩ := h.siBranch
  have hi := (List.getElem?_eq_some_iff.mp hm).1
  rw [← hrest, List.getElem?_append_left (by rwa [List.length_map]), List.getElem?_map, hm]
  rfl

theorem InLine.sbr (h : InLine cfg s L) {i : Nat} (hi : i < L.length) :
    ∃ m, L[i]? = some m ∧ auSbr s i = .ok m.branch := by
  have hm : L[i]? = some L[i] := List.getElem?_eq_getElem hi
  refine ⟨L[i], hm, ?_⟩
  rw [auSbr, List.getD_eq_getElem?_getD, h.slot hm]
  rfl

/-- A branch changes what is kept with it, and neither its id nor its file system. -/
theorem InLine.setBranch (h : InLine cfg s L) {i : Nat} {m : Member} (hm : L[i]? = some m) {br : AuBranch}
    (hid : br.brId = m.branch.brId) (hmnt : br.brMntSb = m.branch.brMntSb) :
    InLine cfg { s with siBranch := s.siBranch.set i (some br) } (L.set i ⟨m.root, br⟩) := by
  obtain ⟨x, hx⟩ : ∃ x : Member, x = ⟨m.root, br⟩ := ⟨_, rfl⟩
  rw [← hx]
  have hid : x.branch.brId = m.branch.brId := by rw [hx, hid]
  have hroots : (L.set i x).map Member.root = L.map Member.root := map_set_self hm (by rw [hx])
  have hlen : (L.set i x).length = L.length := List.length_set
  have hnil : (L.set i x = []) = (L = []) := by
    rw [eq_iff_iff, ← List.length_eq_zero_iff, hlen, List.length_eq_zero_iff]
  have hmem : ∀ m' ∈ L.set i x, m' ∈ L ∨ m' = x := fun m' hm' => List.mem_or_eq_of_mem_set hm'
  have hmL : m ∈ L := List.mem_of_getElem? hm
  constructor
  · rw [hlen]
    exact h.siBend
  · rw [hlen]
    exact h.diBend
  · rw [hlen]
    exact h.iiBend
  · simp only [hnil]
    exact h.diBstart
  · simp only [hnil]
    exact h.iiBstart
  · obtain ⟨rest, hrest⟩ := h.siBranch
    have hi : i < (L.map fun m => some m.branch).length := by
      rw [List.length_map]
      exact (List.getElem?_eq_some_iff.mp hm).1
    show _ <+: s.siBranch.set i _
    rw [← hrest, List.set_append_left _ _ hi, List.map_set, hx]
    exact List.prefix_append _ _
  · rw [map_set_self hm (by rw [hx])]
    exact h.diHdentry
  · rw [map_set_self hm (by rw [Member.hinode, Member.hinode, hid, hx])]
    exact h.iiHinode
  · intro hc
    apply h.siBranch_pos
    rw [← List.length_eq_zero_iff] at hc ⊢
    rwa [List.length_set] at hc
  · exact h.diHdentry_pos
  · exact h.iiHinode_pos
  · intro m' hm'
    rcases hmem m' hm' with hm' | rfl
    · exact h.brMntSb m' hm'
    · rw [hx]
      exact hmnt.trans (h.brMntSb m hmL)
  · intro m' hm'
    rcases hmem m' hm' with hm' | rfl
    · exact h.brId_ne_zero m' hm'
    · rw [hid]
      exact h.brId_ne_zero m hmL
  · rw [map_set_self hm hid]
    exact h.brId_nodup
  · exact h.sMaxbytes.congr hroots
  · rw [hlen]
    exact h.length_le

/-! ## Ids -/

theorem brIndexFrom_spec (L : List Member) (brId : Int) (bindex : Nat) :
    ∃ b, brIndexFrom brId (L.map fun m => some m.branch) bindex = .ok b ∧
      (b < 0 ↔ brId ∉ L.map fun m => m.branch.brId) := by
  induction L generalizing bindex with
  | nil => exact ⟨-1, rfl, by simp⟩
  | cons m L ih =>
    by_cases hid : m.branch.brId = brId
    · refine ⟨bindex, if_pos hid, ?_⟩
      simp [hid]
    · obtain ⟨b, hb, hiff⟩ := ih (bindex + 1)
      refine ⟨b, ?_, ?_⟩
      · rw [← hb]
        exact if_neg hid
      · rw [hiff, List.map_cons, List.mem_cons]
        exact not_congr (or_iff_right (Ne.symm hid)).symm

/-- A counter of `n` values comes by one that is not among fewer than `n`. -/
theorem exists_bmod_notMem (n : Nat) (last : Int) (bad : Finset Int) (h : bad.card < n) :
    ∃ j < n, (last + 1 + j).bmod n ∉ bad := by
  have hinj : Set.InjOn (fun j : Nat => (last + 1 + (j : Int)).bmod n) (Finset.range n) := by
    intro i hi j hj hij
    rw [Finset.coe_range, Set.mem_Iio] at hi hj
    have hmod : (last + 1 + (i : Int)) % n = (last + 1 + (j : Int)) % n := by
      have := congrArg (fun x : Int => x % (n : Int)) hij
      simpa only [Int.bmod_emod] using this
    have hdvd : (n : Int) ∣ (i : Int) - j := by
      have := Int.ModEq.dvd (n := n) hmod.symm
      rwa [show last + 1 + (i : Int) - (last + 1 + j) = (i : Int) - j by omega] at this
    have hzero : (i : Int) - j = 0 := by
      apply Int.eq_zero_of_abs_lt_dvd hdvd
      rw [abs_lt]
      omega
    omega
  have hcard : ((Finset.range n).image fun j : Nat => (last + 1 + (j : Int)).bmod n).card = n := by
    rw [Finset.card_image_of_injOn hinj, Finset.card_range]
  obtain ⟨x, hx, hbad⟩ := Finset.exists_mem_notMem_of_card_lt_card (hcard.symm ▸ h)
  obtain ⟨j, hj, rfl⟩ := Finset.mem_image.mp hx
  exact ⟨j, Finset.mem_range.mp hj, hbad⟩

theorem newBrIdFrom_spec (h : InLine cfg s L) {n j : Nat} (last : Int) (hj : j < n)
    (hgood : (last + 1 + j).bmod (2 ^ cfg.bits) ∉ insert 0 (L.map fun m => m.branch.brId).toFinset) :
    ∃ brId, newBrIdFrom cfg s n last = .ok brId ∧ brId ≠ 0 ∧ brId ∉ L.map fun m => m.branch.brId := by
  induction n generalizing j last with
  | zero => exact absurd hj (Nat.not_lt_zero j)
  | succ n ih =>
    -- The rounds after this one, if it finds nothing.
    have hnext : ∀ j', j = j' + 1 → ∃ brId, newBrIdFrom cfg s n (cfg.succ last) = .ok brId ∧
        brId ≠ 0 ∧ brId ∉ L.map fun m => m.branch.brId := by
      rintro j' rfl
      apply @ih j' (cfg.succ last) (by omega)
      rw [BrConfig.succ, show (last + 1).bmod (2 ^ cfg.bits) + 1 + (j' : Int) =
        (last + 1).bmod (2 ^ cfg.bits) + (1 + j') by omega, Int.bmod_add_bmod]
      rwa [show last + 1 + (1 + (j' : Int)) = last + 1 + ((j' + 1 : Nat) : Int) by omega]
    have hhere : j = 0 → cfg.succ last ≠ 0 ∧ cfg.succ last ∉ L.map fun m => m.branch.brId := by
      rintro rfl
      rw [Nat.cast_zero, Int.add_zero, Finset.mem_insert, List.mem_toFinset, not_or] at hgood
      exact hgood
    have hsplit : j = 0 ∨ ∃ j', j = j' + 1 := by
      cases j with
      | zero => exact Or.inl rfl
      | succ j' => exact Or.inr ⟨j', rfl⟩
    obtain ⟨b, hb, hiff⟩ := brIndexFrom_spec L (cfg.succ last) 0
    have hindex : auBrIndex s (cfg.succ last) = .ok b := by
      rw [auBrIndex, h.branches]
      exact hb
    simp only [newBrIdFrom, hindex]
    by_cases hzero : cfg.succ last = 0
    · rw [if_pos hzero]
      rcases hsplit with hj0 | ⟨j', hj'⟩
      · exact absurd hzero (hhere hj0).1
      · exact hnext j' hj'
    · rw [if_neg hzero]
      by_cases hfree : b < 0
      · rw [if_pos hfree]
        exact ⟨_, rfl, hzero, hiff.mp hfree⟩
      · rw [if_neg hfree]
        rcases hsplit with hj0 | ⟨j', hj'⟩
        · exact absurd (hiff.mpr (hhere hj0).2) hfree
        · exact hnext j' hj'

/-- `au_new_br_id` returns, with an id that is not 0 and not in use. -/
theorem auNewBrId_spec (h : InLine cfg s L) :
    ∃ brId, auNewBrId cfg s = .ok (brId, { s with siLastBrId := brId }) ∧ brId ≠ 0 ∧
      brId ∉ L.map fun m => m.branch.brId := by
  have hcard : (insert 0 (L.map fun m => m.branch.brId).toFinset).card < 2 ^ cfg.bits := by
    have hle : (insert 0 (L.map fun m => m.branch.brId).toFinset).card ≤ L.length + 1 := by
      apply Nat.le_trans (Finset.card_insert_le _ _)
      apply Nat.succ_le_succ
      have := List.toFinset_card_le (L.map fun m => m.branch.brId)
      rwa [List.length_map] at this
    have hfits := cfg.fits
    have hlen := h.length_le
    have hpow : 2 ^ (cfg.bits - 1) < 2 ^ cfg.bits := by
      apply Nat.pow_lt_pow_right (by decide)
      have := cfg.pos
      omega
    omega
  obtain ⟨j, hj, hgood⟩ := exists_bmod_notMem (2 ^ cfg.bits) s.siLastBrId _ hcard
  obtain ⟨brId, hid, hzero, hfree⟩ := newBrIdFrom_spec h s.siLastBrId hj (by exact_mod_cast hgood)
  refine ⟨brId, ?_, hzero, hfree⟩
  rw [auNewBrId, hid]

/-! ## Growing the arrays -/

theorem auKzrealloc_spec {α : Type*} {l p : List α} {sz n : Nat} {zero : α} {mem : Kmem}
    (hl : l <+: p) (hp : p ≠ []) (hsz : sz = if l.length = 0 then 1 else l.length)
    (hn : n = l.length + 1) {q : List α} (hq : (auKzrealloc p sz n zero mem).1 = some q) :
    ∃ y rest, q = l ++ y :: rest := by
  obtain ⟨rest, rfl⟩ := hl
  rw [auKzrealloc] at hq
  by_cases hzero : l.length = 0
  · rw [if_pos hzero] at hsz
    rw [if_pos (by omega)] at hq
    obtain rfl : l = [] := List.eq_nil_of_length_eq_zero hzero
    cases rest with
    | nil => exact absurd rfl hp
    | cons y rest => exact ⟨y, rest, (Option.some.inj hq).symm⟩
  · rw [if_neg hzero] at hsz
    rw [if_neg (by omega)] at hq
    simp only at hq
    split at hq
    · cases hq
    · refine ⟨zero, [], ?_⟩
      rw [← Option.some.inj hq, hsz, regrow_append zero (by omega), hn, Nat.add_sub_cancel_left]
      rfl

/-- There is a slot behind those in use. -/
def Room {α : Type*} (a l : List α) : Prop := ∃ y rest, a = l ++ y :: rest

theorem Room.prefix {α : Type*} {a l : List α} (h : Room a l) : l <+: a := by
  obtain ⟨y, rest, rfl⟩ := h
  exact List.prefix_append _ _

theorem Room.ne_nil {α : Type*} {a l : List α} (h : Room a l) : a ≠ [] := by
  obtain ⟨y, rest, rfl⟩ := h
  exact List.append_ne_nil_of_right_ne_nil _ (List.cons_ne_nil _ _)

/-- Whichever reallocation fails, the slots in use keep what they hold. -/
theorem growArrays_spec (h : InLine cfg s L) {n : Nat} (hn : n = L.length + 1) {mem : Kmem} :
    InLine cfg (growArrays s n mem).2.1 L ∧
      ((growArrays s n mem).1 = true →
        Room (growArrays s n mem).2.1.siBranch (L.map fun m => some m.branch) ∧
          Room (growArrays s n mem).2.1.diHdentry (L.map fun m => some m.root) ∧
          Room (growArrays s n mem).2.1.iiHinode (L.map Member.hinode)) := by
  have hsz : (if n - 1 = 0 then 1 else n - 1) = if L.length = 0 then 1 else L.length := by
    rw [hn, Nat.add_sub_cancel]
  unfold growArrays
  dsimp only
  split
  · exact ⟨h, fun hc => absurd hc Bool.false_ne_true⟩
  · rename_i p hp
    have hroom : Room p (L.map fun m => some m.branch) :=
      auKzrealloc_spec h.siBranch h.siBranch_pos (by rw [List.length_map, hsz])
        (by rw [List.length_map, hn]) hp
    have h₁ : InLine cfg { s with siBranch := p } L :=
      { h with siBranch := hroom.prefix, siBranch_pos := hroom.ne_nil }
    split
    · exact ⟨h₁, fun hc => absurd hc Bool.false_ne_true⟩
    · rename_i p₂ hp₂
      have hroom₂ : Room p₂ (L.map fun m => some m.root) :=
        auKzrealloc_spec h.diHdentry h.diHdentry_pos (by rw [List.length_map, hsz])
          (by rw [List.length_map, hn]) hp₂
      have h₂ : InLine cfg { s with siBranch := p, diHdentry := p₂ } L :=
        { h₁ with diHdentry := hroom₂.prefix, diHdentry_pos := hroom₂.ne_nil }
      split
      · exact ⟨h₂, fun hc => absurd hc Bool.false_ne_true⟩
      · rename_i p₃ hp₃
        have hroom₃ : Room p₃ (L.map Member.hinode) :=
          auKzrealloc_spec h.iiHinode h.iiHinode_pos (by rw [List.length_map, hsz])
            (by rw [List.length_map, hn]) hp₃
        exact ⟨{ h₂ with iiHinode := hroom₃.prefix, iiHinode_pos := hroom₃.ne_nil },
          fun _ => ⟨hroom, hroom₂, hroom₃⟩⟩

theorem allocAddbr_spec (h : InLine cfg s L) {n : Nat} (hn : n = L.length + 1) (perm : BrPerm)
    (mem : Kmem) :
    InLine cfg (allocAddbr s n perm mem).2.1 L ∧
      ((allocAddbr s n perm mem).1 = true →
        Room (allocAddbr s n perm mem).2.1.siBranch (L.map fun m => some m.branch) ∧
          Room (allocAddbr s n perm mem).2.1.diHdentry (L.map fun m => some m.root) ∧
          Room (allocAddbr s n perm mem).2.1.iiHinode (L.map Member.hinode)) := by
  have hfail : InLine cfg s L ∧ (false = true → Room s.siBranch (L.map fun m => some m.branch) ∧
      Room s.diHdentry (L.map fun m => some m.root) ∧ Room s.iiHinode (L.map Member.hinode)) :=
    ⟨h, fun hc => absurd hc Bool.false_ne_true⟩
  unfold allocAddbr
  dsimp only
  split
  · exact hfail
  · split
    · exact hfail
    · split
      · split
        · exact hfail
        · exact growArrays_spec h hn
      · exact growArrays_spec h hn

/-! ## Adding -/

theorem MaxBytes.insert {b k : Nat} (h : MaxBytes L b) (hk : k ≤ L.length) (m : Member) :
    MaxBytes (L.insertIdx k m)
      (if b < m.root.dSb.sMaxbytes then m.root.dSb.sMaxbytes else b) := by
  have hmem : ∀ m', m' ∈ L.insertIdx k m ↔ m' = m ∨ m' ∈ L := fun m' => List.mem_insertIdx hk
  obtain ⟨hle, hmax⟩ := h
  constructor
  · intro m' hm'
    rcases (hmem m').mp hm' with rfl | hm'
    · split <;> omega
    · have := hle m' hm'
      split <;> omega
  · left
    by_cases hlt : b < m.root.dSb.sMaxbytes
    · rw [if_pos hlt]
      exact ⟨m, (hmem m).mpr (Or.inl rfl), rfl⟩
    · rw [if_neg hlt]
      rcases hmax with ⟨m', hm', heq⟩ | ⟨-, rfl⟩
      · exact ⟨m', (hmem m').mpr (Or.inr hm'), heq⟩
      · exact ⟨m, (hmem m).mpr (Or.inl rfl), by omega⟩

/-- A gap is opened in an array with room, and filled. -/
theorem insert_slot {α β : Type*} {a : List β} {f : α → β} {L : List α} {k : Nat} (x : α)
    (hroom : Room a (L.map f)) (hk : k ≤ L.length) {amount : Nat} (hamount : amount = L.length - k) :
    (L.insertIdx k x).map f <+: (memmove a (k + 1) k amount).set k (f x) := by
  obtain ⟨y, rest, rfl⟩ := hroom
  have hlen : (L.map f).length = L.length := List.length_map f
  have hopen := memmove_open (L.map f) rest (f x) y (hk.trans_eq hlen.symm)
  rw [hlen, ← hamount] at hopen
  rw [hopen, List.map_insertIdx]
  exact List.prefix_append _ _

theorem insertBranch_spec (h : InLine cfg s L) {k : Nat} (hk : k ≤ L.length) {m : Member}
    (hbranch : Room s.siBranch (L.map fun m => some m.branch))
    (hdentry : Room s.diHdentry (L.map fun m => some m.root))
    (hinode : Room s.iiHinode (L.map Member.hinode))
    (hmnt : m.branch.brMntSb = m.root.dSb) (hzero : m.branch.brId ≠ 0)
    (hfree : m.branch.brId ∉ L.map fun m => m.branch.brId) (hlen : L.length < cfg.branchMax) :
    InLine cfg (insertBranch s k m.root m.branch) (L.insertIdx k m) := by
  have hmem : ∀ m', m' ∈ L.insertIdx k m ↔ m' = m ∨ m' ∈ L := fun m' => List.mem_insertIdx hk
  have hlength : (L.insertIdx k m).length = L.length + 1 := List.length_insertIdx_of_le_length hk m
  have hne : L.insertIdx k m ≠ [] := by
    intro hc
    rw [hc] at hlength
    cases hlength
  have hamount : (s.siBend + 1 - k).toNat = L.length - k := by
    rw [h.siBend]
    omega
  have hslots₁ := insert_slot (f := fun m => some m.branch) m hbranch hk hamount
  have hslots₂ := insert_slot (f := fun m => some m.root) m hdentry hk hamount
  have hslots₃ := insert_slot (f := Member.hinode) m hinode hk hamount
  have hpos : ∀ {β : Type} {f : Member → β} {a : List β}, (L.insertIdx k m).map f <+: a → a ≠ [] := by
    rintro β f a hpre rfl
    exact hne (List.map_eq_nil_iff.mp (List.prefix_nil.mp hpre))
  have hlast : (if s.siBend < 0 then 0 else s.siBend + 1) = ((L.insertIdx k m).length : Int) - 1 := by
    rw [hlength, h.siBend]
    split <;> omega
  have hstart : ∀ b : Int, b = (if L = [] then -1 else 0) → (if s.siBend < 0 then 0 else b) =
      if L.insertIdx k m = [] then -1 else 0 := by
    rintro b rfl
    rw [if_neg hne, h.siBend]
    cases L with
    | nil => rfl
    | cons m' L => exact ite_self _
  constructor
  · exact hlast
  · show s.diBend + 1 = _
    rw [hlength, h.diBend]
    omega
  · show s.iiBend + 1 = _
    rw [hlength, h.iiBend]
    omega
  · exact hstart _ h.diBstart
  · exact hstart _ h.iiBstart
  · exact hslots₁
  · exact hslots₂
  · exact hslots₃
  · exact hpos hslots₁
  · exact hpos hslots₂
  · exact hpos hslots₃
  · intro m' hm'
    rcases (hmem m').mp hm' with rfl | hm'
    · exact hmnt
    · exact h.brMntSb m' hm'
  · intro m' hm'
    rcases (hmem m').mp hm' with rfl | hm'
    · exact hzero
    · exact h.brId_ne_zero m' hm'
  · rw [List.map_insertIdx]
    apply (List.perm_insertIdx _ _ (by rwa [List.length_map])).nodup_iff.mpr
    exact List.nodup_cons.mpr ⟨hfree, h.brId_nodup⟩
  · exact h.sMaxbytes.insert hk m
  · rw [hlength]
    exact hlen

/-! ## Deleting -/

theorem MaxBytes.erase {b k : Nat} (h : MaxBytes L b) {m : Member} (hm : L[k]? = some m)
    (hlt : m.root.dSb.sMaxbytes ≠ b) : MaxBytes (L.eraseIdx k) b := by
  obtain ⟨hle, hmax⟩ := h
  constructor
  · intro m' hm'
    exact hle m' (List.mem_of_mem_eraseIdx hm')
  · rcases hmax with ⟨m', hm', heq⟩ | ⟨rfl, -⟩
    · left
      obtain ⟨i, hi⟩ := List.mem_iff_getElem?.mp hm'
      refine ⟨m', List.mem_eraseIdx_iff_getElem?.mpr ⟨i, ?_, hi⟩, heq⟩
      rintro rfl
      rw [hm] at hi
      obtain rfl := Option.some.inj hi
      exact hlt heq
    · cases hm

theorem maxbytesOf_spec (L : List Member) (b : Nat) (hmnt : ∀ m ∈ L, m.branch.brMntSb = m.root.dSb) :
    ∃ b', maxbytesOf (L.map fun m => some m.branch) b = .ok b' ∧ b ≤ b' ∧
      (∀ m ∈ L, m.root.dSb.sMaxbytes ≤ b') ∧ (b' = b ∨ ∃ m ∈ L, m.root.dSb.sMaxbytes = b') := by
  induction L generalizing b with
  | nil => exact ⟨b, rfl, Nat.le_refl b, fun m h => (List.not_mem_nil h).elim, Or.inl rfl⟩
  | cons m L ih =>
    have hm := hmnt m List.mem_cons_self
    obtain ⟨b', hb', hle, hall, hmax⟩ := ih
      (if b < m.branch.brMntSb.sMaxbytes then m.branch.brMntSb.sMaxbytes else b)
      fun m' hm' => hmnt m' (List.mem_cons_of_mem m hm')
    rw [hm] at hle hmax
    refine ⟨b', hb', ?_, ?_, ?_⟩
    · split at hle <;> omega
    · intro m' hm'
      rcases List.mem_cons.mp hm' with rfl | hm'
      · split at hle <;> omega
      · exact hall m' hm'
    · rcases hmax with heq | ⟨m', hm', heq⟩
      · split at heq
        · exact Or.inr ⟨m, List.mem_cons_self, heq.symm⟩
        · exact Or.inl heq
      · exact Or.inr ⟨m', List.mem_cons_of_mem m hm', heq⟩

/-- The gap is closed in an array. -/
theorem erase_slot {α β : Type*} {a : List β} {f : α → β} {L : List α} {k : Nat} (x : β)
    (hpre : L.map f <+: a) (hk : k < L.length) {bend : Nat} (hbend : bend = L.length - 1) :
    (L.eraseIdx k).map f <+:
      (if k < bend then memmove a k (k + 1) (bend - k) else a).set bend x := by
  obtain ⟨rest, rfl⟩ := hpre
  have hlen : (L.map f).length = L.length := List.length_map f
  have hclose := memmove_close (L.map f) rest x (hk.trans_eq hlen.symm)
  rw [hlen, ← hbend] at hclose
  have hmove : (if k < bend then memmove (L.map f ++ rest) k (k + 1) (bend - k) else L.map f ++ rest) =
      memmove (L.map f ++ rest) k (k + 1) (bend - k) := by
    split
    · rfl
    · rw [show bend - k = 0 by omega, memmove, List.take_zero, List.append_nil, Nat.add_zero,
        List.take_append_drop]
  rw [hmove, hclose, ← List.eraseIdx_map]
  exact List.prefix_append _ _

theorem findDbindexFrom_spec (L : List Member) (hRoot : HRoot) (bindex : Int) :
    findDbindexFrom hRoot (L.map fun m => some m.root) bindex = -1 ∨
      ∃ k m, findDbindexFrom hRoot (L.map fun m => some m.root) bindex = bindex + (k : Nat) ∧
        L[k]? = some m ∧ m.root = hRoot := by
  induction L generalizing bindex with
  | nil => exact Or.inl rfl
  | cons m L ih =>
    by_cases hroot : m.root = hRoot
    · refine Or.inr ⟨0, m, ?_, rfl, hroot⟩
      rw [List.map_cons, findDbindexFrom, if_pos (congrArg some hroot), Nat.cast_zero, Int.add_zero]
    · rw [List.map_cons, findDbindexFrom, if_neg (fun hc => hroot (Option.some.inj hc))]
      rcases ih (bindex + 1) with hnone | ⟨k, m', hk, hm', hroot'⟩
      · exact Or.inl hnone
      · refine Or.inr ⟨k + 1, m', ?_, hm', hroot'⟩
        rw [hk]
        omega

theorem auFindDbindex_spec (h : InLine cfg s L) (hRoot : HRoot) :
    auFindDbindex s hRoot = -1 ∨ ∃ (k : Nat) (m : Member), auFindDbindex s hRoot = k ∧ L[k]? = some m ∧
      m.root = hRoot := by
  rw [auFindDbindex]
  split
  · exact Or.inl rfl
  · rename_i hstart
    have hzero : s.diBstart = 0 := by
      rw [h.diBstart]
      split
      · rename_i hnil
        exact absurd (by rw [h.diBstart, if_pos hnil]; decide) hstart
      · rfl
    rw [hzero, Int.toNat_zero, List.drop_zero, h.roots]
    simpa only [Int.zero_add] using findDbindexFrom_spec L hRoot 0

theorem removeBranch_spec (h : InLine cfg s L) {k : Nat} (hk : k < L.length) (hmany : 1 < L.length)
    {b : Nat} (hb : MaxBytes (L.eraseIdx k) b) :
    InLine cfg { removeBranch s k with sMaxbytes := b } (L.eraseIdx k) := by
  have hlength : (L.eraseIdx k).length = L.length - 1 := List.length_eraseIdx_of_lt hk
  have hne : L.eraseIdx k ≠ [] := by
    intro hc
    rw [hc, List.length_nil] at hlength
    omega
  have hbend : s.siBend.toNat = L.length - 1 := by
    rw [h.siBend]
    omega
  have hslots₁ := erase_slot (f := fun m : Member => some m.branch) none h.siBranch hk hbend
  have hslots₂ := erase_slot (f := fun m : Member => some m.root) none h.diHdentry hk hbend
  have hslots₃ := fun x => erase_slot (f := Member.hinode) x h.iiHinode hk hbend
  have hpos : ∀ {β : Type} {f : Member → β} {a : List β}, (L.eraseIdx k).map f <+: a → a ≠ [] := by
    rintro β f a hpre rfl
    exact hne (List.map_eq_nil_iff.mp (List.prefix_nil.mp hpre))
  have hlast : ∀ b : Int, b = (L.length : Int) - 1 → b - 1 = ((L.eraseIdx k).length : Int) - 1 := by
    rintro b rfl
    rw [hlength]
    omega
  have hstart : ∀ b : Int, b = (if L = [] then -1 else 0) → b = if L.eraseIdx k = [] then -1 else 0 := by
    rintro b rfl
    rw [if_neg hne, if_neg]
    rintro rfl
    cases hk
  constructor
  · exact hlast _ h.siBend
  · exact hlast _ h.diBend
  · exact hlast _ h.iiBend
  · exact hstart _ h.diBstart
  · exact hstart _ h.iiBstart
  · exact hslots₁
  · exact hslots₂
  · exact hslots₃ _
  · exact hpos hslots₁
  · exact hpos hslots₂
  · exact hpos (hslots₃ _)
  · intro m hm
    exact h.brMntSb m (List.mem_of_mem_eraseIdx hm)
  · intro m hm
    exact h.brId_ne_zero m (List.mem_of_mem_eraseIdx hm)
  · rw [← List.eraseIdx_map]
    exact h.brId_nodup.eraseIdx k
  · exact hb
  · rw [hlength]
    have := h.length_le
    omega

/-! ## Runs -/

/-- An operation that leaves the members as they are. -/
theorem moves_kept {e : BrEvent} {err : Int} (herr : err ≠ 0 ∨ e.remount = true) (h : InLine cfg s L) :
    ∃ L', Moves L (e, err) L' ∧ InLine cfg s L' :=
  ⟨L, Moves.kept herr, h⟩

theorem ite_nonpos {c : Prop} [Decidable c] {a b : Int} (ha : c → a ≤ 0) (hb : b ≤ 0) :
    (if c then a else b) ≤ 0 := by
  split
  · exact ha ‹_›
  · exact hb

/-- A path that `test_add` does not refuse is to be ignored in a remount, or has an index in range. -/
theorem testAdd_cases (cfg : BrConfig) (fs : LowerFs) (s : UnionSb) (add : AuOptAdd) (remount : Bool) :
    testAdd cfg fs s add remount < 0 ∨ (0 < testAdd cfg fs s add remount ∧ remount = true) ∨
      (testAdd cfg fs s add remount = 0 ∧ 0 ≤ add.bindex ∧ add.bindex ≤ s.siBend + 1 ∧
        s.siBend < (cfg.branchMax : Int) - 1) := by
  rw [testAdd]
  by_cases hdup : 0 ≤ s.siBend ∧ 0 ≤ auFindDbindex s add.dentry
  · rw [if_pos hdup]
    cases remount with
    | true => exact Or.inr (Or.inl ⟨by decide, rfl⟩)
    | false => exact Or.inl (by decide)
  · rw [if_neg hdup]
    by_cases hmax : cfg.branchMax ≤ add.bindex ∨ (cfg.branchMax : Int) - 1 ≤ s.siBend
    · rw [if_pos hmax]
      exact Or.inl (by decide)
    · rw [if_neg hmax]
      by_cases hdom : add.bindex < 0 ∨ s.siBend + 1 < add.bindex
      · rw [if_pos hdom]
        exact Or.inl (by decide)
      · rw [if_neg hdom]
        have hinval : -EINVAL ≤ 0 := by decide
        have hbr : testBr fs add.dentry add.perm ≤ 0 := ite_nonpos (fun _ => hinval) (Int.le_refl 0)
        have hrest := ite_nonpos (fun _ : add.dentry.iNlink = 0 => show -ENOENT ≤ 0 by decide)
          (ite_nonpos (fun _ : fs.inUnion add.dentry.dSb = true => hinval)
          (ite_nonpos (fun _ : fs.nested add.dentry.dSb = true => hinval)
          (ite_nonpos (fun _ : fs.unsupportedFs add.dentry.dSb = true => hinval)
          (ite_nonpos (fun _ : fs.unsupportedNfs add.dentry.dSb = true => hinval)
          (ite_nonpos (fun _ : fs.unsupportedNfs4 add.dentry.dSb = true => hinval)
          (ite_nonpos (fun _ : testBr fs add.dentry add.perm ≠ 0 => hbr)
          (ite_nonpos (fun _ : s.siBend < 0 => Int.le_refl 0)
          (ite_nonpos (fun _ : (s.diHdentry.take (s.siBend + 1).toNat).any
              (fun hd => hd.any fun h => add.dentry = h || fs.overlap add.dentry h) = true => hinval)
            (Int.le_refl 0)))))))))
        rcases Int.lt_or_eq_of_le hrest with hneg | hzero
        · exact Or.inl hneg
        · exact Or.inr (Or.inr ⟨hzero, by omega⟩)

theorem auBrInit_spec (h : InLine cfg s L) (add : AuOptAdd) (env : BrInit) :
    (∃ err, err ≠ 0 ∧ auBrInit cfg s add env = .ok (.error err, s)) ∨
      ∃ br, auBrInit cfg s add env = .ok (.ok br, { s with siLastBrId := br.brId }) ∧
        br.brPerm = add.perm ∧ br.brMntSb = add.dentry.dSb ∧ br.brId ≠ 0 ∧
        br.brId ∉ L.map fun m => m.branch.brId := by
  rw [auBrInit]
  by_cases hwh : auBrWritable add.perm ∧ env.whInit ≠ 0
  · rw [if_pos hwh]
    exact Or.inl ⟨_, hwh.2, rfl⟩
  · rw [if_neg hwh]
    by_cases hxino : env.xino ∧ env.xinoBr ≠ 0
    · rw [if_pos hxino]
      exact Or.inl ⟨_, hxino.2, rfl⟩
    · rw [if_neg hxino]
      obtain ⟨brId, hid, hzero, hfree⟩ := auNewBrId_spec h
      rw [hid]
      exact Or.inr ⟨_, rfl, rfl, rfl, hzero, hfree⟩

theorem auBrAdd_spec (fs : LowerFs) (h : InLine cfg s L) (add : AuOptAdd) (env : BrInit) (mem : Kmem)
    (remount : Bool) :
    ∃ err s', auBrAdd cfg fs s add env mem remount = .ok (err, s') ∧
      ∃ L', Moves L (.add add env mem remount, err) L' ∧ InLine cfg s' L' := by
  rw [auBrAdd]
  dsimp only
  rcases testAdd_cases cfg fs s add remount with
    hneg | ⟨hpos, hrem⟩ | ⟨hzero, hlow, hhigh, hmax⟩
  · rw [if_pos hneg]
    exact ⟨_, _, rfl, moves_kept (Or.inl (by omega)) h⟩
  · rw [if_neg (by omega), if_pos (by omega)]
    exact ⟨_, _, rfl, moves_kept (Or.inr hrem) h⟩
  · rw [if_neg (by omega), if_neg (fun hc => hc hzero)]
    have hlength : (s.siBend + 2).toNat = L.length + 1 := by
      rw [h.siBend]
      omega
    obtain ⟨halloc, hroom⟩ := allocAddbr_spec h hlength add.perm mem
    generalize allocAddbr s (s.siBend + 2).toNat add.perm mem = a at halloc hroom
    obtain ⟨ok, s₁, mem₁⟩ := a
    cases ok with
    | false => exact ⟨_, _, rfl, moves_kept (Or.inl (by decide)) halloc⟩
    | true =>
      obtain ⟨hbranch, hdentry, hinode⟩ := hroom rfl
      have hok : ¬ (!true) = true := Bool.false_ne_true
      dsimp only
      rw [if_neg hok]
      rcases auBrInit_spec halloc add env with ⟨err, herr, hinit⟩ | ⟨br, hinit, hperm, hmnt, hid, hfree⟩
      · rw [hinit]
        exact ⟨_, _, rfl, moves_kept (Or.inl herr) halloc⟩
      · rw [hinit]
        have hk : add.bindex.toNat ≤ L.length := by
          rw [h.siBend] at hhigh
          omega
        have hlen : L.length < cfg.branchMax := by
          rw [h.siBend] at hmax
          omega
        refine ⟨_, _, rfl, L.insertIdx add.bindex.toNat ⟨add.dentry, br⟩,
          Moves.added hk (Int.toNat_of_nonneg hlow).symm rfl hperm, ?_⟩
        have h₁ : InLine cfg { s₁ with siLastBrId := br.brId } L := { halloc with }
        exact @insertBranch_spec cfg _ L h₁ _ hk ⟨add.dentry, br⟩ hbranch hdentry hinode hmnt hid hfree
          hlen

theorem auBrDel_spec (h : InLine cfg s L) (hRoot : HRoot) (brCount : Nat) (busy : Int)
    (remount : Bool) :
    ∃ err s', auBrDel s hRoot brCount busy remount = .ok (err, s') ∧
      ∃ L', Moves L (.del hRoot brCount busy remount, err) L' ∧ InLine cfg s' L' := by
  rw [auBrDel]
  dsimp only
  rcases auFindDbindex_spec h hRoot with hnone | ⟨k, m, hk, hm, hroot⟩
  · rw [hnone, if_pos (by decide)]
    refine ⟨_, _, rfl, moves_kept ?_ h⟩
    cases remount with
    | true => exact Or.inr rfl
    | false => exact Or.inl (by decide)
  · have hlt : k < L.length := (List.getElem?_eq_some_iff.mp hm).1
    rw [hk, if_neg (by omega), Int.toNat_natCast]
    by_cases hone : s.siBend = 0
    · rw [if_pos hone]
      exact ⟨_, _, rfl, moves_kept (Or.inl (by decide)) h⟩
    · rw [if_neg hone]
      have hmany : 1 < L.length := by
        have := h.siBend
        omega
      obtain ⟨m', hm', hsbr⟩ := h.sbr hlt
      obtain rfl := Option.some.inj (hm.symm.trans hm')
      rw [hsbr]
      dsimp only
      by_cases hcount : brCount ≠ 0
      · rw [if_pos hcount]
        exact ⟨_, _, rfl, moves_kept (Or.inl (by decide)) h⟩
      · rw [if_neg hcount]
        by_cases hbusy : busy ≠ 0
        · rw [if_pos hbusy]
          exact ⟨_, _, rfl, moves_kept (Or.inl hbusy) h⟩
        · rw [if_neg hbusy]
          have hmove : Moves L (.del hRoot brCount busy remount, 0) (L.eraseIdx k) :=
            Moves.deleted hm hroot
          by_cases hmax : (removeBranch s k).sMaxbytes = hRoot.dSb.sMaxbytes
          · rw [if_pos hmax]
            obtain ⟨b, hb, -, hall, hsome⟩ := maxbytesOf_spec (L.eraseIdx k) 0 fun m hm =>
              h.brMntSb m (List.mem_of_mem_eraseIdx hm)
            have hmaxb : MaxBytes (L.eraseIdx k) b := by
              refine ⟨hall, ?_⟩
              rcases hsome with rfl | hsome
              · left
                obtain ⟨m', hm'⟩ : ∃ m', m' ∈ L.eraseIdx k := by
                  apply List.exists_mem_of_length_pos
                  rw [List.length_eraseIdx_of_lt hlt]
                  omega
                exact ⟨m', hm', Nat.le_zero.mp (hall m' hm')⟩
              · exact Or.inl hsome
            have h' := removeBranch_spec h hlt hmany hmaxb
            have hbranches : (removeBranch s k).siBranch.take ((removeBranch s k).siBend + 1).toNat =
                (L.eraseIdx k).map fun m => some m.branch := h'.branches
            rw [hbranches, hb]
            exact ⟨_, _, rfl, _, hmove, h'⟩
          · rw [if_neg hmax]
            have hmaxb : MaxBytes (L.eraseIdx k) s.sMaxbytes := by
              apply h.sMaxbytes.erase hm
              rw [hroot]
              exact Ne.symm hmax
            exact ⟨_, _, rfl, _, hmove, removeBranch_spec h hlt hmany hmaxb⟩

/-- One operation: it returns, and what it does to the arrays it does to the members. -/
theorem brOp_spec (fs : LowerFs) (h : InLine cfg s L) (e : BrEvent) :
    ∃ err s', brOp cfg fs s e = .ok (err, s') ∧ ∃ L', Moves L (e, err) L' ∧ InLine cfg s' L' := by
  cases e with
  | add add env mem remount => exact auBrAdd_spec fs h add env mem remount
  | del hRoot brCount busy remount => exact auBrDel_spec h hRoot brCount busy remount

/-- A step of a run: an operation and its result. -/
def BrStep (cfg : BrConfig) (fs : LowerFs) (s : UnionSb) (e : BrEvent × Int) (s' : UnionSb) : Prop :=
  brOp cfg fs s e.1 = .ok (e.2, s')

/-- **The arrays stay in line.**  After any additions and deletions, successful or not, they are what
    the members are: the members the operations have inserted and removed one at a time.  The next
    operation returns, whatever it is. -/
theorem run_inLine {es : List (BrEvent × Int)} (hrun : Run (BrStep cfg fs) unmounted es s) :
    ∃ L, Run Moves [] es L ∧ InLine cfg s L ∧ ∀ e, ∃ r, brOp cfg fs s e = .ok r := by
  have halign : ∃ L, Run Moves [] es L ∧ InLine cfg s L := by
    induction hrun with
    | nil => exact ⟨[], Run.nil, inLine_unmounted⟩
    | @snoc es s s' e _ hs ih =>
      obtain ⟨L, hmoves, h⟩ := ih
      obtain ⟨err, s₁, hop, L', hmove, h'⟩ := brOp_spec fs h e.1
      obtain ⟨rfl, rfl⟩ := Prod.mk.inj (Except.ok.inj (hop.symm.trans hs))
      exact ⟨L', hmoves.snoc hmove, h'⟩
  obtain ⟨L, hmoves, h⟩ := halign
  refine ⟨L, hmoves, h, fun e => ?_⟩
  obtain ⟨err, s', hop, -⟩ := brOp_spec fs h e
  exact ⟨_, hop⟩

end

/-- Lower file systems that nothing is wrong with. -/
def plainFs : LowerFs :=
  ⟨fun _ => false, fun _ => false, fun _ => false, fun _ => false, fun _ => false, fun _ => false,
    fun _ _ => false⟩

/-- A root of its own file system. -/
def plainRoot (n : Nat) : HRoot := ⟨n, n, 2, ⟨n, 1000 * n⟩⟩

/-- A union of one branch. -/
def mountedOne : UnionSb :=
  { siBend := 0, siLastBrId := 1, sMaxbytes := 1000
    siBranch := [some ⟨1, .rw, ⟨1, 1000⟩, some 0⟩]
    diBstart := 0, diBend := 0, diHdentry := [some (plainRoot 1)]
    iiBstart := 0, iiBend := 0, iiHinode := [⟨some 1, 1⟩] }

/-- Another branch is added above it. -/
def mountedTwo : UnionSb :=
  { siBend := 1, siLastBrId := 2, sMaxbytes := 2000
    siBranch := [some ⟨2, .rw, ⟨2, 2000⟩, some 0⟩, some ⟨1, .rw, ⟨1, 1000⟩, some 0⟩]
    diBstart := 0, diBend := 1, diHdentry := [some (plainRoot 2), some (plainRoot 1)]
    iiBstart := 0, iiBend := 1, iiHinode := [⟨some 2, 2⟩, ⟨some 1, 1⟩] }

/-- An addition of a writable branch at the top, which is successful. -/
def addTop (n : Nat) : BrEvent × Int := (.add ⟨0, .rw, plainRoot n⟩ ⟨0, false, 0⟩ [] false, 0)

theorem mountedOne_step : BrStep branchMax127 plainFs unmounted (addTop 1) mountedOne := rfl

theorem mountedTwo_step : BrStep branchMax127 plainFs mountedOne (addTop 2) mountedTwo := rfl

theorem run_inLine_two : ∃ L, Run Moves [] [addTop 1, addTop 2] L ∧ InLine branchMax127 mountedTwo L ∧
    ∀ e, ∃ r, brOp branchMax127 plainFs mountedTwo e = .ok r :=
  run_inLine ((Run.nil.snoc mountedOne_step).snoc mountedTwo_step)

end KernelPatches.Aufs
