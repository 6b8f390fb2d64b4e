/-
  aufs: the hidden inodes of an inode after the branches have moved.

  A hidden inode is at the index of its branch.  When branches are added and deleted, `au_refresh_hinode_self`
  moves the hidden inodes to the places their branches have now, IN PLACE: each one is swapped with what is in
  its new place, and what has come from there is looked at next.  Meanwhile the range `ii_bstart..ii_bend`
  grows with the places that are taken.

  The loop ends since it either goes on to the next index or puts one more hidden inode where it belongs, and
  what is where it belongs is not moved again.

  * `IInfo.Numbered`        — the hidden inodes of an inode are in its range and on different branches;
  * `Unsettled`             — the places that do not have the hidden inode they should have;
  * `Refreshing.step`       — what one round keeps, and that something becomes less;
  * `refreshSelf_places`    — in the end each hidden inode whose branch is there is in its place, the others are
                              gone, and the range is right.
-/
import Mathlib.Data.Finset.Card
import Mathlib.Order.Bounds.Basic
import Mathlib.Logic.Equiv.Basic
import KernelPatches.Aufs.Inode

namespace KernelPatches.Aufs

/-! ## The index of a branch -/

section Index

variable {br : UnionSb}

/-- The search of `au_br_index` ends with the index of a branch that has the id, or with -1. -/
theorem brIndexFrom_found (brId : Int) : ∀ (L : List (Option AuBranch)) (bindex : Nat),
    (∀ k < L.length, ∃ x, L[k]? = some (some x)) →
    ∃ n, brIndexFrom brId L bindex = .ok n ∧
      (n = -1 ∨ ∃ k < L.length, n = ((bindex + k : Nat) : Int) ∧ ∃ x, L[k]? = some (some x) ∧ x.brId = brId) := by
  intro L
  induction L with
  | nil => exact fun bindex _ => ⟨-1, rfl, Or.inl rfl⟩
  | cons b L ih =>
    intro bindex hthere
    obtain ⟨x, hx⟩ := hthere 0 (Nat.succ_pos L.length)
    obtain rfl : b = some x := Option.some.inj hx
    by_cases hid : x.brId = brId
    · exact ⟨bindex, if_pos hid, Or.inr ⟨0, Nat.succ_pos L.length, rfl, x, rfl, hid⟩⟩
    · obtain ⟨n, hn, hcases⟩ := ih (bindex + 1) fun k hk => hthere (k + 1) (Nat.succ_lt_succ hk)
      refine ⟨n, (if_neg hid).trans hn, hcases.imp id ?_⟩
      rintro ⟨k, hk, hnk, y, hy, hyid⟩
      exact ⟨k + 1, Nat.succ_lt_succ hk, by rw [hnk]; omega, y, hy, hyid⟩

/-- `au_br_index` gives the index of a branch that has the id, or -1. -/
theorem auBrIndex_found (h : BranchesThere br) (brId : Int) :
    ∃ n, auBrIndex br brId = .ok n ∧
      (n = -1 ∨ ∃ b : Nat, n = b ∧ (b : Int) ≤ br.siBend ∧ ∃ x, auSbr br b = .ok x ∧ x.brId = brId) := by
  have hget : ∀ k, k < (br.siBend + 1).toNat → ∃ x, br.siBranch[k]? = some (some x) ∧ auSbr br k = .ok x := by
    intro k hk
    obtain ⟨x, hx⟩ := h k (by omega)
    refine ⟨x, ?_, hx⟩
    unfold auSbr at hx
    rw [List.getD_eq_getElem?_getD] at hx
    cases hs : br.siBranch[k]? with
    | none => rw [hs] at hx; cases hx
    | some y =>
      rw [hs] at hx
      cases y with
      | none => cases hx
      | some y => rw [show y = x from Except.ok.inj hx]
  have hthere : ∀ k < (br.siBranch.take (br.siBend + 1).toNat).length,
      ∃ x, (br.siBranch.take (br.siBend + 1).toNat)[k]? = some (some x) := by
    intro k hk
    rw [List.length_take] at hk
    obtain ⟨x, hx, -⟩ := hget k (by omega)
    exact ⟨x, by rw [List.getElem?_take_of_lt (by omega), hx]⟩
  obtain ⟨n, hn, hcases⟩ := brIndexFrom_found brId (br.siBranch.take (br.siBend + 1).toNat) 0 hthere
  refine ⟨n, hn, hcases.imp id ?_⟩
  rintro ⟨k, hk, hnk, x, hx, hid⟩
  rw [List.length_take] at hk
  obtain ⟨y, hy, hsbr⟩ := hget k (by omega)
  rw [List.getElem?_take_of_lt (by omega), hy] at hx
  rw [Option.some.inj (Option.some.inj hx)] at hsbr
  exact ⟨k, by rw [hnk, Nat.zero_add], by omega, x, hsbr, hid⟩

/-- Two ids do not have one index. -/
theorem auBrIndex_inj (h : BranchesThere br) {id id' : Int} {b : Nat} (hb : auBrIndex br id = .ok (b : Int))
    (hb' : auBrIndex br id' = .ok (b : Int)) : id = id' := by
  have hat : ∀ i, auBrIndex br i = .ok (b : Int) → ∃ x, auSbr br b = .ok x ∧ x.brId = i := by
    intro i hi
    obtain ⟨n, hn, hcases⟩ := auBrIndex_found h i
    have hnb : n = b := Except.ok.inj (hn.symm.trans hi)
    rcases hcases with hneg | ⟨c, hc, -, hx⟩
    · omega
    · rwa [show c = b by omega] at hx
  obtain ⟨x, hx, hid⟩ := hat id hb
  obtain ⟨y, hy, hid'⟩ := hat id' hb'
  rw [hx] at hy
  rw [← hid, ← hid', Except.ok.inj hy]

end Index

/-! ## The invariant -/

/-- There is a hidden inode at the index. -/
def IInfo.Occupied (ii : IInfo) (b : Nat) : Prop := (ii.iiHinode b).hiInode.isSome = true

/-- **The hidden inodes of an inode**: they are in its range, and belong to different branches. -/
structure IInfo.Numbered (ii : IInfo) : Prop where
  start : 0 ≤ ii.iiBstart
  inRange : ∀ b, ii.Occupied b → ii.iiBstart ≤ b ∧ b ≤ ii.iiBend
  distinct : ∀ a b, ii.Occupied a → ii.Occupied b → (ii.iiHinode a).hiId = (ii.iiHinode b).hiId → a = b

/-- The hidden inode at the index belongs there. -/
def Settled (br : UnionSb) (ii : IInfo) (b : Nat) : Prop :=
  ii.Occupied b ∧ auBrIndex br (ii.iiHinode b).hiId = .ok (b : Int)

instance (br : UnionSb) (ii : IInfo) (b : Nat) : Decidable (Settled br ii b) :=
  inferInstanceAs (Decidable ((ii.iiHinode b).hiInode.isSome = true ∧
    auBrIndex br (ii.iiHinode b).hiId = .ok (b : Int)))

/-- The indices up to `m` without a hidden inode that belongs there. -/
def Unsettled (br : UnionSb) (m : Nat) (ii : IInfo) : Finset Nat :=
  (Finset.range (m + 1)).filter fun b => ¬ Settled br ii b

/-- **The loop has come to `bindex`**: behind that all is in its place, and of the hidden inodes of `ii₀` only
    those are missing whose branch is gone. -/
structure Refreshing (br : UnionSb) (m : Nat) (ii₀ : IInfo) (bindex : Nat) (ii : IInfo) : Prop
    extends ii.Numbered where
  above : ii.iiBstart ≤ bindex
  bound : ii.iiBend ≤ m
  behind : ∀ b, ii.Occupied b → b < bindex → auBrIndex br (ii.iiHinode b).hiId = .ok (b : Int)
  comes : ∀ b, ii.Occupied b → ∃ a, ii₀.iiHinode a = ii.iiHinode b
  stays : ∀ a (n : Nat), ii₀.Occupied a → auBrIndex br (ii₀.iiHinode a).hiId = .ok (n : Int) →
    ∃ b, ii.iiHinode b = ii₀.iiHinode a

section Loop

variable {br : UnionSb} {m bindex : Nat} {ii₀ ii : IInfo}

theorem mem_unsettled {b : Nat} : b ∈ Unsettled br m ii ↔ b ≤ m ∧ ¬ Settled br ii b := by
  unfold Unsettled
  rw [Finset.mem_filter, Finset.mem_range, Nat.lt_succ_iff]

/-- What is settled stays so. -/
theorem unsettled_le {ii' : IInfo} (h : ∀ b, Settled br ii b → Settled br ii' b) :
    (Unsettled br m ii').card ≤ (Unsettled br m ii).card := by
  apply Finset.card_le_card
  intro b hb
  obtain ⟨hle, hno⟩ := mem_unsettled.mp hb
  exact mem_unsettled.mpr ⟨hle, fun hs => hno (h b hs)⟩

/-- One more index is settled. -/
theorem unsettled_lt {ii' : IInfo} (h : ∀ b, Settled br ii b → Settled br ii' b) {n : Nat} (hn : n ≤ m)
    (hbefore : ¬ Settled br ii n) (hafter : Settled br ii' n) :
    (Unsettled br m ii').card < (Unsettled br m ii).card := by
  apply Finset.card_lt_card
  refine ⟨fun b hb => ?_, fun hsub => ?_⟩
  · obtain ⟨hle, hno⟩ := mem_unsettled.mp hb
    exact mem_unsettled.mpr ⟨hle, fun hs => hno (h b hs)⟩
  · exact (mem_unsettled.mp (hsub (mem_unsettled.mpr ⟨hn, hbefore⟩))).2 hafter

/-- Nothing is to be done at the index. -/
theorem Refreshing.pass (h : Refreshing br m ii₀ bindex ii)
    (hat : ii.Occupied bindex → auBrIndex br (ii.iiHinode bindex).hiId = .ok (bindex : Int)) :
    Refreshing br m ii₀ (bindex + 1) ii where
  toNumbered := h.toNumbered
  above := by
    have habove := h.above
    omega
  bound := h.bound
  behind := by
    intro b hocc hb
    rcases Nat.lt_succ_iff_lt_or_eq.mp hb with hlt | rfl
    · exact h.behind b hocc hlt
    · exact hat hocc
  comes := h.comes
  stays := h.stays

/-- `au_hiput`: the hidden inode is given up. -/
def IInfo.dropAt (ii : IInfo) (bindex : Nat) : IInfo :=
  { ii with iiHinode := Function.update ii.iiHinode bindex { ii.iiHinode bindex with hiInode := none } }

/-- Two hidden inodes change places, and the range grows to the second. -/
def IInfo.swapAt (ii : IInfo) (bindex n : Nat) : IInfo :=
  { ii with
    iiBstart := if (n : Int) < ii.iiBstart then n else ii.iiBstart
    iiBend := if ii.iiBend < n then n else ii.iiBend
    iiHinode := Function.update (Function.update ii.iiHinode n (ii.iiHinode bindex)) bindex (ii.iiHinode n) }

theorem IInfo.dropAt_of_ne {b : Nat} (hb : b ≠ bindex) : (ii.dropAt bindex).iiHinode b = ii.iiHinode b :=
  Function.update_of_ne hb _ _

theorem IInfo.swapAt_slot (ii : IInfo) (bindex n b : Nat) :
    (ii.swapAt bindex n).iiHinode b = ii.iiHinode (Equiv.swap bindex n b) := by
  show Function.update (Function.update ii.iiHinode n (ii.iiHinode bindex)) bindex (ii.iiHinode n) b = _
  by_cases hbb : b = bindex
  · rw [hbb, Equiv.swap_apply_left, Function.update_self]
  rw [Function.update_of_ne hbb]
  by_cases hbn : b = n
  · rw [hbn, Equiv.swap_apply_right, Function.update_self]
  · rw [Equiv.swap_apply_of_ne_of_ne hbb hbn, Function.update_of_ne hbn]

/-- The branch of the hidden inode is gone. -/
theorem Refreshing.drop (h : Refreshing br m ii₀ bindex ii)
    (hgone : auBrIndex br (ii.iiHinode bindex).hiId = .ok (-1)) :
    Refreshing br m ii₀ (bindex + 1) (ii.dropAt bindex) := by
  have hocc : ∀ b, (ii.dropAt bindex).Occupied b →
      b ≠ bindex ∧ ii.Occupied b ∧ (ii.dropAt bindex).iiHinode b = ii.iiHinode b := by
    intro b hb
    have hne : b ≠ bindex := by
      rintro rfl
      rw [IInfo.Occupied, IInfo.dropAt] at hb
      dsimp only at hb
      rw [Function.update_self] at hb
      exact Bool.noConfusion hb
    have heq : (ii.dropAt bindex).iiHinode b = ii.iiHinode b := IInfo.dropAt_of_ne hne
    exact ⟨hne, by rw [IInfo.Occupied, ← heq]; exact hb, heq⟩
  have habove := h.above
  refine ⟨⟨h.start, fun b hb => h.inRange b (hocc b hb).2.1, fun a b ha hb hid => ?_⟩, ?_, h.bound,
    fun b hb hlt => ?_, fun b hb => ?_, ?_⟩
  · obtain ⟨-, ha', heqa⟩ := hocc a ha
    obtain ⟨-, hb', heqb⟩ := hocc b hb
    rw [heqa, heqb] at hid
    exact h.distinct a b ha' hb' hid
  · show ii.iiBstart ≤ ((bindex + 1 : Nat) : Int)
    omega
  · obtain ⟨hne, hb', heq⟩ := hocc b hb
    rw [heq]
    exact h.behind b hb' (by omega)
  · obtain ⟨-, hb', heq⟩ := hocc b hb
    rw [heq]
    exact h.comes b hb'
  · intro a n ha hn
    obtain ⟨b, hb⟩ := h.stays a n ha hn
    have hne : b ≠ bindex := by
      rintro rfl
      rw [← hb, hgone] at hn
      have hneg : (-1 : Int) = n := Except.ok.inj hn
      omega
    exact ⟨b, (IInfo.dropAt_of_ne hne).trans hb⟩

/-- The hidden inode at `bindex` goes to `n`, where it belongs, and what was there is looked at next. -/
theorem Refreshing.swap (hbr : BranchesThere br) (h : Refreshing br m ii₀ bindex ii) {n : Nat} (hnm : n ≤ m)
    (hne : n ≠ bindex) (hocc : ii.Occupied bindex)
    (hindex : auBrIndex br (ii.iiHinode bindex).hiId = .ok (n : Int)) :
    Refreshing br m ii₀ (if (ii.iiHinode n).hiInode.isSome then bindex else bindex + 1) (ii.swapAt bindex n) ∧
      (Unsettled br m (ii.swapAt bindex n)).card < (Unsettled br m ii).card := by
  have hslot := ii.swapAt_slot bindex n
  have hstart : (ii.swapAt bindex n).iiBstart = if (n : Int) < ii.iiBstart then (n : Int) else ii.iiBstart := rfl
  have hend : (ii.swapAt bindex n).iiBend = if ii.iiBend < n then (n : Int) else ii.iiBend := rfl
  have habove := h.above
  have hbound := h.bound
  have hstart0 := h.start
  have hat := h.inRange bindex hocc
  have hocc' : ∀ b, (ii.swapAt bindex n).Occupied b ↔ ii.Occupied (Equiv.swap bindex n b) := fun b => by
    rw [IInfo.Occupied, IInfo.Occupied, hslot]
  -- what was at `n` does not belong there
  have hforeign : ¬ Settled br ii n := fun hs =>
    hne (h.distinct n bindex hs.1 hocc (auBrIndex_inj hbr hs.2 hindex))
  refine ⟨⟨⟨?_, fun b hb => ?_, fun a b ha hb hid => ?_⟩, ?_, ?_, fun b hb hlt => ?_, fun b hb => ?_, ?_⟩, ?_⟩
  · rw [hstart]
    split_ifs <;> omega
  · have hrange := h.inRange _ ((hocc' b).mp hb)
    rw [hstart, hend]
    by_cases hbn : b = n
    · rw [hbn]
      split_ifs <;> omega
    by_cases hbb : b = bindex
    · rw [hbb]
      split_ifs <;> omega
    · rw [Equiv.swap_apply_of_ne_of_ne hbb hbn] at hrange
      split_ifs <;> omega
  · rw [hslot, hslot] at hid
    exact (Equiv.swap bindex n).injective (h.distinct _ _ ((hocc' a).mp ha) ((hocc' b).mp hb) hid)
  · rw [hstart]
    split_ifs <;> omega
  · rw [hend]
    split_ifs <;> omega
  · have hb' := (hocc' b).mp hb
    rw [hslot]
    by_cases hbn : b = n
    · rw [hbn, Equiv.swap_apply_right]
      exact hindex
    by_cases hbb : b = bindex
    · -- only an empty place is left behind
      rw [hbb, Equiv.swap_apply_left] at hb'
      rw [if_pos (show (ii.iiHinode n).hiInode.isSome = true from hb')] at hlt
      omega
    · rw [Equiv.swap_apply_of_ne_of_ne hbb hbn] at hb' ⊢
      refine h.behind b hb' ?_
      split_ifs at hlt <;> omega
  · rw [hslot]
    exact h.comes _ ((hocc' b).mp hb)
  · intro a k ha hk
    obtain ⟨b, hb⟩ := h.stays a k ha hk
    exact ⟨Equiv.swap bindex n b, by rw [hslot, Equiv.swap_apply_self, hb]⟩
  · apply unsettled_lt (n := n)
    · intro b hs
      have hbn : b ≠ n := by
        rintro rfl
        exact hforeign hs
      have hbb : b ≠ bindex := by
        rintro rfl
        have hbn' : (n : Int) = b := Except.ok.inj (hindex.symm.trans hs.2)
        omega
      rw [Settled, hocc', hslot, Equiv.swap_apply_of_ne_of_ne hbb hbn]
      exact hs
    · exact hnm
    · exact hforeign
    · rw [Settled, hocc', hslot, Equiv.swap_apply_right]
      exact ⟨hocc, hindex⟩

/-- **One round**: the loop goes on with what is kept, and with fewer indices to come or to be settled. -/
theorem Refreshing.step (hbr : BranchesThere br) (hm : br.siBend ≤ m) (h : Refreshing br m ii₀ bindex ii)
    (hle : bindex ≤ ii.iiBend) :
    ∃ bindex' ii', (∀ fuel, refreshSelfFrom br (fuel + 1) bindex ii = refreshSelfFrom br fuel bindex' ii') ∧
      Refreshing br m ii₀ bindex' ii' ∧
      m + 1 - bindex' + (Unsettled br m ii').card < m + 1 - bindex + (Unsettled br m ii).card := by
  have hbound := h.bound
  have hnext : m + 1 - (bindex + 1) < m + 1 - bindex := by omega
  have hunfold : ∀ fuel, refreshSelfFrom br (fuel + 1) bindex ii = _ := fun fuel => by
    rw [refreshSelfFrom, if_neg (by omega)]
  cases hi : (ii.iiHinode bindex).hiInode with
  | none =>
    refine ⟨bindex + 1, ii, fun fuel => ?_, h.pass fun hocc => ?_, by omega⟩
    · rw [hunfold]
      exact if_pos hi
    · rw [IInfo.Occupied, hi] at hocc
      exact Bool.noConfusion hocc
  | some hInode =>
    have hocc : ii.Occupied bindex := by
      rw [IInfo.Occupied, hi]
      rfl
    have hsome : (ii.iiHinode bindex).hiInode ≠ none := by
      rw [hi]
      exact Option.some_ne_none hInode
    obtain ⟨n, hn, hcases⟩ := auBrIndex_found hbr (ii.iiHinode bindex).hiId
    by_cases hsame : n = bindex
    · refine ⟨bindex + 1, ii, fun fuel => ?_, h.pass fun _ => by rw [hn, hsame], by omega⟩
      rw [hunfold]
      dsimp only
      rw [if_neg hsome, hn]
      exact if_pos hsame
    rcases hcases with rfl | ⟨b, rfl, hb, -⟩
    · -- the branch is gone
      refine ⟨bindex + 1, ii.dropAt bindex, fun fuel => ?_, h.drop hn, ?_⟩
      · rw [hunfold]
        dsimp only
        rw [if_neg hsome, hn]
        dsimp only
        rw [if_neg hsame, if_pos (by decide)]
        rfl
      · refine Nat.add_lt_add_of_lt_of_le hnext (unsettled_le fun b hs => ?_)
        have hbb : b ≠ bindex := by
          rintro rfl
          have hneg : (-1 : Int) = b := Except.ok.inj (hn.symm.trans hs.2)
          omega
        rw [Settled, IInfo.Occupied, IInfo.dropAt_of_ne hbb]
        exact hs
    · -- the two are swapped
      have hne : b ≠ bindex := fun hbb => hsame (by rw [hbb])
      obtain ⟨hkeep, hless⟩ := h.swap hbr (show b ≤ m by omega) hne hocc hn
      refine ⟨_, ii.swapAt bindex b, fun fuel => ?_, hkeep, ?_⟩
      · rw [hunfold]
        dsimp only
        rw [if_neg hsome, hn]
        dsimp only
        rw [if_neg hsame, if_neg (by omega), Int.toNat_natCast]
        by_cases htmp : (ii.iiHinode b).hiInode.isSome = true
        · rw [if_pos htmp, if_pos htmp]
          rfl
        · rw [if_neg htmp, if_neg htmp]
          rfl
      · split_ifs <;> omega

/-- **The loop** comes to an end with everything in its place, by induction on what is left to do. -/
theorem Refreshing.run (hbr : BranchesThere br) (hm : br.siBend ≤ m) : ∀ (left bindex : Nat) (ii : IInfo),
    Refreshing br m ii₀ bindex ii → m + 1 - bindex + (Unsettled br m ii).card ≤ left →
    ∃ bindex' ii', (∀ fuel, left < fuel → refreshSelfFrom br fuel bindex ii = some ii') ∧
      Refreshing br m ii₀ bindex' ii' ∧ ii'.iiBend < bindex' := by
  intro left
  induction left with
  | zero =>
    intro bindex ii h hleft
    have hbound := h.bound
    refine ⟨bindex, ii, fun fuel hfuel => ?_, h, by omega⟩
    obtain ⟨k, rfl⟩ : ∃ k, fuel = k + 1 := ⟨fuel - 1, by omega⟩
    rw [refreshSelfFrom, if_pos (by omega)]
  | succ left ih =>
    intro bindex ii h hleft
    by_cases hle : bindex ≤ ii.iiBend
    · obtain ⟨bindex', ii', hstep, hkeep, hless⟩ := h.step hbr hm hle
      obtain ⟨bindex₂, ii₂, hrun, hdone, hend⟩ := ih bindex' ii' hkeep (by omega)
      refine ⟨bindex₂, ii₂, fun fuel hfuel => ?_, hdone, hend⟩
      obtain ⟨k, rfl⟩ : ∃ k, fuel = k + 1 := ⟨fuel - 1, by omega⟩
      rw [hstep]
      exact hrun k (by omega)
    · refine ⟨bindex, ii, fun fuel hfuel => ?_, h, by omega⟩
      obtain ⟨k, rfl⟩ : ∃ k, fuel = k + 1 := ⟨fuel - 1, by omega⟩
      rw [refreshSelfFrom, if_pos (by omega)]

end Loop

/-! ## The range -/

/-- The range is from the first hidden inode to the last, or -1 twice. -/
structure IInfo.Ranged (ii : IInfo) : Prop where
  found : (∃ b, ii.Occupied b) → ∃ bstart bend : Nat, ii.iiBstart = bstart ∧ ii.iiBend = bend ∧
    IsLeast { b | ii.Occupied b } bstart ∧ IsGreatest { b | ii.Occupied b } bend
  none : (¬ ∃ b, ii.Occupied b) → ii.iiBstart = -1 ∧ ii.iiBend = -1

theorem auUpdateBrange_slots (ii : IInfo) : (auUpdateBrange ii).iiHinode = ii.iiHinode := by
  unfold auUpdateBrange
  split
  · rfl
  · dsimp only
    split <;> rfl

/-- **`au_update_brange`** finds the range of what is in the old one. -/
theorem auUpdateBrange_ranged {ii : IInfo} (h : ii.Numbered) : (auUpdateBrange ii).Ranged := by
  have hstart := h.start
  obtain ⟨used, hused⟩ : ∃ used, used = (List.range (ii.iiBend + 1).toNat).filter
    fun b => (ii.iiHinode b).hiInode.isSome := ⟨_, rfl⟩
  have hmem : ∀ b, b ∈ used ↔ ii.Occupied b := by
    intro b
    rw [hused, List.mem_filter, List.mem_range]
    refine ⟨And.right, fun hocc => ⟨?_, hocc⟩⟩
    have hrange := h.inRange b hocc
    omega
  have hsorted : used.Pairwise (· < ·) := by
    rw [hused]
    exact List.pairwise_lt_range.filter _
  have hocc : ∀ b, (auUpdateBrange ii).Occupied b ↔ ii.Occupied b := fun b => by
    rw [IInfo.Occupied, auUpdateBrange_slots]
    rfl
  cases hlist : used with
  | nil =>
    -- none is left
    have heq : auUpdateBrange ii = { ii with iiBstart := -1, iiBend := -1 } := by
      unfold auUpdateBrange
      rw [if_neg (by omega), ← hused, hlist]
      rfl
    have hno : ¬ ∃ b, ii.Occupied b := by
      rintro ⟨b, hb⟩
      have hin := (hmem b).mpr hb
      rw [hlist] at hin
      exact List.not_mem_nil hin
    refine ⟨fun ⟨b, hb⟩ => absurd ⟨b, (hocc b).mp hb⟩ hno, fun _ => ?_⟩
    rw [heq]
    exact ⟨rfl, rfl⟩
  | cons bstart tail =>
    obtain ⟨init, bend, hlast⟩ : ∃ init bend, used = init ++ [bend] :=
      ⟨used.dropLast, used.getLast (by rw [hlist]; exact List.cons_ne_nil _ _),
        (List.dropLast_append_getLast _).symm⟩
    have heq : auUpdateBrange ii = { ii with iiBstart := bstart, iiBend := bend } := by
      have hgetLast : used.getLast? = some bend := by
        rw [hlast, List.getLast?_concat]
      have hhead : used.head? = some bstart := by
        rw [hlist]
        rfl
      unfold auUpdateBrange
      rw [if_neg (by omega), ← hused]
      dsimp only
      rw [hhead, hgetLast]
    refine ⟨fun _ => ⟨bstart, bend, by rw [heq], by rw [heq], ⟨?_, fun b hb => ?_⟩, ⟨?_, fun b hb => ?_⟩⟩, fun hno => ?_⟩
    · exact (hocc bstart).mpr ((hmem bstart).mp (by rw [hlist]; exact List.mem_cons_self))
    · have hin := (hmem b).mpr ((hocc b).mp hb)
      rw [hlist] at hin hsorted
      rcases List.mem_cons.mp hin with rfl | hin
      · exact Nat.le_refl b
      · exact Nat.le_of_lt ((List.pairwise_cons.mp hsorted).1 b hin)
    · exact (hocc bend).mpr ((hmem bend).mp (by rw [hlast]; exact List.mem_append_right init List.mem_cons_self))
    · have hin := (hmem b).mpr ((hocc b).mp hb)
      rw [hlast] at hin hsorted
      rcases List.mem_append.mp hin with hin | hin
      · exact Nat.le_of_lt ((List.pairwise_append.mp hsorted).2.2 b hin bend List.mem_cons_self)
      · exact Nat.le_of_eq (List.mem_singleton.mp hin)
    · exact absurd ⟨bstart, (hocc bstart).mpr ((hmem bstart).mp (by rw [hlist]; exact List.mem_cons_self))⟩ hno

/-! ## au_refresh_hinode_self -/

/-- **The hidden inodes are where their branches are now**: those of `ii` whose branch is there, each at the index
    of the branch, and no others. -/
def Replaced (br : UnionSb) (ii ii' : IInfo) : Prop :=
  ∀ (b h : Nat) (id : Int), ii'.iiHinode b = ⟨some h, id⟩ ↔
    (∃ a, ii.iiHinode a = ⟨some h, id⟩) ∧ auBrIndex br id = .ok (b : Int)

/-- **The refreshing ends with every hidden inode in its place**, when the allocation succeeds: there is a number of
    rounds from which on the result is one and the same. -/
theorem refreshSelf_places {ii : IInfo} {s : ISuper} (hbr : BranchesThere s.br) (hii : ii.Numbered)
    (hmem : s.allocate.1 = true) :
    ∃ (ii' : IInfo) (rounds : Nat),
      (∀ fuel, rounds ≤ fuel → auRefreshHinodeSelf fuel ii s = some (0, ii', s.allocate.2)) ∧
      Replaced s.br ii ii' ∧ ii'.Ranged := by
  obtain ⟨m, hm⟩ : ∃ m : Nat, m = (max ii.iiBend s.br.siBend).toNat := ⟨_, rfl⟩
  have hstart := hii.start
  have hbegin : Refreshing s.br m ii ii.iiBstart.toNat ii := by
    refine ⟨hii, by omega, by omega, fun b hocc hb => ?_, fun b _ => ⟨b, rfl⟩, fun a _ _ _ => ⟨a, rfl⟩⟩
    have hrange := hii.inRange b hocc
    omega
  obtain ⟨bindex, ii₁, hrun, hdone, hend⟩ :=
    Refreshing.run hbr (show s.br.siBend ≤ m by omega) _ _ _ hbegin (Nat.le_refl _)
  have hplaced : ∀ b, ii₁.Occupied b → auBrIndex s.br (ii₁.iiHinode b).hiId = .ok (b : Int) := by
    intro b hb
    have hrange := hdone.inRange b hb
    exact hdone.behind b hb (by omega)
  refine ⟨{ auUpdateBrange ii₁ with iiGeneration := s.siGeneration },
    m + 1 - ii.iiBstart.toNat + (Unsettled s.br m ii).card + 1, fun fuel hfuel => ?_, ?_, ?_⟩
  · unfold auRefreshHinodeSelf
    dsimp only
    rw [hmem, if_neg (by decide), hrun fuel (Nat.lt_of_succ_le hfuel)]
  · intro b h id
    show (auUpdateBrange ii₁).iiHinode b = ⟨some h, id⟩ ↔ _
    rw [auUpdateBrange_slots]
    constructor
    · intro hb
      have hocc : ii₁.Occupied b := by
        rw [IInfo.Occupied, hb]
        rfl
      obtain ⟨a, ha⟩ := hdone.comes b hocc
      have hindex := hplaced b hocc
      rw [hb] at ha hindex
      exact ⟨⟨a, ha⟩, hindex⟩
    · rintro ⟨⟨a, ha⟩, hindex⟩
      have hocc : ii.Occupied a := by
        rw [IInfo.Occupied, ha]
        rfl
      obtain ⟨c, hc⟩ := hdone.stays a b hocc (by rw [ha]; exact hindex)
      rw [ha] at hc
      have hocc' : ii₁.Occupied c := by
        rw [IInfo.Occupied, hc]
        rfl
      have hindex' := hplaced c hocc'
      rw [hc] at hindex'
      have hcb : (c : Int) = b := Except.ok.inj (hindex'.symm.trans hindex)
      rw [← Int.ofNat_inj.mp hcb]
      exact hc
  · have hranged := auUpdateBrange_ranged hdone.toNumbered
    exact ⟨hranged.found, hranged.none⟩

/-- Two branches in another order than that of an inode which had hidden inodes on three. -/
def turnedSuper : ISuper where
  sb := { xino := false, siBend := 1, siBranch := fun _ => ⟨0, 0⟩, xinoFiles := fun _ => .empty
          siXib := .empty, siXibBuf := fun _ => 0, siXibLastPindex := 0, siXibNextBit := 0
          uniq := fun n => n, io := [], xibIo := [] }
  br := { unmounted with
    siBend := 1
    siBranch := [some ⟨3, .rw, ⟨3, 0⟩, some 0⟩, some ⟨1, .rw, ⟨1, 0⟩, some 0⟩] }
  siGeneration := 1
  icache := fun _ => none
  allocs := []

def threeHidden : IInfo := ⟨0, 2, fun b => if b < 3 then ⟨some (100 + b), b + 1⟩ else ⟨none, 0⟩, 0⟩

theorem threeHidden_numbered : threeHidden.Numbered := by
  have hocc : ∀ b, threeHidden.Occupied b → b < 3 ∧ (threeHidden.iiHinode b).hiId = b + 1 := by
    intro b hb
    have hlt : b < 3 := by
      by_contra hge
      rw [IInfo.Occupied, threeHidden] at hb
      dsimp only at hb
      rw [if_neg hge] at hb
      exact Bool.noConfusion hb
    refine ⟨hlt, ?_⟩
    rw [threeHidden]
    dsimp only
    rw [if_pos hlt]
  refine ⟨Int.le_refl 0, fun b hb => ?_, fun a b ha hb hid => ?_⟩
  · have hlt := (hocc b hb).1
    show (0 : Int) ≤ b ∧ (b : Int) ≤ 2
    omega
  · rw [(hocc a ha).2, (hocc b hb).2] at hid
    omega

theorem turnedSuper_there : BranchesThere turnedSuper.br := by
  intro b hb
  have hb' : (b : Int) ≤ 1 := hb
  rcases Nat.le_one_iff_eq_zero_or_eq_one.mp (show b ≤ 1 by omega) with rfl | rfl
  · exact ⟨_, rfl⟩
  · exact ⟨_, rfl⟩

theorem refreshSelf_places_turned : ∃ (ii' : IInfo) (rounds : Nat),
    (∀ fuel, rounds ≤ fuel →
      auRefreshHinodeSelf fuel threeHidden turnedSuper = some (0, ii', turnedSuper.allocate.2)) ∧
    Replaced turnedSuper.br threeHidden ii' ∧ ii'.Ranged :=
  refreshSelf_places turnedSuper_there threeHidden_numbered rfl

end KernelPatches.Aufs
