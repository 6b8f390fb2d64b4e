/-
  aufs: what the calls for pseudo-links keep.

  Every call changes a branch, or an inode, or the list, in a few ways.  Each of these is looked at once here.

  * `PlinkInv` — what holds between two calls: a hidden inode the inode has had, and that has a name, it still has;
                 the names in the plink directories are those of inodes and hidden inodes; the list has one
                 reference of each inode on it;
  * `PlinkKeeps`    — what no call takes away: the names in the plink directories, the inodes on the list, and the
                 hidden inodes of these that have a name there;
  * `PlinkGoes`     — both.
-/
import KernelPatches.Aufs.Plink
import KernelPatches.Aufs.RefreshInode

namespace KernelPatches.Aufs

open KernelPatches.Lib

/-! ## Inodes in memory -/

/-- An inode that comes into memory. -/
def IInfo.empty (generation : Nat) : IInfo := ⟨-1, -1, fun _ => ⟨none, -1⟩, generation⟩

/-- The range is made to take in a branch. -/
def IInfo.widen (ii : IInfo) (b : Nat) : IInfo :=
  if ii.iiBstart < 0 then { ii with iiBstart := b, iiBend := b }
  else { ii with
    iiBstart := if b < ii.iiBstart then b else ii.iiBstart
    iiBend := if ii.iiBend < b then b else ii.iiBend }

namespace PlinkSb

variable {π : Type}

/-- `set_inode` of a name found on one branch, or `au_refresh_hinode` with a hidden inode more. -/
def enter (i b h : Nat) (s : PlinkSb π) : PlinkSb π := (s.setIi i ((s.ii i).widen b)).setHIptr i b h

/-- The hidden inode has no name, and no inode in memory has it: its number can be given to a new one. -/
def Free (s : PlinkSb π) (b h : Nat) : Prop :=
  (s.br b).nlink h = 0 ∧ ∀ i, ((s.ii i).iiHinode b).hiInode ≠ some h

end PlinkSb

variable {π : Type}

open PlinkSb

/-- At the mount nothing is in memory.  The plink directories may have names of an earlier mount. -/
structure PlinkMounted (s : PlinkSb π) : Prop where
  ii : ∀ i, ∃ gen, s.ii i = IInfo.empty gen
  had : ∀ i b h, s.had i b h = false
  head : s.head = []
  refs : ∀ i, s.refs i = 0
  plinks : ∀ b tgt h, (tgt, h) ∈ (s.br b).plinks → ∃ i, tgt = plinkName i h
  ids : Function.Injective s.brId

/-! ## The invariant -/

/-- What holds between two calls. -/
structure PlinkInv (s : PlinkSb π) : Prop where
  /-- A hidden inode the inode has had, and that lives, it still has. -/
  one : ∀ i b h, s.had i b h = true → (s.br b).nlink h ≠ 0 → ((s.ii i).iiHinode b).hiInode = some h
  plinks : ∀ b tgt h, (tgt, h) ∈ (s.br b).plinks → ∃ i, tgt = plinkName i h
  ranged : ∀ i, (s.ii i).Ranged
  ids : ∀ i b, (s.ii i).Occupied b → ((s.ii i).iiHinode b).hiId = s.brId b
  distinct : Function.Injective s.brId
  nodup : s.head.Nodup
  refs : ∀ i, s.refs i = s.head.count i
  listed : ∀ i ∈ s.head, ∃ b, (s.ii i).Occupied b

theorem LinkBr.nlink_ne_zero {br : LinkBr π} {h : Nat} :
    br.nlink h ≠ 0 ↔ (∃ n, (n, h) ∈ br.names) ∨ ∃ tgt, (tgt, h) ∈ br.plinks := by
  rw [← Directory.links_ne_zero, ← Directory.links_ne_zero, LinkBr.nlink]
  omega

theorem IInfo.empty_not_occupied {gen b : Nat} : ¬ (IInfo.empty gen).Occupied b := Bool.false_ne_true

theorem PlinkMounted.inv {s : PlinkSb π} (h : PlinkMounted s) : PlinkInv s where
  one i b hi hhad := by
    rw [h.had] at hhad
    cases hhad
  plinks := h.plinks
  ranged i := by
    obtain ⟨gen, hgen⟩ := h.ii i
    rw [hgen]
    exact ⟨fun ⟨_, hb⟩ => absurd hb IInfo.empty_not_occupied, fun _ => ⟨rfl, rfl⟩⟩
  ids i b hb := by
    obtain ⟨gen, hgen⟩ := h.ii i
    rw [hgen] at hb
    exact absurd hb IInfo.empty_not_occupied
  distinct := h.ids
  nodup := by
    rw [h.head]
    exact List.nodup_nil
  refs i := by
    rw [h.refs, h.head]
    rfl
  listed i hi := by
    rw [h.head] at hi
    cases hi

@[simp] theorem IInfo.widen_slots (ii : IInfo) (b : Nat) : (ii.widen b).iiHinode = ii.iiHinode := by
  rw [IInfo.widen]
  split <;> rfl

@[simp] theorem IInfo.setHIptr_self (ii : IInfo) (b h : Nat) (id : Int) :
    (ii.setHIptr b (some h) id).iiHinode b = ⟨some h, id⟩ := by simp [IInfo.setHIptr]

theorem IInfo.setHIptr_of_ne (ii : IInfo) {b b' : Nat} (hb : b' ≠ b) (h : Option Nat) (id : Int) :
    (ii.setHIptr b h id).iiHinode b' = ii.iiHinode b' := by simp [IInfo.setHIptr, hb]

/-- What a step keeps of the pseudo-links: the names in the plink directories, the inodes on the list, and the hidden
    inodes of these that have a name there. -/
structure PlinkKeeps (s s' : PlinkSb π) : Prop where
  plinks : ∀ b e, e ∈ (s.br b).plinks → e ∈ (s'.br b).plinks
  head : ∀ i ∈ s.head, i ∈ s'.head
  slots : ∀ i ∈ s.head, ∀ b tgt h, (tgt, h) ∈ (s.br b).plinks → ((s.ii i).iiHinode b).hiInode = some h →
    ((s'.ii i).iiHinode b).hiInode = some h

theorem PlinkKeeps.refl (s : PlinkSb π) : PlinkKeeps s s where
  plinks _ _ hm := hm
  head _ hm := hm
  slots _ _ _ _ _ _ hh := hh

theorem PlinkKeeps.trans {s t u : PlinkSb π} (h : PlinkKeeps s t) (h' : PlinkKeeps t u) : PlinkKeeps s u where
  plinks b e hm := h'.plinks b e (h.plinks b e hm)
  head i hm := h'.head i (h.head i hm)
  slots i hm b tgt hd ht hh := h'.slots i (h.head i hm) b tgt hd (h.plinks b _ ht) (h.slots i hm b tgt hd ht hh)

/-- A branch is changed, and no name leaves its plink directory. -/
theorem PlinkKeeps.setBr {s : PlinkSb π} {b : Nat} {br : LinkBr π} (hpl : ∀ e ∈ (s.br b).plinks, e ∈ br.plinks) :
    PlinkKeeps s (s.setBr b br) where
  plinks b' e hm := by
    by_cases hb : b' = b
    · subst hb
      rw [setBr_br_self]
      exact hpl e hm
    · rwa [setBr_br_of_ne hb]
  head _ hm := hm
  slots _ _ _ _ _ _ hh := hh

/-- An inode is changed, and keeps the hidden inodes with a name there if it is on the list. -/
theorem PlinkKeeps.setIi {s : PlinkSb π} {i : Nat} {ii : IInfo} (hslot : i ∈ s.head → ∀ b tgt h, (tgt, h) ∈ (s.br b).plinks →
    ((s.ii i).iiHinode b).hiInode = some h → (ii.iiHinode b).hiInode = some h) : PlinkKeeps s (s.setIi i ii) where
  plinks _ _ hm := hm
  head _ hm := hm
  slots j hm b tgt h ht hh := by
    by_cases hj : j = i
    · subst hj
      rw [setIi_ii_self]
      exact hslot hm b tgt h ht hh
    · rwa [setIi_ii_of_ne hj]

theorem PlinkKeeps.link {s : PlinkSb π} {b h : Nat} {n : π} : PlinkKeeps s (s.link b n h) := .setBr fun _ hm => hm

theorem PlinkKeeps.create {s : PlinkSb π} {b h : Nat} {n : π} : PlinkKeeps s (s.create b n h) :=
  have hk : PlinkKeeps s (s.link b n h) := .link
  ⟨hk.plinks, hk.head, hk.slots⟩

theorem PlinkKeeps.enter {s : PlinkSb π} {i b h : Nat} (hnone : ((s.ii i).iiHinode b).hiInode = none) :
    PlinkKeeps s (s.enter i b h) := by
  have hk : PlinkKeeps s (s.setIi i (((s.ii i).widen b).setHIptr b (some h) (s.brId b))) := by
    refine .setIi fun _ b' tgt h' _ hh' => ?_
    have hne : b' ≠ b := by
      rintro rfl
      rw [hnone] at hh'
      cases hh'
    rwa [IInfo.setHIptr_of_ne _ hne, IInfo.widen_slots]
  have hii : (s.enter i b h).ii = (s.setIi i (((s.ii i).widen b).setHIptr b (some h) (s.brId b))).ii := by
    simp [PlinkSb.enter, PlinkSb.setHIptr, PlinkSb.setIi]
  exact ⟨hk.plinks, hk.head, fun j hj b' tgt h' ht hh' => by rw [hii]; exact hk.slots j hj b' tgt h' ht hh'⟩

theorem PlinkKeeps.append {s s' : PlinkSb π} {i b h : Nat} (ha : PlinkAppended i b h s s') : PlinkKeeps s s' where
  plinks b' e hm := by
    rcases ha.br with h0 | h1
    · rwa [h0]
    · rw [h1]
      have hk : PlinkKeeps s (s.setBr b { s.br b with plinks := (s.br b).plinks.enter (plinkName i h) h }) :=
        .setBr fun _ hm => List.mem_cons_of_mem _ hm
      exact hk.plinks b' e hm
  head j hm := by
    rcases ha.list with ⟨hh, -⟩ | ⟨-, hh, -⟩
    · rwa [hh]
    · rw [hh]
      exact List.mem_cons_of_mem _ hm
  slots _ _ _ _ _ _ hh := by rwa [ha.ii]

/-- What every call does. -/
structure PlinkGoes (s s' : PlinkSb π) : Prop where
  inv : PlinkInv s'
  keeps : PlinkKeeps s s'

/-! ## One change -/

section Changes

variable {s s' : PlinkSb π} {i b h : Nat} {n : π}

/-- **A change of a branch** in which no hidden inode that has been had comes to life. -/
theorem PlinkInv.change (hi : PlinkInv s) {br : LinkBr π} {had : Nat → Nat → Nat → Bool}
    (hsub : ∀ i b h, had i b h = true → s.had i b h = true)
    (hlive : ∀ i h, had i b h = true → br.nlink h ≠ 0 → (s.br b).nlink h ≠ 0)
    (hpl : ∀ tgt h, (tgt, h) ∈ br.plinks → (tgt, h) ∈ (s.br b).plinks ∨ ∃ i, tgt = plinkName i h) :
    PlinkInv { s.setBr b br with had := had } where
  one i b' h hhad hl := by
    refine hi.one i b' h (hsub i b' h hhad) ?_
    replace hl : ((s.setBr b br).br b').nlink h ≠ 0 := hl
    by_cases hb : b' = b
    · subst hb
      rw [setBr_br_self] at hl
      exact hlive i h hhad hl
    · rwa [setBr_br_of_ne hb] at hl
  plinks b' tgt h hmem := by
    replace hmem : (tgt, h) ∈ ((s.setBr b br).br b').plinks := hmem
    by_cases hb : b' = b
    · subst hb
      rw [setBr_br_self] at hmem
      rcases hpl tgt h hmem with hold | hnew
      · exact hi.plinks b' tgt h hold
      · exact hnew
    · rw [setBr_br_of_ne hb] at hmem
      exact hi.plinks b' tgt h hmem
  ranged := hi.ranged
  ids := hi.ids
  distinct := hi.distinct
  nodup := hi.nodup
  refs := hi.refs
  listed := hi.listed

theorem PlinkInv.setBr (hi : PlinkInv s) {br : LinkBr π}
    (hlive : ∀ h, br.nlink h ≠ 0 → (s.br b).nlink h ≠ 0)
    (hpl : ∀ tgt h, (tgt, h) ∈ br.plinks → (tgt, h) ∈ (s.br b).plinks ∨ ∃ i, tgt = plinkName i h) :
    PlinkInv (s.setBr b br) := hi.change (fun _ _ _ hh => hh) (fun _ h _ hl => hlive h hl) hpl

/-- One name more of a hidden inode that has one. -/
theorem PlinkInv.link (hi : PlinkInv s) (hl : (s.br b).nlink h ≠ 0) : PlinkInv (s.link b n h) := by
  refine hi.setBr (fun h' hl' => ?_) fun tgt h' hmem => Or.inl hmem
  rcases LinkBr.nlink_ne_zero.mp hl' with ⟨n', hn'⟩ | hpl
  · rcases Directory.mem_enter.mp hn' with ⟨-, rfl⟩ | hold
    · exact hl
    · exact LinkBr.nlink_ne_zero.mpr (Or.inl ⟨n', hold⟩)
  · exact LinkBr.nlink_ne_zero.mpr (Or.inr hpl)

theorem PlinkInv.unlink [DecidableEq π] (hi : PlinkInv s) : PlinkInv (s.unlink b n) := by
  refine hi.setBr (fun h' hl' => ?_) fun tgt h' hmem => Or.inl hmem
  rcases LinkBr.nlink_ne_zero.mp hl' with ⟨n', hn'⟩ | hpl
  · exact LinkBr.nlink_ne_zero.mpr (Or.inl ⟨n', (Directory.mem_remove.mp hn').1⟩)
  · exact LinkBr.nlink_ne_zero.mpr (Or.inr hpl)

theorem PlinkInv.rename [DecidableEq π] (hi : PlinkInv s) {n' : π} :
    PlinkInv (s.setBr b { s.br b with names := (s.br b).names.move n n' }) := by
  refine hi.setBr (fun h' hl' => ?_) fun tgt h' hmem => Or.inl hmem
  rcases LinkBr.nlink_ne_zero.mp hl' with ⟨n₁, hn₁⟩ | hpl
  · exact LinkBr.nlink_ne_zero.mpr (Or.inl (Directory.mem_move hn₁))
  · exact LinkBr.nlink_ne_zero.mpr (Or.inr hpl)

/-- A new hidden inode. -/
theorem PlinkInv.create (hi : PlinkInv s) : PlinkInv (s.create b n h) := by
  have hsub : ∀ i b' h', (if b' = b ∧ h' = h then false else s.had i b' h') = true →
      ¬ (b' = b ∧ h' = h) ∧ s.had i b' h' = true := by
    intro i b' h' hhad
    by_cases hnew : b' = b ∧ h' = h
    · rw [if_pos hnew] at hhad
      cases hhad
    · rw [if_neg hnew] at hhad
      exact ⟨hnew, hhad⟩
  refine hi.change (fun i b' h' hhad => (hsub i b' h' hhad).2) (fun i h' hhad hl => ?_)
    fun tgt h' hmem => Or.inl hmem
  rcases LinkBr.nlink_ne_zero.mp hl with ⟨n', hn'⟩ | hpl
  · rcases Directory.mem_enter.mp hn' with ⟨-, rfl⟩ | hold
    · exact absurd ⟨rfl, rfl⟩ (hsub i b h' hhad).1
    · exact LinkBr.nlink_ne_zero.mpr (Or.inl ⟨n', hold⟩)
  · exact LinkBr.nlink_ne_zero.mpr (Or.inr hpl)

/-- **A change of an inode** that keeps the hidden inodes that live. -/
theorem PlinkInv.setIi (hi : PlinkInv s) {ii : IInfo}
    (hkeep : ∀ b h, (s.br b).nlink h ≠ 0 → ((s.ii i).iiHinode b).hiInode = some h → (ii.iiHinode b).hiInode = some h)
    (hr : ii.Ranged) (hid : ∀ b, ii.Occupied b → (ii.iiHinode b).hiId = s.brId b)
    (hl : i ∈ s.head → ∃ b, ii.Occupied b) : PlinkInv (s.setIi i ii) where
  one j b h hhad hlive := by
    have hold := hi.one j b h hhad hlive
    by_cases hj : j = i
    · subst hj
      rw [setIi_ii_self]
      exact hkeep b h hlive hold
    · rw [setIi_ii_of_ne hj]
      exact hold
  plinks := hi.plinks
  ranged j := by
    by_cases hj : j = i
    · subst hj
      rw [setIi_ii_self]
      exact hr
    · rw [setIi_ii_of_ne hj]
      exact hi.ranged j
  ids j b hb := by
    by_cases hj : j = i
    · subst hj
      rw [setIi_ii_self] at hb ⊢
      exact hid b hb
    · rw [setIi_ii_of_ne hj] at hb ⊢
      exact hi.ids j b hb
  distinct := hi.distinct
  nodup := hi.nodup
  refs := hi.refs
  listed j hj := by
    by_cases heq : j = i
    · subst heq
      rw [setIi_ii_self]
      exact hl hj
    · rw [setIi_ii_of_ne heq]
      exact hi.listed j hj

/-- The hidden inodes of an inode that has one. -/
theorem PlinkInv.numbered (hi : PlinkInv s) (hocc : (s.ii i).Occupied b) : (s.ii i).Numbered := by
  obtain ⟨bstart, bend, hs, he, hleast, hgreatest⟩ := (hi.ranged i).found ⟨b, hocc⟩
  refine ⟨by omega, fun a ha => ?_, fun a a' ha ha' heq => ?_⟩
  · have h1 := hleast.2 ha
    have h2 := hgreatest.2 ha
    omega
  · rw [hi.ids i a ha, hi.ids i a' ha'] at heq
    exact hi.distinct heq

/-- What `au_update_brange` leaves: the hidden inodes with a link. -/
theorem auUpdateBrangeZero_spec (nlink : Nat → Nat → Nat) {ii : IInfo} (hn : ii.Numbered) :
    (auUpdateBrangeZero nlink ii).Ranged ∧
      (∀ b, ((auUpdateBrangeZero nlink ii).iiHinode b).hiId = (ii.iiHinode b).hiId) ∧
      ∀ b h, ((auUpdateBrangeZero nlink ii).iiHinode b).hiInode = some h ↔
        (ii.iiHinode b).hiInode = some h ∧ nlink b h ≠ 0 := by
  obtain ⟨ii', hii'⟩ : ∃ ii' : IInfo, ii' = { ii with
    iiHinode := fun b =>
      if ii.iiBstart ≤ b ∧ b ≤ ii.iiBend ∧ ((ii.iiHinode b).hiInode.map (nlink b)).any (· = 0) then
        { ii.iiHinode b with hiInode := none }
      else ii.iiHinode b } := ⟨_, rfl⟩
  have heq : auUpdateBrangeZero nlink ii = auUpdateBrange ii' := by
    have hstart := hn.start
    rw [auUpdateBrangeZero, if_neg (by omega), hii']
  have hid : ∀ b, (ii'.iiHinode b).hiId = (ii.iiHinode b).hiId := by
    intro b
    rw [hii']
    dsimp only
    split <;> rfl
  have hslot : ∀ b h, (ii'.iiHinode b).hiInode = some h ↔ (ii.iiHinode b).hiInode = some h ∧ nlink b h ≠ 0 := by
    intro b h
    rw [hii']
    dsimp only
    cases hb : (ii.iiHinode b).hiInode with
    | none =>
      simp [hb]
    | some h' =>
      have hrange := hn.inRange b (by rw [IInfo.Occupied, hb]; rfl)
      by_cases hz : nlink b h' = 0
      · simp only [hrange, Option.map_some, Option.any_some, hz, and_self, decide_true, if_true]
        constructor
        · rintro ⟨⟩
        · rintro ⟨hh, hne⟩
          exact absurd (Option.some.inj hh ▸ hz) hne
      · simp only [hrange, Option.map_some, Option.any_some, hz, and_false, decide_false,
          Bool.false_eq_true, if_false, hb]
        exact ⟨fun hh => ⟨hh, Option.some.inj hh ▸ hz⟩, And.left⟩
  have hocc : ∀ b, ii'.Occupied b → ii.Occupied b := by
    intro b hb
    obtain ⟨h, hh⟩ := Option.isSome_iff_exists.mp hb
    rw [IInfo.Occupied, ((hslot b h).mp hh).1]
    rfl
  have hn' : ii'.Numbered := by
    refine ⟨by rw [hii']; exact hn.start, fun b hb => ?_, fun a b ha hb hab => ?_⟩
    · have hrange := hn.inRange b (hocc b hb)
      rwa [hii']
    · rw [hid, hid] at hab
      exact hn.distinct a b (hocc a ha) (hocc b hb) hab
  rw [heq]
  refine ⟨auUpdateBrange_ranged hn', fun b => ?_, fun b h => ?_⟩
  · rw [auUpdateBrange_slots]
    exact hid b
  · rw [auUpdateBrange_slots]
    exact hslot b h

/-- `au_update_brange` in the middle of a copy-up from a branch with a name. -/
theorem PlinkInv.updateBrange (hi : PlinkInv s) (hocc : ((s.ii i).iiHinode b).hiInode = some h)
    (hl : (s.br b).nlink h ≠ 0) :
    PlinkInv (s.setIi i (auUpdateBrangeZero (fun b => (s.br b).nlink) (s.ii i))) := by
  have hoccb : (s.ii i).Occupied b := by
    rw [IInfo.Occupied, hocc]
    rfl
  obtain ⟨hr, hid, hslot⟩ := auUpdateBrangeZero_spec (fun b => (s.br b).nlink) (hi.numbered hoccb)
  refine hi.setIi (fun b' h' hl' hh' => (hslot b' h').mpr ⟨hh', hl'⟩) hr (fun b' hb' => ?_) fun _ => ⟨b, ?_⟩
  · obtain ⟨h', hh'⟩ := Option.isSome_iff_exists.mp hb'
    rw [hid]
    refine hi.ids i b' ?_
    rw [IInfo.Occupied, ((hslot b' h').mp hh').1]
    rfl
  · rw [IInfo.Occupied, (hslot b h).mpr ⟨hocc, hl⟩]
    rfl

theorem IInfo.widen_ranged {ii : IInfo} (hr : ii.Ranged) (b h : Nat) (id : Int) :
    ((ii.widen b).setHIptr b (some h) id).Ranged := by
  have hocc : ∀ a, ((ii.widen b).setHIptr b (some h) id).Occupied a ↔ a = b ∨ ii.Occupied a := by
    intro a
    rw [IInfo.Occupied, IInfo.Occupied]
    by_cases ha : a = b
    · subst ha
      simp
    · rw [IInfo.setHIptr_of_ne _ ha, IInfo.widen_slots]
      simp [ha]
  refine ⟨fun _ => ?_, fun hno => absurd ⟨b, (hocc b).mpr (Or.inl rfl)⟩ hno⟩
  by_cases hold : ∃ a, ii.Occupied a
  · obtain ⟨bstart, bend, hs, he, hleast, hgreatest⟩ := hr.found hold
    have hne : ¬ ii.iiBstart < 0 := by omega
    refine ⟨min b bstart, max b bend, ?_, ?_, ⟨(hocc _).mpr ?_, fun a ha => ?_⟩, ⟨(hocc _).mpr ?_, fun a ha => ?_⟩⟩
    · show (ii.widen b).iiBstart = _
      rw [IInfo.widen, if_neg hne]
      dsimp only
      split <;> omega
    · show (ii.widen b).iiBend = _
      rw [IInfo.widen, if_neg hne]
      dsimp only
      split <;> omega
    · rcases Nat.le_total b bstart with hle | hle
      · exact Or.inl (Nat.min_eq_left hle)
      · rw [Nat.min_eq_right hle]
        exact Or.inr hleast.1
    · rcases (hocc a).mp ha with rfl | ha
      · exact Nat.min_le_left _ _
      · exact Nat.le_trans (Nat.min_le_right _ _) (hleast.2 ha)
    · rcases Nat.le_total b bend with hle | hle
      · rw [Nat.max_eq_right hle]
        exact Or.inr hgreatest.1
      · exact Or.inl (Nat.max_eq_left hle)
    · rcases (hocc a).mp ha with rfl | ha
      · exact Nat.le_max_left _ _
      · exact Nat.le_trans (hgreatest.2 ha) (Nat.le_max_right _ _)
  · have hneg := hr.none hold
    have honly : ∀ a, ((ii.widen b).setHIptr b (some h) id).Occupied a → a = b := fun a ha =>
      ((hocc a).mp ha).resolve_right fun hc => hold ⟨a, hc⟩
    have hw : ii.widen b = { ii with iiBstart := b, iiBend := b } := by rw [IInfo.widen, if_pos (by omega)]
    refine ⟨b, b, ?_, ?_, ⟨(hocc b).mpr (Or.inl rfl), fun a ha => ?_⟩, ⟨(hocc b).mpr (Or.inl rfl), fun a ha => ?_⟩⟩
    · show (ii.widen b).iiBstart = _
      rw [hw]
    · show (ii.widen b).iiBend = _
      rw [hw]
    · exact Nat.le_of_eq (honly a ha).symm
    · exact Nat.le_of_eq (honly a ha)

/-- **A hidden inode is entered** where the inode has none. -/
theorem PlinkInv.enter (hi : PlinkInv s) (hnone : ((s.ii i).iiHinode b).hiInode = none) :
    PlinkInv (s.enter i b h) := by
  obtain ⟨ii, hii⟩ : ∃ ii, ii = ((s.ii i).widen b).setHIptr b (some h) (s.brId b) := ⟨_, rfl⟩
  have hset : s.enter i b h = { s.setIi i ii with
      had := fun i' b' h' => if i' = i ∧ b' = b ∧ h' = h then true else s.had i' b' h' } := by
    simp [PlinkSb.enter, PlinkSb.setHIptr, PlinkSb.setIi, hii]
  have hself : ii.iiHinode b = ⟨some h, s.brId b⟩ := by rw [hii, IInfo.setHIptr_self]
  have hother : ∀ b', b' ≠ b → ii.iiHinode b' = (s.ii i).iiHinode b' := by
    intro b' hb'
    rw [hii, IInfo.setHIptr_of_ne _ hb', IInfo.widen_slots]
  have hold : PlinkInv (s.setIi i ii) := by
    refine hi.setIi (fun b' h' _ hh' => ?_) ?_ (fun b' hb' => ?_) fun _ => ⟨b, ?_⟩
    · by_cases hb' : b' = b
      · subst hb'
        rw [hnone] at hh'
        cases hh'
      · rw [hother b' hb', hh']
    · rw [hii]
      exact IInfo.widen_ranged (hi.ranged i) b h _
    · by_cases hb : b' = b
      · subst hb
        rw [hself]
      · rw [hother b' hb]
        refine hi.ids i b' ?_
        rwa [IInfo.Occupied, hother b' hb] at hb'
    · rw [IInfo.Occupied, hself]
      rfl
  rw [hset]
  refine ⟨fun j b' h' hhad hl => ?_, hold.plinks, hold.ranged, hold.ids, hold.distinct, hold.nodup, hold.refs,
    hold.listed⟩
  by_cases hnew : j = i ∧ b' = b ∧ h' = h
  · obtain ⟨rfl, rfl, rfl⟩ := hnew
    show (((s.setIi j ii).ii j).iiHinode b').hiInode = some h'
    rw [setIi_ii_self, hself]
  · refine hold.one j b' h' ?_ hl
    have hhad' : (if j = i ∧ b' = b ∧ h' = h then true else s.had j b' h') = true := hhad
    rwa [if_neg hnew] at hhad'

/-- The name of an inode and its hidden inode leads to that one, or nowhere. -/
theorem PlinkInv.own (hi : PlinkInv s) {h' : Nat} (hmem : (plinkName i h, h') ∈ (s.br b).plinks) : h' = h := by
  obtain ⟨j, hj⟩ := hi.plinks b _ h' hmem
  exact (plinkName_inj hj).2.symm

/-- **An append**, of a hidden inode with a name. -/
theorem PlinkInv.append (hi : PlinkInv s) {alloc : Bool} {io : List Int}
    (hslot : ((s.ii i).iiHinode b).hiInode = some h) (hl : (s.br b).nlink h ≠ 0)
    (hs : s.auPlinkAppend alloc io i b h = some s') : PlinkGoes s s' := by
  have ha := auPlinkAppend_spec hslot (fun h' hmem => hi.own hmem) hs
  refine ⟨?_, .append ha⟩
  have hname : PlinkInv (s.setBr b { s.br b with plinks := (s.br b).plinks.enter (plinkName i h) h }) := by
    refine hi.setBr (fun h' hl' => ?_) fun tgt h' hmem => ?_
    · rcases LinkBr.nlink_ne_zero.mp hl' with hn | ⟨tgt, htgt⟩
      · exact LinkBr.nlink_ne_zero.mpr (Or.inl hn)
      · rcases Directory.mem_enter.mp htgt with ⟨-, rfl⟩ | hold
        · exact hl
        · exact LinkBr.nlink_ne_zero.mpr (Or.inr ⟨tgt, hold⟩)
    · rcases Directory.mem_enter.mp hmem with ⟨rfl, rfl⟩ | hold
      · exact Or.inr ⟨i, rfl⟩
      · exact Or.inl hold
  -- the branches are those of one of two states that keep the invariant
  obtain ⟨t, ht, hbr, hii, hid, hhad⟩ : ∃ t : PlinkSb π, PlinkInv t ∧ s'.br = t.br ∧ s'.ii = t.ii ∧
      s'.brId = t.brId ∧ s'.had = t.had := by
    rcases ha.br with h0 | h1
    · exact ⟨s, hi, h0, ha.ii, ha.brId, ha.had⟩
    · exact ⟨_, hname, h1, ha.ii, ha.brId, ha.had⟩
  have hoccb : (s.ii i).Occupied b := by
    rw [IInfo.Occupied, hslot]
    rfl
  refine ⟨?_, ?_, ?_, ?_, ?_, ?_, fun j => ?_, fun j hj => ?_⟩
  · rw [hhad, hbr, hii]
    exact ht.one
  · rw [hbr]
    exact ht.plinks
  · rw [hii]
    exact ht.ranged
  · rw [hii, hid]
    exact ht.ids
  · rw [hid]
    exact ht.distinct
  · rcases ha.list with ⟨hh, -⟩ | ⟨hno, hh, -⟩
    · rw [hh]
      exact hi.nodup
    · rw [hh]
      exact List.nodup_cons.mpr ⟨hno, hi.nodup⟩
  · rcases ha.list with ⟨hh, hr⟩ | ⟨-, hh, hr⟩
    · rw [hh, hr]
      exact hi.refs j
    · rw [hh, hr]
      by_cases hj : j = i
      · subst hj
        rw [Function.update_self, hi.refs, List.count_cons_self]
      · rw [Function.update_of_ne hj, hi.refs, List.count_cons_of_ne (Ne.symm hj)]
  · rw [ha.ii]
    rcases ha.list with ⟨hh, -⟩ | ⟨-, hh, -⟩
    · rw [hh] at hj
      exact hi.listed j hj
    · rw [hh] at hj
      rcases List.mem_cons.mp hj with rfl | hold
      · exact ⟨b, hoccb⟩
      · exact hi.listed j hold

/-- `au_set_ibstart` and `au_set_h_iptr` of a branch above one in use enter the hidden inode. -/
theorem PlinkInv.enter_above (hi : PlinkInv s) {bsrc : Nat} (hocc : (s.ii i).Occupied bsrc) (hlt : b < bsrc) :
    (if b < (s.ii i).iiBstart then s.setIi i { s.ii i with iiBstart := b } else s).setHIptr i b h
      = s.enter i b h := by
  obtain ⟨bstart, bend, hs, he, hleast, hgreatest⟩ := (hi.ranged i).found ⟨bsrc, hocc⟩
  have hend := hgreatest.2 hocc
  have hwiden : (s.ii i).widen b
      = if b < (s.ii i).iiBstart then { s.ii i with iiBstart := (b : Int) } else s.ii i := by
    rw [IInfo.widen, if_neg (by omega), if_neg (by omega : ¬ (s.ii i).iiBend < b)]
    split <;> rfl
  rw [PlinkSb.enter, hwiden]
  split
  · rfl
  · have hself : s.setIi i (s.ii i) = s := by
      rw [PlinkSb.setIi, Function.update_eq_self]
    rw [hself]

/-- After the hidden inodes without a link have gone, where there is one on the target branch, it has none. -/
theorem PlinkInv.cleared (hi : PlinkInv s) {bsrc hSrc : Nat} (hsrc : ((s.ii i).iiHinode bsrc).hiInode = some hSrc)
    (hl : (s.br bsrc).nlink hSrc ≠ 0)
    (hdead : ∀ hd, ((s.ii i).iiHinode b).hiInode = some hd → (s.br b).nlink hd = 0) {t : PlinkSb π}
    (ht : t = if (((s.ii i).iiHinode b).hiInode).isSome
      then s.setIi i (auUpdateBrangeZero (fun b => (s.br b).nlink) (s.ii i)) else s) :
    PlinkGoes s t ∧ t.br = s.br ∧ ((t.ii i).iiHinode b).hiInode = none ∧
      ((t.ii i).iiHinode bsrc).hiInode = some hSrc := by
  cases hdst : ((s.ii i).iiHinode b).hiInode with
  | none =>
    have heq : t = s := by rw [ht, hdst, Option.isSome_none, if_neg Bool.false_ne_true]
    rw [heq]
    exact ⟨⟨hi, .refl s⟩, rfl, hdst, hsrc⟩
  | some hd =>
    have heq : t = s.setIi i (auUpdateBrangeZero (fun b => (s.br b).nlink) (s.ii i)) := by
      rw [ht, hdst, Option.isSome_some, if_pos rfl]
    have hoccb : (s.ii i).Occupied bsrc := by
      rw [IInfo.Occupied, hsrc]
      rfl
    obtain ⟨-, -, hslot⟩ := auUpdateBrangeZero_spec (fun b => (s.br b).nlink) (hi.numbered hoccb)
    rw [heq]
    refine ⟨⟨hi.updateBrange hsrc hl, .setIi fun _ b' tgt h' ht hh' => ?_⟩, rfl, ?_, ?_⟩
    · exact (hslot b' h').mpr ⟨hh', LinkBr.nlink_ne_zero.mpr (Or.inr ⟨tgt, ht⟩)⟩
    · rw [setIi_ii_self, Option.eq_none_iff_forall_ne_some]
      intro h' hh'
      obtain ⟨hsame, hne⟩ := (hslot b h').mp hh'
      exact hne (hdead h' hsame)
    · rw [setIi_ii_self]
      exact (hslot bsrc hSrc).mpr ⟨hsrc, hl⟩

end Changes

end KernelPatches.Aufs
