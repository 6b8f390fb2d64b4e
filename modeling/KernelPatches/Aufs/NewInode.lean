/-
  aufs: a name gets an inode of its own file, or another one.

  The number `au_new_inode` finds in a xino file may be stale: the hidden inode it was given to is gone,
  its number was used again by the lower file system, and the inode of the union that has the number is
  still in use, for the old file.  `reval_inode` is there to notice.

  Each number the call tries (`Tried`: the one of the xino file, then new ones) is one of three kinds:

  * the inode cache has nothing under it, and a new inode gets the hidden inodes of the dentry;
  * the cache has the number of a dead directory or of the parent: it is skipped (`Skipped`);
  * the cache has a live inode, which has the topmost hidden inode of the dentry, or has not (`Foreign`).

  `reval_inode` returns zero in both cases of the last kind, `*matched` is not asked then, and the call
  succeeds.  So it attaches the name to an inode of its own file (`auNewInode_attaches_iff`) exactly when
  no number it tries is foreign.
-/
import KernelPatches.Aufs.Inode
import KernelPatches.Aufs.LookupUnion
import KernelPatches.Aufs.XinoFiles
import Mathlib.Data.List.Pairwise

namespace KernelPatches.Aufs

/-! ## The hidden inodes of an inode -/

/-- `h` is one of the hidden inodes. -/
def IInfo.Has (ii : IInfo) (h : Nat) : Prop :=
  ∃ b : Nat, ii.iiBstart ≤ b ∧ (b : Int) ≤ ii.iiBend ∧ (ii.iiHinode b).hiInode = some h

/-- The number is that of a cached inode, which has the topmost hidden inode of the dentry. -/
def Attached (d : Dentry) (s : ISuper) (ino : Nat) : Prop :=
  ∃ inode, s.icache ino = some inode ∧ inode.iinfo.Has d.top

section Hidden

variable {A : Arch} {lower : Lower} {ino : Nat} {d : Dentry}

theorem matchHinode_iff {ii : IInfo} {h : Nat} (hstart : 0 ≤ ii.iiBstart) :
    matchHinode ii h = true ↔ ii.Has h := by
  rw [matchHinode, List.any_eq_true]
  constructor
  · rintro ⟨b, hb, hh⟩
    have hr := List.mem_range'_1.mp hb
    exact ⟨b, by omega, by omega, of_decide_eq_true hh⟩
  · rintro ⟨b, hle, hlt, hh⟩
    exact ⟨b, List.mem_range'_1.mpr ⟨by omega, by omega⟩, decide_eq_true hh⟩

theorem Dentry.hInode_bstart (d : Dentry) : d.hInode d.bstart = some (some d.top) := by
  obtain ⟨hd, hptr, hpos⟩ := d.positive
  obtain ⟨hInode, hinode⟩ := Option.isSome_iff_exists.mp hpos
  rw [Dentry.hInode, hptr, Option.map_some, hinode]
  rfl

/-- One hidden inode is set, the others and the range stay. -/
theorem auSetHIptr_spec {bindex : Nat} {hInode : Option Nat} {ii ii' : IInfo} {s s' : ISuper}
    (h : auSetHIptr A lower ino bindex hInode ii s = some (ii', s')) :
    ii'.iiBstart = ii.iiBstart ∧ ii'.iiBend = ii.iiBend ∧
      (ii'.iiHinode bindex).hiInode = hInode ∧
      ∀ b, b ≠ bindex → ii'.iiHinode b = ii.iiHinode b := by
  unfold auSetHIptr at h
  cases hInode with
  | none =>
    cases h
    refine ⟨rfl, rfl, ?_, fun b hb => Function.update_of_ne hb _ _⟩
    exact congrArg AuHinode.hiInode (Function.update_self bindex _ ii.iiHinode)
  | some hi =>
    dsimp only at h
    cases hbr : auSbr s.br bindex with
    | error e =>
      rw [hbr] at h
      cases h
    | ok br =>
      rw [hbr] at h
      cases h
      refine ⟨rfl, rfl, ?_, fun b hb => Function.update_of_ne hb _ _⟩
      exact congrArg AuHinode.hiInode (Function.update_self bindex _ ii.iiHinode)

/-- `set_inode` goes upwards: what it has set stays. -/
theorem setInodeFrom_spec : ∀ {count bindex : Nat} {ii ii' : IInfo} {s s' : ISuper},
    setInodeFrom A lower ino d count bindex ii s = some (ii', s') →
    ii'.iiBstart = ii.iiBstart ∧ ii'.iiBend = ii.iiBend ∧
      ∀ b, b < bindex → ii'.iiHinode b = ii.iiHinode b := by
  intro count
  induction count with
  | zero =>
    intro bindex ii ii' s s' h
    cases h
    exact ⟨rfl, rfl, fun b _ => rfl⟩
  | succ count ih =>
    intro bindex ii ii' s s' h
    rw [setInodeFrom] at h
    cases hd : d.hInode bindex with
    | none =>
      rw [hd] at h
      obtain ⟨hs, he, hk⟩ := ih h
      exact ⟨hs, he, fun b hb => hk b (by omega)⟩
    | some hInode =>
      rw [hd] at h
      dsimp only at h
      cases hset : auSetHIptr A lower ino bindex hInode ii s with
      | none =>
        rw [hset] at h
        cases h
      | some r =>
        obtain ⟨ii₁, s₁⟩ := r
        rw [hset] at h
        obtain ⟨hs₁, he₁, -, hk₁⟩ := auSetHIptr_spec hset
        obtain ⟨hs, he, hk⟩ := ih h
        refine ⟨hs.trans hs₁, he.trans he₁, fun b hb => ?_⟩
        rw [hk b (by omega), hk₁ b (by omega)]

/-- **A new inode** has the topmost hidden inode of the dentry. -/
theorem setInode_has {ii ii' : IInfo} {s s' : ISuper}
    (h : setInode A lower ino d ii s = some (0, ii', s')) : ii'.Has d.top := by
  have hstart := d.start
  have hrange := d.inRange
  -- with any tail that is not above the start, the first hidden inode set is the topmost one
  have hfill : ∀ btail : Int, d.dinfo.diBstart ≤ btail → ∀ ii₁ s₁,
      setInodeFrom A lower ino d (btail + 1 - d.bstart).toNat d.bstart
        { ii with iiBstart := d.bstart, iiBend := btail } s = some (ii₁, s₁) → ii₁.Has d.top := by
    intro btail hle ii₁ s₁ hset
    obtain ⟨n, hn⟩ : ∃ n, (btail + 1 - d.bstart).toNat = n + 1 :=
      ⟨(btail - d.bstart).toNat, by omega⟩
    rw [hn, setInodeFrom, d.hInode_bstart] at hset
    dsimp only at hset
    cases htop : auSetHIptr A lower ino d.bstart (some d.top)
        { ii with iiBstart := d.bstart, iiBend := btail } s with
    | none =>
      rw [htop] at hset
      cases hset
    | some r =>
      obtain ⟨ii₂, s₂⟩ := r
      rw [htop] at hset
      obtain ⟨hs₂, he₂, hset₂, -⟩ := auSetHIptr_spec htop
      obtain ⟨hs, he, hk⟩ := setInodeFrom_spec hset
      refine ⟨d.bstart, ?_, ?_, ?_⟩
      · rw [hs, hs₂]
      · rw [he, he₂]
        show (d.bstart : Int) ≤ btail
        omega
      · rw [hk d.bstart (by omega), hset₂]
  unfold setInode at h
  dsimp only at h
  split at h
  · cases hset : setInodeFrom A lower ino d (auDbtaildir d.dinfo + 1 - d.bstart).toNat d.bstart
        { ii with iiBstart := d.bstart, iiBend := auDbtaildir d.dinfo } s with
    | none =>
      rw [hset] at h
      cases h
    | some r =>
      rw [hset] at h
      cases h
      exact hfill _ hrange.2.2 _ _ hset
  · split at h
    · cases hset : setInodeFrom A lower ino d (auDbtail d.dinfo + 1 - d.bstart).toNat d.bstart
          { ii with iiBstart := d.bstart, iiBend := auDbtail d.dinfo } s with
      | none =>
        rw [hset] at h
        cases h
      | some r =>
        rw [hset] at h
        cases h
        exact hfill _ hrange.2.1 _ _ hset
    · cases h

/-- `au_update_brange` leaves out no hidden inode. -/
theorem IInfo.Has.updateBrange {ii : IInfo} {h : Nat} (hh : ii.Has h) : (auUpdateBrange ii).Has h := by
  obtain ⟨b, hle, hlt, hb⟩ := hh
  unfold auUpdateBrange
  by_cases hneg : ii.iiBstart < 0
  · rw [if_pos hneg]
    exact ⟨b, hle, hlt, hb⟩
  rw [if_neg hneg]
  have hmem : b ∈ (List.range (ii.iiBend + 1).toNat).filter fun b => (ii.iiHinode b).hiInode.isSome := by
    rw [List.mem_filter, List.mem_range, hb]
    exact ⟨by omega, rfl⟩
  have hsorted : ((List.range (ii.iiBend + 1).toNat).filter
      fun b => (ii.iiHinode b).hiInode.isSome).Pairwise (· ≤ ·) :=
    (List.pairwise_le_range).filter _
  revert hmem hsorted
  generalize (List.range (ii.iiBend + 1).toNat).filter
    (fun b => (ii.iiHinode b).hiInode.isSome) = used
  intro hmem hsorted
  cases used with
  | nil => cases hmem
  | cons first rest =>
    dsimp only [List.head?_cons]
    rw [List.getLast?_eq_some_getLast (List.cons_ne_nil _ _)]
    refine ⟨b, ?_, ?_, hb⟩
    · show (first : Int) ≤ b
      rcases List.mem_cons.mp hmem with rfl | hmem
      · exact Int.le_refl _
      · exact Int.ofNat_le.mpr (List.rel_of_pairwise_cons hsorted hmem)
    · show (b : Int) ≤ ((first :: rest).getLast _ : Nat)
      exact Int.ofNat_le.mpr (hsorted.rel_getLast hmem)

/-- The second half of `au_refresh_hinode` adds hidden inodes and takes none away. -/
theorem refreshFrom_spec : ∀ {count bindex : Nat} {ii ii' : IInfo} {s s' : ISuper} {err : Int},
    refreshFrom A lower ino d count bindex ii s = some (err, ii', s') →
    ii'.iiBstart ≤ ii.iiBstart ∧ ii.iiBend ≤ ii'.iiBend ∧
      ∀ b, b < bindex → ii'.iiHinode b = ii.iiHinode b := by
  intro count
  induction count with
  | zero =>
    intro bindex ii ii' s s' err h
    cases h
    exact ⟨Int.le_refl _, Int.le_refl _, fun b _ => rfl⟩
  | succ count ih =>
    intro bindex ii ii' s s' err h
    have hskip : refreshFrom A lower ino d count (bindex + 1) ii s = some (err, ii', s') →
        ii'.iiBstart ≤ ii.iiBstart ∧ ii.iiBend ≤ ii'.iiBend ∧
          ∀ b, b < bindex → ii'.iiHinode b = ii.iiHinode b := fun h =>
      ⟨(ih h).1, (ih h).2.1, fun b hb => (ih h).2.2 b (by omega)⟩
    unfold refreshFrom at h
    cases hd : d.hInode bindex with
    | none =>
      rw [hd] at h
      exact hskip h
    | some hInode =>
      rw [hd] at h
      cases hInode with
      | none => exact hskip h
      | some hd =>
        dsimp only at h
        split at h
        · exact hskip h
        · split at h
          · cases h
            exact ⟨Int.le_refl _, Int.le_refl _, fun b _ => rfl⟩
          · split at h
            · cases h
            · rename_i ii₁ s₁ hset
              obtain ⟨hs₁, he₁, -, hk₁⟩ := auSetHIptr_spec hset
              obtain ⟨hs, he, hk⟩ := ih h
              rw [hs₁] at hs
              rw [he₁] at he
              dsimp only at hs he
              refine ⟨?_, ?_, fun b hb => ?_⟩
              · split at hs <;> omega
              · split at he <;> omega
              · rw [hk b (by omega), hk₁ b (by omega)]

/-- It succeeds only if the topmost hidden inode of the dentry is one of the inode. -/
theorem refreshFrom_has {count : Nat} {ii ii' : IInfo} {s s' : ISuper}
    (h : refreshFrom A lower ino d (count + 1) d.bstart ii s = some (0, ii', s')) : ii'.Has d.top := by
  unfold refreshFrom at h
  rw [d.hInode_bstart] at h
  dsimp only at h
  split at h
  · rename_i hhi
    obtain ⟨hs, he, hk⟩ := refreshFrom_spec h
    unfold IInfo.hIptr at hhi
    split at hhi
    · exact ⟨d.bstart, by omega, by omega, (congrArg _ (hk d.bstart (by omega))).trans hhi⟩
    · cases hhi
  · split at h
    · cases h
    · split at h
      · cases h
      · rename_i ii₁ s₁ hset
        obtain ⟨hs₁, he₁, hhi, -⟩ := auSetHIptr_spec hset
        obtain ⟨hs, he, hk⟩ := refreshFrom_spec h
        rw [hs₁] at hs
        rw [he₁] at he
        dsimp only at hs he
        refine ⟨d.bstart, ?_, ?_, (congrArg _ (hk d.bstart (by omega))).trans hhi⟩
        · split at hs <;> omega
        · split at he <;> omega

/-- **A refreshed inode** has the topmost hidden inode of the dentry. -/
theorem auRefreshHinode_has {fuel : Nat} {ii ii' : IInfo} {s s' : ISuper}
    (h : auRefreshHinode A lower fuel ino d ii s = some (0, ii', s')) : ii'.Has d.top := by
  unfold auRefreshHinode at h
  split at h
  · cases h
  · rename_i err ii₁ s₁ hself
    split at h
    · rename_i herr
      cases h
      exact absurd rfl herr
    · obtain ⟨n, hn⟩ : ∃ n, (d.dinfo.diBend + 1 - d.bstart).toNat = n + 1 := by
        have hstart := d.start
        have hrange := d.inRange.1
        exact ⟨(d.dinfo.diBend - d.bstart).toNat, by omega⟩
      rw [hn] at h
      split at h
      · cases h
      · rename_i err₂ ii₂ s₂ hrefresh
        dsimp only at h
        split at h
        · rename_i herr
          cases h
          exact absurd rfl herr
        · rename_i herr
          obtain rfl : err₂ = 0 := not_not.mp herr
          cases h
          exact (refreshFrom_has hrefresh).updateBrange

end Hidden

/-! ## One round -/

section Rounds

variable (A : Arch) (lower : Lower) (d : Dentry)

/-- The number is that of a live cached inode of another file. -/
def Foreign (s : ISuper) (ino : Nat) : Prop :=
  ∃ inode, s.icache ino = some inode ∧ inode.bad = false ∧ inode.dead = false ∧ ino ≠ d.parentIno ∧
    0 ≤ inode.iinfo.iiBstart ∧ ¬ inode.iinfo.Has d.top

/-- The number is that of a dead directory, or of the parent. -/
def Skipped (s : ISuper) (ino : Nat) : Prop :=
  ∃ inode, s.icache ino = some inode ∧ inode.bad = false ∧ (ino = d.parentIno ∨ inode.dead = true)

/-- **The numbers tried** by a call in the state `s₀`, each with the state it is tried in: first the one
    of the xino file, or a new one if there is none, and a new one after each that is skipped. -/
inductive Tried (s₀ : ISuper) : Nat → ISuper → Prop
  | first {xinoe ino : Nat} {sb : Sbinfo} {s : ISuper} :
      auXinoRead A d.bstart (lower.iIno d.top) s₀.sb = (0, xinoe, sb) →
      pickIno A xinoe { s₀ with sb := sb } = some (ino, s) → ino ≠ 0 → Tried s₀ ino s
  | next {ino ino' : Nat} {sb : Sbinfo} {s s' : ISuper} : Tried s₀ ino s → Skipped d s ino →
      auXinoWrite0 A d.bstart (lower.iIno d.top) 0 s.sb = (0, sb) →
      pickIno A 0 { s with sb := sb } = some (ino', s') → ino' ≠ 0 → Tried s₀ ino' s'

variable {A lower d}

/-- **What a round does** with a number that is not foreign: it succeeds with an inode of the file, or
    fails, or the number is skipped and the xino entry cleared. -/
theorem newInodeRound_spec {fuel ino : Nat} {s : ISuper} {r : InoRound} (hf : ¬ Foreign d s ino)
    (h : newInodeRound A lower fuel d false ino s = some r) :
    (∃ s', r = .done (.ok ino) s' ∧ Attached d s' ino) ∨ (∃ e s', r = .done (.error e) s') ∨
      ∃ sb, r = .newIno { s with sb := sb } ∧ Skipped d s ino ∧
        auXinoWrite0 A d.bstart (lower.iIno d.top) 0 s.sb = (0, sb) := by
  unfold newInodeRound at h
  cases hc : s.icache ino with
  | none =>
    rw [hc] at h
    dsimp only at h
    split at h
    · cases h
      exact Or.inr (Or.inl ⟨_, _, rfl⟩)
    · split at h
      · cases h
        exact Or.inr (Or.inl ⟨_, _, rfl⟩)
      · split at h
        · cases h
        · rename_i err ii s₁ hset
          split at h
          · rename_i herr
            subst herr
            cases h
            exact Or.inl ⟨_, rfl, _, Function.update_self _ _ _, setInode_has hset⟩
          · cases h
            exact Or.inr (Or.inl ⟨_, _, rfl⟩)
  | some inode =>
    rw [hc] at h
    dsimp only at h
    by_cases hbad : inode.bad = true
    · rw [if_pos hbad] at h
      cases h
      exact Or.inr (Or.inl ⟨_, _, rfl⟩)
    rw [if_neg hbad, if_neg Bool.false_ne_true] at h
    have hforget : Skipped d s ino → forgetIno A lower d s = r →
        (∃ e s', r = .done (.error e) s') ∨ ∃ sb, r = .newIno { s with sb := sb } ∧ Skipped d s ino ∧
          auXinoWrite0 A d.bstart (lower.iIno d.top) 0 s.sb = (0, sb) := by
      rintro hskip rfl
      unfold forgetIno
      by_cases hw : (auXinoWrite0 A d.bstart (lower.iIno d.top) 0 s.sb).1 = 0
      · right
        exact ⟨_, if_pos hw, hskip, Prod.ext hw rfl⟩
      · left
        exact ⟨_, _, if_neg hw⟩
    have hsame : ({ s with icache := Function.update s.icache ino (some inode) } : ISuper) = s := by
      rw [← hc, Function.update_eq_self]
    unfold revalInode at h
    by_cases hparent : ino = d.parentIno
    · rw [if_pos hparent] at h
      dsimp only at h
      rw [hsame] at h
      exact Or.inr (hforget ⟨inode, hc, Bool.eq_false_iff.mpr hbad, Or.inl hparent⟩ (Option.some.inj h))
    rw [if_neg hparent] at h
    by_cases hdead : inode.dead = true
    · rw [if_pos hdead] at h
      dsimp only at h
      rw [hsame] at h
      exact Or.inr (hforget ⟨inode, hc, Bool.eq_false_iff.mpr hbad, Or.inr hdead⟩ (Option.some.inj h))
    rw [if_neg hdead] at h
    by_cases hneg : inode.iinfo.iiBstart < 0
    · rw [if_pos hneg] at h
      cases h
    rw [if_neg hneg] at h
    by_cases hhas : inode.iinfo.Has d.top
    case neg =>
      exact absurd ⟨inode, hc, Bool.eq_false_iff.mpr hbad, Bool.eq_false_iff.mpr hdead, hparent,
        by omega, hhas⟩ hf
    rw [if_pos ((matchHinode_iff (by omega)).mpr hhas)] at h
    by_cases hgen : inode.iinfo.iiGeneration ≠ d.digen
    · rw [if_pos hgen] at h
      cases hr : auRefreshHinode A lower fuel ino d inode.iinfo s with
      | none =>
        rw [hr] at h
        cases h
      | some q =>
        obtain ⟨err, ii, s₁⟩ := q
        rw [hr] at h
        dsimp only at h
        by_cases herr : err = 0
        · subst herr
          cases h
          exact Or.inl ⟨_, rfl, _, Function.update_self _ _ _, auRefreshHinode_has hr⟩
        · rw [if_neg herr, if_pos rfl] at h
          cases h
          exact Or.inr (Or.inl ⟨_, _, rfl⟩)
    · rw [if_neg hgen] at h
      cases h
      exact Or.inl ⟨_, rfl, inode, Function.update_self _ _ _, hhas⟩

/-- **A foreign number is taken**: the round succeeds with it. -/
theorem newInodeRound_foreign {ino : Nat} {s : ISuper} (hf : Foreign d s ino) (fuel : Nat) :
    newInodeRound A lower fuel d false ino s = some (.done (.ok ino) s) := by
  obtain ⟨inode, hc, hbad, hdead, hparent, hstart, hhas⟩ := hf
  have hmatch : ¬ matchHinode inode.iinfo d.top = true := fun hm => hhas ((matchHinode_iff hstart).mp hm)
  have hreval : revalInode A lower fuel ino d inode s = some (0, false, inode, s) := by
    rw [revalInode, if_neg hparent, if_neg (by rw [hdead]; exact Bool.false_ne_true), if_neg (by omega),
      if_neg hmatch]
  unfold newInodeRound
  rw [hc]
  dsimp only
  rw [if_neg (by rw [hbad]; exact Bool.false_ne_true), if_neg Bool.false_ne_true, hreval]
  dsimp only
  rw [if_pos rfl, ← hc, Function.update_eq_self]

/-- A skipped number costs a round. -/
theorem newInodeRound_skipped {ino : Nat} {s : ISuper} {sb : Sbinfo} (hskip : Skipped d s ino)
    (hw : auXinoWrite0 A d.bstart (lower.iIno d.top) 0 s.sb = (0, sb)) (fuel : Nat) :
    newInodeRound A lower fuel d false ino s = some (.newIno { s with sb := sb }) := by
  obtain ⟨inode, hc, hbad, hor⟩ := hskip
  have hreval : revalInode A lower fuel ino d inode s = some (- EIO, false, inode, s) := by
    rw [revalInode]
    by_cases hparent : ino = d.parentIno
    · rw [if_pos hparent]
    · rw [if_neg hparent, if_pos (hor.resolve_left hparent)]
  unfold newInodeRound
  rw [hc]
  dsimp only
  rw [if_neg (by rw [hbad]; exact Bool.false_ne_true), if_neg Bool.false_ne_true, hreval]
  dsimp only
  rw [if_neg (by decide), if_neg Bool.false_ne_true, ← hc, Function.update_eq_self, forgetIno, hw]
  rfl

/-! ## The call -/

/-- By induction on the rounds left: every number tried in them is one of `Tried`. -/
theorem newInodeFrom_attaches {s₀ : ISuper} (hf : ∀ ino s, Tried A lower d s₀ ino s → ¬ Foreign d s ino) :
    ∀ {fuel xinoe ino : Nat} {s s' : ISuper},
      (∀ n s₁, pickIno A xinoe s = some (n, s₁) → n ≠ 0 → Tried A lower d s₀ n s₁) →
      newInodeFrom A lower d false fuel xinoe s = some (.ok ino, s') → Attached d s' ino := by
  intro fuel
  induction fuel with
  | zero =>
    intro xinoe ino s s' _ h
    cases h
  | succ fuel ih =>
    intro xinoe ino s s' htried h
    rw [newInodeFrom] at h
    cases hp : pickIno A xinoe s with
    | none =>
      rw [hp] at h
      cases h
    | some q =>
      obtain ⟨n, s₁⟩ := q
      rw [hp] at h
      dsimp only at h
      by_cases hn : n = 0
      · rw [if_pos hn] at h
        cases h
      rw [if_neg hn] at h
      have ht := htried n s₁ hp hn
      cases hr : newInodeRound A lower fuel d false n s₁ with
      | none =>
        rw [hr] at h
        cases h
      | some r =>
        rw [hr] at h
        rcases newInodeRound_spec (hf n s₁ ht) hr with ⟨s₂, rfl, hatt⟩ | ⟨e, s₂, rfl⟩ |
          ⟨sb, rfl, hskip, hw⟩
        · cases h
          exact hatt
        · cases h
        · exact ih (fun m s₃ hpick hm => ht.next hskip hw hpick hm) h

/-- What is left of the call when a number is to be tried. -/
def newInodeAt (A : Arch) (lower : Lower) (d : Dentry) (fuel ino : Nat) (s : ISuper) :
    Option (Except Int Nat × ISuper) :=
  match newInodeRound A lower fuel d false ino s with
  | none => none
  | some (.done ret s) => some (ret, s)
  | some (.newIno s) => newInodeFrom A lower d false fuel 0 s

theorem newInodeFrom_pick {xinoe ino : Nat} {s s' : ISuper} (hp : pickIno A xinoe s = some (ino, s'))
    (hne : ino ≠ 0) (fuel : Nat) :
    newInodeFrom A lower d false (fuel + 1) xinoe s = newInodeAt A lower d fuel ino s' := by
  rw [newInodeFrom, hp]
  exact if_neg hne

/-- **Every number tried is reached**, by induction on the tries. -/
theorem Tried.reached {s₀ : ISuper} {ino : Nat} {s : ISuper} (ht : Tried A lower d s₀ ino s) :
    ∀ fuel, ∃ fuel', auNewInode A lower fuel' d false s₀ = newInodeAt A lower d fuel ino s := by
  induction ht with
  | first hread hp hne =>
    intro fuel
    refine ⟨fuel + 1, ?_⟩
    rw [auNewInode, hread]
    dsimp only
    rw [if_neg (by decide), newInodeFrom_pick hp hne]
  | @next ino ino' sb s s' ht hskip hw hp hne ih =>
    intro fuel
    obtain ⟨fuel', heq⟩ := ih (fuel + 1)
    refine ⟨fuel', heq.trans ?_⟩
    rw [newInodeAt, newInodeRound_skipped hskip hw]
    exact newInodeFrom_pick hp hne fuel

end Rounds

/-- **`au_new_inode` attaches a name to an inode of its own file** iff no number it tries is that of a
    live cached inode of another file. -/
theorem auNewInode_attaches_iff (A : Arch) (lower : Lower) (d : Dentry) (s : ISuper) :
    (∀ fuel ino s', auNewInode A lower fuel d false s = some (.ok ino, s') → Attached d s' ino) ↔
      ∀ ino s', Tried A lower d s ino s' → ¬ Foreign d s' ino := by
  constructor
  · intro hatt ino s' ht hf
    obtain ⟨fuel, heq⟩ := ht.reached 0
    rw [newInodeAt, newInodeRound_foreign hf] at heq
    obtain ⟨inode, hc, hhas⟩ := hatt fuel ino s' heq
    obtain ⟨inode', hc', -, -, -, -, hno⟩ := hf
    obtain rfl := Option.some.inj (hc.symm.trans hc')
    exact hno hhas
  · intro hf fuel ino s' h
    unfold auNewInode at h
    dsimp only at h
    split at h
    · cases h
    · rename_i herr
      refine newInodeFrom_attaches hf (fun n s₁ hp hn => ?_) h
      exact Tried.first (Prod.ext (not_not.mp herr) rfl) hp hn

/-- New numbers being new, only the entry of the xino file can be of another file. -/
theorem auNewInode_attaches_of_entry {A : Arch} {lower : Lower} {d : Dentry} {s : ISuper}
    (hnew : ∀ s₁ ino s₂, pickIno A 0 s₁ = some (ino, s₂) → s₂.icache ino = none)
    (hentry : ∀ ino sb, auXinoRead A d.bstart (lower.iIno d.top) s.sb = (0, ino, sb) →
      ¬ Foreign d { s with sb := sb } ino) :
    ∀ ino s', Tried A lower d s ino s' → ¬ Foreign d s' ino := by
  -- nothing is cached under a new number
  have hfresh : ∀ s₁ ino s₂, pickIno A 0 s₁ = some (ino, s₂) → ¬ Foreign d s₂ ino := by
    rintro s₁ ino s₂ hp ⟨inode, hc, -⟩
    rw [hnew s₁ ino s₂ hp] at hc
    cases hc
  intro ino s' ht
  cases ht with
  | @first xinoe _ sb _ hread hp hne =>
    by_cases hx : xinoe = 0
    · subst hx
      exact hfresh _ _ _ hp
    · rw [pickIno, if_pos hx] at hp
      cases hp
      exact hentry ino sb hread
  | next _ _ _ hp _ => exact hfresh _ _ _ hp

/-! ## Where the dentry comes from -/

/-- **What `au_lkup_dentry` found** is a dentry to give an inode to. -/
theorem exists_dentry {st : Stack} {parent : Dinfo} {name : Name} {s t : Nat}
    (hq : Quiet st parent name s (lkupEnd parent s)) (hname : Allowed st name)
    (ht : Top st parent name s (lkupEnd parent s) t) (addr : Nat → Nat) (parentIno digen : Nat) :
    ∃ d : Dentry, d.dinfo = (auLkupDentry st parent none name s 0 .alloc).2 ∧ d.bstart = t ∧
      d.addr = addr ∧ d.parentIno = parentIno ∧ d.digen = digen := by
  obtain ⟨n, d, d', hfound, hd', hlkup⟩ := auLkupDentry_found hq hname
  have hn : n ≠ 0 := fun h0 => hfound.shown.mp h0 t ht.1
  rw [if_pos hn] at hd'
  obtain ⟨hdentry, heq, hptr, -⟩ := hfound.filled.update (top_merged ht).1
  have hmerged := (top_merged ht).1.1
  have hstart : d'.diBstart = t := by rw [hd', heq]
  have hbend : d'.diBend = d.diBend := by rw [hd', heq]
  have htail : auDbtail d' = auDbtail d := by rw [hd', heq]; rfl
  have hopq : d'.diBdiropq = d.diBdiropq := by rw [hd', heq]
  have hle : (t : Int) ≤ auDbtail d := hfound.tail t hmerged
  refine ⟨⟨d', addr, parentIno, digen, t, hstart, ?_, ?_, ?_, ?_⟩, by rw [hlkup], rfl, rfl, rfl, rfl⟩
  · rw [hd']
    exact (hptr t).mp hmerged
  · obtain ⟨hd, hget, -⟩ := (hfound.filled.positive t).mp hmerged
    rw [hstart, hbend]
    exact (hfound.filled.range t hd hget).2
  · rw [hstart, htail]
    exact hle
  · rw [hstart, auDbtaildir, htail, hopq]
    by_cases hcut : 0 ≤ auDbtail d ∧ 0 ≤ d.diBdiropq ∧ d.diBdiropq < auDbtail d
    · rw [if_pos hcut]
      rcases hfound.bdiropq with ⟨hv, -⟩ | ⟨o, ho, hgreat⟩
      · rw [hv] at hcut
        omega
      · rw [ho]
        exact Int.ofNat_le.mpr (ht.2 hgreat.1.1.1)
    · rw [if_neg hcut]
      exact hle

/-! ## A stale number -/

/-- Inode 5 of the branch was a file which is open still and has the number 20.  It was deleted in the
    branch, and 5 is another file now. -/
def staleSuper : ISuper where
  sb := { xino := true, siBend := 0, siBranch := fun _ => ⟨0, 0⟩
          xinoFiles := fun _ => writeEntry .lp64 .empty 5 20
          siXib := .empty, siXibBuf := fun _ => 0, siXibLastPindex := 0, siXibNextBit := 0
          uniq := fun n => n, io := [], xibIo := [] }
  br := unmounted
  siGeneration := 0
  icache := Function.update (fun _ => none) 20 (some ⟨false, false, ⟨0, 0, fun _ => ⟨some 100, 1⟩, 0⟩⟩)
  allocs := []

def numberedFive : Lower := ⟨fun _ => 5, fun _ => sIfreg⟩

/-- The name of the new file, whose hidden inode is at another address. -/
def newName : Dentry where
  dinfo := opaqueStack 0
  addr := fun _ => 200
  parentIno := 2
  digen := 0
  bstart := 0
  start := rfl
  positive := ⟨⟨0, [], some opaqueBranch⟩, rfl, rfl⟩
  inRange := by decide

/-- **The new file gets the inode of the old one.** -/
theorem stale_number : auNewInode .lp64 numberedFive 1 newName false staleSuper =
      some (.ok 20, staleSuper) ∧ ¬ Attached newName staleSuper 20 := by
  have hcached : staleSuper.icache 20 = some ⟨false, false, ⟨0, 0, fun _ => ⟨some 100, 1⟩, 0⟩⟩ :=
    rfl
  have hno : ¬ IInfo.Has ⟨0, 0, fun _ => ⟨some 100, 1⟩, 0⟩ newName.top := by
    rintro ⟨b, -, -, hb⟩
    exact absurd (Option.some.inj hb) (by decide)
  have hforeign : Foreign newName staleSuper 20 :=
    ⟨_, hcached, rfl, rfl, by decide, Int.le_refl 0, hno⟩
  have hread : auXinoRead .lp64 0 5 staleSuper.sb = (0, 20, staleSuper.sb) := by
    rw [auXinoRead_nil rfl rfl, if_pos (by decide), xinoEntry]
    show (0, entry .lp64 (writeEntry .lp64 .empty 5 20) 5, staleSuper.sb) = _
    rw [entry_writeEntry (Nat.dvd_zero _) (by decide), if_pos rfl]
  refine ⟨?_, ?_⟩
  · have hentry : auXinoRead .lp64 newName.bstart (numberedFive.iIno newName.top) staleSuper.sb =
        (0, 20, staleSuper.sb) := hread
    rw [auNewInode, hentry]
    dsimp only
    rw [if_neg (by decide), newInodeFrom_pick (if_pos (by decide)) (by decide), newInodeAt, newInodeRound_foreign hforeign]
  · rintro ⟨inode, hc, hhas⟩
    obtain rfl := Option.some.inj (hcached.symm.trans hc)
    exact hno hhas

end KernelPatches.Aufs
