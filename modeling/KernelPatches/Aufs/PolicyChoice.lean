/-
  aufs: which writable branch a policy finds.

  Two of the policies MISS branches.

  With `dirperm1` the loops over the parent's branches ask `au_test_h_perm` whether the parent may be written,
  and that answers zero if it may.  They take its answer for a truth value, and so the first branch where the
  parent may NOT be written.

  Round robin counts down, by `atomic_dec_return`, and takes the counter modulo the number of branches.  It
  tries as often as there are branches.  For a directory the counter is only read, and each try is the same
  one.  For a file it skips zero and goes on with the largest numbers, and what these leave modulo the number
  of branches does not go on from there.

  * `dirperm1_choice_iff`   — when a loop over the parent's branches finds the branch it should;
  * `rrProbe`, `RrTried`    — the numbers round robin tries, and the branches these are;
  * `createRr_finds_iff`    — when round robin finds a writable branch.
-/
import KernelPatches.Aufs.WrDir

namespace KernelPatches.Aufs

/-! ## The permission of the parent -/

/-- A branch the loops should take: it is writable and has the parent, which may be written. -/
def Granted (wbr : WbrEnv) (u : UnionSb) (parent : Dinfo) (b : Nat) : Prop :=
  hasHDir parent b = true ∧ Writable wbr u b ∧ wbr.hPerm b = 0

/-- With `dirperm1`, a dentry starts on the read-only branch `d`, and its parent on `p`. -/
structure OnReadOnly (env : RmEnv) (dentry parent : Dinfo) (d p : Nat) : Prop where
  there : BranchesThere env.union
  start : dentry.diBstart = d
  parentStart : parent.diBstart = p
  nameThere : (d : Int) ≤ env.union.siBend
  rdonly : sbrRdonly env.wbr env.union d = .ok true
  dirperm1 : env.wbr.dirperm1 = true

/-- The first branch top down from `p` to above `d`. -/
def FirstDown (P : Nat → Prop) (p d g : Nat) : Prop := p ≤ g ∧ g < d ∧ P g ∧ ∀ a, p ≤ a → a < g → ¬ P a

/-- The first branch bottom up from `d` to `p`. -/
def FirstUp (P : Nat → Prop) (p d g : Nat) : Prop := p ≤ g ∧ g ≤ d ∧ P g ∧ ∀ a, g < a → a ≤ d → ¬ P a

section Permission

variable {env : RmEnv} {dentry parent : Dinfo} {d p g : Nat}

theorem Granted.not_suitable {wbr : WbrEnv} {u : UnionSb} (h : Granted wbr u parent g)
    (hperm : wbr.dirperm1 = true) : ¬ Suitable wbr u parent g := fun hs => hs.2.2 hperm h.2.2

/-- **Bottom up** finds a branch that is the last writable one. -/
theorem auWbrBu_eq_iff {wbr : WbrEnv} {u : UnionSb} (h : BranchesThere u) (hg : Writable wbr u g) :
    ∀ {n : Nat}, (n : Int) ≤ u.siBend + 1 → g < n →
      (auWbrBu wbr u n = .ok g ↔ ∀ b, g < b → b < n → ¬ Writable wbr u b) := by
  intro n
  induction n with
  | zero => exact fun _ hlt => absurd hlt (Nat.not_lt_zero g)
  | succ n ih =>
    intro hn hlt
    rw [auWbrBu]
    rcases h.rdonly (show (n : Int) ≤ u.siBend by omega) with hro | hw
    · have hne : g ≠ n := by
        rintro rfl
        exact Aufs.not_writable hro hg
      rw [hro]
      refine (ih (by omega) (by omega)).trans ⟨fun hno b hgb hb => ?_, fun hno b hgb hb => ?_⟩
      · rcases Nat.lt_succ_iff_lt_or_eq.mp hb with hbn | rfl
        · exact hno b hgb hbn
        · exact Aufs.not_writable hro
      · exact hno b hgb (by omega)
    · rw [hw]
      show (Except.ok (n : Int) : Except BrTrap Int) = .ok (g : Int) ↔ _
      constructor
      · intro heq
        have hng : (n : Int) = g := Except.ok.inj heq
        intro b hgb hb
        omega
      · intro hno
        have hng : ¬ g < n := fun hgn => hno n hgn (Nat.lt_succ_self n) hw
        rw [show n = g by omega]

/-- The loop top down takes the first branch that is suitable, or fails. -/
theorem createTdpFrom_takes (h : OnReadOnly env dentry parent d p) :
    ∃ t, createTdpFrom env.wbr env.union parent (d - p) p = .ok t ∧
      ((t < 0 ∧ ∀ b, p ≤ b → b < d → ¬ Suitable env.wbr env.union parent b) ∨
        ∃ b : Nat, p ≤ b ∧ b < d ∧ t = (b : Int) ∧ Suitable env.wbr env.union parent b) := by
  have hd := h.nameThere
  have hthere : ∀ b ∈ List.range' p (d - p), (b : Int) ≤ env.union.siBend := by
    intro b hb
    have hb' := List.mem_range'_1.mp hb
    omega
  have hup : (List.range' p (d - p)).Pairwise (· < ·) := List.pairwise_lt_range'
  obtain ⟨t, ht, htakes⟩ := @firstSuitable_takes env.wbr env.union parent h.there (· < ·)
    (fun a b => Nat.lt_asymm) _ hup hthere
  refine ⟨t, createTdpFrom_eq.trans ht, ?_⟩
  rcases htakes with ⟨hneg, hnone⟩ | ⟨b, hb, hbt, hs, -⟩
  · exact Or.inl ⟨hneg, fun b hpb hbd => hnone b (List.mem_range'_1.mpr ⟨hpb, by omega⟩)⟩
  · have hb' := List.mem_range'_1.mp hb
    exact Or.inr ⟨b, hb'.1, by omega, hbt, hs⟩

/-- The loop bottom up does so too. -/
theorem copyupBupFrom_takes (h : OnReadOnly env dentry parent d p) :
    ∃ t, copyupBupFrom env parent ((d : Int) + 1 - p).toNat d = some t ∧
      (t < 0 ∨ ∃ b : Nat, t = (b : Int) ∧ Suitable env.wbr env.union parent b) := by
  have hd := h.nameThere
  have hthere : ∀ b ∈ (List.range ((d : Int) + 1 - p).toNat).map (d - ·), (b : Int) ≤ env.union.siBend := by
    intro b hb
    obtain ⟨k, -, rfl⟩ := List.mem_map.mp hb
    omega
  have hdown : ((List.range ((d : Int) + 1 - p).toNat).map (d - ·)).Pairwise (fun a b => b < a) := by
    refine List.pairwise_map.mpr ((List.pairwise_lt_range (n := ((d : Int) + 1 - p).toNat)).imp_of_mem ?_)
    intro a b ha hb hab
    have hb' := List.mem_range.mp hb
    omega
  obtain ⟨t, ht, htakes⟩ := @firstSuitable_takes env.wbr env.union parent h.there
    (fun a b => b < a) (fun a b hab => Nat.lt_asymm hab) _ hdown hthere
  refine ⟨t, copyupBupFrom_eq.trans (toOption_ok ht), ?_⟩
  exact htakes.imp And.left fun ⟨b, _, hbt, hs, _⟩ => ⟨b, hbt, hs⟩

/-- **Top down**, a branch that is granted is taken when none is suitable and it is the last one to write
    to: then it is found bottom up. -/
theorem createTdp_granted_iff (h : OnReadOnly env dentry parent d p)
    (hg : FirstDown (Granted env.wbr env.union parent) p d g) :
    auWbrCreateTdp env.wbr env.union dentry parent = .ok g ↔
      (∀ a, p ≤ a → a < d → ¬ Suitable env.wbr env.union parent a) ∧
        ∀ b, g < b → b < d → ¬ Writable env.wbr env.union b := by
  have hd := h.nameThere
  obtain ⟨-, hgd, hgrant, -⟩ := hg
  obtain ⟨t, ht, htakes⟩ := createTdpFrom_takes h
  have heq : auWbrCreateTdp env.wbr env.union dentry parent
      = if t < 0 then auWbrBu env.wbr env.union d else .ok t := by
    unfold auWbrCreateTdp
    dsimp only
    rw [h.start, h.parentStart, Int.toNat_natCast, Int.toNat_natCast, h.rdonly]
    dsimp only
    rw [if_neg (by decide), ht]
  rw [heq]
  rcases htakes with ⟨hneg, hnone⟩ | ⟨b, hpb, hbd, rfl, hs⟩
  · rw [if_pos hneg, auWbrBu_eq_iff h.there hgrant.2.1 (by omega) hgd]
    exact ⟨fun hno => ⟨hnone, hno⟩, And.right⟩
  · -- a branch is suitable, and it is not the granted one
    rw [if_neg (by omega)]
    refine iff_of_false (fun hbg => ?_) fun hno => hno.1 b hpb hbd hs
    have hbg' : (b : Int) = g := Except.ok.inj hbg
    obtain rfl := Int.ofNat_inj.mp hbg'
    exact hgrant.not_suitable h.dirperm1 hs

/-- **Bottom up**, a branch that is granted is never taken. -/
theorem copyupBup_not_granted (h : OnReadOnly env dentry parent d p) (hbup : env.wbrCopyup = .bup)
    (hpg : p ≤ g) (hgrant : Granted env.wbr env.union parent g) : auWbrCopyup env dentry parent ≠ some g := by
  have hd := h.nameThere
  obtain ⟨t, ht, htakes⟩ := copyupBupFrom_takes h
  unfold auWbrCopyup
  rw [hbup]
  dsimp only
  rw [h.start, h.parentStart, Int.toNat_natCast, Int.toNat_natCast, ht]
  dsimp only
  intro hres
  rcases htakes with hneg | ⟨b, rfl, hs⟩
  · -- what is found above the parent is another branch
    rw [if_pos hneg] at hres
    cases hbu : auWbrBu env.wbr env.union p with
    | error e => rw [hbu] at hres; cases hres
    | ok r =>
      have hlt := auWbrBu_lt hbu
      rw [hbu] at hres
      have hrg : r = g := Option.some.inj hres
      omega
  · rw [if_neg (by omega)] at hres
    have hbg : (b : Int) = g := Option.some.inj hres
    obtain rfl := Int.ofNat_inj.mp hbg
    exact hgrant.not_suitable h.dirperm1 hs

/-- The loop top down does not take it either. -/
theorem createTdpFrom_not_granted (h : OnReadOnly env dentry parent d p)
    (hgrant : Granted env.wbr env.union parent g) : createTdpFrom env.wbr env.union parent (d - p) p ≠ .ok g := by
  obtain ⟨t, ht, htakes⟩ := createTdpFrom_takes h
  intro hres
  have htg : t = g := Except.ok.inj (ht.symm.trans hres)
  rcases htakes with ⟨hneg, -⟩ | ⟨b, -, -, hbt, hs⟩
  · omega
  · have hbg : (b : Int) = g := hbt.symm.trans htg
    obtain rfl := Int.ofNat_inj.mp hbg
    exact hgrant.not_suitable h.dirperm1 hs

/-- **When the first granted branch is chosen.**  No loop over the parent's branches ends at it.  Top down it
    is chosen, for a new entry as for a copy-up, exactly when the test denies no writable branch of the loop and
    no branch between it and the dentry's own can be written; bottom up never. -/
theorem dirperm1_choice_iff (h : OnReadOnly env dentry parent d p) :
    (∀ g, FirstDown (Granted env.wbr env.union parent) p d g →
      createTdpFrom env.wbr env.union parent (d - p) p ≠ .ok g ∧
      (auWbrCreateTdp env.wbr env.union dentry parent = .ok g ↔
        (∀ a, p ≤ a → a < d → ¬ Suitable env.wbr env.union parent a) ∧
          ∀ b, g < b → b < d → ¬ Writable env.wbr env.union b) ∧
      (env.wbrCopyup = .tdp → (auWbrCopyup env dentry parent = some g ↔
        (∀ a, p ≤ a → a < d → ¬ Suitable env.wbr env.union parent a) ∧
          ∀ b, g < b → b < d → ¬ Writable env.wbr env.union b))) ∧
    ∀ g, FirstUp (Granted env.wbr env.union parent) p d g →
      env.wbrCopyup = .bup → auWbrCopyup env dentry parent ≠ some g := by
  refine ⟨fun g hg => ⟨createTdpFrom_not_granted h hg.2.2.1, createTdp_granted_iff h hg, fun htdp => ?_⟩, ?_⟩
  · rw [← createTdp_granted_iff h hg, auWbrCopyup, htdp]
    show (auWbrCreateTdp env.wbr env.union dentry parent).toOption = some (g : Int) ↔ _
    cases auWbrCreateTdp env.wbr env.union dentry parent with
    | error e => exact iff_of_false (fun hres => by cases hres) fun hres => by cases hres
    | ok t => exact ⟨fun ht => congrArg Except.ok (Option.some.inj ht), fun ht => congrArg some (Except.ok.inj ht)⟩
  · exact fun g hg hbup => copyupBup_not_granted h hbup hg.1 hg.2.2.1

end Permission

/-- Two writable branches above a read-only one.  The parent may be written on the second only. -/
def mixedStack : RmEnv where
  union := { unmounted with
    siBend := 2
    siBranch := [some ⟨1, .rw, ⟨1, 0⟩, some 0⟩, some ⟨2, .rw, ⟨2, 0⟩, some 0⟩, some ⟨3, .ro, ⟨3, 0⟩, none⟩] }
  wbr := ⟨0, fun _ => false, fun _ => true, fun _ => none, true, fun b => if b = 1 then 0 else -EACCES⟩
  wbrCopyup := .bup
  shwh := false
  udbaNone := false
  mode := sIfreg
  immutable _ := false
  cpup _ := plainEnv
  whbase _ := true
  dir := ⟨0, 2, fun b => ⟨some (100 + b), b + 1⟩, 0⟩
  dCountOne := false
  rmdirLater := false
  testEmpty := 0

/-- A directory on the three branches, and a file in it on the third. -/
def mixedDir : Dinfo := ⟨0, 2, -1, -1, fun b => some ⟨b, [[97]], some (.mk (b + 1) sIfdir [] fun _ => 0)⟩⟩

def mixedFile : Dinfo := ⟨2, 2, -1, -1, fun b => if b = 2 then some ⟨2, [[98], [97]], some newFile⟩ else none⟩

theorem mixedStack_onReadOnly : OnReadOnly mixedStack mixedFile mixedDir 2 0 where
  there := by
    intro b hb
    have hb' : (b : Int) ≤ 2 := hb
    rcases show b = 0 ∨ b = 1 ∨ b = 2 by omega with rfl | rfl | rfl
    · exact ⟨_, rfl⟩
    · exact ⟨_, rfl⟩
    · exact ⟨_, rfl⟩
  start := rfl
  parentStart := rfl
  nameThere := by decide
  rdonly := rfl
  dirperm1 := rfl

theorem dirperm1_choice_iff_mixed :
    (∀ g, FirstDown (Granted mixedStack.wbr mixedStack.union mixedDir) 0 2 g →
      createTdpFrom mixedStack.wbr mixedStack.union mixedDir (2 - 0) 0 ≠ .ok g ∧
      (auWbrCreateTdp mixedStack.wbr mixedStack.union mixedFile mixedDir = .ok g ↔
        (∀ a, 0 ≤ a → a < 2 → ¬ Suitable mixedStack.wbr mixedStack.union mixedDir a) ∧
          ∀ b, g < b → b < 2 → ¬ Writable mixedStack.wbr mixedStack.union b) ∧
      (mixedStack.wbrCopyup = .tdp → (auWbrCopyup mixedStack mixedFile mixedDir = some g ↔
        (∀ a, 0 ≤ a → a < 2 → ¬ Suitable mixedStack.wbr mixedStack.union mixedDir a) ∧
          ∀ b, g < b → b < 2 → ¬ Writable mixedStack.wbr mixedStack.union b))) ∧
    ∀ g, FirstUp (Granted mixedStack.wbr mixedStack.union mixedDir) 0 2 g →
      mixedStack.wbrCopyup = .bup → auWbrCopyup mixedStack mixedFile mixedDir ≠ some g :=
  dirperm1_choice_iff mixedStack_onReadOnly

/-- Not always: the branch chosen, in both directions, is the first one, where the parent may not be written. -/
theorem denied_branch_chosen : ¬ ∀ (env : RmEnv) (dentry parent : Dinfo) (d p : Nat),
    OnReadOnly env dentry parent d p →
      (∀ g, FirstDown (Granted env.wbr env.union parent) p d g →
        auWbrCreateTdp env.wbr env.union dentry parent = .ok g) ∧
      ∀ g, FirstUp (Granted env.wbr env.union parent) p d g →
        env.wbrCopyup = .bup → auWbrCopyup env dentry parent = some g := by
  intro hall
  have hgrant : Granted mixedStack.wbr mixedStack.union mixedDir 1 := ⟨rfl, rfl, rfl⟩
  have hdenied : ¬ Granted mixedStack.wbr mixedStack.union mixedDir 0 := fun h => absurd h.2.2 (by decide)
  have hfirst : FirstDown (Granted mixedStack.wbr mixedStack.union mixedDir) 0 2 1 := by
    refine ⟨Nat.zero_le 1, Nat.lt_succ_self 1, hgrant, fun a _ ha => ?_⟩
    rw [Nat.lt_one_iff.mp ha]
    exact hdenied
  have hchosen := (hall mixedStack mixedFile mixedDir 2 0 mixedStack_onReadOnly).1 1 hfirst
  exact absurd hchosen (show (Except.ok 0 : Except BrTrap Int) ≠ .ok 1 by decide)

/-! ## Round robin -/

/-- The number `au_wbr_create_rr` takes in its `i`-th try, before the modulo, when the counter is `u` as an
    unsigned number.  For a file it counts down, and behind 1 it goes on with the largest one. -/
def rrProbe (isdir : Bool) (u i : Nat) : Nat :=
  if isdir then u else if i < u then u - i else 2 ^ 32 - 1 - (i - u)

/-- Branch `b` of `n` is tried. -/
def RrTried (isdir : Bool) (u n b : Nat) : Prop :=
  if isdir then u % n = b
  else u = 0 ∨ n ≤ u ∨ (0 < b ∧ b ≤ u) ∨ ∃ j, 0 < j ∧ j + u ≤ n ∧ (2 ^ 32 - j) % n = b

/-- One round of the loop: the number before the modulo, and the counter behind it. -/
def rrTake (isdir : Bool) (next : Int) : Int × Int :=
  if !isdir then
    let d := decReturn next
    if d.1 = 0 then decReturn d.2 else d
  else (next, next)

section RoundRobin

variable {wbr : WbrEnv} {u : UnionSb}

theorem decReturn_mod (next : Int) :
    (decReturn next).1 % 2 ^ 32 = next % 2 ^ 32 ∧ (decReturn next).2 % 2 ^ 32 = (next - 1) % 2 ^ 32 ∧
      ((decReturn next).1 = 0 ↔ next % 2 ^ 32 = 0) := by
  show wrap32 (wrap32 (next - 1) + 1) % 2 ^ 32 = next % 2 ^ 32 ∧ wrap32 (next - 1) % 2 ^ 32 = (next - 1) % 2 ^ 32 ∧
    (wrap32 (wrap32 (next - 1) + 1) = 0 ↔ next % 2 ^ 32 = 0)
  simp only [wrap32]
  omega

theorem rrProbe_zero (c : Nat) : rrProbe false c 0 = if 0 < c then c else 2 ^ 32 - 1 := by
  simp [rrProbe]

/-- A round takes the counter, or the largest number for zero, and leaves one less. -/
theorem rrTake_file {next : Int} {c : Nat} (hc : next % 2 ^ 32 = c) :
    (rrTake false next).1 % 2 ^ 32 = rrProbe false c 0 ∧
      (rrTake false next).2 % 2 ^ 32 = ((rrProbe false c 0 - 1 : Nat) : Int) := by
  obtain ⟨hone, htwo, hzero⟩ := decReturn_mod next
  obtain ⟨hone', htwo', -⟩ := decReturn_mod (decReturn next).2
  show (if (decReturn next).1 = 0 then decReturn (decReturn next).2 else decReturn next).1 % 2 ^ 32 = _ ∧
    (if (decReturn next).1 = 0 then decReturn (decReturn next).2 else decReturn next).2 % 2 ^ 32 = _
  rw [rrProbe_zero]
  by_cases h0 : c = 0
  · rw [if_pos (hzero.mpr (by omega)), if_neg (by omega)]
    omega
  · rw [if_neg fun h => h0 (by have := hzero.mp h; omega), if_pos (by omega)]
    omega

/-- The tries behind the first one are those of the counter it leaves. -/
theorem rrProbe_succ {c i : Nat} (hi : i + 1 < 2 ^ 31) (hc : c < 2 ^ 32) :
    rrProbe false (rrProbe false c 0 - 1) i = rrProbe false c (i + 1) := by
  simp only [rrProbe, Bool.false_eq_true, if_false]
  split_ifs <;> omega

/-- A read-only branch is passed over. -/
theorem createRrFrom_rdonly {isdir : Bool} {n : Nat} {next : Int}
    (h : sbrRdonly wbr u ((rrTake isdir next).1 % 2 ^ 32 % (u.siBend + 1)).toNat = .ok true) :
    createRrFrom wbr u isdir (n + 1) next = createRrFrom wbr u isdir n (rrTake isdir next).2 := by
  unfold rrTake at h ⊢
  rw [createRrFrom]
  rw [h]
  rfl

/-- A writable one is taken. -/
theorem createRrFrom_writable {isdir : Bool} {n : Nat} {next : Int}
    (h : sbrRdonly wbr u ((rrTake isdir next).1 % 2 ^ 32 % (u.siBend + 1)).toNat = .ok false) :
    createRrFrom wbr u isdir (n + 1) next =
      .ok ((rrTake isdir next).1 % 2 ^ 32 % (u.siBend + 1), (rrTake isdir next).2) := by
  unfold rrTake at h ⊢
  rw [createRrFrom]
  rw [h]
  rfl

/-- **The loop** ends at a writable branch, or has tried them all in vain; by induction on the tries. -/
theorem createRrFrom_spec (h : BranchesThere u) {m : Nat} (hbend : u.siBend = m) (isdir : Bool) :
    ∀ {n : Nat} {next : Int} {c : Nat}, n < 2 ^ 31 → c < 2 ^ 32 → next % 2 ^ 32 = c →
    ∃ t next', createRrFrom wbr u isdir n next = .ok (t, next') ∧
      ((t = -EROFS ∧ ∀ i < n, ¬ Writable wbr u (rrProbe isdir c i % (m + 1))) ∨
        ∃ i < n, t = ((rrProbe isdir c i % (m + 1) : Nat) : Int) ∧ Writable wbr u (rrProbe isdir c i % (m + 1))) := by
  intro n
  induction n with
  | zero => exact fun {next} {c} _ _ _ => ⟨-EROFS, next, rfl, Or.inl ⟨rfl, fun i hi => absurd hi (Nat.not_lt_zero i)⟩⟩
  | succ n ih =>
    intro next c hn hc hnext
    -- what is taken, and what is left for the other tries
    have htake : (rrTake isdir next).1 % 2 ^ 32 = rrProbe isdir c 0 ∧
        ∃ c' < 2 ^ 32, (rrTake isdir next).2 % 2 ^ 32 = (c' : Nat) ∧
          ∀ i < n, rrProbe isdir c' i = rrProbe isdir c (i + 1) := by
      cases isdir with
      | true => exact ⟨hnext, c, hc, hnext, fun i _ => rfl⟩
      | false =>
        obtain ⟨hone, htwo⟩ := rrTake_file hnext
        have hle : rrProbe false c 0 ≤ 2 ^ 32 := by
          rw [rrProbe_zero]
          split_ifs <;> omega
        exact ⟨hone, rrProbe false c 0 - 1, by omega, htwo, fun i hi => rrProbe_succ (by omega) hc⟩
    obtain ⟨hfirst, c', hc', hleft, hrest⟩ := htake
    have hindex : (rrTake isdir next).1 % 2 ^ 32 % (u.siBend + 1) = ((rrProbe isdir c 0 % (m + 1) : Nat) : Int) := by
      rw [hfirst, hbend]
      rfl
    have hlt : rrProbe isdir c 0 % (m + 1) < m + 1 := Nat.mod_lt _ (Nat.succ_pos m)
    have hthere : ((rrProbe isdir c 0 % (m + 1) : Nat) : Int) ≤ u.siBend := by omega
    rcases @BranchesThere.rdonly wbr u h _ hthere with hro | hw
    · obtain ⟨t, next', ht, htries⟩ := ih (by omega) hc' hleft
      have hround := createRrFrom_rdonly (n := n) (by rw [hindex]; exact hro)
      refine ⟨t, next', hround.trans ht, htries.imp ?_ ?_⟩
      · rintro ⟨hneg, hnone⟩
        refine ⟨hneg, fun i hi => ?_⟩
        cases i with
        | zero => exact not_writable hro
        | succ i =>
          rw [← hrest i (by omega)]
          exact hnone i (by omega)
      · rintro ⟨i, hi, hti, hwi⟩
        rw [hrest i hi] at hti hwi
        exact ⟨i + 1, by omega, hti, hwi⟩
    · rw [createRrFrom_writable (by rw [hindex]; exact hw), hindex]
      exact ⟨_, _, rfl, Or.inr ⟨0, Nat.succ_pos n, rfl, hw⟩⟩

/-- A run of numbers as long as the modulus leaves every remainder. -/
theorem exists_sub_mod {a n b : Nat} (hb : b < n) (ha : n ≤ a + 1) : ∃ i < n, (a - i) % n = b := by
  refine ⟨(a - b) % n, Nat.mod_lt _ (by omega), ?_⟩
  have hdiv := Nat.mod_add_div (a - b) n
  rw [show a - (a - b) % n = b + n * ((a - b) / n) by omega, Nat.add_mul_mod_self_left, Nat.mod_eq_of_lt hb]

/-- The branches that are tried are those that `RrTried` says. -/
theorem rrTried_iff {isdir : Bool} {c n b : Nat} (hb : b < n) (hn : n < 2 ^ 31) :
    (∃ i < n, rrProbe isdir c i % n = b) ↔ RrTried isdir c n b := by
  cases isdir with
  | true => exact ⟨fun ⟨_, _, hi⟩ => hi, fun h => ⟨0, by omega, h⟩⟩
  | false =>
    show (∃ i < n, (if i < c then c - i else 2 ^ 32 - 1 - (i - c)) % n = b) ↔
      (c = 0 ∨ n ≤ c ∨ (0 < b ∧ b ≤ c) ∨ ∃ j, 0 < j ∧ j + c ≤ n ∧ (2 ^ 32 - j) % n = b)
    constructor
    · rintro ⟨i, hi, hmod⟩
      by_cases h0 : c = 0
      · exact Or.inl h0
      by_cases hnc : n ≤ c
      · exact Or.inr (Or.inl hnc)
      refine Or.inr (Or.inr ?_)
      by_cases hic : i < c
      · rw [if_pos hic, Nat.mod_eq_of_lt (by omega)] at hmod
        exact Or.inl ⟨by omega, by omega⟩
      · rw [if_neg hic] at hmod
        refine Or.inr ⟨i - c + 1, by omega, by omega, ?_⟩
        rw [← hmod]
        congr 1
        omega
    · rintro (h0 | hnc | ⟨hb0, hbc⟩ | ⟨j, hj, hjn, hmod⟩)
      · obtain ⟨i, hi, hmod⟩ := exists_sub_mod hb (show n ≤ 2 ^ 32 - 1 + 1 by omega)
        refine ⟨i, hi, ?_⟩
        rw [if_neg (by omega), h0, Nat.sub_zero, hmod]
      · obtain ⟨i, hi, hmod⟩ := exists_sub_mod hb (show n ≤ c + 1 by omega)
        exact ⟨i, hi, by rw [if_pos (by omega), hmod]⟩
      · by_cases hnc : n ≤ c
        · obtain ⟨i, hi, hmod⟩ := exists_sub_mod hb (show n ≤ c + 1 by omega)
          exact ⟨i, hi, by rw [if_pos (by omega), hmod]⟩
        · refine ⟨c - b, by omega, ?_⟩
          rw [if_pos (by omega), show c - (c - b) = b by omega, Nat.mod_eq_of_lt hb]
      · refine ⟨j - 1 + c, by omega, ?_⟩
        rw [if_neg (by omega), ← hmod]
        congr 1
        omega

end RoundRobin

/-- The branch of the whiteout, or of the opaque parent if that is above it: -1 if there is neither. -/
def expBranch (dentry parent : Dinfo) : Int :=
  if 0 ≤ dentry.diBwh then (if 0 ≤ parent.diBdiropq then min parent.diBdiropq dentry.diBwh else dentry.diBwh)
  else if 0 ≤ parent.diBdiropq then parent.diBdiropq
  else -1

/-- A union of `m + 1` branches, as many as there can be at most, and a name whose whiteout is on one of them, as
    the opaque mark of its parent is. -/
structure OnStack (u : UnionSb) (dentry parent : Dinfo) (m : Nat) : Prop where
  there : BranchesThere u
  bend : u.siBend = m
  few : m + 1 < 2 ^ 31
  whThere : dentry.diBwh ≤ m
  opqThere : parent.diBdiropq ≤ m

/-- **What round robin is for**: a writable branch is returned if there is one, and `-EROFS` only if not. -/
def FindsWritable (wbr : WbrEnv) (u : UnionSb) (m : Nat) (r : Except BrTrap (Int × PolicySb)) : Prop :=
  ((∃ b ≤ m, Writable wbr u b) → ∃ (b : Nat) (s : PolicySb), r = .ok ((b : Int), s) ∧ b ≤ m ∧ Writable wbr u b) ∧
    ∀ s, r = .ok (-EROFS, s) → ¬ ∃ b ≤ m, Writable wbr u b

section RoundRobin

variable {wbr : WbrEnv} {dentry parent : Dinfo} {m : Nat}

/-- The branch of the whiteout or of the opaque parent is looked at, when there is one. -/
theorem auWbrCreateExp_of {u : UnionSb} {rdonly : Bool} (h0 : 0 ≤ expBranch dentry parent)
    (h : sbrRdonly wbr u (expBranch dentry parent).toNat = .ok rdonly) :
    auWbrCreateExp wbr u dentry parent = .ok (if rdonly then -1 else expBranch dentry parent) := by
  unfold expBranch at h0 h ⊢
  rw [auWbrCreateExp, if_pos h0]
  simp only [h]

theorem auWbrCreateExp_none {u : UnionSb} (h0 : ¬ 0 ≤ expBranch dentry parent) :
    auWbrCreateExp wbr u dentry parent = .ok (expBranch dentry parent) := by
  unfold expBranch at h0 ⊢
  rw [auWbrCreateExp, if_neg h0]

/-- The exception applies when its branch can be written. -/
theorem auWbrCreateExp_spec {u : UnionSb} (h : OnStack u dentry parent m) :
    (0 ≤ expBranch dentry parent ∧ Writable wbr u (expBranch dentry parent).toNat ∧
      auWbrCreateExp wbr u dentry parent = .ok (expBranch dentry parent)) ∨
    (¬ (0 ≤ expBranch dentry parent ∧ Writable wbr u (expBranch dentry parent).toNat) ∧
      auWbrCreateExp wbr u dentry parent = .ok (-1)) := by
  have hle : expBranch dentry parent ≤ m := by
    have hwh := h.whThere
    have hopq := h.opqThere
    unfold expBranch
    split_ifs <;> omega
  by_cases h0 : 0 ≤ expBranch dentry parent
  · have hthere : ((expBranch dentry parent).toNat : Int) ≤ u.siBend := by
      rw [h.bend]
      omega
    rcases @BranchesThere.rdonly wbr u h.there _ hthere with hro | hw
    · exact Or.inr ⟨fun hex => not_writable hro hex.2, auWbrCreateExp_of h0 hro⟩
    · exact Or.inl ⟨h0, hw, auWbrCreateExp_of h0 hw⟩
  · have hneg : expBranch dentry parent = -1 := by
      revert h0
      unfold expBranch
      split_ifs <;> omega
    rw [auWbrCreateExp_none h0]
    exact Or.inr ⟨fun hex => h0 hex.1, congrArg Except.ok hneg⟩

/-- **When round robin finds a writable branch**: exactly when the exception applies, or no branch can be written,
    or one of those that are tried can. -/
theorem createRr_finds_iff {s : PolicySb} (h : OnStack s.union dentry parent m) (isdir : Bool) :
    FindsWritable wbr s.union m (auWbrCreateRr wbr s dentry parent isdir) ↔
      (0 ≤ expBranch dentry parent ∧ Writable wbr s.union (expBranch dentry parent).toNat) ∨
      (¬ ∃ b ≤ m, Writable wbr s.union b) ∨
      ∃ b ≤ m, RrTried isdir (s.wbrRrNext % 2 ^ 32).toNat (m + 1) b ∧ Writable wbr s.union b := by
  have hfew := h.few
  unfold auWbrCreateRr
  rcases @auWbrCreateExp_spec wbr dentry parent m s.union h with ⟨h0, hw, hexp⟩ | ⟨hno, hexp⟩
  · -- the exception
    have hle : (expBranch dentry parent).toNat ≤ m := by
      have hwh := h.whThere
      have hopq := h.opqThere
      revert h0
      unfold expBranch
      split_ifs <;> omega
    rw [hexp]
    dsimp only
    rw [if_pos h0]
    refine iff_of_true ⟨fun _ => ⟨_, s, ?_, hle, hw⟩, fun s' hs' => ?_⟩ (Or.inl ⟨h0, hw⟩)
    · rw [Int.toNat_of_nonneg h0]
    · have herr : expBranch dentry parent = -EROFS := congrArg Prod.fst (Except.ok.inj hs')
      rw [herr] at h0
      exact absurd h0 (by decide)
  rw [hexp]
  dsimp only
  rw [if_neg (by decide)]
  obtain ⟨c, hc⟩ : ∃ c, c = (s.wbrRrNext % 2 ^ 32).toNat := ⟨_, rfl⟩
  rw [← hc]
  have hnext : s.wbrRrNext % 2 ^ 32 = c := by omega
  obtain ⟨t, next', ht, htries⟩ :=
    @createRrFrom_spec wbr s.union h.there m h.bend isdir (m + 1) s.wbrRrNext c hfew (by omega) hnext
  rw [h.bend, show ((m : Int) + 1).toNat = m + 1 by omega, ht]
  dsimp only
  have hmod : ∀ i, rrProbe isdir c i % (m + 1) ≤ m := fun i => Nat.lt_succ_iff.mp (Nat.mod_lt _ (Nat.succ_pos m))
  rcases htries with ⟨hneg, hnone⟩ | ⟨i, hi, hti, hwi⟩
  · -- all tries were in vain
    have htried : ¬ ∃ b ≤ m, RrTried isdir c (m + 1) b ∧ Writable wbr s.union b := by
      rintro ⟨b, hb, htr, hw⟩
      obtain ⟨i, hi, hib⟩ := (rrTried_iff (Nat.lt_succ_of_le hb) hfew).mpr htr
      exact hnone i hi (by rw [hib]; exact hw)
    constructor
    · intro hf
      exact Or.inr (Or.inl (hf.2 { s with wbrRrNext := next' } (by rw [hneg])))
    · rintro (hex | hnot | hb)
      · exact absurd hex hno
      · exact ⟨fun hw => absurd hw hnot, fun _ _ => hnot⟩
      · exact absurd hb htried
  · refine iff_of_true ⟨fun _ => ⟨_, _, by rw [hti], hmod i, hwi⟩, fun s' hs' => ?_⟩ ?_
    · have herr : t = -EROFS := congrArg Prod.fst (Except.ok.inj hs')
      rw [hti] at herr
      have hneg : -EROFS < 0 := by decide
      omega
    · exact Or.inr (Or.inr ⟨_, hmod i, (rrTried_iff (Nat.mod_lt _ (Nat.succ_pos m)) hfew).mp ⟨i, hi, rfl⟩, hwi⟩)

end RoundRobin

/-- A writable branch above a read-only one, and round robin with its counter at 1. -/
def rwAboveRo : PolicySb where
  union := { unmounted with
    siBend := 1
    siBranch := [some ⟨1, .rw, ⟨1, 0⟩, some 0⟩, some ⟨2, .ro, ⟨2, 0⟩, none⟩] }
  wbrCreate := .rr
  wbrMfs := ⟨0, 0, -EROFS, 0, 0⟩
  wbrRrNext := 1

def rwAboveRoEnv : WbrEnv := ⟨0, fun _ => false, fun _ => true, fun _ => none, false, fun _ => 0⟩

/-- The root on both branches, and a new name in it. -/
def bothRoots : Dinfo := ⟨0, 1, -1, -1, fun b => some ⟨b, [[47]], some (.mk 2 sIfdir [] fun _ => 0)⟩⟩

def freshName : Dinfo := ⟨0, 0, -1, -1, fun b => if b = 0 then some ⟨0, [[97]], none⟩ else none⟩

theorem rwAboveRo_onStack : OnStack rwAboveRo.union freshName bothRoots 1 where
  there := by
    intro b hb
    have hb' : (b : Int) ≤ 1 := hb
    rcases Nat.le_one_iff_eq_zero_or_eq_one.mp (show b ≤ 1 by omega) with rfl | rfl
    · exact ⟨_, rfl⟩
    · exact ⟨_, rfl⟩
  bend := rfl
  few := by decide
  whThere := by decide
  opqThere := by decide

theorem createRr_finds_iff_rwAboveRo :
    FindsWritable rwAboveRoEnv rwAboveRo.union 1 (auWbrCreateRr rwAboveRoEnv rwAboveRo freshName bothRoots true) ↔
      (0 ≤ expBranch freshName bothRoots ∧
        Writable rwAboveRoEnv rwAboveRo.union (expBranch freshName bothRoots).toNat) ∨
      (¬ ∃ b ≤ 1, Writable rwAboveRoEnv rwAboveRo.union b) ∨
      ∃ b ≤ 1, RrTried true (rwAboveRo.wbrRrNext % 2 ^ 32).toNat (1 + 1) b ∧
        Writable rwAboveRoEnv rwAboveRo.union b :=
  createRr_finds_iff rwAboveRo_onStack true

/-- Not always: with the counter at 1 only the lower branch is tried, twice, for a directory as for a file, and
    the new name is refused although the upper branch can be written. -/
theorem writable_branch_missed : ¬ ∃ isdir, ∀ (wbr : WbrEnv) (s : PolicySb) (dentry parent : Dinfo) (m : Nat),
    OnStack s.union dentry parent m → FindsWritable wbr s.union m (auWbrCreateRr wbr s dentry parent isdir) := by
  rintro ⟨isdir, hall⟩
  have hmissed : ∃ s, auWbrCreateRr rwAboveRoEnv rwAboveRo freshName bothRoots isdir = .ok (-EROFS, s) := by
    cases isdir with
    | true => exact ⟨_, rfl⟩
    | false => exact ⟨_, rfl⟩
  obtain ⟨s, hs⟩ := hmissed
  exact (hall rwAboveRoEnv rwAboveRo freshName bothRoots 1 rwAboveRo_onStack).2 s hs ⟨0, Nat.zero_le 1, rfl⟩

end KernelPatches.Aufs
