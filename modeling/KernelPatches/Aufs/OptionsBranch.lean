/-
  aufs: the branches that a string adds.

  The permission and the index of a branch come from the text of it.  The permission stays AuBrPerm_Last, which is
  none of the six, where the text ends at its `=`: the tests of `au_br_add` do not look at it.  The index of an
  `add:` is a number of any size, and the tests see what is left of it in an `aufs_bindex_t`.

  * `Written`, `writtenIn`     — the branches as they are written in a string;
  * `auOptBr`                  — `au_br_add` of an entry, and what it installs;
  * `entriesOf_written`        — the entries, one by one, are those that are written;
  * `branchPlaced_iff`         — when a branch gets a permission, and the index that is written.
-/
import KernelPatches.Aufs.OptionsParse
import KernelPatches.Aufs.BranchArrays

namespace KernelPatches.Aufs

open KernelPatches.Lib

/-! ## The text -/

/-- A branch as it is written: the number of an `add:`, and the path with the permission. -/
structure Written where
  index : Option Int
  branch : List Char
  deriving DecidableEq, Repr

/-- The branches of one option. -/
def writtenOf (cfg : OptsConfig) (optStr : List Char) : List Written :=
  match matchToken (options cfg) .err optStr with
  | (.br, args) => (strsep ':' (args.getD 0 [])).map fun branch => ⟨none, branch⟩
  | (.add, args) => [⟨some (strtol (args.getD 0 [])).1, args.getD 1 []⟩]
  | (.append, args) => [⟨none, args.getD 0 []⟩]
  | (.prepend, args) => [⟨none, args.getD 0 []⟩]
  | _ => []

/-- The branches of a string. -/
def writtenIn (cfg : OptsConfig) (str : List Char) : List Written := (strsep ',' str).flatMap (writtenOf cfg)

/-- The text does not end at its `=`, and the number fits into an `int` and into an `aufs_bindex_t`. -/
def Written.Fits (cfg : OptsConfig) (w : Written) : Prop :=
  (w.branch.dropWhile fun c => c ≠ '=') ≠ ['='] ∧
    ∀ n, w.index = some n → n.bmod (2 ^ 32) = n ∧ n.bmod (2 ^ cfg.br.bits) = n

/-! ## `au_opt_br` -/

/-- What is installed: the index, and the permission, which is `none` for AuBrPerm_Last. -/
structure Placed where
  bindex : Int
  perm : Option BrPerm
  deriving DecidableEq, Repr

/-- An option that adds a branch. -/
def AuOpt.adds (opt : AuOpt) : Bool := opt.type = .add || opt.type = .append || opt.type = .prepend

/-- The index an entry is added at. -/
def AuOpt.bindex (opt : AuOpt) (u : UnionSb) (bindex : Int) : Int :=
  match opt.type with
  | .append => if u.siBend + 1 < 0 then 0 else u.siBend + 1
  | .prepend => 0
  | _ => bindex

/-- `au_opt_br` of an entry that adds a branch.  To `au_br_add` AuBrPerm_Last is a permission without writing, as
    AuBrPerm_RO is. -/
def auOptBr (cfg : OptsConfig) (fs : LowerFs) (env : BrInit) (mem : Kmem) (remount : Bool) (u : UnionSb)
    (opt : AuOpt) : Except BrTrap (Int × UnionSb × Option Placed) :=
  match opt.arg with
  | .add bindex perm _ _ dentry =>
    let bindex := opt.bindex u bindex
    match auBrAdd cfg.br fs u ⟨bindex, perm.getD .ro, dentry⟩ env mem remount with
    | .error e => .error e
    | .ok (err, u') =>
      if err ≠ 0 then .ok (err, u', none)
      else .ok (1, u', if u.siBend < u'.siBend then some ⟨bindex, perm⟩ else none)
  | _ => .ok (0, u, none)

/-- **What is claimed of a branch that is installed**: it has one of the six permissions, and it is at a valid
    index, which is the one that is written. -/
structure BranchPlaced (w : Written) (u u' : UnionSb) (placed : Placed) : Prop where
  perm : ∃ perm br, placed.perm = some perm ∧ u'.siBranch.getD placed.bindex.toNat none = some br ∧ br.brPerm = perm
  valid : 0 ≤ placed.bindex ∧ placed.bindex ≤ u.siBend + 1
  index : ∀ n, w.index = some n → placed.bindex = n

/-! ## Entries and text -/

section

variable {cfg : OptsConfig} {env : OptsEnv} {sb : OptsSb}

/-- An entry is the one for what is written. -/
def WrittenAs (cfg : OptsConfig) (opt : AuOpt) (w : Written) : Prop :=
  ∃ bindex perm path nd dentry, opt.arg = .add bindex perm path nd dentry ∧
    (perm = none ↔ (w.branch.dropWhile fun c => c ≠ '=') = ['=']) ∧
    ∀ n, w.index = some n →
      opt.type = .add ∧ bindex = cfg.br.narrow (toInt (n.bmod (2 ^ cfg.arch.bitsPerLong)))

theorem optAdd_perm {calls : Nat} {optStr : List Char} {bindex : Int} {opt : AuOpt}
    (h : optAdd cfg env sb calls optStr bindex = .ok opt) :
    ∃ perm path dentry, opt = ⟨.add, .add bindex perm path calls dentry⟩ ∧
      (perm = none ↔ (optStr.dropWhile fun c => c ≠ '=') = ['=']) := by
  unfold optAdd at h
  dsimp only at h
  split at h
  · cases h
  · cases h
    refine ⟨_, _, _, rfl, ?_⟩
    cases hp : optStr.dropWhile fun c => c ≠ '=' with
    | nil =>
      dsimp only
      refine ⟨fun hnone => ?_, fun hne => by cases hne⟩
      (repeat' split at hnone) <;> cases hnone
    | cons c rest =>
      have hc : c = '=' := by
        have hne : (optStr.dropWhile fun c => c ≠ '=') ≠ [] := by
          rw [hp]
          exact List.cons_ne_nil _ _
        have hhead := List.head_dropWhile_not (fun c => decide (c ≠ '=')) hne
        simp only [hp, List.head_cons] at hhead
        exact not_not.mp (of_decide_eq_false hhead)
      rw [hc]
      cases rest with
      | nil => exact ⟨fun _ => rfl, fun _ => rfl⟩
      | cons c' rest' => exact ⟨(fun hnone => by cases hnone), (fun heq => by cases heq)⟩

/-- The branches of a `br:`. -/
theorem brEntries_written (ps : List (List Char)) (v : OptsVars) (hok : (brEntries cfg env sb ps v).2.1 = 0) :
    List.Forall₂ (WrittenAs cfg) ((brEntries cfg env sb ps v).1.filter AuOpt.adds)
      (ps.map fun branch => ⟨none, branch⟩) := by
  induction ps generalizing v with
  | nil => exact List.Forall₂.nil
  | cons optStr rest ih =>
    rw [brEntries] at hok ⊢
    dsimp only at hok ⊢
    cases hadd : optAdd cfg env sb v.calls optStr v.bindex with
    | error err =>
      rw [hadd] at hok
      unfold optAdd at hadd
      dsimp only at hadd
      split at hadd
      · cases hadd
        cases hok
      · cases hadd
    | ok opt =>
      rw [hadd] at hok
      obtain ⟨perm, path, dentry, rfl, hperm⟩ := optAdd_perm hadd
      refine List.Forall₂.cons ⟨_, _, _, _, _, rfl, hperm, fun n hn => by cases hn⟩ (ih _ hok)

/-- An option that gives an entry. -/
theorem parseOne_written {optStr : List Char} {token : Opt} {args : List (List Char)} {v v' : OptsVars} {opt : AuOpt}
    (hm : matchToken (options cfg) .err optStr = (token, args))
    (h : parseOne cfg env sb token args v = (.entry opt, v')) :
    List.Forall₂ (WrittenAs cfg) ([opt].filter AuOpt.adds) (writtenOf cfg optStr) := by
  have htype := parseOne_type h
  unfold writtenOf
  rw [hm]
  unfold parseOne at h
  dsimp only at h
  cases token with
  | add =>
    dsimp only at h
    split at h
    · cases h
    rename_i n hint
    split at h
    · cases h
    rename_i hadd
    obtain ⟨perm, path, dentry, rfl, hperm⟩ := optAdd_perm hadd
    cases h
    refine List.Forall₂.cons ⟨_, _, _, _, _, rfl, hperm, fun m hw => ⟨rfl, ?_⟩⟩ List.Forall₂.nil
    -- the number is read into a `long`, an `int` and an `aufs_bindex_t`
    obtain rfl := Option.some.inj hw
    unfold matchInt at hint
    dsimp only at hint
    split at hint
    · cases hint
    · rw [← Option.some.inj hint]
  | append =>
    dsimp only at h
    split at h
    · cases h
    rename_i hadd
    obtain ⟨perm, path, dentry, rfl, hperm⟩ := optAdd_perm hadd
    cases h
    exact List.Forall₂.cons ⟨_, _, _, _, _, rfl, hperm, fun m hw => by cases hw⟩ List.Forall₂.nil
  | prepend =>
    dsimp only at h
    split at h
    · cases h
    rename_i hadd
    obtain ⟨perm, path, dentry, rfl, hperm⟩ := optAdd_perm hadd
    cases h
    exact List.Forall₂.cons ⟨_, _, _, _, _, rfl, hperm, fun m hw => by cases hw⟩ List.Forall₂.nil
  | br => cases h
  | _ =>
    have hadds : opt.adds = false := by
      unfold AuOpt.adds
      rw [htype]
      rfl
    rw [List.filter_cons_of_neg (by rw [hadds]; exact Bool.false_ne_true)]
    exact List.Forall₂.nil

/-- An option that is skipped. -/
theorem parseOne_skipped_written {optStr : List Char} {token : Opt} {args : List (List Char)} {v v' : OptsVars}
    (hbr : token ≠ .br) (hm : matchToken (options cfg) .err optStr = (token, args))
    (h : parseOne cfg env sb token args v = (.skipped, v')) : writtenOf cfg optStr = [] := by
  unfold writtenOf
  rw [hm]
  unfold parseOne at h
  dsimp only at h
  cases token with
  | br => exact absurd rfl hbr
  | add =>
    dsimp only at h
    (repeat' split at h) <;> cases h
  | append =>
    dsimp only at h
    (repeat' split at h) <;> cases h
  | prepend =>
    dsimp only at h
    (repeat' split at h) <;> cases h
  | _ => rfl

/-- The entries of one option. -/
theorem itemEntries_written (optStr : List Char) (v : OptsVars) (hok : (itemEntries cfg env sb optStr v).2.1 = 0) :
    List.Forall₂ (WrittenAs cfg) ((itemEntries cfg env sb optStr v).1.filter AuOpt.adds) (writtenOf cfg optStr) := by
  cases hm : matchToken (options cfg) .err optStr with
  | mk token args =>
    by_cases hbr : token = .br
    · obtain rfl := hbr
      have hwritten : writtenOf cfg optStr = (strsep ':' (args.getD 0 [])).map fun branch => ⟨none, branch⟩ := by
        unfold writtenOf
        rw [hm]
      rw [hwritten]
      rw [itemEntries_br hm] at hok ⊢
      cases hbranches : strsep ':' (args.getD 0 []) with
      | nil => exact List.Forall₂.nil
      | cons branch branches =>
        rw [hbranches] at hok
        exact brEntries_written _ _ hok
    · rw [itemEntries_one hm hbr] at hok ⊢
      cases hone : parseOne cfg env sb token args v with
      | mk parsed v' =>
        rw [hone] at hok
        cases parsed with
        | failed err => exact absurd hok (Int.ne_of_lt (parseOne_failed hone))
        | skipped =>
          rw [parseOne_skipped_written hbr hm hone]
          exact List.Forall₂.nil
        | entry opt => exact parseOne_written hm hone

/-- **The entries that add a branch** are, one by one, the branches that are written. -/
theorem entriesOf_written (items : List (List Char)) (v : OptsVars) (hok : (entriesOf cfg env sb items v).2 = 0) :
    List.Forall₂ (WrittenAs cfg) ((entriesOf cfg env sb items v).1.filter AuOpt.adds)
      (items.flatMap (writtenOf cfg)) := by
  induction items generalizing v with
  | nil => exact List.Forall₂.nil
  | cons optStr rest ih =>
    rw [entriesOf] at hok ⊢
    dsimp only at hok ⊢
    by_cases herr : (itemEntries cfg env sb optStr v).2.1 = 0
    · rw [if_neg (fun hne => hne herr)] at hok ⊢
      rw [List.filter_append, List.flatMap_cons]
      exact List.rel_append (itemEntries_written optStr v herr) (ih _ hok)
    · rw [if_pos herr] at hok
      exact absurd hok herr

/-! ## What is installed -/

/-- A number that is read fits, if and only if it stays the same. -/
theorem narrow_eq_iff (br : BrConfig) (A : Arch) (n : Int) :
    br.narrow (toInt (n.bmod (2 ^ A.bitsPerLong))) = n ↔ n.bmod (2 ^ 32) = n ∧ n.bmod (2 ^ br.bits) = n := by
  unfold BrConfig.narrow toInt
  have hlong : (n.bmod (2 ^ A.bitsPerLong)).bmod (2 ^ 32) = n.bmod (2 ^ 32) := by
    apply Int.bmod_bmod_of_dvd
    apply Nat.pow_dvd_pow
    rcases A.bitsPerLong_eq with h | h <;> omega
  rw [hlong]
  constructor
  · intro h
    have hself : n.bmod (2 ^ br.bits) = n := by
      rw [← h, Int.bmod_bmod]
    refine ⟨?_, hself⟩
    have hpos : ∀ b, 0 < 2 ^ b := fun b => Nat.pow_pos (by decide)
    by_cases hbits : br.bits ≤ 32
    · -- an `aufs_bindex_t` fits into an `int`
      have hpow : 2 ^ br.bits ≤ 2 ^ 32 := Nat.pow_le_pow_right (by decide) hbits
      have hlow := @Int.le_bmod n (2 ^ br.bits) (hpos _)
      have hhigh := @Int.bmod_lt n (2 ^ br.bits) (hpos _)
      rw [hself] at hlow hhigh
      apply Int.bmod_eq_of_le
      · omega
      · omega
    · have hpow : 2 ^ 32 ≤ 2 ^ br.bits := Nat.pow_le_pow_right (by decide) (by omega)
      have hlow := @Int.le_bmod n (2 ^ 32) (hpos _)
      have hhigh := @Int.bmod_lt n (2 ^ 32) (hpos _)
      have hsame : (n.bmod (2 ^ 32)).bmod (2 ^ br.bits) = n.bmod (2 ^ 32) := by
        apply Int.bmod_eq_of_le
        · omega
        · omega
      rwa [hsame] at h
  · rintro ⟨hint, hbindex⟩
    rw [hint, hbindex]

/-- `au_br_add` of a branch that was not there. -/
theorem auBrAdd_placed {fs : LowerFs} {u u' : UnionSb} {L : List Member} (h : InLine cfg.br u L) {add : AuOptAdd}
    {init : BrInit} {mem : Kmem} {remount : Bool} (hrun : auBrAdd cfg.br fs u add init mem remount = .ok (0, u'))
    (hmore : u.siBend < u'.siBend) :
    0 ≤ add.bindex ∧ add.bindex ≤ u.siBend + 1 ∧
      ∃ br, u'.siBranch.getD add.bindex.toNat none = some br ∧ br.brPerm = add.perm := by
  obtain ⟨err, s', hrun', L', hmoves, hline⟩ := auBrAdd_spec fs h add init mem remount
  rw [hrun] at hrun'
  cases hrun'
  cases hmoves with
  | kept =>
    have h0 := h.siBend
    have h1 := hline.siBend
    omega
  | added hk hbindex hroot hperm =>
    rename_i k m
    have hlen := h.siBend
    refine ⟨by omega, by omega, m.branch, ?_, hperm⟩
    have hslot := hline.slot (i := k) (List.getElem?_insertIdx_self.trans (if_pos hk))
    rw [hbindex, Int.toNat_natCast, List.getD_eq_getElem?_getD, hslot]
    rfl

/-- What is installed of an entry. -/
theorem auOptBr_placed {fs : LowerFs} {init : BrInit} {mem : Kmem} {remount : Bool} {u u' : UnionSb}
    {L : List Member} (h : InLine cfg.br u L) {opt : AuOpt} {bindex : Int} {perm : Option BrPerm} {path : List Char}
    {nd : Nat} {dentry : HRoot} (harg : opt.arg = .add bindex perm path nd dentry) {err : Int} {placed : Placed}
    (hrun : auOptBr cfg fs init mem remount u opt = .ok (err, u', some placed)) :
    placed = ⟨opt.bindex u bindex, perm⟩ ∧ 0 ≤ placed.bindex ∧ placed.bindex ≤ u.siBend + 1 ∧
      ∃ br, u'.siBranch.getD placed.bindex.toNat none = some br ∧ br.brPerm = perm.getD .ro := by
  unfold auOptBr at hrun
  rw [harg] at hrun
  dsimp only at hrun
  split at hrun
  · cases hrun
  rename_i err' s' hadd
  split at hrun
  · cases hrun
  rename_i herr
  obtain rfl := not_not.mp herr
  split at hrun
  · rename_i hmore
    cases hrun
    exact ⟨rfl, auBrAdd_placed h hadd hmore⟩
  · cases hrun

end

/-- **When a branch gets a permission, and the index that is written.**  The string is any that is accepted, and the
    branch any that the loops come to; the union it is added to is any, as long as its arrays are in line. -/
theorem branchPlaced_iff (cfg : OptsConfig) (env : OptsEnv) (sb : OptsSb) (memory : Bool) (maxOpt : Nat)
    (page : Nat → AuOpt) (str : List Char) (hmax : 0 < maxOpt)
    (hok : (auOptsParse cfg env sb memory maxOpt page str).err = 0) (j : Nat) (opt : AuOpt)
    (hopt : ((auOpts (auOptsParse cfg env sb memory maxOpt page str).page.opt maxOpt 0).filter AuOpt.adds)[j]? =
      some opt) :
    ∃ w, (writtenIn cfg str)[j]? = some w ∧
      ∀ (fs : LowerFs) (init : BrInit) (mem : Kmem) (remount : Bool) (u u' : UnionSb) (L : List Member) (err : Int)
        (placed : Placed), InLine cfg.br u L →
        auOptBr cfg fs init mem remount u opt = .ok (err, u', some placed) →
        (BranchPlaced w u u' placed ↔ w.Fits cfg) := by
  obtain ⟨hentries, hseen⟩ := optsParse_accepted hmax hok
  have hall := entriesOf_written (strsep ',' str) ⟨0, 0⟩ hentries
  -- the entries before the first hole are the first of them
  have hprefix : (((entriesOf cfg env sb (strsep ',' str) ⟨0, 0⟩).1.takeWhile AuOpt.isOpt).filter AuOpt.adds) <+:
      (entriesOf cfg env sb (strsep ',' str) ⟨0, 0⟩).1.filter AuOpt.adds :=
    (List.takeWhile_prefix _).filter _
  rw [hseen] at hopt
  obtain ⟨hj, heq⟩ := List.getElem?_eq_some_iff.mp hopt
  have hj' := Nat.lt_of_lt_of_le hj hprefix.length_le
  have hj'' : j < (writtenIn cfg str).length := by
    have hlen := hall.length_eq
    unfold writtenIn
    omega
  have hopt' : ((entriesOf cfg env sb (strsep ',' str) ⟨0, 0⟩).1.filter AuOpt.adds)[j] = opt := by
    rw [← heq]
    exact (List.IsPrefix.getElem hprefix hj).symm
  have hwritten := List.Forall₂.get hall hj' hj''
  rw [List.get_eq_getElem, List.get_eq_getElem] at hwritten
  simp only [hopt'] at hwritten
  obtain ⟨bindex, perm, path, nd, dentry, harg, hperm, hindex⟩ := hwritten
  refine ⟨_, List.getElem?_eq_getElem hj'', fun fs init mem remount u u' L err placed h hrun => ?_⟩
  obtain ⟨rfl, hlow, hhigh, br, hbr, hbrPerm⟩ := auOptBr_placed h harg hrun
  -- the index of an `add:` is the one of the entry
  have hwhere : ∀ n, (writtenIn cfg str)[j].index = some n →
      (opt.bindex u bindex = n ↔ n.bmod (2 ^ 32) = n ∧ n.bmod (2 ^ cfg.br.bits) = n) := by
    intro n hn
    obtain ⟨htype, hb⟩ := hindex n hn
    rw [← narrow_eq_iff cfg.br cfg.arch n, ← hb]
    unfold AuOpt.bindex
    rw [htype]
  constructor
  · rintro ⟨⟨perm', br', hsome, -, -⟩, -, hat⟩
    refine ⟨fun hlast => ?_, fun n hn => (hwhere n hn).mp (hat n hn)⟩
    rw [hperm.mpr hlast] at hsome
    cases hsome
  · rintro ⟨hlast, hfits⟩
    refine ⟨?_, ⟨hlow, hhigh⟩, fun n hn => (hwhere n hn).mpr (hfits n hn)⟩
    cases perm with
    | none => exact absurd (hperm.mp rfl) hlast
    | some perm => exact ⟨perm, br, rfl, hbr, hbrPerm⟩

/-- The entries of a string, with the smallest page that is of use. -/
def entriesFor (str : List Char) : List AuOpt :=
  auOpts (auOptsParse plainConfig anyPath freshMount true 4 zeroPage str).page.opt 4 0

/-- The first branch of a mount. -/
def firstBranch (perm : Option BrPerm) : Except BrTrap (Int × UnionSb × Option Placed) :=
  auOptBr plainConfig plainFs ⟨0, false, 0⟩ [] false unmounted
    ⟨.add, .add 0 perm "/b".toList 0 ⟨0, 1, 2, ⟨0, 0⟩⟩⟩

/-- The union with one branch that is not written to. -/
def readOnly : UnionSb :=
  { unmounted with
    siBend := 0, siBranch := [some ⟨1, .ro, ⟨0, 0⟩, none⟩], siLastBrId := 1
    diBstart := 0, diBend := 0, diHdentry := [some ⟨0, 1, 2, ⟨0, 0⟩⟩]
    iiBstart := 0, iiBend := 0, iiHinode := [⟨some 1, 1⟩] }

/-- An `add:` at the start. -/
theorem branchPlaced_add : BranchPlaced ⟨some 0, "/b=ro".toList⟩ unmounted readOnly ⟨0, some .ro⟩ := by
  obtain ⟨w, hw, hall⟩ := branchPlaced_iff plainConfig anyPath freshMount true 4 zeroPage "add:0:/b=ro".toList
    (by decide) (by decide +kernel) 0 ⟨.add, .add 0 (some .ro) "/b".toList 0 ⟨0, 1, 2, ⟨0, 0⟩⟩⟩ (by decide +kernel)
  obtain rfl : ⟨some 0, "/b=ro".toList⟩ = w := Option.some.inj ((by decide +kernel : _ = _).symm.trans hw)
  refine (hall plainFs ⟨0, false, 0⟩ [] false unmounted readOnly [] 1 _ inLine_unmounted rfl).mpr ⟨by decide, ?_⟩
  intro n hn
  obtain rfl := Option.some.inj hn
  decide

/-- A text that ends at its `=`, and a number that does not fit into an `aufs_bindex_t`. -/
theorem last_and_narrowed :
    entriesFor "br:/b=".toList = [⟨.add, .add 0 none "/b".toList 0 ⟨0, 1, 2, ⟨0, 0⟩⟩⟩] ∧
      firstBranch none = .ok (1, readOnly, some ⟨0, none⟩) ∧
      ¬BranchPlaced ⟨none, "/b=".toList⟩ unmounted readOnly ⟨0, none⟩ ∧
    entriesFor "add:256:/b=ro".toList = [⟨.add, .add 0 (some .ro) "/b".toList 0 ⟨0, 1, 2, ⟨0, 0⟩⟩⟩] ∧
      firstBranch (some .ro) = .ok (1, readOnly, some ⟨0, some .ro⟩) ∧
      ¬BranchPlaced ⟨some 256, "/b=ro".toList⟩ unmounted readOnly ⟨0, some .ro⟩ := by
  refine ⟨by decide +kernel, rfl, fun h => ?_, by decide +kernel, rfl, fun h => ?_⟩
  · obtain ⟨perm, br, hsome, -⟩ := h.perm
    cases hsome
  · exact absurd (h.index 256 rfl) (by decide)

end KernelPatches.Aufs
