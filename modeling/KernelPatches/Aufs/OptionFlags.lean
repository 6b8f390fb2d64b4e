/-
  aufs: the mount flags and the options that write them.

  `si_mntflags` is one word.  Most flags have a bit and two options, one that sets it and one that clears it; UDBA and
  COO have a mask of three bits, which is cleared before the bit of the level is set; and there are three options for
  SUM and SUM_W.  A flag that is not configured has no bit.

  An option is to have the last word on its own flags and to leave the others alone.  It does, except for `wsum`:
  there is no `break` behind it, and what it has set `nosum` clears.

  * `Flag.bit`, `auOptSet`, `auOptClr`, `auOptTest`
                              — the bits;
  * `auOptSimple`             — what an option does to the word;
  * `writes`                  — the same as a list of flags with what is written, `auOptSimple_test`;
  * `Shows.auOptSimple`       — the word and the record of the settings agree;
  * `simple_of_parseOne`      — what the parser gives is an option in this sense;
  * `asks`                    — what an option is for;
  * `LastOption`              — the last option of each group counts, and there is one level of COO and UDBA;
  * `auOptSimple_last_iff`    — this is so if and only if the last option for SUM is not `wsum`.
-/
import KernelPatches.Lib.Bits
import KernelPatches.Lib.LastWins
import KernelPatches.Aufs.OptionsShow

namespace KernelPatches.Aufs.OptFlags

open KernelPatches.Lib

/-! ## The word -/

/-- AuOpt_* -/
inductive Flag where
  | xino | truncXino | udbaNone | udbaReval | udbaInotify | shwh | plink | warnPerm | dirperm1 | dlgt
  | cooNone | cooLeaf | cooAll | alwaysDiropq | refrof | verbose | sum | sumW
  deriving DecidableEq, Repr

namespace Flag

/-- Where the bit is. -/
def index : Flag → Nat
  | xino => 0
  | truncXino => 2
  | udbaNone => 3
  | udbaReval => 4
  | udbaInotify => 5
  | shwh => 6
  | plink => 7
  | warnPerm => 8
  | dirperm1 => 9
  | dlgt => 10
  | cooNone => 11
  | cooLeaf => 12
  | cooAll => 13
  | alwaysDiropq => 14
  | refrof => 15
  | verbose => 16
  | sum => 17
  | sumW => 18

/-- CONFIG_AUFS_HINOTIFY, CONFIG_AUFS_SHWH and CONFIG_AUFS_DLGT -/
def configured (cfg : OptsConfig) : Flag → Bool
  | udbaInotify => cfg.hinotify
  | shwh => cfg.shwh
  | dirperm1 => cfg.dlgt
  | dlgt => cfg.dlgt
  | _ => true

/-- The value of the macro: 0 if it is not configured. -/
def bit (cfg : OptsConfig) (flag : Flag) : Nat := if flag.configured cfg then 1 <<< flag.index else 0

end Flag

section

variable (cfg : OptsConfig)

/-- AuOptMask_UDBA -/
def optMaskUdba : Nat := Flag.udbaNone.bit cfg ||| Flag.udbaReval.bit cfg ||| Flag.udbaInotify.bit cfg

/-- AuOptMask_COO -/
def optMaskCoo : Nat := Flag.cooNone.bit cfg ||| Flag.cooLeaf.bit cfg ||| Flag.cooAll.bit cfg

/-- `au_opt_test` -/
def auOptTest (flags : Nat) (flag : Flag) : Bool := flags &&& flag.bit cfg ≠ 0

/-- `au_opt_set` -/
def auOptSet (flags : Nat) (flag : Flag) : Nat := flags ||| flag.bit cfg

/-- `au_opt_clr`, of an `unsigned int`. -/
def auOptClr (flags : Nat) (flag : Flag) : Nat := andNot 32 flags (flag.bit cfg)

end

/-- `opt->udba` -/
def udbaFlag : Udba → Flag
  | .none => .udbaNone
  | .reval => .udbaReval
  | .inotify => .udbaInotify

/-- `opt->coo` -/
def cooFlag : Coo → Flag
  | .none => .cooNone
  | .leaf => .cooLeaf
  | .all => .cooAll

/-- `au_opt_simple`, as far as `si_mntflags` goes. -/
def auOptSimple (cfg : OptsConfig) (flags : Nat) (opt : AuOpt) : Nat :=
  match opt.type, opt.arg with
  | .udba, .udba level => andNot 32 flags (optMaskUdba cfg) ||| (udbaFlag level).bit cfg
  | .plink, _ => auOptSet cfg flags .plink
  | .noplink, _ => auOptClr cfg flags .plink
  | .diropqA, _ => auOptSet cfg flags .alwaysDiropq
  | .diropqW, _ => auOptClr cfg flags .alwaysDiropq
  | .dlgt, _ => auOptSet cfg flags .dlgt
  | .nodlgt, _ => auOptClr cfg flags .dlgt
  | .warnPerm, _ => auOptSet cfg flags .warnPerm
  | .nowarnPerm, _ => auOptClr cfg flags .warnPerm
  | .refrof, _ => auOptSet cfg flags .refrof
  | .norefrof, _ => auOptClr cfg flags .refrof
  | .verbose, _ => auOptSet cfg flags .verbose
  | .noverbose, _ => auOptClr cfg flags .verbose
  | .sum, _ => auOptSet cfg flags .sum
  -- no break
  | .wsum, _ => auOptClr cfg (auOptClr cfg (auOptSet cfg (auOptClr cfg flags .sum) .sumW) .sum) .sumW
  | .nosum, _ => auOptClr cfg (auOptClr cfg flags .sum) .sumW
  | .coo, .coo level => andNot 32 flags (optMaskCoo cfg) ||| (cooFlag level).bit cfg
  | .truncXino, _ => auOptSet cfg flags .truncXino
  | .notruncXino, _ => auOptClr cfg flags .truncXino
  | .dirperm1, _ => auOptSet cfg flags .dirperm1
  | .nodirperm1, _ => auOptClr cfg flags .dirperm1
  | .shwh, _ => auOptSet cfg flags .shwh
  | .noshwh, _ => auOptClr cfg flags .shwh
  | _, _ => flags

/-- An option as the tables have it: its level is one of the table, and an option for a flag that is not configured is
    not in `options`. -/
structure SimpleOpt (cfg : OptsConfig) where
  opt : AuOpt
  udba : opt.type = .udba → ∃ level, opt.arg = .udba level ∧ (udbaFlag level).configured cfg = true
  coo : opt.type = .coo → ∃ level, opt.arg = .coo level
  dlgt : opt.type = .dlgt → cfg.dlgt = true
  dirperm1 : opt.type = .dirperm1 → cfg.dlgt = true
  shwh : opt.type = .shwh → cfg.shwh = true

/-- The options are done in order. -/
def applySimple (cfg : OptsConfig) (opts : List (SimpleOpt cfg)) (flags : Nat) : Nat :=
  opts.foldl (fun flags o => auOptSimple cfg flags o.opt) flags

/-! ## What is written -/

/-- What an option writes, one flag after the other. -/
def writes (opt : AuOpt) : List (Flag × Bool) :=
  match opt.type, opt.arg with
  | .udba, .udba level => [(.udbaNone, false), (.udbaReval, false), (.udbaInotify, false), (udbaFlag level, true)]
  | .plink, _ => [(.plink, true)]
  | .noplink, _ => [(.plink, false)]
  | .diropqA, _ => [(.alwaysDiropq, true)]
  | .diropqW, _ => [(.alwaysDiropq, false)]
  | .dlgt, _ => [(.dlgt, true)]
  | .nodlgt, _ => [(.dlgt, false)]
  | .warnPerm, _ => [(.warnPerm, true)]
  | .nowarnPerm, _ => [(.warnPerm, false)]
  | .refrof, _ => [(.refrof, true)]
  | .norefrof, _ => [(.refrof, false)]
  | .verbose, _ => [(.verbose, true)]
  | .noverbose, _ => [(.verbose, false)]
  | .sum, _ => [(.sum, true)]
  | .wsum, _ => [(.sum, false), (.sumW, true), (.sum, false), (.sumW, false)]
  | .nosum, _ => [(.sum, false), (.sumW, false)]
  | .coo, .coo level => [(.cooNone, false), (.cooLeaf, false), (.cooAll, false), (cooFlag level, true)]
  | .truncXino, _ => [(.truncXino, true)]
  | .notruncXino, _ => [(.truncXino, false)]
  | .dirperm1, _ => [(.dirperm1, true)]
  | .nodirperm1, _ => [(.dirperm1, false)]
  | .shwh, _ => [(.shwh, true)]
  | .noshwh, _ => [(.shwh, false)]
  | _, _ => []

/-- What is seen of a flag after some writes. -/
def written (ws : List (Flag × Bool)) (flag : Flag) (before : Bool) : Bool :=
  ws.foldl (fun b w => if w.1 = flag then w.2 else b) before

section

variable {cfg : OptsConfig} {flags m m' : Nat} {flag flag' : Flag}

theorem Flag.index_inj (h : flag.index = flag'.index) : flag = flag' := by
  cases flag <;> cases flag' <;> first | rfl | cases h

theorem Flag.index_lt (flag : Flag) : flag.index < 32 := by
  cases flag <;> decide

/-- A flag is seen if it is configured and its bit is set. -/
theorem auOptTest_eq : auOptTest cfg flags flag = (flag.configured cfg && flags.testBit flag.index) := by
  unfold auOptTest Flag.bit
  cases flag.configured cfg with
  | false =>
    rw [if_neg Bool.false_ne_true, Nat.and_zero]
    rfl
  | true =>
    rw [if_pos rfl, Nat.one_shiftLeft, Nat.and_two_pow, Bool.true_and]
    cases flags.testBit flag.index with
    | false => simp
    | true => simp

theorem testBit_bit (h : flag.configured cfg = true) (i : Nat) :
    (flag.bit cfg).testBit i = decide (flag.index = i) := by
  unfold Flag.bit
  rw [if_pos h, Nat.one_shiftLeft, Nat.testBit_two_pow]

/-- Another flag is not touched, and one that is set is seen if it is configured. -/
theorem auOptTest_set (h : flag'.configured cfg = true) :
    auOptTest cfg (auOptSet cfg flags flag') flag = if flag' = flag then true else auOptTest cfg flags flag := by
  unfold auOptSet
  rw [auOptTest_eq, auOptTest_eq, Nat.testBit_or, testBit_bit h]
  by_cases heq : flag' = flag
  · rw [if_pos heq, ← heq, h]
    simp
  · rw [if_neg heq, decide_eq_false fun hi => heq (Flag.index_inj hi), Bool.or_false]

theorem auOptTest_clr :
    auOptTest cfg (auOptClr cfg flags flag') flag = if flag' = flag then false else auOptTest cfg flags flag := by
  unfold auOptClr
  rw [auOptTest_eq, auOptTest_eq, testBit_andNot, decide_eq_true flag.index_lt]
  cases hc : flag'.configured cfg with
  | false =>
    -- there is no bit
    unfold Flag.bit
    rw [if_neg (by rw [hc]; exact Bool.false_ne_true), Nat.zero_testBit, Bool.xor_false, Bool.and_true]
    by_cases heq : flag' = flag
    · rw [if_pos heq, ← heq, hc, Bool.false_and]
    · rw [if_neg heq]
  | true =>
    rw [testBit_bit hc]
    by_cases heq : flag' = flag
    · rw [if_pos heq, heq, decide_eq_true rfl, Bool.xor_self, Bool.and_false, Bool.and_false]
    · rw [if_neg heq, decide_eq_false fun hi => heq (Flag.index_inj hi), Bool.xor_false, Bool.and_true]

/-- A mask is cleared bit by bit. -/
theorem auOptTest_andNot_or :
    auOptTest cfg (andNot 32 flags (m ||| m')) flag = auOptTest cfg (andNot 32 (andNot 32 flags m) m') flag := by
  rw [auOptTest_eq, auOptTest_eq, testBit_andNot, testBit_andNot, testBit_andNot, Nat.testBit_or,
    decide_eq_true flag.index_lt]
  cases flags.testBit flag.index <;> cases m.testBit flag.index <;> cases m'.testBit flag.index <;> rfl

end

section

variable {cfg : OptsConfig} {flags : Nat} {flag a b c : Flag}

/-- A level: the three bits are cleared, and that of the level is set. -/
theorem auOptTest_level {level : Flag} (h : level.configured cfg = true) :
    auOptTest cfg (andNot 32 flags (a.bit cfg ||| b.bit cfg ||| c.bit cfg) ||| level.bit cfg) flag =
      written [(a, false), (b, false), (c, false), (level, true)] flag (auOptTest cfg flags flag) := by
  have hmask : auOptTest cfg (andNot 32 flags (a.bit cfg ||| b.bit cfg ||| c.bit cfg)) flag =
      auOptTest cfg (auOptClr cfg (auOptClr cfg (auOptClr cfg flags a) b) c) flag := by
    rw [auOptTest_andNot_or]
    show auOptTest cfg (auOptClr cfg _ c) flag = _
    rw [auOptTest_clr, auOptTest_clr, auOptTest_andNot_or]
    rfl
  rw [show ∀ x : Nat, x ||| level.bit cfg = auOptSet cfg x level from fun _ => rfl, auOptTest_set h, hmask,
    auOptTest_clr, auOptTest_clr, auOptTest_clr]
  rfl

/-- **What an option does** is what it writes. -/
theorem auOptSimple_test (o : SimpleOpt cfg) : auOptTest cfg (auOptSimple cfg flags o.opt) flag =
    written (writes o.opt) flag (auOptTest cfg flags flag) := by
  obtain ⟨⟨type, arg⟩, hudba, hcoo, hdlgt, hdirperm1, hshwh⟩ := o
  cases type with
  | udba =>
    obtain ⟨level, rfl, hconf⟩ := hudba rfl
    exact auOptTest_level hconf
  | coo =>
    obtain ⟨level, rfl⟩ := hcoo rfl
    exact auOptTest_level (by cases level <;> rfl)
  | plink | diropqA | warnPerm | refrof | verbose | sum | truncXino => exact auOptTest_set rfl
  | dlgt => exact auOptTest_set (hdlgt rfl)
  | dirperm1 => exact auOptTest_set (hdirperm1 rfl)
  | shwh => exact auOptTest_set (hshwh rfl)
  | noplink | diropqW | nodlgt | nowarnPerm | norefrof | noverbose | notruncXino | nodirperm1 | noshwh =>
    exact auOptTest_clr
  | nosum =>
    show auOptTest cfg (auOptClr cfg (auOptClr cfg flags .sum) .sumW) flag = _
    rw [auOptTest_clr, auOptTest_clr]
    rfl
  | wsum =>
    show auOptTest cfg (auOptClr cfg (auOptClr cfg (auOptSet cfg (auOptClr cfg flags .sum) .sumW) .sum) .sumW) flag = _
    rw [auOptTest_clr, auOptTest_clr, auOptTest_set rfl, auOptTest_clr]
    rfl
  | _ => rfl

end

/-! ## The settings as a record -/

/-- The flags of the record. -/
def has (f : MntFlags) : Flag → Bool
  | .xino => f.xino
  | .truncXino => f.truncXino
  | .udbaNone => f.udba = .none
  | .udbaReval => f.udba = .reval
  | .udbaInotify => f.udba = .inotify
  | .shwh => f.shwh
  | .plink => f.plink
  | .warnPerm => f.warnPerm
  | .dirperm1 => f.dirperm1
  | .dlgt => f.dlgt
  | .cooNone => f.coo = .none
  | .cooLeaf => f.coo = .leaf
  | .cooAll => f.coo = .all
  | .alwaysDiropq => f.alwaysDiropq
  | .refrof => f.refrof
  | .verbose => f.verbose
  | .sum => f.sum
  | .sumW => f.sumW

/-- The record says what is in the word. -/
def Shows (cfg : OptsConfig) (flags : Nat) (f : MntFlags) : Prop := ∀ flag, auOptTest cfg flags flag = has f flag

/-- **The two models agree**: an option does the same to the word and to the record.  `xino` and `noxino` are not for
    this function. -/
theorem Shows.auOptSimple {cfg : OptsConfig} {flags : Nat} {s : Settings} (h : Shows cfg flags s.mntflags)
    (o : SimpleOpt cfg) (hxino : o.opt.type ≠ .xino) (hnoxino : o.opt.type ≠ .noxino) :
    Shows cfg (OptFlags.auOptSimple cfg flags o.opt) (Aufs.auOptSimple cfg s o.opt).mntflags := by
  intro flag
  rw [auOptSimple_test, h flag]
  revert hxino hnoxino
  obtain ⟨⟨type, arg⟩, hudba, hcoo, -, -, -⟩ := o
  intro hxino hnoxino
  cases type with
  | xino => exact absurd rfl hxino
  | noxino => exact absurd rfl hnoxino
  | udba =>
    obtain ⟨level, rfl, -⟩ := hudba rfl
    cases level <;> cases flag <;> rfl
  | coo =>
    obtain ⟨level, rfl⟩ := hcoo rfl
    cases level <;> cases flag <;> rfl
  | wbrCreate =>
    cases arg with
    | create create =>
      obtain ⟨policy, _, _⟩ := create
      cases policy <;> rfl
    | _ => rfl
  | wbrCopyup | dirwh | rdcache => cases arg <;> rfl
  | plink | noplink | diropqA | diropqW | dlgt | nodlgt | dirperm1 | nodirperm1 | shwh | noshwh | refrof | norefrof
    | verbose | noverbose | warnPerm | nowarnPerm | sum | wsum | nosum | truncXino | notruncXino =>
    cases flag <;> rfl
  | _ => rfl

/-! ## What is parsed -/

section

variable {cfg : OptsConfig} {env : OptsEnv} {sb : OptsSb} {token : Opt} {args : List (List Char)} {v : OptsVars}
  {opt : AuOpt} {str : List Char} {level : Udba}

/-- A token for a flag that is not configured is not in the table. -/
theorem configured_of_token (h : token = .err ∨ token ∈ (options cfg).map Prod.fst) :
    (token = .dlgt → cfg.dlgt = true) ∧ (token = .dirperm1 → cfg.dlgt = true) ∧ (token = .shwh → cfg.shwh = true) := by
  unfold options at h
  refine ⟨?_, ?_, ?_⟩
  · rintro rfl
    cases hc : cfg.dlgt with
    | true => rfl
    | false =>
      rw [hc] at h
      simp at h
  · rintro rfl
    cases hc : cfg.dlgt with
    | true => rfl
    | false =>
      rw [hc] at h
      simp at h
  · rintro rfl
    cases hc : cfg.shwh with
    | true => rfl
    | false =>
      rw [hc] at h
      simp at h

theorem configured_of_udbaVal (h : udbaVal cfg str = some level) : (udbaFlag level).configured cfg = true := by
  have hmem := matchToken_mem (udbalevel cfg) none str
  have h : (matchToken (udbalevel cfg) none str).1 = some level := h
  rw [h] at hmem
  unfold udbalevel at hmem
  cases level with
  | none => rfl
  | reval => rfl
  | inotify =>
    show cfg.hinotify = true
    cases hc : cfg.hinotify with
    | true => rfl
    | false =>
      rw [hc] at hmem
      simp at hmem

/-- An entry is of the type of its token. -/
theorem parseOne_type (h : (parseOne cfg env sb token args v).1 = .entry opt) : opt.type = token := by
  unfold parseOne at h
  cases token with
  | add =>
    dsimp only at h
    split at h
    · cases h
    · split at h
      · cases h
      · rename_i hadd
        obtain ⟨perm, path, dentry, rfl⟩ := optAdd_eq hadd
        cases h
        rfl
  | append | prepend =>
    dsimp only at h
    split at h
    · cases h
    · cases h
      rfl
  | del | dirwh | rdcache | wbrCreate | wbrCopyup | udba =>
    dsimp only at h
    split at h
    · cases h
    · cases h
      rfl
  | mod | xino | truncXinoPath | itruncXino =>
    dsimp only at h
    split at h
    · cases h
    · split at h
      · cases h
      · cases h
        rfl
  | coo =>
    dsimp only at h
    split at h
    · cases h
    · split at h
      · cases h
        rfl
      · cases h
  | shwh =>
    dsimp only at h
    split at h
    · cases h
      rfl
    · cases h
  | err | imod | truncXinoV | rendir | tail | ignore | ignoreSilent | br => cases h
  | _ =>
    cases h
    rfl

/-- **What is parsed is a simple option** in this sense. -/
theorem simple_of_parseOne (ht : token = .err ∨ token ∈ (options cfg).map Prod.fst)
    (h : (parseOne cfg env sb token args v).1 = .entry opt) : ∃ o : SimpleOpt cfg, o.opt = opt := by
  obtain ⟨hdlgt, hdirperm1, hshwh⟩ := configured_of_token ht
  obtain rfl := parseOne_type h
  refine ⟨⟨opt, fun hu => ?_, fun hc => ?_, hdlgt, hdirperm1, hshwh⟩, rfl⟩
  · rw [hu] at h
    unfold parseOne at h
    dsimp only at h
    split at h
    · cases h
    · rename_i level hlevel
      cases h
      exact ⟨level, rfl, configured_of_udbaVal hlevel⟩
  · rw [hc] at h
    unfold parseOne at h
    dsimp only at h
    split at h
    · cases h
    · split at h
      · cases h
        exact ⟨_, rfl⟩
      · cases h

end

/-! ## What is asked for -/

/-- The options that write the same flags. -/
inductive Group where
  | sum | plink | udba | coo | diropq | dlgt | dirperm1 | shwh | refrof | verbose | warnPerm | truncXino
  deriving DecidableEq, Repr

/-- The group of a flag: all but AuOpt_XINO have one. -/
def Flag.group : Flag → Option Group
  | .xino => none
  | .truncXino => some .truncXino
  | .udbaNone => some .udba
  | .udbaReval => some .udba
  | .udbaInotify => some .udba
  | .shwh => some .shwh
  | .plink => some .plink
  | .warnPerm => some .warnPerm
  | .dirperm1 => some .dirperm1
  | .dlgt => some .dlgt
  | .cooNone => some .coo
  | .cooLeaf => some .coo
  | .cooAll => some .coo
  | .alwaysDiropq => some .diropq
  | .refrof => some .refrof
  | .verbose => some .verbose
  | .sum => some .sum
  | .sumW => some .sum

/-- The group of an option, if it is one for a mount flag. -/
def groupOf : Opt → Option Group
  | .sum => some .sum
  | .wsum => some .sum
  | .nosum => some .sum
  | .plink => some .plink
  | .noplink => some .plink
  | .udba => some .udba
  | .coo => some .coo
  | .diropqA => some .diropq
  | .diropqW => some .diropq
  | .dlgt => some .dlgt
  | .nodlgt => some .dlgt
  | .dirperm1 => some .dirperm1
  | .nodirperm1 => some .dirperm1
  | .shwh => some .shwh
  | .noshwh => some .shwh
  | .refrof => some .refrof
  | .norefrof => some .refrof
  | .verbose => some .verbose
  | .noverbose => some .verbose
  | .warnPerm => some .warnPerm
  | .nowarnPerm => some .warnPerm
  | .truncXino => some .truncXino
  | .notruncXino => some .truncXino
  | _ => none

/-- **What an option is for**: the flags that are to be set or clear afterwards. -/
def asks (opt : AuOpt) : List (Flag × Bool) :=
  match opt.type, opt.arg with
  | .sum, _ => [(.sum, true)]
  | .wsum, _ => [(.sumW, true), (.sum, false)]
  | .nosum, _ => [(.sum, false), (.sumW, false)]
  | .plink, _ => [(.plink, true)]
  | .noplink, _ => [(.plink, false)]
  | .udba, .udba level =>
    [(.udbaNone, level = .none), (.udbaReval, level = .reval), (.udbaInotify, level = .inotify)]
  | .coo, .coo level => [(.cooNone, level = .none), (.cooLeaf, level = .leaf), (.cooAll, level = .all)]
  | .diropqA, _ => [(.alwaysDiropq, true)]
  | .diropqW, _ => [(.alwaysDiropq, false)]
  | .dlgt, _ => [(.dlgt, true)]
  | .nodlgt, _ => [(.dlgt, false)]
  | .dirperm1, _ => [(.dirperm1, true)]
  | .nodirperm1, _ => [(.dirperm1, false)]
  | .shwh, _ => [(.shwh, true)]
  | .noshwh, _ => [(.shwh, false)]
  | .refrof, _ => [(.refrof, true)]
  | .norefrof, _ => [(.refrof, false)]
  | .verbose, _ => [(.verbose, true)]
  | .noverbose, _ => [(.verbose, false)]
  | .warnPerm, _ => [(.warnPerm, true)]
  | .nowarnPerm, _ => [(.warnPerm, false)]
  | .truncXino, _ => [(.truncXino, true)]
  | .notruncXino, _ => [(.truncXino, false)]
  | _, _ => []

/-- Just one flag of a group is set. -/
def OneFlag (cfg : OptsConfig) (g : Group) (flags : Nat) : Prop :=
  ∃! flag : Flag, flag.group = some g ∧ auOptTest cfg flags flag = true

/-- The last option of a group in the list. -/
def lastOption {cfg : OptsConfig} (g : Group) (opts : List (SimpleOpt cfg)) : Option (SimpleOpt cfg) :=
  lastOf (fun o => groupOf o.opt.type) g opts

/-- **The last option of each group counts**: the flags are as it asks for, or as they were if there is none; and
    there is one level of COO and of UDBA, if there was. -/
structure LastOption (cfg : OptsConfig) (opts : List (SimpleOpt cfg)) (flags : Nat) : Prop where
  last : ∀ g o, lastOption g opts = some o →
    ∀ ask ∈ asks o.opt, auOptTest cfg (applySimple cfg opts flags) ask.1 = ask.2
  unchanged : ∀ g, lastOption g opts = none → ∀ flag : Flag, flag.group = some g →
    auOptTest cfg (applySimple cfg opts flags) flag = auOptTest cfg flags flag
  coo : OneFlag cfg .coo flags → OneFlag cfg .coo (applySimple cfg opts flags)
  udba : OneFlag cfg .udba flags → OneFlag cfg .udba (applySimple cfg opts flags)

section

variable {cfg : OptsConfig} {flags : Nat} {flag a b c : Flag} {g : Group} {o : SimpleOpt cfg}
  {opts : List (SimpleOpt cfg)} {ws : List (Flag × Bool)} {before : Bool}

theorem written_of_ne (h : ∀ w ∈ ws, w.1 ≠ flag) : written ws flag before = before := by
  induction ws generalizing before with
  | nil => rfl
  | cons w ws ih =>
    have hw := h w List.mem_cons_self
    show written ws flag (if w.1 = flag then w.2 else before) = before
    rw [if_neg hw]
    exact ih fun x hx => h x (List.mem_cons_of_mem _ hx)

/-- Of three flags, one is left. -/
theorem written_level {level : Flag} (h : flag = a ∨ flag = b ∨ flag = c) :
    written [(a, false), (b, false), (c, false), (level, true)] flag before = decide (level = flag) := by
  show (if level = flag then true else if c = flag then false else if b = flag then false
    else if a = flag then false else before) = _
  by_cases hl : level = flag
  · rw [if_pos hl, decide_eq_true hl]
  · rw [if_neg hl, decide_eq_false hl]
    rcases h with rfl | rfl | rfl <;> simp

theorem udba_flags (h : flag.group = some .udba) : flag = .udbaNone ∨ flag = .udbaReval ∨ flag = .udbaInotify := by
  cases flag <;> first | exact Or.inl rfl | exact Or.inr (Or.inl rfl) | exact Or.inr (Or.inr rfl) | cases h

theorem coo_flags (h : flag.group = some .coo) : flag = .cooNone ∨ flag = .cooLeaf ∨ flag = .cooAll := by
  cases flag <;> first | exact Or.inl rfl | exact Or.inr (Or.inl rfl) | exact Or.inr (Or.inr rfl) | cases h

/-- **An option writes flags of its own group only**. -/
theorem group_of_writes (o : SimpleOpt cfg) : ∀ w ∈ writes o.opt, w.1.group = groupOf o.opt.type := by
  have hall : ((writes o.opt).all fun w => w.1.group = groupOf o.opt.type) = true := by
    obtain ⟨⟨type, arg⟩, hudba, hcoo, -, -, -⟩ := o
    cases type with
    | udba =>
      obtain ⟨level, rfl, -⟩ := hudba rfl
      cases level <;> rfl
    | coo =>
      obtain ⟨level, rfl⟩ := hcoo rfl
      cases level <;> rfl
    | _ => rfl
  exact fun w hw => of_decide_eq_true (List.all_eq_true.mp hall w hw)

/-- It asks for flags of this group. -/
theorem group_of_asks (o : SimpleOpt cfg) : ∀ ask ∈ asks o.opt, ask.1.group = groupOf o.opt.type := by
  have hall : ((asks o.opt).all fun ask => ask.1.group = groupOf o.opt.type) = true := by
    obtain ⟨⟨type, arg⟩, hudba, hcoo, -, -, -⟩ := o
    cases type with
    | udba =>
      obtain ⟨level, rfl, -⟩ := hudba rfl
      rfl
    | coo =>
      obtain ⟨level, rfl⟩ := hcoo rfl
      rfl
    | _ => rfl
  exact fun ask hask => of_decide_eq_true (List.all_eq_true.mp hall ask hask)

/-- **Each option but `wsum` writes what it asks for.** -/
theorem written_asks (o : SimpleOpt cfg) (ho : o.opt.type ≠ .wsum) :
    ∀ ask ∈ asks o.opt, written (writes o.opt) ask.1 before = ask.2 := by
  have hall : ((asks o.opt).all fun ask => written (writes o.opt) ask.1 before = ask.2) = true := by
    revert ho
    obtain ⟨⟨type, arg⟩, hudba, hcoo, -, -, -⟩ := o
    intro ho
    cases type with
    | wsum => exact absurd rfl ho
    | udba =>
      obtain ⟨level, rfl, -⟩ := hudba rfl
      cases level <;> rfl
    | coo =>
      obtain ⟨level, rfl⟩ := hcoo rfl
      cases level <;> rfl
    | _ => rfl
  exact fun ask hask => of_decide_eq_true (List.all_eq_true.mp hall ask hask)

/-- What is seen of a group. -/
def seen (cfg : OptsConfig) (g : Group) (flags : Nat) (flag : Flag) : Bool :=
  decide (flag.group = some g) && auOptTest cfg flags flag

/-- An option of another group does not change it. -/
theorem seen_auOptSimple (o : SimpleOpt cfg) (h : groupOf o.opt.type ≠ some g) (flags : Nat) :
    seen cfg g (auOptSimple cfg flags o.opt) = seen cfg g flags := by
  funext flag
  unfold seen
  by_cases hg : flag.group = some g
  · rw [auOptSimple_test, written_of_ne]
    intro w hw heq
    have hown := group_of_writes o w hw
    rw [heq, hg] at hown
    exact h hown.symm
  · rw [decide_eq_false hg, Bool.false_and, Bool.false_and]

theorem test_of_seen {flags' : Nat} (h : seen cfg g flags = seen cfg g flags') (hg : flag.group = some g) :
    auOptTest cfg flags flag = auOptTest cfg flags' flag := by
  have hflag := congrFun h flag
  unfold seen at hflag
  rw [decide_eq_true hg, Bool.true_and, Bool.true_and] at hflag
  exact hflag

theorem group_of_lastOption (h : lastOption g opts = some o) : groupOf o.opt.type = some g :=
  @group_of_lastOf (SimpleOpt cfg) Group _ (fun o => groupOf o.opt.type) g o opts h

/-- **After the last option of a group**, its flags are what it has written. -/
theorem applySimple_last (h : lastOption g opts = some o) : ∃ flags', ∀ flag : Flag, flag.group = some g →
    auOptTest cfg (applySimple cfg opts flags) flag = written (writes o.opt) flag (auOptTest cfg flags' flag) := by
  obtain ⟨flags', hseen⟩ := foldl_last (fun s o ho => seen_auOptSimple o ho s) opts flags h
  refine ⟨flags', fun flag hg => ?_⟩
  rw [← auOptSimple_test]
  exact test_of_seen hseen hg

theorem applySimple_none (h : lastOption g opts = none) (hg : flag.group = some g) :
    auOptTest cfg (applySimple cfg opts flags) flag = auOptTest cfg flags flag :=
  test_of_seen (foldl_none (fun s o ho => seen_auOptSimple o ho s) opts flags h) hg

/-- The last option for COO or UDBA leaves one flag of three. -/
theorem oneFlag_of_level {level : Flag} (hlevel : level.group = some g) {flags' : Nat}
    (hthree : ∀ flag : Flag, flag.group = some g → flag = a ∨ flag = b ∨ flag = c)
    (h : ∀ flag : Flag, flag.group = some g → auOptTest cfg flags flag =
      written [(a, false), (b, false), (c, false), (level, true)] flag (auOptTest cfg flags' flag)) :
    OneFlag cfg g flags := by
  refine ⟨level, ⟨hlevel, ?_⟩, fun flag hflag => ?_⟩
  · rw [h level hlevel, written_level (hthree level hlevel), decide_eq_true rfl]
  · have htest := hflag.2
    rw [h flag hflag.1, written_level (hthree flag hflag.1)] at htest
    exact (of_decide_eq_true htest).symm

/-- Without an option of the group, one flag stays one flag. -/
theorem oneFlag_of_none (hnone : lastOption g opts = none) (h : OneFlag cfg g flags) :
    OneFlag cfg g (applySimple cfg opts flags) := by
  obtain ⟨level, ⟨hg, htest⟩, huniq⟩ := h
  refine ⟨level, ⟨hg, (applySimple_none hnone hg).trans htest⟩, fun flag hflag => huniq flag ⟨hflag.1, ?_⟩⟩
  rw [← applySimple_none hnone hflag.1]
  exact hflag.2

theorem type_of_group_udba {type : Opt} (h : groupOf type = some .udba) : type = .udba := by
  cases type <;> first | rfl | cases h

theorem type_of_group_coo {type : Opt} (h : groupOf type = some .coo) : type = .coo := by
  cases type <;> first | rfl | cases h

/-- **One level of COO**, whatever the options are. -/
theorem applySimple_coo (h : OneFlag cfg .coo flags) : OneFlag cfg .coo (applySimple cfg opts flags) := by
  cases hlast : lastOption .coo opts with
  | none => exact oneFlag_of_none hlast h
  | some o =>
    obtain ⟨flags', hflags⟩ := @applySimple_last cfg flags .coo o opts hlast
    obtain ⟨level, harg⟩ := o.coo (type_of_group_coo (group_of_lastOption hlast))
    have hwrites : writes o.opt = [(.cooNone, false), (.cooLeaf, false), (.cooAll, false), (cooFlag level, true)] := by
      unfold writes
      rw [type_of_group_coo (group_of_lastOption hlast), harg]
    rw [hwrites] at hflags
    exact oneFlag_of_level (by cases level <;> rfl) (fun _ => coo_flags) hflags

/-- **One level of UDBA.** -/
theorem applySimple_udba (h : OneFlag cfg .udba flags) : OneFlag cfg .udba (applySimple cfg opts flags) := by
  cases hlast : lastOption .udba opts with
  | none => exact oneFlag_of_none hlast h
  | some o =>
    obtain ⟨flags', hflags⟩ := @applySimple_last cfg flags .udba o opts hlast
    obtain ⟨level, harg, -⟩ := o.udba (type_of_group_udba (group_of_lastOption hlast))
    have hwrites : writes o.opt =
        [(.udbaNone, false), (.udbaReval, false), (.udbaInotify, false), (udbaFlag level, true)] := by
      unfold writes
      rw [type_of_group_udba (group_of_lastOption hlast), harg]
    rw [hwrites] at hflags
    exact oneFlag_of_level (by cases level <;> rfl) (fun _ => udba_flags) hflags

/-- **The last option of each group counts** if and only if the last one of `sum`, `wsum` and `nosum` is not
    `wsum`. -/
theorem auOptSimple_last_iff (opts : List (SimpleOpt cfg)) (flags : Nat) :
    LastOption cfg opts flags ↔ ∀ o, lastOption .sum opts = some o → o.opt.type ≠ .wsum := by
  constructor
  · intro h o hlast htype
    -- SUM_W is cleared again
    obtain ⟨flags', hflags⟩ := @applySimple_last cfg flags .sum o opts hlast
    have hask : (Flag.sumW, true) ∈ asks o.opt := by
      unfold asks
      rw [htype]
      exact List.mem_cons_self
    have hset := h.last .sum o hlast _ hask
    rw [hflags .sumW rfl] at hset
    unfold writes at hset
    rw [htype] at hset
    cases hset
  · intro h
    refine ⟨fun g o hlast ask hask => ?_, fun g hlast flag hg => applySimple_none hlast hg, applySimple_coo,
      applySimple_udba⟩
    obtain ⟨flags', hflags⟩ := @applySimple_last cfg flags g o opts hlast
    have hgroup : groupOf o.opt.type = some g := group_of_lastOption hlast
    have htype : o.opt.type ≠ .wsum := by
      intro htype
      rw [htype] at hgroup
      have hg : Group.sum = g := Option.some.inj hgroup
      rw [← hg] at hlast
      exact h o hlast htype
    rw [hflags ask.1 ((group_of_asks o ask hask).trans hgroup)]
    exact written_asks o htype ask hask

end

/-! ## wsum -/

/-- `wsum`, as it is parsed. -/
def wsumOpt (cfg : OptsConfig) : SimpleOpt cfg where
  opt := ⟨.wsum, .unset⟩
  udba h := by cases h
  coo h := by cases h
  dlgt h := by cases h
  dirperm1 h := by cases h
  shwh h := by cases h

/-- **SUM_W is not set**, by the only option for it, and the option is not kept. -/
theorem wsum_clears : auOptTest plainConfig (applySimple plainConfig [wsumOpt plainConfig] 0) .sumW = false ∧
    ¬ LastOption plainConfig [wsumOpt plainConfig] 0 := by
  have htest : auOptTest plainConfig (applySimple plainConfig [wsumOpt plainConfig] 0) .sumW = false := by decide
  refine ⟨htest, fun h => ?_⟩
  have hset := h.last .sum (wsumOpt plainConfig) rfl (.sumW, true) List.mem_cons_self
  rw [htest] at hset
  cases hset

end KernelPatches.Aufs.OptFlags
