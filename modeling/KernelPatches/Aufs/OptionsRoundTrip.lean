/-
  aufs: what `aufs_show_options` prints is read back.

  Each item that is printed is read by the entry of one option, which writes the setting it was printed for (`Reads`).
  The numbers of seconds are the exception: they come from jiffies that are the product of an `int` with HZ, cut to
  an `int`, and are multiplied again.  That gives the same if and only if HZ divides the jiffies.

  * `jiffies_again`            — the numbers;
  * `Reads`, `reads_show`      — the items, one after the other;
  * `SettingsOk`               — what every run of mounts and remounts keeps of the settings;
  * `run_roundTrip`            — when the settings are read back.
-/
import KernelPatches.Aufs.OptionsShow
import Mathlib.Data.Int.ModEq

namespace KernelPatches.Aufs

open KernelPatches.Lib

/-! ## Numbers -/

section

variable {cfg : OptsConfig}

theorem toInt_toInt (z : Int) : toInt (toInt z) = toInt z := Int.bmod_bmod

theorem toInt_eq_iff (a b : Int) : toInt a = toInt b ↔ (2 ^ 32 : Int) ∣ a - b := by
  unfold toInt
  constructor
  · intro h
    have hmod : a % (2 ^ 32 : Nat) = b % (2 ^ 32 : Nat) := by
      rw [← @Int.bmod_emod a, h, Int.bmod_emod]
    exact Int.ModEq.dvd hmod.symm
  · intro h
    have hmod : a % (2 ^ 32 : Nat) = b % (2 ^ 32 : Nat) := (Int.modEq_iff_dvd.mpr h).symm
    rw [← @Int.emod_bmod a, hmod, Int.emod_bmod]

/-- An `unsigned long` is cut to an `int` as the `int` it was made from. -/
theorem toInt_toUlong (A : Arch) (z : Int) : toInt (toUlong A (toInt z)) = toInt z := by
  have hcast : ((toUlong A (toInt z) : Nat) : Int) = toInt z % 2 ^ A.bitsPerLong := by
    unfold toUlong
    exact Int.toNat_of_nonneg (Int.emod_nonneg _ (Int.pow_ne_zero (by decide)))
  have hdvd : ((2 ^ 32 : Nat) : Int) ∣ 2 ^ A.bitsPerLong := by
    have hpow : (2 : Nat) ^ 32 ∣ 2 ^ A.bitsPerLong := by
      apply Nat.pow_dvd_pow
      rcases A.bitsPerLong_eq with h | h <;> omega
    exact_mod_cast hpow
  have hcut : toInt (toInt z % 2 ^ A.bitsPerLong) = toInt (toInt z) := by
    show Int.bmod _ _ = Int.bmod _ _
    rw [← Int.emod_bmod, Int.emod_emod_of_dvd _ hdvd, Int.emod_bmod]
  rw [hcast, hcut, toInt_toInt]

theorem toUlong_inj {A : Arch} {a b : Int} (h : toUlong A (toInt a) = toUlong A (toInt b)) : toInt a = toInt b := by
  rw [← toInt_toUlong A a, h, toInt_toUlong]

/-- Jiffies that seconds were turned into. -/
def IsJiffies (cfg : OptsConfig) (x : Nat) : Prop := ∃ z, x = toUlong cfg.arch (toInt z)

/-- **Jiffies that are divided and multiplied again.** -/
theorem jiffies_again {x : Nat} (h : IsJiffies cfg x) :
    jiffiesOf cfg (toInt (x / cfg.hz : Nat)) = x ↔ cfg.hz ∣ x := by
  obtain ⟨z, hz⟩ := h
  have hpos := cfg.hz_pos
  have hlt := cfg.hz_lt
  have hx : toUlong cfg.arch (toInt x) = x := by
    rw [hz, toInt_toUlong]
  have hmul : toInt (toInt (x / cfg.hz : Nat) * cfg.hz) = toInt ((x / cfg.hz * cfg.hz : Nat)) := by
    unfold toInt
    rw [Int.bmod_mul_bmod, Int.natCast_mul]
  have hrest : (x : Int) - (x / cfg.hz * cfg.hz : Nat) = (x % cfg.hz : Nat) := by
    have := Nat.div_add_mod' x cfg.hz
    omega
  unfold jiffiesOf
  rw [hmul]
  constructor
  · intro heq
    rw [← hx] at heq
    have hdvd := (toInt_eq_iff _ _).mp (toUlong_inj heq).symm
    rw [hx, hrest] at hdvd
    have hzero : x % cfg.hz = 0 := by
      have hsmall := Nat.mod_lt x hpos
      omega
    exact Nat.dvd_of_mod_eq_zero hzero
  · intro hdvd
    rw [Nat.div_mul_cancel hdvd, hx]

/-- A number that was printed is read as an `int`. -/
theorem matchInt_toDigits (A : Arch) (n : Nat) : matchInt A (Nat.toDigits 10 n) = some (toInt n) := by
  have hread := @strtol_toDigits n [] (fun c hc => by cases hc)
  rw [List.append_nil] at hread
  have hpos : 0 < (Nat.toDigits 10 n).length := Nat.length_toDigits_pos
  unfold matchInt
  rw [hread]
  dsimp only
  rw [List.length_nil, if_neg (by omega)]
  refine congrArg some (Int.bmod_bmod_of_dvd (Nat.pow_dvd_pow 2 ?_))
  rcases A.bitsPerLong_eq with h | h <;> omega

theorem matchInt_showInt (A : Arch) (z : Int) : matchInt A (showInt z) = some (toInt z) := by
  have hread := @strtol_showInt z [] (fun c hc => by cases hc)
  rw [List.append_nil] at hread
  have hpos : 0 < (showInt z).length := by
    cases z with
    | ofNat n => exact Nat.length_toDigits_pos
    | negSucc n => exact Nat.succ_pos _
  unfold matchInt
  rw [hread]
  dsimp only
  rw [List.length_nil, if_neg (by omega)]
  refine congrArg some (Int.bmod_bmod_of_dvd (Nat.pow_dvd_pow 2 ?_))
  rcases A.bitsPerLong_eq with h | h <;> omega

/-- A watermark has at most 20 digits. -/
theorem auMatchUll_toDigits {n : Nat} (h : n < 2 ^ 64) : auMatchUll (Nat.toDigits 10 n) = some n := by
  have hread := @strtoul_toDigits n [] (fun c hc => by cases hc)
  rw [List.append_nil] at hread
  have hpos : 0 < (Nat.toDigits 10 n).length := Nat.length_toDigits_pos
  have hlen : (Nat.toDigits 10 n).length ≤ 20 :=
    (Nat.length_toDigits_le_iff (by decide) (by decide)).mpr (by omega)
  unfold auMatchUll
  rw [if_neg (by omega), hread]
  dsimp only
  rw [List.length_nil, if_neg (by omega), Nat.mod_eq_of_lt h]

end

/-! ## Items -/

/-- **The items are read**, and turn the settings into others. -/
def Reads (cfg : OptsConfig) (env : OptsEnv) (sb : OptsSb) (items : List (List Char)) (s s' : Settings) : Prop :=
  ∃ es : List AuOpt,
    (∀ v rest, entriesOf cfg env sb (items ++ rest) v =
      (es ++ (entriesOf cfg env sb rest v).1, (entriesOf cfg env sb rest v).2)) ∧
    (∀ e ∈ es, e.isOpt = true) ∧ es.length = items.length ∧ es.foldl (auOptSimple cfg) s = s'

section

variable {cfg : OptsConfig} {env : OptsEnv} {sb : OptsSb} {s s' s'' : Settings}

theorem Reads.nil : Reads cfg env sb [] s s :=
  ⟨[], fun _ _ => rfl, fun _ he => absurd he List.not_mem_nil, rfl, rfl⟩

theorem Reads.append {items items' : List (List Char)} (h : Reads cfg env sb items s s')
    (h' : Reads cfg env sb items' s' s'') : Reads cfg env sb (items ++ items') s s'' := by
  obtain ⟨es, hread, hopt, hlen, hfold⟩ := h
  obtain ⟨es', hread', hopt', hlen', hfold'⟩ := h'
  refine ⟨es ++ es', fun v rest => ?_, fun e he => ?_, ?_, ?_⟩
  · rw [List.append_assoc, hread, hread', List.append_assoc]
  · rcases List.mem_append.mp he with he | he
    · exact hopt e he
    · exact hopt' e he
  · rw [List.length_append, List.length_append, hlen, hlen']
  · rw [List.foldl_append, hfold, hfold']

theorem Reads.congr {items items' : List (List Char)} (h : Reads cfg env sb items s s') (hitems : items = items')
    (hs : s' = s'') : Reads cfg env sb items' s s'' := by
  rw [← hitems, ← hs]
  exact h

/-- One item, which is read as an entry without a lookup. -/
theorem Reads.item {item : List Char} {token : Opt} {args : List (List Char)} (opt : AuOpt)
    (hm : matchToken (options cfg) .err item = (token, args)) (hbr : token ≠ .br) (hopt : opt.isOpt = true)
    (hone : ∀ v, parseOne cfg env sb token args v = (.entry opt, v)) :
    Reads cfg env sb [item] s (auOptSimple cfg s opt) := by
  refine ⟨[opt], fun v rest => ?_, fun e he => ?_, rfl, rfl⟩
  · rw [List.singleton_append, entriesOf, itemEntries_one hm hbr, hone]
    dsimp only
    rw [if_neg (fun hne => hne rfl)]
  · rw [List.mem_singleton.mp he]
    exact hopt

/-- An item that is not printed for the default. -/
theorem Reads.ite {p : Prop} [Decidable p] {item : List Char} (hdef : p → s = s')
    (hitem : ¬p → Reads cfg env sb [item] s s') : Reads cfg env sb (if p then [] else [item]) s s' := by
  by_cases h : p
  · rw [if_pos h, hdef h]
    exact Reads.nil
  · rw [if_neg h]
    exact hitem h

/-- The words that stand for themselves. -/
def plainWords : List (List Char × Opt) :=
  [("noxino".toList, .noxino), ("trunc_xino".toList, .truncXino), ("noplink".toList, .noplink),
    ("diropq=a".toList, .diropqA), ("diropq=w".toList, .diropqW), ("refrof".toList, .refrof),
    ("nowarn_perm".toList, .nowarnPerm), ("verbose".toList, .verbose), ("sum".toList, .sum)]

theorem token_plain (cfg : OptsConfig) {word : List Char} {token : Opt} (h : (word, token) ∈ plainWords) :
    matchToken (options cfg) .err word = (token, []) := by
  have hall : ∀ e ∈ plainWords, matchToken (options cfg) .err e.1 = (e.2, []) := by
    unfold options
    cases cfg.debug <;> cases cfg.dlgt <;> cases cfg.shwh <;> decide +kernel
  exact hall _ h

theorem token_dlgt (h : cfg.dlgt = true) : matchToken (options cfg) .err "dlgt".toList = (.dlgt, []) ∧
    matchToken (options cfg) .err "dirperm1".toList = (.dirperm1, []) := by
  unfold options
  rw [h]
  cases cfg.debug <;> cases cfg.shwh <;> decide +kernel

theorem token_shwh (h : cfg.shwh = true) : matchToken (options cfg) .err "shwh".toList = (.shwh, []) := by
  unfold options
  rw [h]
  cases cfg.debug <;> cases cfg.dlgt <;> decide +kernel

/-- The options with a value that are printed. -/
def valueWords : List (List Char × Opt × Piece) :=
  [("udba=".toList, .udba, .str), ("create=".toList, .wbrCreate, .str), ("cpup=".toList, .wbrCopyup, .str),
    ("coo=".toList, .coo, .str), ("dirwh=".toList, .dirwh, .int), ("rdcache=".toList, .rdcache, .int)]

theorem options_value (cfg : OptsConfig) {word : List Char} {token : Opt} {piece : Piece}
    (h : (word, token, piece) ∈ valueWords) :
    (options cfg).filter (fun e => startsWith word e.2) = [(token, [.lit word, piece])] := by
  have hall : ∀ e ∈ valueWords,
      (options cfg).filter (fun e' => startsWith e.1 e'.2) = [(e.2.1, [.lit e.1, e.2.2])] := by
    unfold options
    cases cfg.debug <;> cases cfg.dlgt <;> cases cfg.shwh <;> decide +kernel
  exact hall _ h

theorem token_str (cfg : OptsConfig) {word arg : List Char} {token : Opt}
    (h : (word, token, Piece.str) ∈ valueWords) (hne : arg ≠ []) :
    matchToken (options cfg) .err (word ++ arg) = (token, [arg]) := by
  have hnil : ¬arg.isEmpty = true := fun he => hne (List.isEmpty_iff.mp he)
  rw [matchToken_filter, options_value cfg h, matchToken, matchOne_lit, matchOne, if_neg hnil]
  rfl

theorem token_int (cfg : OptsConfig) {word : List Char} {token : Opt} (z : Int)
    (h : (word, token, Piece.int) ∈ valueWords) :
    matchToken (options cfg) .err (word ++ showInt z) = (token, [showInt z]) := by
  have hne : showInt z ≠ [] := by
    cases z with
    | ofNat n => exact List.length_pos_iff.mp Nat.length_toDigits_pos
    | negSucc n => exact List.cons_ne_nil _ _
  have hint : matchOne [.int] (showInt z) = some [showInt z] := by
    have := @matchOne_int (showInt z) [] z [] hne (strtol_showInt fun c hc => by cases hc)
    rw [List.append_nil] at this
    exact this
  rw [matchToken_filter, options_value cfg h, matchToken, matchOne_lit, hint]

/-! ## Create policies -/

/-- The policies whose seconds are printed. -/
def WbrCreate.showsSec : WbrCreate → Bool
  | .mfsv => true
  | .pmfsv => true
  | .mfsrrv => true
  | _ => false

/-- The policies with a watermark. -/
def WbrCreate.usesWatermark : WbrCreate → Bool
  | .mfsrr => true
  | .mfsrrv => true
  | _ => false

/-- The policies that keep the free space of the branches for a while. -/
def WbrCreate.usesExpire : WbrCreate → Bool
  | .tdp => false
  | .rr => false
  | _ => true

/-- What is read of the seconds. -/
def shownSec (cfg : OptsConfig) (s : Settings) : Int := toInt (s.mfsExpire / cfg.hz : Nat)

/-- What is read of a create policy. -/
def shownCreate (cfg : OptsConfig) (s : Settings) : OptWbrCreate :=
  match s.wbrCreate with
  | .tdp => ⟨.tdp, none, none⟩
  | .rr => ⟨.rr, none, none⟩
  | .mfs => ⟨.mfs, some mfsSecondDef, none⟩
  | .pmfs => ⟨.pmfs, some mfsSecondDef, none⟩
  | .mfsv => ⟨.mfsv, some (shownSec cfg s), none⟩
  | .pmfsv => ⟨.pmfsv, some (shownSec cfg s), none⟩
  | .mfsrr => ⟨.mfsrr, some mfsSecondDef, some s.mfsrrWatermark⟩
  | .mfsrrv => ⟨.mfsrrv, some (shownSec cfg s), some s.mfsrrWatermark⟩

theorem toDigits_ne_nil (n : Nat) : Nat.toDigits 10 n ≠ [] := List.length_pos_iff.mp Nat.length_toDigits_pos

theorem matchOne_toDigits (n : Nat) (ps : List Piece) {rest : List Char} (h : Stops rest) :
    matchOne (.int :: ps) (Nat.toDigits 10 n ++ rest) = (matchOne ps rest).map fun args => Nat.toDigits 10 n :: args :=
  matchOne_int ps (toDigits_ne_nil n) (strtol_toDigits h)

theorem stops_nil : Stops [] := fun c hc => by cases hc

theorem stops_colon (rest : List Char) : Stops (':' :: rest) := by
  intro c hc
  obtain rfl := Option.some.inj hc
  decide

theorem wbrMfsSec_toDigits (A : Arch) (n : Nat) :
    wbrMfsSec A (Nat.toDigits 10 n) = if 0 ≤ toInt n then some (toInt n) else none := by
  unfold wbrMfsSec
  rw [matchInt_toDigits, Option.filter_some]
  by_cases h : 0 ≤ toInt n
  · rw [if_pos h, if_pos (decide_eq_true h)]
  · rw [if_neg h, if_neg (by rwa [decide_eq_true_eq])]

/-- A policy with seconds. -/
theorem policy_sec {word : List Char} {plain token : Option WbrCreate}
    (htable : wbrCreatePolicy.filter (fun e => startsWith (word ++ [':']) e.2) =
      [(plain, [.lit word]), (token, [.lit (word ++ [':']), .int])]) (n : Nat) :
    matchToken wbrCreatePolicy none (word ++ [':'] ++ Nat.toDigits 10 n) = (token, [Nat.toDigits 10 n]) := by
  have hplain : matchOne [.lit word] (word ++ [':'] ++ Nat.toDigits 10 n) = none := by
    rw [List.append_assoc, matchOne_lit]
    rfl
  have hint := matchOne_toDigits n [] stops_nil
  rw [List.append_nil] at hint
  rw [matchToken_filter, htable, matchToken, hplain]
  dsimp only
  rw [matchToken, matchOne_lit, hint]
  rfl

theorem mfsrr_table : wbrCreatePolicy.filter (fun e => startsWith "mfsrr:".toList e.2) =
    [(some .mfs, [.lit "mfs".toList]), (some .mfsrr, [.lit "mfsrr:".toList, .int]),
      (some .mfsrrv, [.lit "mfsrr:".toList, .int, .lit [':'], .int])] := by decide +kernel

/-- A policy with a watermark. -/
theorem policy_watermark (n : Nat) :
    matchToken wbrCreatePolicy none ("mfsrr:".toList ++ Nat.toDigits 10 n) = (some .mfsrr, [Nat.toDigits 10 n]) := by
  have hplain : matchOne [.lit "mfs".toList] ("mfsrr:".toList ++ Nat.toDigits 10 n) = none := rfl
  have hint := matchOne_toDigits n [] stops_nil
  rw [List.append_nil] at hint
  rw [matchToken_filter, mfsrr_table, matchToken, hplain]
  dsimp only
  rw [matchToken, matchOne_lit, hint]
  rfl

/-- A policy with a watermark and seconds. -/
theorem policy_both (n m : Nat) :
    matchToken wbrCreatePolicy none ("mfsrr:".toList ++ (Nat.toDigits 10 n ++ ':' :: Nat.toDigits 10 m)) =
      (some .mfsrrv, [Nat.toDigits 10 n, Nat.toDigits 10 m]) := by
  have hplain : matchOne [.lit "mfs".toList]
      ("mfsrr:".toList ++ (Nat.toDigits 10 n ++ ':' :: Nat.toDigits 10 m)) = none := rfl
  have hone : matchOne [.int] (Nat.toDigits 10 n ++ ':' :: Nat.toDigits 10 m) = none := by
    rw [matchOne_toDigits n [] (stops_colon _)]
    rfl
  have hboth : matchOne [.int, .lit [':'], .int] (Nat.toDigits 10 n ++ ':' :: Nat.toDigits 10 m) =
      some [Nat.toDigits 10 n, Nat.toDigits 10 m] := by
    have hint := matchOne_toDigits m [] stops_nil
    rw [List.append_nil] at hint
    rw [matchOne_toDigits n _ (stops_colon _)]
    rw [show ':' :: Nat.toDigits 10 m = [':'] ++ Nat.toDigits 10 m from rfl, matchOne_lit, hint]
    rfl
  rw [matchToken_filter, mfsrr_table, matchToken, hplain]
  dsimp only
  rw [matchToken, matchOne_lit, hone]
  dsimp only
  rw [matchToken, matchOne_lit, hboth]

/-- **What is printed of a create policy is read.** -/
theorem wbrCreateVal_show (hw : s.wbrCreate.usesWatermark = true → s.mfsrrWatermark < 2 ^ 64) :
    wbrCreateVal cfg.arch ((auShowWbrCreate cfg s).drop "create=".toList.length) =
      if s.wbrCreate.showsSec = true ∧ shownSec cfg s < 0 then none else some (shownCreate cfg s) := by
  -- the seconds, which are not to be negative
  have hsec : ∀ {α : Type} (f : Int → α),
      (wbrMfsSec cfg.arch (Nat.toDigits 10 (s.mfsExpire / cfg.hz))).map f =
        if true = true ∧ shownSec cfg s < 0 then none else some (f (shownSec cfg s)) := by
    intro α f
    rw [wbrMfsSec_toDigits]
    show (if 0 ≤ shownSec cfg s then some (shownSec cfg s) else none).map f = _
    by_cases h : 0 ≤ shownSec cfg s
    · rw [if_pos h, if_neg (fun hc => absurd hc.2 (by omega))]
      rfl
    · rw [if_neg h, if_pos ⟨rfl, by omega⟩]
      rfl
  have hno : ∀ {α : Type} {a b : α}, (if false = true ∧ shownSec cfg s < 0 then a else b) = b := by
    intro α a b
    exact if_neg fun hc => Bool.false_ne_true hc.1
  unfold auShowWbrCreate shownCreate
  rw [List.drop_left]
  generalize s.wbrCreate = policy at hw
  cases policy with
  | tdp => exact hno.symm
  | rr => exact hno.symm
  | mfs => exact hno.symm
  | pmfs => exact hno.symm
  | mfsv =>
    unfold wbrCreateVal
    rw [show "mfs:".toList = "mfs".toList ++ [':'] from rfl,
      @policy_sec "mfs".toList (some .mfs) (some .mfsv) (by decide +kernel)]
    exact hsec _
  | pmfsv =>
    unfold wbrCreateVal
    rw [show "pmfs:".toList = "pmfs".toList ++ [':'] from rfl,
      @policy_sec "pmfs".toList (some .pmfs) (some .pmfsv) (by decide +kernel)]
    exact hsec _
  | mfsrr =>
    unfold wbrCreateVal
    rw [policy_watermark]
    show (auMatchUll (Nat.toDigits 10 s.mfsrrWatermark)).map _ = _
    rw [auMatchUll_toDigits (hw rfl)]
    exact hno.symm
  | mfsrrv =>
    unfold wbrCreateVal
    dsimp only
    rw [List.append_assoc, policy_both]
    show (auMatchUll (Nat.toDigits 10 s.mfsrrWatermark)).bind _ = _
    rw [auMatchUll_toDigits (hw rfl)]
    exact hsec _

/-! ## One item after the other -/

/-- A word that is its own option. -/
theorem Reads.plain {word : List Char} (token : Opt) (h : (word, token) ∈ plainWords) :
    Reads cfg env sb [word] s (auOptSimple cfg s ⟨token, .unset⟩) := by
  have hno : ∀ e ∈ plainWords, e.2 ≠ .br ∧ AuOpt.isOpt ⟨e.2, .unset⟩ = true := by decide
  refine Reads.item ⟨token, .unset⟩ (token_plain cfg h) (hno _ h).1 (hno _ h).2 fun v => ?_
  simp only [plainWords, List.mem_cons, List.not_mem_nil, or_false, Prod.mk.injEq] at h
  rcases h with ⟨-, rfl⟩ | ⟨-, rfl⟩ | ⟨-, rfl⟩ | ⟨-, rfl⟩ | ⟨-, rfl⟩ | ⟨-, rfl⟩ | ⟨-, rfl⟩ | ⟨-, rfl⟩ | ⟨-, rfl⟩ <;>
    rfl

/-- A flag that is off by default. -/
theorem Reads.on {v : Bool} {str : List Char} {set : Bool → Settings} (hdef : set false = s)
    (hyes : v = true → Reads cfg env sb [str] s (set true)) : Reads cfg env sb (auBool v false str) s (set v) := by
  cases v with
  | false =>
    rw [hdef]
    exact Reads.nil
  | true => exact hyes rfl

/-- A flag that is on by default. -/
theorem Reads.off {v : Bool} {str : List Char} {set : Bool → Settings} (hdef : set true = s)
    (hno : v = false → Reads cfg env sb ["no".toList ++ str] s (set false)) :
    Reads cfg env sb (auBool v true str) s (set v) := by
  cases v with
  | true =>
    rw [hdef]
    exact Reads.nil
  | false => exact hno rfl

theorem reads_udba (level : Udba) (h : s.mntflags.udba = .reval) (hcfg : level = .inotify → cfg.hinotify = true) :
    Reads cfg env sb (if level = (mntflagsDef cfg).udba then [] else ["udba=".toList ++ auOptstrUdba level]) s
      { s with mntflags := { s.mntflags with udba := level } } := by
  refine Reads.ite (fun hdef => ?_) fun _ => ?_
  · show s = { s with mntflags := { s.mntflags with udba := level } }
    rw [hdef, show (mntflagsDef cfg).udba = .reval from rfl, ← h]
  · have hval : udbaVal cfg (auOptstrUdba level) = some level := by
      unfold udbaVal udbalevel
      cases level with
      | none => cases cfg.hinotify <;> rfl
      | reval => cases cfg.hinotify <;> rfl
      | inotify =>
        rw [hcfg rfl]
        rfl
    have hne : auOptstrUdba level ≠ [] := by
      cases level <;> exact List.cons_ne_nil _ _
    refine @Reads.item cfg env sb s _ .udba _ ⟨.udba, .udba level⟩ (token_str cfg (by decide) hne) (by decide) rfl
      fun v => ?_
    unfold parseOne
    dsimp only
    rw [List.getD_cons_zero, hval]

theorem reads_copyup {policy : WbrCopyup} (h : s.wbrCopyup = .tdp) :
    Reads cfg env sb (if policy = .tdp then [] else ["cpup=".toList ++ auOptstrWbrCopyup policy]) s
      { s with wbrCopyup := policy } := by
  refine Reads.ite (fun hdef => ?_) fun _ => ?_
  · rw [hdef, ← h]
  · have hval : wbrCopyupVal (auOptstrWbrCopyup policy) = some policy := by
      cases policy <;> rfl
    have hne : auOptstrWbrCopyup policy ≠ [] := by
      cases policy <;> exact List.cons_ne_nil _ _
    refine @Reads.item cfg env sb s _ .wbrCopyup _ ⟨.wbrCopyup, .copyup policy⟩ (token_str cfg (by decide) hne)
      (by decide) rfl fun v => ?_
    unfold parseOne
    dsimp only
    rw [List.getD_cons_zero, hval]

theorem reads_coo {level : Coo} (h : s.mntflags.coo = .none) (hrw : level ≠ .none → sb.rdonly = false) :
    Reads cfg env sb (if level = (mntflagsDef cfg).coo then [] else ["coo=".toList ++ auOptstrCoo level]) s
      { s with mntflags := { s.mntflags with coo := level } } := by
  refine Reads.ite (fun hdef => ?_) fun hdef => ?_
  · rw [hdef, show (mntflagsDef cfg).coo = .none from rfl, ← h]
  · have hval : cooVal (auOptstrCoo level) = some level := by
      cases level <;> rfl
    have hne : auOptstrCoo level ≠ [] := by
      cases level <;> exact List.cons_ne_nil _ _
    refine @Reads.item cfg env sb s _ .coo _ ⟨.coo, .coo level⟩ (token_str cfg (by decide) hne) (by decide) rfl
      fun v => ?_
    unfold parseOne
    dsimp only
    rw [List.getD_cons_zero, hval]
    dsimp only
    rw [if_pos (Or.inr (by rw [hrw hdef]; rfl))]

theorem reads_diropq {v : Bool} (h : s.mntflags.alwaysDiropq = (mntflagsDef cfg).alwaysDiropq) :
    Reads cfg env sb
      (if v = (mntflagsDef cfg).alwaysDiropq then [] else ["diropq=".toList ++ [if v then 'a' else 'w']]) s
      { s with mntflags := { s.mntflags with alwaysDiropq := v } } := by
  refine Reads.ite (fun hdef => ?_) fun _ => ?_
  · rw [hdef, ← h]
  · cases v with
    | true => exact Reads.plain .diropqA (by decide)
    | false => exact Reads.plain .diropqW (by decide)

theorem parseOne_dirwh {arg : List Char} {n : Int} (h : matchInt cfg.arch arg = some n) (v : OptsVars) :
    parseOne cfg env sb .dirwh [arg] v = (.entry ⟨.dirwh, .int n⟩, v) := by
  unfold parseOne
  dsimp only
  rw [List.getD_cons_zero, h]

theorem parseOne_rdcache {arg : List Char} {n : Int} (h : matchInt cfg.arch arg = some n) (v : OptsVars) :
    parseOne cfg env sb .rdcache [arg] v = (.entry ⟨.rdcache, .int n⟩, v) := by
  unfold parseOne
  dsimp only
  rw [List.getD_cons_zero, h]

theorem reads_dirwh {dirwh : Nat} (hlt : dirwh < 2 ^ 32) (h : s.dirwh = dirwhDef.toNat) :
    Reads cfg env sb (if toInt dirwh = dirwhDef then [] else ["dirwh=".toList ++ showInt (toInt dirwh)]) s
      { s with dirwh } := by
  have hback : (toInt dirwh % 2 ^ 32).toNat = dirwh := by
    unfold toInt
    have := @Int.bmod_emod dirwh (2 ^ 32)
    omega
  refine Reads.ite (fun hdef => ?_) fun _ => ?_
  · have hsame : dirwh = s.dirwh := by
      rw [← hback, hdef, h]
      decide
    rw [hsame]
  · have hread : auOptSimple cfg s ⟨.dirwh, .int (toInt dirwh)⟩ = { s with dirwh } := by
      show { s with dirwh := (toInt dirwh % 2 ^ 32).toNat } = _
      rw [hback]
    rw [← hread]
    refine @Reads.item cfg env sb s _ .dirwh _ ⟨.dirwh, .int (toInt dirwh)⟩ (token_int cfg _ (by decide)) (by decide)
      rfl fun v => ?_
    apply parseOne_dirwh
    rw [matchInt_showInt, toInt_toInt]

theorem reads_rdcache {n : Int} (hn : toInt n = n) (h : s.rdcache = jiffiesOf cfg rdcacheDef) :
    Reads cfg env sb (if n = rdcacheDef then [] else ["rdcache=".toList ++ showInt n]) s
      { s with rdcache := jiffiesOf cfg n } := by
  refine Reads.ite (fun hdef => ?_) fun _ => ?_
  · rw [hdef, ← h]
  · refine @Reads.item cfg env sb s _ .rdcache _ ⟨.rdcache, .int n⟩ (token_int cfg _ (by decide)) (by decide) rfl
      fun v => ?_
    apply parseOne_rdcache
    rw [matchInt_showInt, hn]

theorem parseOne_create {arg : List Char} (v : OptsVars) :
    parseOne cfg env sb .wbrCreate [arg] v =
      match wbrCreateVal cfg.arch arg with
      | none => (.failed (-EINVAL), v)
      | some create => (.entry ⟨.wbrCreate, .create create⟩, v) := rfl

/-- The token of a create policy. -/
theorem token_create (S : Settings) : matchToken (options cfg) .err (auShowWbrCreate cfg S) =
    (.wbrCreate, [(auShowWbrCreate cfg S).drop "create=".toList.length]) := by
  have hsplit : auShowWbrCreate cfg S =
      "create=".toList ++ (auShowWbrCreate cfg S).drop "create=".toList.length := by
    unfold auShowWbrCreate
    rw [List.drop_left]
  have hne : (auShowWbrCreate cfg S).drop "create=".toList.length ≠ [] := by
    unfold auShowWbrCreate
    rw [List.drop_left]
    cases S.wbrCreate <;> exact List.cons_ne_nil _ _
  have htoken := @token_str cfg "create=".toList _ .wbrCreate (by decide) hne
  rw [← hsplit] at htoken
  exact htoken

theorem reads_create {S : Settings} (h : s.wbrCreate = .tdp)
    (hw : S.wbrCreate.usesWatermark = true → S.mfsrrWatermark < 2 ^ 64)
    (hsec : S.wbrCreate.showsSec = true → 0 ≤ shownSec cfg S) :
    Reads cfg env sb (if S.wbrCreate = .tdp then [] else [auShowWbrCreate cfg S]) s
      (auOptWbrCreate cfg (shownCreate cfg S) s) := by
  refine Reads.ite (fun hdef => ?_) fun _ => ?_
  · have hshown : shownCreate cfg S = ⟨.tdp, none, none⟩ := by
      unfold shownCreate
      rw [hdef]
    show s = auOptWbrCreate cfg (shownCreate cfg S) s
    rw [hshown]
    show s = { s with wbrCreate := .tdp }
    rw [← h]
  · refine @Reads.item cfg env sb s _ .wbrCreate _ ⟨.wbrCreate, .create (shownCreate cfg S)⟩ (token_create S)
      (by decide) rfl fun v => ?_
    rw [parseOne_create, wbrCreateVal_show hw, if_neg]
    rintro ⟨hshows, hneg⟩
    exact absurd (hsec hshows) (by omega)

/-! ## Items that are refused -/

/-- An item that fails. -/
theorem item_fails {item : List Char} {token : Opt} {args : List (List Char)} {v : OptsVars} {err : Int}
    (hm : matchToken (options cfg) .err item = (token, args)) (hbr : token ≠ .br)
    (hone : parseOne cfg env sb token args v = (.failed err, v)) (rest : List (List Char)) :
    (entriesOf cfg env sb (item :: rest) v).2 ≠ 0 := by
  have herr : err ≠ 0 := Int.ne_of_lt (parseOne_failed hone)
  rw [entriesOf, itemEntries_one hm hbr, hone]
  dsimp only
  rw [if_pos herr]
  exact herr

theorem shwh_fails (hcfg : cfg.shwh = true) (hrw : sb.rdonly = false) (v : OptsVars) (rest : List (List Char)) :
    (entriesOf cfg env sb ("shwh".toList :: rest) v).2 ≠ 0 := by
  refine @item_fails cfg env sb _ _ _ v (-EINVAL) (token_shwh hcfg) (by decide) ?_ rest
  show (if sb.rdonly = true then (Parsed.entry ⟨.shwh, .unset⟩, v) else (.failed (-EINVAL), v)) = _
  rw [hrw]
  rfl

theorem create_fails {S : Settings} (hw : S.wbrCreate.usesWatermark = true → S.mfsrrWatermark < 2 ^ 64)
    (hshows : S.wbrCreate.showsSec = true) (hneg : shownSec cfg S < 0) (v : OptsVars) (rest : List (List Char)) :
    (entriesOf cfg env sb (auShowWbrCreate cfg S :: rest) v).2 ≠ 0 := by
  refine @item_fails cfg env sb _ _ _ v (-EINVAL) (token_create S) (by decide) ?_ rest
  rw [parseOne_create, wbrCreateVal_show hw, if_pos ⟨hshows, hneg⟩]

/-! ## The whole string -/

/-- **What every run keeps of the settings**: they are such as options can set. -/
structure SettingsOk (cfg : OptsConfig) (s : Settings) : Prop where
  shwh : s.mntflags.shwh = true → cfg.shwh = true
  dlgt : s.mntflags.dlgt = true → cfg.dlgt = true
  dirperm1 : s.mntflags.dirperm1 = true → cfg.dlgt = true
  inotify : s.mntflags.udba = .inotify → cfg.hinotify = true
  sumW : s.mntflags.sumW = false
  watermark : s.wbrCreate.usesWatermark = true → s.mfsrrWatermark < 2 ^ 64
  expire : s.wbrCreate.usesExpire = true → IsJiffies cfg s.mfsExpire
  second : s.wbrCreate.usesExpire = true → s.wbrCreate.showsSec = false → s.mfsExpire = jiffiesOf cfg mfsSecondDef
  dirwh : s.dirwh < 2 ^ 32
  rdcache : IsJiffies cfg s.rdcache

/-- The items in front of `shwh`, between it and `create=`, and behind that. -/
def showHead (cfg : OptsConfig) (f : MntFlags) : List (List Char) :=
  (if f.xino then [] else ["noxino".toList]) ++ auBool f.truncXino (mntflagsDef cfg).truncXino "trunc_xino".toList ++
    auBool f.dirperm1 (mntflagsDef cfg).dirperm1 "dirperm1".toList

def showMid (cfg : OptsConfig) (f : MntFlags) : List (List Char) :=
  auBool f.plink (mntflagsDef cfg).plink "plink".toList ++
    (if f.udba = (mntflagsDef cfg).udba then [] else ["udba=".toList ++ auOptstrUdba f.udba])

def showTail (cfg : OptsConfig) (s : Settings) : List (List Char) :=
  (if s.wbrCopyup = .tdp then [] else ["cpup=".toList ++ auOptstrWbrCopyup s.wbrCopyup]) ++
  (if s.mntflags.alwaysDiropq = (mntflagsDef cfg).alwaysDiropq then []
    else ["diropq=".toList ++ [if s.mntflags.alwaysDiropq then 'a' else 'w']]) ++
  auBool s.mntflags.refrof (mntflagsDef cfg).refrof "refrof".toList ++
  auBool s.mntflags.dlgt (mntflagsDef cfg).dlgt "dlgt".toList ++
  auBool s.mntflags.warnPerm (mntflagsDef cfg).warnPerm "warn_perm".toList ++
  auBool s.mntflags.verbose (mntflagsDef cfg).verbose "verbose".toList ++
  auBool s.mntflags.sum (mntflagsDef cfg).sum "sum".toList ++
  (if toInt s.dirwh = dirwhDef then [] else ["dirwh=".toList ++ showInt (toInt s.dirwh)]) ++
  (if toInt (s.rdcache / cfg.hz : Nat) = rdcacheDef then []
    else ["rdcache=".toList ++ showInt (toInt (s.rdcache / cfg.hz : Nat))]) ++
  (if s.mntflags.coo = (mntflagsDef cfg).coo then [] else ["coo=".toList ++ auOptstrCoo s.mntflags.coo])

theorem showItems_eq (cfg : OptsConfig) (S : Settings) :
    showItems cfg S = showHead cfg S.mntflags ++ (auBool S.mntflags.shwh false "shwh".toList ++
      (showMid cfg S.mntflags ++ ((if S.wbrCreate = .tdp then [] else [auShowWbrCreate cfg S]) ++ showTail cfg S))) := by
  unfold showItems showHead showMid showTail
  simp only [List.append_assoc]
  rfl

/-- The settings that are set by the items in front of `shwh`. -/
def setHead (s : Settings) (f : MntFlags) : Settings :=
  { s with mntflags := { s.mntflags with xino := f.xino, truncXino := f.truncXino, dirperm1 := f.dirperm1 } }

def setShwh (s : Settings) (v : Bool) : Settings := { s with mntflags := { s.mntflags with shwh := v } }

def setMid (s : Settings) (f : MntFlags) : Settings :=
  { s with mntflags := { s.mntflags with plink := f.plink, udba := f.udba } }

def setTail (cfg : OptsConfig) (s S : Settings) : Settings :=
  { s with
    mntflags := { s.mntflags with
      alwaysDiropq := S.mntflags.alwaysDiropq, refrof := S.mntflags.refrof, dlgt := S.mntflags.dlgt
      warnPerm := S.mntflags.warnPerm, verbose := S.mntflags.verbose, sum := S.mntflags.sum
      coo := S.mntflags.coo }
    wbrCopyup := S.wbrCopyup
    dirwh := S.dirwh
    rdcache := jiffiesOf cfg (toInt (S.rdcache / cfg.hz : Nat)) }

variable {S : Settings}

theorem reads_xino {v : Bool} (h : s.mntflags.xino = true) :
    Reads cfg env sb (if v then [] else ["noxino".toList]) s { s with mntflags := { s.mntflags with xino := v } } := by
  refine Reads.ite (fun hon => ?_) fun hoff => ?_
  · rw [hon, ← h]
  · rw [Bool.eq_false_iff.mpr hoff]
    exact Reads.plain .noxino (by decide)

theorem reads_head (hok : SettingsOk cfg S) (hx : s.mntflags.xino = true) (ht : s.mntflags.truncXino = false)
    (hd : s.mntflags.dirperm1 = false) :
    Reads cfg env sb (showHead cfg S.mntflags) s (setHead s S.mntflags) := by
  have hxino := @reads_xino cfg env sb s S.mntflags.xino hx
  have htrunc := hxino.append (@Reads.on cfg env sb _ S.mntflags.truncXino "trunc_xino".toList
    (fun v => { s with mntflags := { s.mntflags with xino := S.mntflags.xino, truncXino := v } }) (by rw [← ht])
    fun _ => Reads.plain .truncXino (by decide))
  exact htrunc.append (@Reads.on cfg env sb _ S.mntflags.dirperm1 "dirperm1".toList
    (fun v => { s with mntflags := { s.mntflags with
      xino := S.mntflags.xino, truncXino := S.mntflags.truncXino, dirperm1 := v } })
    (by rw [← hd])
    fun hv => Reads.item ⟨.dirperm1, .unset⟩ (token_dlgt (hok.dirperm1 hv)).2 (by decide) rfl fun v => rfl)

theorem reads_shwh (hok : SettingsOk cfg S) (h : s.mntflags.shwh = false)
    (hro : S.mntflags.shwh = true → sb.rdonly = true) :
    Reads cfg env sb (auBool S.mntflags.shwh false "shwh".toList) s (setShwh s S.mntflags.shwh) := by
  refine Reads.on ?_ fun hv => ?_
  · unfold setShwh
    rw [← h]
  · refine Reads.item ⟨.shwh, .unset⟩ (token_shwh (hok.shwh hv)) (by decide) rfl fun v => ?_
    show (if sb.rdonly = true then (Parsed.entry ⟨.shwh, .unset⟩, v) else (.failed (-EINVAL), v)) = _
    rw [if_pos (hro hv)]

theorem reads_mid (hok : SettingsOk cfg S) (hp : s.mntflags.plink = true) (hu : s.mntflags.udba = .reval) :
    Reads cfg env sb (showMid cfg S.mntflags) s (setMid s S.mntflags) := by
  have hplink := @Reads.off cfg env sb s S.mntflags.plink "plink".toList
    (fun v => { s with mntflags := { s.mntflags with plink := v } }) (by rw [← hp])
    fun _ => Reads.plain .noplink (by decide)
  exact hplink.append (reads_udba S.mntflags.udba hu hok.inotify)

theorem reads_tail (hok : SettingsOk cfg S) (hrw : S.mntflags.coo ≠ .none → sb.rdonly = false)
    (hcopyup : s.wbrCopyup = .tdp) (hdiropq : s.mntflags.alwaysDiropq = (mntflagsDef cfg).alwaysDiropq)
    (hrefrof : s.mntflags.refrof = false) (hdlgt : s.mntflags.dlgt = false) (hwarn : s.mntflags.warnPerm = true)
    (hverbose : s.mntflags.verbose = false) (hsum : s.mntflags.sum = false) (hdirwh : s.dirwh = dirwhDef.toNat)
    (hrdcache : s.rdcache = jiffiesOf cfg rdcacheDef) (hcoo : s.mntflags.coo = .none) :
    Reads cfg env sb (showTail cfg S) s (setTail cfg s S) := by
  have h₁ := (@reads_copyup cfg env sb s S.wbrCopyup hcopyup).append
    (@reads_diropq cfg env sb _ S.mntflags.alwaysDiropq hdiropq)
  have h₂ := h₁.append (@Reads.on cfg env sb _ S.mntflags.refrof "refrof".toList
    (fun v => { s with
      wbrCopyup := S.wbrCopyup
      mntflags := { s.mntflags with alwaysDiropq := S.mntflags.alwaysDiropq, refrof := v } })
    (by rw [← hrefrof]) fun _ => Reads.plain .refrof (by decide))
  have h₃ := h₂.append (@Reads.on cfg env sb _ S.mntflags.dlgt "dlgt".toList
    (fun v => { s with
      wbrCopyup := S.wbrCopyup
      mntflags := { s.mntflags with
        alwaysDiropq := S.mntflags.alwaysDiropq, refrof := S.mntflags.refrof, dlgt := v } })
    (by rw [← hdlgt])
    fun hv => Reads.item ⟨.dlgt, .unset⟩ (token_dlgt (hok.dlgt hv)).1 (by decide) rfl fun v => rfl)
  have h₄ := h₃.append (@Reads.off cfg env sb _ S.mntflags.warnPerm "warn_perm".toList
    (fun v => { s with
      wbrCopyup := S.wbrCopyup
      mntflags := { s.mntflags with
        alwaysDiropq := S.mntflags.alwaysDiropq, refrof := S.mntflags.refrof, dlgt := S.mntflags.dlgt
        warnPerm := v } })
    (by rw [← hwarn]) fun _ => Reads.plain .nowarnPerm (by decide))
  have h₅ := h₄.append (@Reads.on cfg env sb _ S.mntflags.verbose "verbose".toList
    (fun v => { s with
      wbrCopyup := S.wbrCopyup
      mntflags := { s.mntflags with
        alwaysDiropq := S.mntflags.alwaysDiropq, refrof := S.mntflags.refrof, dlgt := S.mntflags.dlgt
        warnPerm := S.mntflags.warnPerm, verbose := v } })
    (by rw [← hverbose]) fun _ => Reads.plain .verbose (by decide))
  have h₆ := h₅.append (@Reads.on cfg env sb _ S.mntflags.sum "sum".toList
    (fun v => { s with
      wbrCopyup := S.wbrCopyup
      mntflags := { s.mntflags with
        alwaysDiropq := S.mntflags.alwaysDiropq, refrof := S.mntflags.refrof, dlgt := S.mntflags.dlgt
        warnPerm := S.mntflags.warnPerm, verbose := S.mntflags.verbose, sum := v } })
    (by rw [← hsum]) fun _ => Reads.plain .sum (by decide))
  have h₇ := h₆.append (@reads_dirwh cfg env sb _ S.dirwh hok.dirwh hdirwh)
  have h₈ := h₇.append (@reads_rdcache cfg env sb _ (toInt (S.rdcache / cfg.hz : Nat)) (toInt_toInt _) hrdcache)
  refine (h₈.append (@reads_coo cfg env sb _ S.mntflags.coo hcoo hrw)).congr ?_ ?_
  · unfold showTail
    rfl
  · unfold setTail
    dsimp only

/-- What a create policy leaves alone. -/
theorem create_keeps (create : OptWbrCreate) (s : Settings) :
    (auOptWbrCreate cfg create s).mntflags = s.mntflags ∧ (auOptWbrCreate cfg create s).wbrCopyup = s.wbrCopyup ∧
      (auOptWbrCreate cfg create s).dirwh = s.dirwh ∧ (auOptWbrCreate cfg create s).rdcache = s.rdcache := by
  unfold auOptWbrCreate
  cases create.wbrCreate <;> exact ⟨rfl, rfl, rfl, rfl⟩

/-- The settings that are read. -/
def readBack (cfg : OptsConfig) (s S : Settings) : Settings :=
  setTail cfg (auOptWbrCreate cfg (shownCreate cfg S) (setMid (setShwh (setHead s S.mntflags) S.mntflags.shwh)
    S.mntflags)) S

/-- The items up to the create policy. -/
theorem reads_front (hok : SettingsOk cfg S) (hro : S.mntflags.shwh = true → sb.rdonly = true)
    (expire watermark : Nat) :
    Reads cfg env sb (showHead cfg S.mntflags ++ (auBool S.mntflags.shwh false "shwh".toList ++
      showMid cfg S.mntflags)) (auSiAlloc cfg expire watermark)
      (setMid (setShwh (setHead (auSiAlloc cfg expire watermark) S.mntflags) S.mntflags.shwh) S.mntflags) :=
  (reads_head hok rfl rfl rfl).append ((reads_shwh hok rfl hro).append (reads_mid hok rfl rfl))

/-- **Every item is read.** -/
theorem reads_show (hok : SettingsOk cfg S) (hro : S.mntflags.shwh = true → sb.rdonly = true)
    (hsec : S.wbrCreate.showsSec = true → 0 ≤ shownSec cfg S) (hrw : S.mntflags.coo ≠ .none → sb.rdonly = false)
    (expire watermark : Nat) :
    Reads cfg env sb (showItems cfg S) (auSiAlloc cfg expire watermark)
      (readBack cfg (auSiAlloc cfg expire watermark) S) := by
  have hfront := @reads_front cfg env sb S hok hro expire watermark
  have hcreate := hfront.append (reads_create rfl hok.watermark hsec)
  obtain ⟨hflags, hcopyup, hdirwh, hrdcache⟩ := @create_keeps cfg (shownCreate cfg S)
    (setMid (setShwh (setHead (auSiAlloc cfg expire watermark) S.mntflags) S.mntflags.shwh) S.mntflags)
  have hjiffies : (setMid (setShwh (setHead (auSiAlloc cfg expire watermark) S.mntflags) S.mntflags.shwh)
      S.mntflags).rdcache = jiffiesOf cfg rdcacheDef := by
    unfold setMid setShwh setHead auSiAlloc
    dsimp only
  have htail := hcreate.append (reads_tail hok hrw hcopyup (by rw [hflags]; rfl) (by rw [hflags]; rfl)
    (by rw [hflags]; rfl) (by rw [hflags]; rfl) (by rw [hflags]; rfl) (by rw [hflags]; rfl) hdirwh
    (hrdcache.trans hjiffies) (by rw [hflags]; rfl))
  refine htail.congr ?_ rfl
  rw [showItems_eq]
  simp only [List.append_assoc]

/-! ## The string and its items -/

/-- An item can be told apart from its neighbours. -/
def IsItem (item : List Char) : Prop := ',' ∉ item ∧ item ≠ []

theorem IsItem.append {word item : List Char} (hword : ',' ∉ word) (hne : word ≠ []) (h : ',' ∉ item) :
    IsItem (word ++ item) :=
  ⟨fun hmem => (List.mem_append.mp hmem).elim hword h, fun hnil => hne (List.append_eq_nil_iff.mp hnil).1⟩

theorem isItem_bool {v d : Bool} {str : List Char} (h : IsItem str) : ∀ t ∈ auBool v d str, IsItem t := by
  intro t ht
  unfold auBool at ht
  split at ht
  · cases ht
  · rw [List.mem_singleton] at ht
    rw [ht]
    split
    · exact h
    · exact IsItem.append (by decide) (by decide) h.1

theorem isItem_ite {p : Prop} [Decidable p] {item : List Char} (h : IsItem item) :
    ∀ t ∈ (if p then [] else [item]), IsItem t := by
  intro t ht
  split at ht
  · cases ht
  · rw [List.mem_singleton.mp ht]
    exact h

theorem comma_toDigits (n : Nat) : ',' ∉ Nat.toDigits 10 n := by
  intro h
  have := Nat.isDigit_of_mem_toDigits (by decide) (by decide) h
  revert this
  decide

theorem comma_showInt (z : Int) : ',' ∉ showInt z := by
  cases z with
  | ofNat n => exact comma_toDigits n
  | negSucc n =>
    intro h
    rcases List.mem_cons.mp h with h | h
    · exact absurd h (by decide)
    · exact comma_toDigits _ h

theorem comma_create (S : Settings) : IsItem (auShowWbrCreate cfg S) := by
  unfold auShowWbrCreate
  refine IsItem.append (by decide) (by decide) ?_
  have happend : ∀ {a b : List Char}, ',' ∉ a → ',' ∉ b → ',' ∉ a ++ b := fun ha hb hmem =>
    (List.mem_append.mp hmem).elim ha hb
  cases S.wbrCreate with
  | tdp => exact (by decide : ',' ∉ "tdp".toList)
  | rr => exact (by decide : ',' ∉ "rr".toList)
  | mfs => exact (by decide : ',' ∉ "mfs".toList)
  | pmfs => exact (by decide : ',' ∉ "pmfs".toList)
  | mfsv => exact happend (by decide) (comma_toDigits _)
  | pmfsv => exact happend (by decide) (comma_toDigits _)
  | mfsrr => exact happend (by decide) (comma_toDigits _)
  | mfsrrv =>
    refine happend (happend (by decide) (comma_toDigits _)) fun hmem => ?_
    rcases List.mem_cons.mp hmem with h | h
    · exact absurd h (by decide)
    · exact comma_toDigits _ h

theorem showItems_isItem (cfg : OptsConfig) (S : Settings) : ∀ t ∈ showItems cfg S, IsItem t := by
  unfold showItems
  simp only [List.forall_mem_append]
  refine ⟨⟨⟨⟨⟨⟨⟨⟨⟨⟨⟨⟨⟨⟨⟨⟨?_, ?_⟩, ?_⟩, ?_⟩, ?_⟩, ?_⟩, ?_⟩, ?_⟩, ?_⟩, ?_⟩, ?_⟩, ?_⟩, ?_⟩, ?_⟩, ?_⟩, ?_⟩, ?_⟩
  · exact isItem_ite ⟨by decide, by decide⟩
  · exact isItem_bool ⟨by decide, by decide⟩
  · exact isItem_bool ⟨by decide, by decide⟩
  · exact isItem_bool ⟨by decide, by decide⟩
  · exact isItem_bool ⟨by decide, by decide⟩
  · refine isItem_ite (IsItem.append (by decide) (by decide) ?_)
    cases S.mntflags.udba <;> decide
  · exact isItem_ite (comma_create S)
  · refine isItem_ite (IsItem.append (by decide) (by decide) ?_)
    cases S.wbrCopyup <;> decide
  · refine isItem_ite (IsItem.append (by decide) (by decide) ?_)
    cases S.mntflags.alwaysDiropq <;> decide
  · exact isItem_bool ⟨by decide, by decide⟩
  · exact isItem_bool ⟨by decide, by decide⟩
  · exact isItem_bool ⟨by decide, by decide⟩
  · exact isItem_bool ⟨by decide, by decide⟩
  · exact isItem_bool ⟨by decide, by decide⟩
  · exact isItem_ite (IsItem.append (by decide) (by decide) (comma_showInt _))
  · exact isItem_ite (IsItem.append (by decide) (by decide) (comma_showInt _))
  · refine isItem_ite (IsItem.append (by decide) (by decide) ?_)
    cases S.mntflags.coo <;> decide

/-- **The string is cut into the items again.** -/
theorem strsep_show (cfg : OptsConfig) (S : Settings) : strsep ',' (showOptions cfg S) = showItems cfg S :=
  strsep_intercalate (fun t ht => (showItems_isItem cfg S t ht).1) fun t ht => (showItems_isItem cfg S t ht).2

theorem length_ite_le {p : Prop} [Decidable p] {item : List Char} : (if p then [] else [item]).length ≤ 1 := by
  split
  · exact Nat.zero_le 1
  · exact Nat.le_refl 1

/-- There are 17 of them at most. -/
theorem showItems_length (cfg : OptsConfig) (S : Settings) : (showItems cfg S).length ≤ 17 := by
  unfold showItems auBool
  simp only [List.length_append]
  have h := fun (p : Prop) [Decidable p] (item : List Char) => @length_ite_le p _ item
  refine Nat.le_trans (Nat.add_le_add (Nat.add_le_add (Nat.add_le_add (Nat.add_le_add (Nat.add_le_add (Nat.add_le_add
    (Nat.add_le_add (Nat.add_le_add (Nat.add_le_add (Nat.add_le_add (Nat.add_le_add (Nat.add_le_add (Nat.add_le_add
    (Nat.add_le_add (Nat.add_le_add (Nat.add_le_add (h _ _) (h _ _)) (h _ _)) (h _ _)) (h _ _)) (h _ _)) (h _ _))
    (h _ _)) (h _ _)) (h _ _)) (h _ _)) (h _ _)) (h _ _)) (h _ _)) (h _ _)) (h _ _)) (h _ _)) (by decide)

/-! ## When it is the same -/

/-- **The settings are the same**, the watermark and the expiry where the policy uses them. -/
structure SameSettings (s t : Settings) : Prop where
  mntflags : t.mntflags = s.mntflags
  wbrCreate : t.wbrCreate = s.wbrCreate
  wbrCopyup : t.wbrCopyup = s.wbrCopyup
  watermark : s.wbrCreate.usesWatermark = true → t.mfsrrWatermark = s.mfsrrWatermark
  expire : s.wbrCreate.usesExpire = true → t.mfsExpire = s.mfsExpire
  dirwh : t.dirwh = s.dirwh
  rdcache : t.rdcache = s.rdcache

/-- **What is claimed**: the string that is printed is accepted, and gives the same settings. -/
def RoundTrips (cfg : OptsConfig) (env : OptsEnv) (sb : OptsSb) (maxOpt : Nat) (page : Nat → AuOpt)
    (expire watermark : Nat) (s : Settings) : Prop :=
  (auOptsParse cfg env sb true maxOpt page (showOptions cfg s)).err = 0 ∧
    SameSettings s (applyOpts cfg sb.rdonly
      (auOpts (auOptsParse cfg env sb true maxOpt page (showOptions cfg s)).page.opt maxOpt 0)
      (auSiAlloc cfg expire watermark))

/-- **The condition**: `shwh` is on for reading only, HZ divides the jiffies, and the seconds are a number without a
    sign. -/
structure Printable (cfg : OptsConfig) (rdonly : Bool) (s : Settings) : Prop where
  shwh : s.mntflags.shwh = true → rdonly = true
  rdcache : cfg.hz ∣ s.rdcache
  expire : s.wbrCreate.showsSec = true → cfg.hz ∣ s.mfsExpire ∧ 0 ≤ shownSec cfg s

/-- What a create policy sets. -/
theorem create_sets (create : OptWbrCreate) (s : Settings) :
    (auOptWbrCreate cfg create s).wbrCreate = create.wbrCreate ∧
      (create.wbrCreate.usesWatermark = true →
        (auOptWbrCreate cfg create s).mfsrrWatermark = create.mfsrrWatermark.getD s.mfsrrWatermark) ∧
      (create.wbrCreate.usesExpire = true →
        (auOptWbrCreate cfg create s).mfsExpire = jiffiesOf cfg (create.mfsSecond.getD 0)) := by
  obtain ⟨policy, sec, watermark⟩ := create
  generalize hnew : jiffiesOf cfg ((OptWbrCreate.mfsSecond ⟨policy, sec, watermark⟩).getD 0) = new
  unfold auOptWbrCreate
  rw [hnew]
  cases policy with
  | tdp => exact ⟨rfl, (fun h => by cases h), (fun h => by cases h)⟩
  | rr => exact ⟨rfl, (fun h => by cases h), (fun h => by cases h)⟩
  | mfs => exact ⟨rfl, (fun h => by cases h), fun _ => rfl⟩
  | pmfs => exact ⟨rfl, (fun h => by cases h), fun _ => rfl⟩
  | mfsv => exact ⟨rfl, (fun h => by cases h), fun _ => rfl⟩
  | pmfsv => exact ⟨rfl, (fun h => by cases h), fun _ => rfl⟩
  | mfsrr => exact ⟨rfl, fun _ => rfl, fun _ => rfl⟩
  | mfsrrv => exact ⟨rfl, fun _ => rfl, fun _ => rfl⟩

/-- The values that are printed. -/
theorem shownCreate_eq (S : Settings) :
    (shownCreate cfg S).wbrCreate = S.wbrCreate ∧
      (S.wbrCreate.usesWatermark = true → (shownCreate cfg S).mfsrrWatermark = some S.mfsrrWatermark) ∧
      (S.wbrCreate.showsSec = true → (shownCreate cfg S).mfsSecond = some (shownSec cfg S)) ∧
      (S.wbrCreate.usesExpire = true → S.wbrCreate.showsSec = false →
        (shownCreate cfg S).mfsSecond = some mfsSecondDef) := by
  unfold shownCreate
  cases S.wbrCreate <;>
    simp only [WbrCreate.usesWatermark, WbrCreate.showsSec, WbrCreate.usesExpire, reduceCtorEq, true_imp_iff,
      false_imp_iff, and_self]

theorem showsSec_uses {policy : WbrCreate} : policy.showsSec = true → policy.usesExpire = true := by
  cases policy <;> decide

theorem readBack_flags (hok : SettingsOk cfg S) (e w : Nat) :
    (readBack cfg (auSiAlloc cfg e w) S).mntflags = S.mntflags := by
  have hkeeps := (@create_keeps cfg (shownCreate cfg S)
    (setMid (setShwh (setHead (auSiAlloc cfg e w) S.mntflags) S.mntflags.shwh) S.mntflags)).1
  have hsum := hok.sumW
  unfold readBack setTail
  dsimp only
  rw [hkeeps]
  unfold setMid setShwh setHead auSiAlloc mntflagsDef
  dsimp only
  rw [← hsum]

/-- What is read is the same but for the numbers of seconds. -/
theorem readBack_same (hok : SettingsOk cfg S) (e w : Nat) :
    SameSettings S (readBack cfg (auSiAlloc cfg e w) S) ↔
      cfg.hz ∣ S.rdcache ∧ (S.wbrCreate.showsSec = true → cfg.hz ∣ S.mfsExpire) := by
  obtain ⟨hshown, hwm, hsec, hdef⟩ := @shownCreate_eq cfg S
  obtain ⟨hpolicy, hwatermark, hexp⟩ := @create_sets cfg (shownCreate cfg S)
    (setMid (setShwh (setHead (auSiAlloc cfg e w) S.mntflags) S.mntflags.shwh) S.mntflags)
  rw [hshown] at hpolicy hwatermark hexp
  have hflags := readBack_flags hok e w
  have hnumbers : (readBack cfg (auSiAlloc cfg e w) S).mfsExpire = (auOptWbrCreate cfg (shownCreate cfg S)
      (setMid (setShwh (setHead (auSiAlloc cfg e w) S.mntflags) S.mntflags.shwh) S.mntflags)).mfsExpire ∧
      (readBack cfg (auSiAlloc cfg e w) S).rdcache = jiffiesOf cfg (toInt (S.rdcache / cfg.hz : Nat)) := by
    unfold readBack setTail
    generalize jiffiesOf cfg = jiffies
    exact ⟨rfl, rfl⟩
  have hagain : S.wbrCreate.showsSec = true →
      (jiffiesOf cfg (shownSec cfg S) = S.mfsExpire ↔ cfg.hz ∣ S.mfsExpire) := fun hs =>
    jiffies_again (hok.expire (showsSec_uses hs))
  constructor
  · intro h
    refine ⟨(jiffies_again hok.rdcache).mp (hnumbers.2.symm.trans h.rdcache), fun hs => (hagain hs).mp ?_⟩
    have hsame := h.expire (showsSec_uses hs)
    rw [hnumbers.1, hexp (showsSec_uses hs), hsec hs, Option.getD_some] at hsame
    exact hsame
  · rintro ⟨hrdcache, hexpire⟩
    refine ⟨hflags, hpolicy, rfl, fun huses => ?_, fun huses => ?_, rfl,
      hnumbers.2.trans ((jiffies_again hok.rdcache).mpr hrdcache)⟩
    · refine (hwatermark huses).trans ?_
      rw [hwm huses]
      rfl
    · rw [hnumbers.1, hexp huses]
      cases hs : S.wbrCreate.showsSec with
      | true =>
        rw [hsec hs, Option.getD_some]
        exact (hagain hs).mpr (hexpire hs)
      | false =>
        rw [hdef huses hs, Option.getD_some]
        exact (hok.second huses hs).symm

/-- **When the settings are read back.** -/
theorem roundTrips_iff {maxOpt : Nat} (hmax : 17 < maxOpt) (page : Nat → AuOpt) (e w : Nat)
    (hok : SettingsOk cfg S) (hcoo : sb.rdonly = true → S.mntflags.coo = .none) :
    RoundTrips cfg env sb maxOpt page e w S ↔ Printable cfg sb.rdonly S := by
  have hpos : 0 < maxOpt := by omega
  by_cases hshwh : S.mntflags.shwh = true → sb.rdonly = true
  · by_cases hsec : S.wbrCreate.showsSec = true → 0 ≤ shownSec cfg S
    · -- every item is read
      have hrw : S.mntflags.coo ≠ .none → sb.rdonly = false := fun hne =>
        Bool.eq_false_iff.mpr fun hro => hne (hcoo hro)
      obtain ⟨es, hread, hopt, hlen, hfold⟩ := @reads_show cfg env sb S hok hshwh hsec hrw e w
      have hentries : entriesOf cfg env sb (strsep ',' (showOptions cfg S)) ⟨0, 0⟩ = (es, 0) := by
        have := hread ⟨0, 0⟩ []
        rw [List.append_nil, entriesOf, List.append_nil] at this
        rw [strsep_show, this]
      have hroom : es.length < maxOpt := by
        have := showItems_length cfg S
        omega
      have hok' : (auOptsParse cfg env sb true maxOpt page (showOptions cfg S)).err = 0 :=
        optsParse_roomy hpos (by rw [hentries]) (by rw [hentries]; exact hroom)
      have hseen := (optsParse_accepted hpos hok').2
      rw [hentries, List.takeWhile_eq_self_iff.mpr hopt] at hseen
      have happly : applyOpts cfg sb.rdonly es (auSiAlloc cfg e w) = verifyOptsCoo sb.rdonly
          (readBack cfg (auSiAlloc cfg e w) S) := by
        unfold applyOpts
        rw [hfold]
      have hverify : SameSettings S (verifyOptsCoo sb.rdonly (readBack cfg (auSiAlloc cfg e w) S)) ↔
          SameSettings S (readBack cfg (auSiAlloc cfg e w) S) := by
        have hback := (@readBack_flags cfg S hok e w)
        unfold verifyOptsCoo
        split
        · rename_i hro
          have hsame : ({ readBack cfg (auSiAlloc cfg e w) S with
              mntflags := { (readBack cfg (auSiAlloc cfg e w) S).mntflags with coo := .none } } : Settings) =
              readBack cfg (auSiAlloc cfg e w) S := by
            rw [hback, ← hcoo hro, ← hback]
          rw [hsame]
        · exact Iff.rfl
      unfold RoundTrips
      rw [hseen, happly, hverify, readBack_same hok]
      constructor
      · rintro ⟨-, hrdcache, hexpire⟩
        exact ⟨hshwh, hrdcache, fun hs => ⟨hexpire hs, hsec hs⟩⟩
      · intro h
        exact ⟨hok', h.rdcache, fun hs => (h.expire hs).1⟩
    · -- the seconds are refused
      refine ⟨fun h => ?_, fun h => absurd (fun hs => (h.expire hs).2) hsec⟩
      exfalso
      obtain ⟨hs, hneg⟩ := Classical.not_imp.mp hsec
      have htdp : S.wbrCreate ≠ .tdp := fun htdp => by
        rw [htdp] at hs
        cases hs
      obtain ⟨es, hread, -, -, -⟩ := @reads_front cfg env sb S hok hshwh e w
      have hfails := (optsParse_accepted hpos h.1).1
      rw [strsep_show, showItems_eq, ← List.append_assoc, ← List.append_assoc, List.append_assoc (showHead _ _), hread,
        if_neg htdp] at hfails
      exact create_fails hok.watermark hs (by omega) _ _ hfails
  · -- `shwh` is refused
    refine ⟨fun h => ?_, fun h => absurd h.shwh hshwh⟩
    exfalso
    obtain ⟨hon, hrw⟩ := Classical.not_imp.mp hshwh
    obtain ⟨es, hread, -, -, -⟩ := @reads_head cfg env sb (auSiAlloc cfg e w) S hok rfl rfl rfl
    have hfails := (optsParse_accepted hpos h.1).1
    rw [strsep_show, showItems_eq, hread, hon] at hfails
    exact shwh_fails (hok.shwh hon) (Bool.eq_false_iff.mpr hrw) _ _ hfails

/-! ## Runs -/

/-- A create policy with what belongs to it. -/
structure CreateOk (create : OptWbrCreate) : Prop where
  second : create.wbrCreate.usesExpire = true → create.wbrCreate.showsSec = false →
    create.mfsSecond = some mfsSecondDef
  watermark : create.wbrCreate.usesWatermark = true → ∃ n < 2 ^ 64, create.mfsrrWatermark = some n

/-- **An entry is one that the module is configured for.** -/
structure EntryOk (cfg : OptsConfig) (opt : AuOpt) : Prop where
  dlgt : opt.type = .dlgt ∨ opt.type = .dirperm1 → cfg.dlgt = true
  shwh : opt.type = .shwh → cfg.shwh = true
  inotify : opt.arg = .udba .inotify → cfg.hinotify = true
  create : ∀ create, opt.arg = .create create → CreateOk create

theorem isJiffies_of (cfg : OptsConfig) (sec : Int) : IsJiffies cfg (jiffiesOf cfg sec) := by
  unfold jiffiesOf
  exact ⟨sec * cfg.hz, rfl⟩

theorem SettingsOk.create {create : OptWbrCreate} (h : SettingsOk cfg s) (hcreate : CreateOk create) :
    SettingsOk cfg (auOptWbrCreate cfg create s) := by
  obtain ⟨hflags, -, hdirwh, hrdcache⟩ := @create_keeps cfg create s
  obtain ⟨hpolicy, hwatermark, hexpire⟩ := @create_sets cfg create s
  refine ⟨?_, ?_, ?_, ?_, ?_, fun huses => ?_, fun huses => ?_, fun huses hshows => ?_, ?_, ?_⟩
  · rw [hflags]
    exact h.shwh
  · rw [hflags]
    exact h.dlgt
  · rw [hflags]
    exact h.dirperm1
  · rw [hflags]
    exact h.inotify
  · rw [hflags]
    exact h.sumW
  · rw [hpolicy] at huses
    obtain ⟨n, hn, hsome⟩ := hcreate.watermark huses
    rw [hwatermark huses, hsome]
    exact hn
  · rw [hpolicy] at huses
    rw [hexpire huses]
    exact isJiffies_of cfg _
  · rw [hpolicy] at huses hshows
    rw [hexpire huses, hcreate.second huses hshows, Option.getD_some]
  · rw [hdirwh]
    exact h.dirwh
  · rw [hrdcache]
    exact h.rdcache

/-- What an option sets is such as options can set. -/
theorem SettingsOk.simple {opt : AuOpt} (h : SettingsOk cfg s) (hopt : EntryOk cfg opt) :
    SettingsOk cfg (auOptSimple cfg s opt) := by
  obtain ⟨type, arg⟩ := opt
  unfold auOptSimple
  dsimp only
  have hsame := h
  obtain ⟨hshwh, hdlgt, hdirperm1, hinotify, hsumW, hwatermark, hexpire, hsecond, hdirwh, hrdcache⟩ := h
  have hoff : ∀ {p : Prop}, false = true → p := fun h => by cases h
  split
  · -- `udba`
    refine ⟨hshwh, hdlgt, hdirperm1, fun hlevel => hopt.inotify ?_, hsumW, hwatermark, hexpire, hsecond, hdirwh,
      hrdcache⟩
    exact congrArg OptArg.udba hlevel
  · exact ⟨hshwh, hdlgt, hdirperm1, hinotify, hsumW, hwatermark, hexpire, hsecond, hdirwh, hrdcache⟩
  · exact ⟨hshwh, hdlgt, hdirperm1, hinotify, hsumW, hwatermark, hexpire, hsecond, hdirwh, hrdcache⟩
  · exact ⟨hshwh, hdlgt, hdirperm1, hinotify, hsumW, hwatermark, hexpire, hsecond, hdirwh, hrdcache⟩
  · exact ⟨hshwh, hdlgt, hdirperm1, hinotify, hsumW, hwatermark, hexpire, hsecond, hdirwh, hrdcache⟩
  · exact ⟨hshwh, fun _ => hopt.dlgt (Or.inl rfl), hdirperm1, hinotify, hsumW, hwatermark, hexpire, hsecond, hdirwh,
      hrdcache⟩
  · exact ⟨hshwh, hoff, hdirperm1, hinotify, hsumW, hwatermark, hexpire, hsecond, hdirwh, hrdcache⟩
  · exact ⟨hshwh, hdlgt, hdirperm1, hinotify, hsumW, hwatermark, hexpire, hsecond, hdirwh, hrdcache⟩
  · exact ⟨hshwh, hdlgt, hdirperm1, hinotify, hsumW, hwatermark, hexpire, hsecond, hdirwh, hrdcache⟩
  · exact ⟨hshwh, hdlgt, hdirperm1, hinotify, hsumW, hwatermark, hexpire, hsecond, hdirwh, hrdcache⟩
  · exact ⟨hshwh, hdlgt, hdirperm1, hinotify, hsumW, hwatermark, hexpire, hsecond, hdirwh, hrdcache⟩
  · exact ⟨hshwh, hdlgt, hdirperm1, hinotify, hsumW, hwatermark, hexpire, hsecond, hdirwh, hrdcache⟩
  · exact ⟨hshwh, hdlgt, hdirperm1, hinotify, hsumW, hwatermark, hexpire, hsecond, hdirwh, hrdcache⟩
  · exact ⟨hshwh, hdlgt, hdirperm1, hinotify, hsumW, hwatermark, hexpire, hsecond, hdirwh, hrdcache⟩
  · exact ⟨hshwh, hdlgt, hdirperm1, hinotify, rfl, hwatermark, hexpire, hsecond, hdirwh, hrdcache⟩
  · exact ⟨hshwh, hdlgt, hdirperm1, hinotify, rfl, hwatermark, hexpire, hsecond, hdirwh, hrdcache⟩
  · -- `create`
    exact hsame.create (hopt.create _ rfl)
  · exact ⟨hshwh, hdlgt, hdirperm1, hinotify, hsumW, hwatermark, hexpire, hsecond, hdirwh, hrdcache⟩
  · exact ⟨hshwh, hdlgt, hdirperm1, hinotify, hsumW, hwatermark, hexpire, hsecond, hdirwh, hrdcache⟩
  · -- `dirwh`
    refine ⟨hshwh, hdlgt, hdirperm1, hinotify, hsumW, hwatermark, hexpire, hsecond, ?_, hrdcache⟩
    dsimp only
    omega
  · -- `rdcache`
    exact ⟨hshwh, hdlgt, hdirperm1, hinotify, hsumW, hwatermark, hexpire, hsecond, hdirwh, isJiffies_of cfg _⟩
  · exact ⟨hshwh, hdlgt, hdirperm1, hinotify, hsumW, hwatermark, hexpire, hsecond, hdirwh, hrdcache⟩
  · exact ⟨hshwh, hdlgt, hdirperm1, hinotify, hsumW, hwatermark, hexpire, hsecond, hdirwh, hrdcache⟩
  · exact ⟨hshwh, hdlgt, fun _ => hopt.dlgt (Or.inr rfl), hinotify, hsumW, hwatermark, hexpire, hsecond, hdirwh,
      hrdcache⟩
  · exact ⟨hshwh, hdlgt, hoff, hinotify, hsumW, hwatermark, hexpire, hsecond, hdirwh, hrdcache⟩
  · exact ⟨fun _ => hopt.shwh rfl, hdlgt, hdirperm1, hinotify, hsumW, hwatermark, hexpire, hsecond, hdirwh, hrdcache⟩
  · exact ⟨hoff, hdlgt, hdirperm1, hinotify, hsumW, hwatermark, hexpire, hsecond, hdirwh, hrdcache⟩
  · exact ⟨hshwh, hdlgt, hdirperm1, hinotify, hsumW, hwatermark, hexpire, hsecond, hdirwh, hrdcache⟩
  · exact ⟨hshwh, hdlgt, hdirperm1, hinotify, hsumW, hwatermark, hexpire, hsecond, hdirwh, hrdcache⟩
  · exact hsame

theorem options_dlgt (h : Opt.dlgt ∈ (options cfg).map Prod.fst ∨ Opt.dirperm1 ∈ (options cfg).map Prod.fst) :
    cfg.dlgt = true := by
  revert h
  unfold options
  cases cfg.debug <;> cases cfg.dlgt <;> cases cfg.shwh <;> decide +kernel

theorem options_shwh (h : Opt.shwh ∈ (options cfg).map Prod.fst) : cfg.shwh = true := by
  revert h
  unfold options
  cases cfg.debug <;> cases cfg.dlgt <;> cases cfg.shwh <;> decide +kernel

theorem udbaVal_inotify {str : List Char} (h : udbaVal cfg str = some .inotify) : cfg.hinotify = true := by
  unfold udbaVal at h
  rcases matchToken_mem (udbalevel cfg) none str with hnone | hmem
  · rw [h] at hnone
    cases hnone
  · rw [h] at hmem
    revert hmem
    unfold udbalevel
    cases cfg.hinotify <;> decide +kernel

theorem auMatchUll_lt {arg : List Char} {n : Nat} (h : auMatchUll arg = some n) : n < 2 ^ 64 := by
  unfold auMatchUll at h
  split at h
  · cases h
  dsimp only at h
  split at h
  · cases h
  · rw [← Option.some.inj h]
    exact Nat.mod_lt _ (by decide)

/-- **A create policy** comes with what belongs to it. -/
theorem wbrCreateVal_ok {A : Arch} {str : List Char} {create : OptWbrCreate} (h : wbrCreateVal A str = some create) :
    CreateOk create := by
  unfold wbrCreateVal at h
  split at h
  · cases h
  · -- `mfsrr` with seconds
    obtain ⟨wmark, hwmark, h⟩ := Option.bind_eq_some_iff.mp h
    obtain ⟨sec, -, rfl⟩ := Option.map_eq_some_iff.mp h
    exact ⟨(fun _ hs => by cases hs), fun _ => ⟨wmark, auMatchUll_lt hwmark, rfl⟩⟩
  · obtain ⟨wmark, hwmark, rfl⟩ := Option.map_eq_some_iff.mp h
    exact ⟨fun _ _ => rfl, fun _ => ⟨wmark, auMatchUll_lt hwmark, rfl⟩⟩
  · obtain rfl := Option.some.inj h
    exact ⟨fun _ _ => rfl, (fun hw => by cases hw)⟩
  · obtain rfl := Option.some.inj h
    exact ⟨fun _ _ => rfl, (fun hw => by cases hw)⟩
  · obtain ⟨sec, -, rfl⟩ := Option.map_eq_some_iff.mp h
    exact ⟨(fun _ hs => by cases hs), (fun hw => by cases hw)⟩
  · obtain ⟨sec, -, rfl⟩ := Option.map_eq_some_iff.mp h
    exact ⟨(fun _ hs => by cases hs), (fun hw => by cases hw)⟩
  · -- the others have no number
    rename_i policy args hrrv hrr hmfs hpmfs hmfsv hpmfsv heq
    obtain rfl := Option.some.inj h
    cases policy with
    | tdp => exact ⟨(fun hu => by cases hu), (fun hw => by cases hw)⟩
    | rr => exact ⟨(fun hu => by cases hu), (fun hw => by cases hw)⟩
    | mfs => exact (hmfs rfl).elim
    | mfsv => exact (hmfsv rfl).elim
    | mfsrr => exact (hrr rfl).elim
    | mfsrrv => exact (hrrv rfl).elim
    | pmfs => exact (hpmfs rfl).elim
    | pmfsv => exact (hpmfsv rfl).elim

/-- Where the values of an entry come from. -/
theorem parseOne_arg {token : Opt} {args : List (List Char)} {v v' : OptsVars} {opt : AuOpt}
    (h : parseOne cfg env sb token args v = (.entry opt, v')) :
    (∀ level, opt.arg = .udba level → udbaVal cfg (args.getD 0 []) = some level) ∧
      ∀ create, opt.arg = .create create → wbrCreateVal cfg.arch (args.getD 0 []) = some create := by
  unfold parseOne at h
  cases token with
  | add =>
    dsimp only at h
    split at h
    · cases h
    split at h
    · cases h
    · rename_i hadd
      obtain ⟨perm, path, dentry, rfl⟩ := optAdd_eq hadd
      cases h
      exact ⟨(fun _ hc => by cases hc), (fun _ hc => by cases hc)⟩
  | append =>
    dsimp only at h
    split at h
    · cases h
    · rename_i hadd
      obtain ⟨perm, path, dentry, rfl⟩ := optAdd_eq hadd
      cases h
      exact ⟨(fun _ hc => by cases hc), (fun _ hc => by cases hc)⟩
  | prepend =>
    dsimp only at h
    split at h
    · cases h
    · rename_i hadd
      obtain ⟨perm, path, dentry, rfl⟩ := optAdd_eq hadd
      cases h
      exact ⟨(fun _ hc => by cases hc), (fun _ hc => by cases hc)⟩
  | udba =>
    dsimp only at h
    split at h
    · cases h
    · rename_i hval
      cases h
      exact ⟨fun _ hc => by rw [hval, OptArg.udba.inj hc], (fun _ hc => by cases hc)⟩
  | wbrCreate =>
    dsimp only at h
    split at h
    · cases h
    · rename_i hval
      cases h
      exact ⟨(fun _ hc => by cases hc), fun _ hc => by rw [hval, OptArg.create.inj hc]⟩
  | _ =>
    dsimp only at h
    (repeat' split at h) <;> cases h <;> exact ⟨(fun _ hc => by cases hc), (fun _ hc => by cases hc)⟩

/-- An option that gives an entry is one that the module is configured for. -/
theorem parseOne_ok {optStr : List Char} {token : Opt} {args : List (List Char)} {v v' : OptsVars} {opt : AuOpt}
    (hm : matchToken (options cfg) .err optStr = (token, args))
    (h : parseOne cfg env sb token args v = (.entry opt, v')) : EntryOk cfg opt := by
  have htype := parseOne_type h
  obtain ⟨hudba, hcreate⟩ := parseOne_arg h
  have hmem := matchToken_mem (options cfg) .err optStr
  rw [hm] at hmem
  dsimp only at hmem
  refine ⟨fun hd => ?_, fun hs => ?_, fun hu => udbaVal_inotify (hudba _ hu), fun create hc =>
    wbrCreateVal_ok (hcreate _ hc)⟩
  · rw [htype] at hd
    rcases hd with rfl | rfl
    · exact options_dlgt (Or.inl (hmem.resolve_left (by decide)))
    · exact options_dlgt (Or.inr (hmem.resolve_left (by decide)))
  · rw [htype] at hs
    obtain rfl := hs
    exact options_shwh (hmem.resolve_left (by decide))

theorem brEntries_ok (ps : List (List Char)) (v : OptsVars) :
    ∀ e ∈ (brEntries cfg env sb ps v).1, EntryOk cfg e := by
  induction ps generalizing v with
  | nil => exact fun e he => absurd he List.not_mem_nil
  | cons optStr rest ih =>
    rw [brEntries]
    dsimp only
    cases hadd : optAdd cfg env sb v.calls optStr v.bindex with
    | error err => exact fun e he => absurd he List.not_mem_nil
    | ok opt =>
      obtain ⟨perm, path, dentry, rfl⟩ := optAdd_eq hadd
      intro e he
      rcases List.mem_cons.mp he with rfl | he
      · exact ⟨(fun h => by rcases h with h | h <;> cases h), (fun h => by cases h), (fun h => by cases h),
          (fun _ h => by cases h)⟩
      · exact ih _ e he

/-- **The entries of a string.** -/
theorem entriesOf_ok (items : List (List Char)) (v : OptsVars) :
    ∀ e ∈ (entriesOf cfg env sb items v).1, EntryOk cfg e := by
  induction items generalizing v with
  | nil => exact fun e he => absurd he List.not_mem_nil
  | cons optStr rest ih =>
    have hitem : ∀ e ∈ (itemEntries cfg env sb optStr v).1, EntryOk cfg e := by
      cases hm : matchToken (options cfg) .err optStr with
      | mk token args =>
        by_cases hbr : token = .br
        · obtain rfl := hbr
          rw [itemEntries_br hm]
          split
          · intro e he
            obtain rfl := List.mem_singleton.mp he
            exact ⟨(fun h => by rcases h with h | h <;> cases h), (fun h => by cases h), (fun h => by cases h),
              (fun _ h => by cases h)⟩
          · exact brEntries_ok _ _
        · rw [itemEntries_one hm hbr]
          cases hone : parseOne cfg env sb token args v with
          | mk parsed v' =>
            cases parsed with
            | failed err => exact fun e he => absurd he List.not_mem_nil
            | skipped => exact fun e he => absurd he List.not_mem_nil
            | entry opt =>
              intro e he
              obtain rfl := List.mem_singleton.mp he
              exact parseOne_ok hm hone
    rw [entriesOf]
    dsimp only
    split
    · exact hitem
    · intro e he
      rcases List.mem_append.mp he with he | he
      · exact hitem e he
      · exact ih _ e he

/-- The entries that a call goes over. -/
theorem call_ok {c : OptsCall} (hmax : 0 < c.maxOpt) (hok : (c.parse cfg).err = 0) :
    ∀ e ∈ c.opts cfg, EntryOk cfg e := by
  intro e he
  have hseen := (optsParse_accepted hmax hok).2
  unfold OptsCall.opts OptsCall.parse at he
  rw [hseen] at he
  exact entriesOf_ok _ _ e ((List.takeWhile_sublist _).mem he)

theorem SettingsOk.verify (h : SettingsOk cfg s) (rdonly : Bool) : SettingsOk cfg (verifyOptsCoo rdonly s) := by
  unfold verifyOptsCoo
  cases rdonly with
  | false => exact h
  | true =>
    exact ⟨h.shwh, h.dlgt, h.dirperm1, h.inotify, h.sumW, h.watermark, h.expire, h.second, h.dirwh, h.rdcache⟩

theorem SettingsOk.apply {opts : List AuOpt} (h : SettingsOk cfg s) (hopts : ∀ e ∈ opts, EntryOk cfg e)
    (rdonly : Bool) : SettingsOk cfg (applyOpts cfg rdonly opts s) := by
  refine SettingsOk.verify ?_ rdonly
  induction opts generalizing s with
  | nil => exact h
  | cons e rest ih =>
    rw [List.foldl_cons]
    exact ih (h.simple (hopts e List.mem_cons_self)) fun e' he' => hopts e' (List.mem_cons_of_mem _ he')

/-- **One mount or remount**, also one that is refused half-way. -/
theorem SettingsOk.step {m m' : OptsMounted} {e : OptsEvent} (h : SettingsOk cfg m.settings) (hs : OptsStep cfg m e m') :
    SettingsOk cfg m'.settings := by
  cases e with
  | accepted c =>
    obtain ⟨hmax, hok, rfl⟩ := hs
    exact h.apply (call_ok hmax hok) _
  | refused c done =>
    obtain ⟨hmax, hok, rfl⟩ := hs
    exact h.apply (fun e he => call_ok hmax hok e (List.mem_of_mem_take he)) _

theorem settingsOk_alloc (cfg : OptsConfig) (e w : Nat) : SettingsOk cfg (auSiAlloc cfg e w) :=
  ⟨(fun h => by cases h), (fun h => by cases h), (fun h => by cases h), (fun h => by cases h), rfl,
    (fun h => by cases h), (fun h => by cases h), (fun h => by cases h), (by decide : dirwhDef.toNat < 2 ^ 32),
    isJiffies_of cfg _⟩

end

/-- **When the settings are read back**, after every run of mounts and remounts, of which the last is accepted: the
    string is printed, parsed for the same flags and applied to the default settings. -/
theorem run_roundTrips (cfg : OptsConfig) (e w : Nat) (rdonly : Bool) (es : List OptsEvent) (m m' : OptsMounted)
    (hrun : Run (OptsStep cfg) ⟨auSiAlloc cfg e w, rdonly⟩ es m) (c : OptsCall) (hs : OptsStep cfg m (.accepted c) m')
    (env : OptsEnv) (sb : OptsSb) (hsb : sb.rdonly = m'.rdonly) (maxOpt : Nat) (hmax : 17 < maxOpt)
    (page : Nat → AuOpt) (e' w' : Nat) :
    RoundTrips cfg env sb maxOpt page e' w' m'.settings ↔ Printable cfg m'.rdonly m'.settings := by
  have hok : SettingsOk cfg m.settings :=
    @Run.inv _ _ _ _ _ _ (fun m => SettingsOk cfg m.settings) hrun (settingsOk_alloc cfg e w) fun _ _ _ h hs => h.step hs
  have hok' := hok.step hs
  rw [← hsb]
  refine roundTrips_iff hmax page e' w' hok' fun hro => ?_
  obtain ⟨-, -, rfl⟩ := hs
  have hverify : c.sb.rdonly = true := hsb.symm.trans hro
  show (applyOpts cfg c.sb.rdonly _ _).mntflags.coo = .none
  unfold applyOpts verifyOptsCoo
  rw [if_pos hverify]

/-- A mount or a remount with a string. -/
def optsCall (rdonly : Bool) (str : String) : OptsCall :=
  ⟨⟨rdonly, unmounted⟩, anyPath, true, 24, zeroPage, str.toList⟩

/-- What it leaves, if it is accepted. -/
def OptsMounted.after (cfg : OptsConfig) (m : OptsMounted) (c : OptsCall) : OptsMounted :=
  ⟨applyOpts cfg c.sb.rdonly (c.opts cfg) m.settings, c.sb.rdonly⟩

/-- Before the first mount. -/
def noSettings (cfg : OptsConfig) : OptsMounted := ⟨auSiAlloc cfg 0 0, false⟩

/-- A policy with a watermark and seconds is read back. -/
theorem run_roundTrips_create :
    RoundTrips plainConfig anyPath freshMount 24 zeroPage 0 0
      ((noSettings plainConfig).after plainConfig (optsCall false "create=mfsrr:1000:60,dirwh=5,noplink")).settings :=
  (run_roundTrips plainConfig 0 0 false [] (noSettings plainConfig) _ Run.nil
    (optsCall false "create=mfsrr:1000:60,dirwh=5,noplink") ⟨by decide, by decide +kernel, rfl⟩ anyPath freshMount rfl
    24 (by decide) zeroPage 0 0).mpr ⟨by decide +kernel, by decide +kernel, by decide +kernel⟩

/-- The same module with `shwh`. -/
def shwhConfig : OptsConfig := { plainConfig with shwh := true }

/-- Numbers of seconds that are too large, and `shwh` that is kept by a remount for writing. -/
theorem seconds_and_shwh :
    (OptsStep plainConfig (noSettings plainConfig) (.accepted (optsCall false "rdcache=42949673"))
        ((noSettings plainConfig).after plainConfig (optsCall false "rdcache=42949673")) ∧
      ¬RoundTrips plainConfig anyPath freshMount 24 zeroPage 0 0
        ((noSettings plainConfig).after plainConfig (optsCall false "rdcache=42949673")).settings) ∧
    (OptsStep plainConfig (noSettings plainConfig) (.accepted (optsCall false "create=mfs:42949673"))
        ((noSettings plainConfig).after plainConfig (optsCall false "create=mfs:42949673")) ∧
      ¬RoundTrips plainConfig anyPath freshMount 24 zeroPage 0 0
        ((noSettings plainConfig).after plainConfig (optsCall false "create=mfs:42949673")).settings) ∧
    (OptsStep shwhConfig (noSettings shwhConfig) (.accepted (optsCall true "shwh"))
        ((noSettings shwhConfig).after shwhConfig (optsCall true "shwh")) ∧
      OptsStep shwhConfig ((noSettings shwhConfig).after shwhConfig (optsCall true "shwh"))
        (.accepted (optsCall false "dirwh=5"))
        (((noSettings shwhConfig).after shwhConfig (optsCall true "shwh")).after shwhConfig
          (optsCall false "dirwh=5")) ∧
      ¬RoundTrips shwhConfig anyPath freshMount 24 zeroPage 0 0
        (((noSettings shwhConfig).after shwhConfig (optsCall true "shwh")).after shwhConfig
          (optsCall false "dirwh=5")).settings) := by
  refine ⟨⟨⟨by decide, by decide +kernel, rfl⟩, fun h => ?_⟩, ⟨⟨by decide, by decide +kernel, rfl⟩, fun h => ?_⟩,
    ⟨by decide, by decide +kernel, rfl⟩, ⟨by decide, by decide +kernel, rfl⟩, fun h => ?_⟩
  · have hrdcache := h.2.rdcache
    revert hrdcache
    decide +kernel
  · have hexpire := h.2.expire (by decide +kernel)
    revert hexpire
    decide +kernel
  · have hok := h.1
    revert hok
    decide +kernel

end KernelPatches.Aufs
