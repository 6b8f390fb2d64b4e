/-
  Option strings.

  A string is the list of its characters.  `strsep` cuts it at a separator; the loops that call it stop at the
  first empty piece.  A pattern is matched piece by piece: a literal, a number as `strtol` reads it (with its
  base, which is 8 or 16 after a zero), or the rest of the string.  A table is searched from its top.

  * `strtoul`, `strtol`        — the number at the start of a string, and what is behind it;
  * `matchOne`, `matchToken`   — a pattern, and a table of patterns;
  * `strsep_intercalate`       — the pieces of what was put together from them;
  * `strtoul_toDigits`, `strtol_showInt` — a number that was printed is read back.
-/
import Mathlib.Data.List.TakeWhile
import Mathlib.Tactic.Common

namespace KernelPatches.Lib

/-! ## Pieces -/

/-- The pieces a loop over `strsep` sees. -/
def strsep (sep : Char) (s : List Char) : List (List Char) := (s.splitOn sep).takeWhile fun t => !t.isEmpty

/-- The pieces of what was put together from them. -/
theorem strsep_intercalate {sep : Char} {ts : List (List Char)} (hsep : ∀ t ∈ ts, sep ∉ t)
    (hne : ∀ t ∈ ts, t ≠ []) : strsep sep ([sep].intercalate ts) = ts := by
  unfold strsep
  cases hts : ts with
  | nil => rfl
  | cons t rest =>
    have hnil : t :: rest ≠ [] := List.cons_ne_nil t rest
    rw [List.splitOn_intercalate sep (by rw [← hts]; exact hsep) hnil, List.takeWhile_eq_self_iff, ← hts]
    intro u hu
    rw [Bool.not_eq_true', List.isEmpty_eq_false_iff]
    exact hne u hu

/-! ## Numbers -/

/-- The value of a digit, up to base 16. -/
def digitVal (c : Char) : Option Nat :=
  if '0'.toNat ≤ c.toNat ∧ c.toNat ≤ '9'.toNat then some (c.toNat - '0'.toNat)
  else if 'a'.toNat ≤ c.toNat ∧ c.toNat ≤ 'f'.toNat then some (c.toNat - 'a'.toNat + 10)
  else if 'A'.toNat ≤ c.toNat ∧ c.toNat ≤ 'F'.toNat then some (c.toNat - 'A'.toNat + 10)
  else none

/-- The digit of a base at the start. -/
def digitIn (base : Nat) (c : Char) : Option Nat := (digitVal c).filter fun v => v < base

/-- The loop over the digits. -/
def digitsFrom (base : Nat) : Nat → List Char → Nat × List Char
  | acc, [] => (acc, [])
  | acc, c :: s =>
    match digitIn base c with
    | some v => digitsFrom base (acc * base + v) s
    | none => (acc, c :: s)

/-- `simple_strtoul` of base 0, before the result is cut to a word: the value, and what is left. -/
def strtoul : List Char → Nat × List Char
  | '0' :: 'x' :: c :: s => if (digitVal c).isSome then digitsFrom 16 0 (c :: s) else (0, 'x' :: c :: s)
  | '0' :: 'X' :: c :: s => if (digitVal c).isSome then digitsFrom 16 0 (c :: s) else (0, 'X' :: c :: s)
  | '0' :: s => digitsFrom 8 0 s
  | s => digitsFrom 10 0 s

/-- `simple_strtol` of base 0. -/
def strtol : List Char → Int × List Char
  | '-' :: s => (-(strtoul s).1, (strtoul s).2)
  | s => ((strtoul s).1, (strtoul s).2)

/-- `%d` of a number. -/
def showInt : Int → List Char
  | .ofNat n => Nat.toDigits 10 n
  | .negSucc n => '-' :: Nat.toDigits 10 (n + 1)

/-- What cannot go on with a digit. -/
def Stops (rest : List Char) : Prop := ∀ c ∈ rest.head?, digitVal c = none ∧ c ≠ 'x' ∧ c ≠ 'X'

theorem digitIn_digitChar {n : Nat} (h : n < 10) : digitIn 10 n.digitChar = some n := by
  have hval : digitVal n.digitChar = some n := by
    unfold digitVal
    rw [Nat.toNat_digitChar_of_lt_ten h]
    have hrange : '0'.toNat ≤ 48 + n ∧ 48 + n ≤ '9'.toNat := by
      show 48 ≤ 48 + n ∧ 48 + n ≤ 57
      omega
    rw [if_pos hrange]
    show some (48 + n - 48) = some n
    rw [Nat.add_sub_cancel_left]
  rw [digitIn, hval]
  exact Option.filter_some_pos (decide_eq_true h)

theorem digitsFrom_append {base acc acc' : Nat} {ds rest : List Char}
    (h : digitsFrom base acc ds = (acc', [])) : digitsFrom base acc (ds ++ rest) = digitsFrom base acc' rest := by
  induction ds generalizing acc with
  | nil =>
    rw [digitsFrom] at h
    rw [List.nil_append, (Prod.mk.inj h).1]
  | cons c ds ih =>
    rw [digitsFrom] at h
    rw [List.cons_append, digitsFrom]
    cases hc : digitIn base c with
    | none =>
      rw [hc] at h
      cases h
    | some v =>
      rw [hc] at h
      exact ih h

theorem digitsFrom_stops {base acc : Nat} {rest : List Char} (h : Stops rest) :
    digitsFrom base acc rest = (acc, rest) := by
  cases rest with
  | nil => rfl
  | cons c rest =>
    rw [digitsFrom, digitIn, (h c rfl).1]
    rfl

/-- The digits of a number. -/
theorem digitsFrom_toDigits (n : Nat) : digitsFrom 10 0 (Nat.toDigits 10 n) = (n, []) := by
  induction n using Nat.strongRecOn with
  | ind n ih =>
    by_cases h : n < 10
    · rw [Nat.toDigits_of_lt_base h, digitsFrom, digitIn_digitChar h]
      show digitsFrom 10 (0 * 10 + n) [] = _
      rw [Nat.zero_mul, Nat.zero_add]
      rfl
    · rw [Nat.toDigits_of_base_le (by decide) (Nat.le_of_not_lt h),
        digitsFrom_append (ih (n / 10) (Nat.div_lt_self (by omega) (by decide))), digitsFrom,
        digitIn_digitChar (Nat.mod_lt n (by decide))]
      show digitsFrom 10 (n / 10 * 10 + n % 10) [] = _
      rw [Nat.div_add_mod']
      rfl

/-- Only 0 is printed with a zero in front. -/
theorem head_toDigits {n : Nat} (h : 0 < n) : ∃ c ds, Nat.toDigits 10 n = c :: ds ∧ c ≠ '0' ∧ c ≠ '-' := by
  induction n using Nat.strongRecOn with
  | ind n ih =>
    by_cases hlt : n < 10
    · refine ⟨n.digitChar, [], Nat.toDigits_of_lt_base hlt, ?_, ?_⟩
      · rw [Ne, Nat.digitChar_eq_zero]
        omega
      · intro hc
        have := Nat.toNat_digitChar_of_lt_ten hlt
        rw [hc] at this
        have hdash : '-'.toNat = 45 := rfl
        omega
    · obtain ⟨c, ds, hds, hc⟩ := ih (n / 10) (Nat.div_lt_self (by omega) (by decide)) (by omega)
      refine ⟨c, ds ++ [(n % 10).digitChar], ?_, hc⟩
      rw [Nat.toDigits_of_base_le (by decide) (Nat.le_of_not_lt hlt), hds]
      rfl

/-- **A number that was printed** is read back. -/
theorem strtoul_toDigits {n : Nat} {rest : List Char} (h : Stops rest) :
    strtoul (Nat.toDigits 10 n ++ rest) = (n, rest) := by
  by_cases hn : n = 0
  · subst hn
    cases rest with
    | nil => rfl
    | cons c rest =>
      have hc := h c rfl
      have hzero : strtoul ('0' :: c :: rest) = digitsFrom 8 0 (c :: rest) := by
        unfold strtoul
        split
        · rename_i hcons
          cases hcons
          exact absurd rfl hc.2.1
        · rename_i hcons
          cases hcons
          exact absurd rfl hc.2.2
        · rename_i hcons
          cases hcons
          rfl
        · rename_i hno
          exact absurd rfl (hno _)
      exact hzero.trans (digitsFrom_stops h)
  · obtain ⟨c, ds, hds, hzero, -⟩ := head_toDigits (Nat.pos_of_ne_zero hn)
    have hbase : strtoul (Nat.toDigits 10 n ++ rest) = digitsFrom 10 0 (Nat.toDigits 10 n ++ rest) := by
      rw [hds, List.cons_append]
      unfold strtoul
      split
      · rename_i hcons
        exact absurd (List.cons.inj hcons).1 hzero
      · rename_i hcons
        exact absurd (List.cons.inj hcons).1 hzero
      · rename_i hcons
        exact absurd (List.cons.inj hcons).1 hzero
      · rfl
    rw [hbase, digitsFrom_append (digitsFrom_toDigits n), digitsFrom_stops h]

theorem strtol_toDigits {n : Nat} {rest : List Char} (h : Stops rest) :
    strtol (Nat.toDigits 10 n ++ rest) = ((n : Int), rest) := by
  have hne : ∀ s, Nat.toDigits 10 n ++ rest ≠ '-' :: s := by
    intro s hs
    by_cases hn : n = 0
    · subst hn
      cases hs
    · obtain ⟨c, ds, hds, -, hdash⟩ := head_toDigits (Nat.pos_of_ne_zero hn)
      rw [hds] at hs
      exact hdash (List.cons.inj hs).1
  have hpos : strtol (Nat.toDigits 10 n ++ rest) =
      (((strtoul (Nat.toDigits 10 n ++ rest)).1 : Int), (strtoul (Nat.toDigits 10 n ++ rest)).2) := by
    unfold strtol
    split
    · rename_i hcons
      exact absurd hcons (hne _)
    · rfl
  rw [hpos, strtoul_toDigits h]

/-- The same for a number with a sign. -/
theorem strtol_showInt {z : Int} {rest : List Char} (h : Stops rest) : strtol (showInt z ++ rest) = (z, rest) := by
  cases z with
  | ofNat n => exact strtol_toDigits h
  | negSucc n =>
    show (-((strtoul (Nat.toDigits 10 (n + 1) ++ rest)).1 : Int), (strtoul (Nat.toDigits 10 (n + 1) ++ rest)).2) = _
    rw [strtoul_toDigits h]
    rfl

/-! ## Patterns -/

/-- A piece of a pattern: text, `%d`, or `%s`. -/
inductive Piece where
  | lit (text : List Char)
  | int
  | str
  deriving DecidableEq, Repr

/-- `match_one`: the arguments, if the string matches the pattern. -/
def matchOne : List Piece → List Char → Option (List (List Char))
  | [], s => if s.isEmpty then some [] else none
  | .lit text :: ps, s => if text.isPrefixOf s then matchOne ps (s.drop text.length) else none
  | .int :: ps, s =>
    let rest := (strtol s).2
    if rest.length = s.length then none
    else (matchOne ps rest).map fun args => s.take (s.length - rest.length) :: args
  | .str :: ps, s => if s.isEmpty then none else (matchOne ps []).map fun args => s :: args

/-- `match_token`: the first pattern of the table that matches, or the one without a pattern. -/
def matchToken {α : Type*} (table : List (α × List Piece)) (last : α) (s : List Char) :
    α × List (List Char) :=
  match table with
  | [] => (last, [])
  | (token, pattern) :: table =>
    match matchOne pattern s with
    | some args => (token, args)
    | none => matchToken table last s

/-- The token is one of the table, or the one without a pattern. -/
theorem matchToken_mem {α : Type*} (table : List (α × List Piece)) (last : α) (s : List Char) :
    (matchToken table last s).1 = last ∨ (matchToken table last s).1 ∈ table.map Prod.fst := by
  induction table with
  | nil => exact Or.inl rfl
  | cons e table ih =>
    rw [matchToken]
    cases matchOne e.2 s with
    | some args => exact Or.inr List.mem_cons_self
    | none => exact ih.imp_right (List.mem_cons_of_mem _)

/-- A pattern that a string with the word at its start may match. -/
def startsWith (word : List Char) : List Piece → Bool
  | .lit text :: _ => text.isPrefixOf word || word.isPrefixOf text
  | _ => true

theorem matchOne_startsWith {word rest : List Char} {pattern : List Piece} (h : startsWith word pattern = false) :
    matchOne pattern (word ++ rest) = none := by
  cases pattern with
  | nil => cases h
  | cons piece ps =>
    cases piece with
    | lit text =>
      have hboth := Bool.or_eq_false_iff.mp h
      have hno : ¬text.isPrefixOf (word ++ rest) = true := by
        intro hpre
        have hpre' := List.isPrefixOf_iff_prefix.mp hpre
        rcases Nat.le_total text.length word.length with hle | hle
        · have := List.isPrefixOf_iff_prefix.mpr (List.prefix_of_prefix_length_le hpre' (List.prefix_append _ _) hle)
          rw [this] at hboth
          cases hboth.1
        · have := List.isPrefixOf_iff_prefix.mpr (List.prefix_of_prefix_length_le (List.prefix_append _ _) hpre' hle)
          rw [this] at hboth
          cases hboth.2
      rw [matchOne, if_neg hno]
    | int => cases h
    | str => cases h

/-- **Only the patterns that start with the word** are of interest. -/
theorem matchToken_filter {α : Type*} (table : List (α × List Piece)) (last : α) (word rest : List Char) :
    matchToken table last (word ++ rest) =
      matchToken (table.filter fun e => startsWith word e.2) last (word ++ rest) := by
  induction table with
  | nil => rfl
  | cons e table ih =>
    obtain ⟨token, pattern⟩ := e
    cases h : startsWith word pattern with
    | false =>
      rw [matchToken, matchOne_startsWith h, List.filter_cons_of_neg (by rw [h]; exact Bool.false_ne_true)]
      exact ih
    | true =>
      have hkept : ((token, pattern) :: table).filter (fun e => startsWith word e.2) =
          (token, pattern) :: table.filter (fun e => startsWith word e.2) := List.filter_cons_of_pos h
      rw [hkept, matchToken, matchToken, ih]

/-- A literal at the start of the string. -/
theorem matchOne_lit (word rest : List Char) (ps : List Piece) :
    matchOne (.lit word :: ps) (word ++ rest) = matchOne ps rest := by
  have hpre : word.isPrefixOf (word ++ rest) = true := List.isPrefixOf_iff_prefix.mpr (List.prefix_append _ _)
  rw [matchOne, if_pos hpre, List.drop_left]

/-- A number at the start of the string. -/
theorem matchOne_int {digits rest : List Char} {z : Int} (ps : List Piece) (hne : digits ≠ [])
    (h : strtol (digits ++ rest) = (z, rest)) :
    matchOne (.int :: ps) (digits ++ rest) = (matchOne ps rest).map fun args => digits :: args := by
  have hlen : 0 < digits.length := List.length_pos_iff.mpr hne
  rw [matchOne, h]
  dsimp only
  rw [List.length_append, if_neg (by omega), Nat.add_sub_cancel, List.take_left]

end KernelPatches.Lib
