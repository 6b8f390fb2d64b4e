/-
  cpufreq_override: the voltages that are written to `vdd1_vsel` and `vdd2_vsel`.

  `store_vdd1_vsel` reads the numbers of a string from the highest operating point down: the first goes
  to `volt[6]`.  A loop then checks the entries from `volt[0]` up, as many as there are numbers, and the
  whole array becomes the table.  With `CONFIG_CPU_FREQ_OVERRIDE_STRIPOPP` there are five numbers, and
  the five entries that are checked are not the five that were read: `volt[5]` and `volt[6]` are not
  checked, and `volt[0]` and `volt[1]` are what the stack held.

  The table has one entry for each operating point, as the patches with seven of them have it.

  * `sscanf`                   — the numbers at the start of a string, by `%hhu` conversions;
  * `vselCheck_eq_iff`         — what the loop has checked when it ends at its bound;
  * `VselMeets`                — what is written was checked, the rest is kept, the rest is refused;
  * `storeVsel_meets_iff`      — when that holds, for any number of entries and any number of them read;
  * `storeVdd1Vsel_meets_iff`  — when it holds of `store_vdd1_vsel`, in both configurations;
  * `unchecked_voltages`       — five numbers, two of them 200, that reach the table.
-/
import KernelPatches.Lib.Parser
import Mathlib.Data.Fin.Rev
import Mathlib.Data.Fin.VecNotation
import Mathlib.Algebra.Order.Ring.Nat

namespace KernelPatches.Cpufreq

open KernelPatches.Lib

/-! ## The numbers of a string -/

/-- `isspace`. -/
def isSpace (c : Char) : Bool := c == ' ' || (9 ≤ c.toNat && c.toNat ≤ 13) || c.toNat == 160

/-- `sscanf` with `k` conversions `%hhu` and a blank between them: the numbers that are read, before
    they are cut to a byte.  White space is skipped, and a conversion needs a digit; `sscanf` returns
    how many there are. -/
def sscanf : Nat → List Char → List Nat
  | 0, _ => []
  | k + 1, s =>
    match s.dropWhile isSpace with
    | c :: s' =>
      if (digitIn 10 c).isSome then
        (digitsFrom 10 0 (c :: s')).1 :: sscanf k (digitsFrom 10 0 (c :: s')).2
      else []
    | [] => []

/-! ## The two attributes -/

/-- A table of `N` voltages, the lowest operating point first. -/
abbrev Volts (N : Nat) := Fin N → UInt8

/-- A value lies between the two bounds. -/
def InBounds (vmin vmax v : Nat) : Prop := vmin ≤ v ∧ v ≤ vmax

instance (vmin vmax v : Nat) : Decidable (InBounds vmin vmax v) := inferInstanceAs (Decidable (_ ∧ _))

section

variable {N : Nat}

/-- The conversions fill the array from its end, each cut to a byte; the rest of the array stays as it
    is. -/
def assignVolts (volt : Volts N) (vals : List Nat) : Volts N := fun i =>
  match vals[i.rev.val]? with
  | some v => UInt8.ofNat v
  | none => volt i

variable [NeZero N]

/-- The loop over the entries from `i` up: the index at which it ends. -/
def vselCheck (vmin vmax : Nat) (volt : Volts N) : (left i : Nat) → Nat
  | 0, i => i
  | left + 1, i =>
    if (volt (Fin.ofNat N i)).toNat < vmin || vmax < (volt (Fin.ofNat N i)).toNat then i
    else vselCheck vmin vmax volt left (i + 1)

/-- The body that `store_vdd1_vsel` and `store_vdd2_vsel` share: the array that is handed to
    `omap_pm_opp_set_volts`, if it is called.  `stack` is what the local array holds before. -/
def storeVsel (n vmin vmax : Nat) (stack : Volts N) (buf : List Char) : Option (Volts N) :=
  let vals := sscanf n buf
  let volt := assignVolts stack vals
  if vals.length = n then
    if vselCheck vmin vmax volt n 0 = n then some volt else none
  else none

end

/-- The numbers `store_vdd1_vsel` asks for. -/
def vdd1Count (stripopp : Bool) : Nat := if stripopp then 5 else 7

/-- `store_vdd1_vsel`, with and without `CONFIG_CPU_FREQ_OVERRIDE_STRIPOPP`. -/
def storeVdd1Vsel (stripopp : Bool) (stack : Volts 7) (buf : List Char) : Option (Volts 7) :=
  storeVsel (vdd1Count stripopp) 25 112 stack buf

/-- `store_vdd2_vsel`. -/
def storeVdd2Vsel (stack : Volts 3) (buf : List Char) : Option (Volts 3) := storeVsel 3 25 55 stack buf

/-! ## What is written -/

section

variable {N : Nat}

/-- **What a write has to keep to.**  When the table is set, each number of the string is in bounds and
    is its entry, and the entries without a number are those of the table before; a string with too few
    numbers, or with one out of bounds, leaves the table alone. -/
structure VselMeets (n vmin vmax : Nat) (vals : List Nat) (table : Volts N) (set : Option (Volts N)) :
    Prop where
  supplied : ∀ volt, set = some volt → ∀ (i : Fin N) v, vals[i.rev.val]? = some v →
    InBounds vmin vmax v ∧ (volt i).toNat = v
  kept : ∀ volt, set = some volt → ∀ i : Fin N, n ≤ i.rev.val → volt i = table i
  refused : (vals.length ≠ n ∨ ∃ v ∈ vals, ¬ InBounds vmin vmax v) → set.getD table = table

/-- An entry that has a number holds its low byte. -/
theorem assignVolts_supplied (stack : Volts N) {vals : List Nat} {i : Fin N} {v : Nat}
    (h : vals[i.rev.val]? = some v) : assignVolts stack vals i = UInt8.ofNat v := by
  unfold assignVolts
  rw [h]

/-- An entry without a number holds what the stack held. -/
theorem assignVolts_kept (stack : Volts N) {vals : List Nat} {i : Fin N} (h : vals.length ≤ i.rev.val) :
    assignVolts stack vals i = stack i := by
  unfold assignVolts
  rw [List.getElem?_eq_none h]

/-- Each number has an entry. -/
theorem exists_entry {vals : List Nat} (hlen : vals.length ≤ N) {v : Nat} (hv : v ∈ vals) :
    ∃ i : Fin N, vals[i.rev.val]? = some v := by
  obtain ⟨k, hk, hkv⟩ := List.getElem_of_mem hv
  refine ⟨Fin.rev ⟨k, by omega⟩, ?_⟩
  rw [Fin.rev_rev, List.getElem?_eq_getElem hk, hkv]

variable [NeZero N] {n vmin vmax : Nat}

/-- **The loop ends at its bound iff every entry it has passed is in bounds.** -/
theorem vselCheck_eq_iff (volt : Volts N) (left i : Nat) :
    vselCheck vmin vmax volt left i = i + left ↔
      ∀ j, i ≤ j → j < i + left → InBounds vmin vmax (volt (Fin.ofNat N j)).toNat := by
  induction left generalizing i with
  | zero => exact ⟨fun _ j hij hj => absurd hj (by omega), fun _ => rfl⟩
  | succ left ih =>
    rw [vselCheck]
    by_cases hbad : ((volt (Fin.ofNat N i)).toNat < vmin || vmax < (volt (Fin.ofNat N i)).toNat) = true
    · rw [if_pos hbad]
      constructor
      · intro h
        omega
      · intro h
        have hi := h i (Nat.le_refl i) (by omega)
        simp only [Bool.or_eq_true, decide_eq_true_eq] at hbad
        exact absurd hi (by unfold InBounds; omega)
    · rw [if_neg hbad, show i + (left + 1) = i + 1 + left by omega, ih (i + 1)]
      simp only [Bool.or_eq_true, decide_eq_true_eq, not_or, Nat.not_lt] at hbad
      constructor
      · intro h j hij hj
        rcases Nat.eq_or_lt_of_le hij with heq | hlt
        · rw [← heq]
          exact hbad
        · exact h j hlt hj
      · intro h j hij hj
        exact h j (by omega) hj

/-- The entries that the loop goes over, by their place in the array. -/
theorem vselCheck_all_iff (hn : n ≤ N) (volt : Volts N) :
    vselCheck vmin vmax volt n 0 = n ↔ ∀ i : Fin N, i.val < n → InBounds vmin vmax (volt i).toNat := by
  have hloop := @vselCheck_eq_iff N _ vmin vmax volt n 0
  rw [Nat.zero_add] at hloop
  rw [hloop]
  constructor
  · intro h i hi
    have hi' := h i.val (Nat.zero_le _) hi
    rwa [Fin.ofNat_val_eq_self] at hi'
  · intro h j _ hj
    apply h
    show j % N < n
    rw [Nat.mod_eq_of_lt (by omega)]
    exact hj

/-- When the table is set, and to what. -/
theorem storeVsel_eq_some_iff (hn : n ≤ N) (stack volt : Volts N) (buf : List Char) :
    storeVsel n vmin vmax stack buf = some volt ↔
      (sscanf n buf).length = n ∧ volt = assignVolts stack (sscanf n buf) ∧
        ∀ i : Fin N, i.val < n → InBounds vmin vmax (volt i).toNat := by
  unfold storeVsel
  simp only [vselCheck_all_iff hn]
  constructor
  · intro h
    split at h
    · rename_i hlen
      split at h
      · rename_i hok
        have heq := Option.some.inj h
        rw [← heq]
        exact ⟨hlen, rfl, hok⟩
      · cases h
    · cases h
  · rintro ⟨hlen, rfl, hok⟩
    rw [if_pos hlen, if_pos hok]

/-- **When a write keeps to it.**  If there are enough numbers and the entries from `volt[0]` up pass
    the check, then the numbers are in bounds, and the entries without a number held the table's. -/
theorem storeVsel_meets_iff (hn : n ≤ N) (hmax : vmax < 256) (stack table : Volts N) (buf : List Char) :
    VselMeets n vmin vmax (sscanf n buf) table (storeVsel n vmin vmax stack buf) ↔
      ((sscanf n buf).length = n →
        (∀ i : Fin N, i.val < n → InBounds vmin vmax (assignVolts stack (sscanf n buf) i).toNat) →
        (∀ v ∈ sscanf n buf, InBounds vmin vmax v) ∧ ∀ i : Fin N, n ≤ i.rev.val → stack i = table i) := by
  constructor
  · intro hmeets hlen hok
    have hset := (storeVsel_eq_some_iff hn stack _ buf).mpr ⟨hlen, rfl, hok⟩
    refine ⟨fun v hv => ?_, fun i hi => ?_⟩
    · obtain ⟨i, hi⟩ := exists_entry (hlen.trans_le hn) hv
      exact (hmeets.supplied _ hset i v hi).1
    · have hstack : assignVolts stack (sscanf n buf) i = stack i := assignVolts_kept stack (by omega)
      rw [← hstack]
      exact hmeets.kept _ hset i hi
  · intro hcond
    refine ⟨fun volt hset i v hi => ?_, fun volt hset i hi => ?_, fun hbad => ?_⟩
    · obtain ⟨hlen, rfl, hok⟩ := (storeVsel_eq_some_iff hn stack volt buf).mp hset
      have hin := (hcond hlen hok).1 v (List.mem_of_getElem? hi)
      refine ⟨hin, ?_⟩
      have hsmall : v < 256 := Nat.lt_of_le_of_lt hin.2 hmax
      rw [assignVolts_supplied stack hi, UInt8.toNat_ofNat_of_lt' hsmall]
    · obtain ⟨hlen, rfl, hok⟩ := (storeVsel_eq_some_iff hn stack volt buf).mp hset
      rw [assignVolts_kept stack (by omega)]
      exact (hcond hlen hok).2 i hi
    · cases hset : storeVsel n vmin vmax stack buf with
      | none => rfl
      | some volt =>
        obtain ⟨hlen, rfl, hok⟩ := (storeVsel_eq_some_iff hn stack volt buf).mp hset
        rcases hbad with hne | ⟨v, hv, hout⟩
        · exact absurd hlen hne
        · exact absurd ((hcond hlen hok).1 v hv) hout

/-- With a number for every entry the check is of the numbers' low bytes, so that only a number that
    does not fit a byte gets past it. -/
theorem storeVsel_full_iff (hmax : vmax < 256) (stack table : Volts N) (buf : List Char) :
    VselMeets N vmin vmax (sscanf N buf) table (storeVsel N vmin vmax stack buf) ↔
      ((sscanf N buf).length = N → (∀ v ∈ sscanf N buf, InBounds vmin vmax (v % 256)) →
        ∀ v ∈ sscanf N buf, v < 256) := by
  rw [storeVsel_meets_iff (Nat.le_refl N) hmax]
  have hbytes : (sscanf N buf).length = N →
      ((∀ i : Fin N, i.val < N → InBounds vmin vmax (assignVolts stack (sscanf N buf) i).toNat) ↔
        ∀ v ∈ sscanf N buf, InBounds vmin vmax (v % 256)) := by
    intro hlen
    constructor
    · intro h v hv
      obtain ⟨i, hi⟩ := exists_entry (Nat.le_of_eq hlen) hv
      have hin := h i i.isLt
      rwa [assignVolts_supplied stack hi] at hin
    · intro h i _
      have hlt : i.rev.val < (sscanf N buf).length := by rw [hlen]; exact i.rev.isLt
      rw [assignVolts_supplied stack (List.getElem?_eq_getElem hlt)]
      exact h _ (List.getElem_mem hlt)
  constructor
  · intro h hlen hlow v hv
    exact Nat.lt_of_le_of_lt ((h hlen ((hbytes hlen).mpr hlow)).1 v hv).2 hmax
  · intro h hlen hok
    have hlow := (hbytes hlen).mp hok
    refine ⟨fun v hv => ?_, fun i hi => absurd i.rev.isLt (by omega)⟩
    have hin := hlow v hv
    rwa [Nat.mod_eq_of_lt (h hlen hlow v hv)] at hin

end

/-! ## The two functions -/

/-- `store_vdd2_vsel` checks the three entries it has read. -/
theorem storeVdd2Vsel_meets_iff (stack table : Volts 3) (buf : List Char) :
    VselMeets 3 25 55 (sscanf 3 buf) table (storeVdd2Vsel stack buf) ↔
      ((sscanf 3 buf).length = 3 → (∀ v ∈ sscanf 3 buf, InBounds 25 55 (v % 256)) →
        ∀ v ∈ sscanf 3 buf, v < 256) :=
  storeVsel_full_iff (by decide) stack table buf

/-- When `store_vdd1_vsel` writes what it should.  With seven numbers: no number is too large for a byte
    while all low bytes pass.  With five: if the two bytes of the stack and the low bytes of the last
    three numbers pass, then all five numbers are in bounds, and the two bytes are the table's. -/
def Vdd1Safe (stripopp : Bool) (stack table : Volts 7) (buf : List Char) : Prop :=
  let vals := sscanf (vdd1Count stripopp) buf
  vals.length = vdd1Count stripopp →
    if stripopp then
      (InBounds 25 112 (stack 0).toNat ∧ InBounds 25 112 (stack 1).toNat ∧
        ∀ v ∈ vals.drop 2, InBounds 25 112 (v % 256)) →
      (∀ v ∈ vals, InBounds 25 112 v) ∧ stack 0 = table 0 ∧ stack 1 = table 1
    else
      (∀ v ∈ vals, InBounds 25 112 (v % 256)) → ∀ v ∈ vals, v < 256

/-- The five entries that the loop goes over, when five numbers were read. -/
theorem strip_checked_iff (stack : Volts 7) {vals : List Nat} (hlen : vals.length = 5) :
    (∀ i : Fin 7, i.val < 5 → InBounds 25 112 (assignVolts stack vals i).toNat) ↔
      InBounds 25 112 (stack 0).toNat ∧ InBounds 25 112 (stack 1).toNat ∧
        ∀ v ∈ vals.drop 2, InBounds 25 112 (v % 256) := by
  have h0 : assignVolts stack vals 0 = stack 0 := assignVolts_kept stack (by rw [hlen]; decide)
  have h1 : assignVolts stack vals 1 = stack 1 := assignVolts_kept stack (by rw [hlen]; decide)
  constructor
  · intro h
    refine ⟨by rw [← h0]; exact h 0 (by decide), by rw [← h1]; exact h 1 (by decide), fun v hv => ?_⟩
    obtain ⟨k, hk, rfl⟩ := List.getElem_of_mem hv
    rw [List.length_drop] at hk
    have hrev : (Fin.rev (⟨2 + k, by omega⟩ : Fin 7)).val < 5 := by
      rw [Fin.val_rev]
      show 7 - (2 + k + 1) < 5
      omega
    have hin := h _ hrev
    have hval : vals[(Fin.rev (Fin.rev (⟨2 + k, by omega⟩ : Fin 7))).val]? = some (vals.drop 2)[k] := by
      rw [Fin.rev_rev, List.getElem_drop, List.getElem?_eq_getElem]
    rwa [assignVolts_supplied stack hval] at hin
  · rintro ⟨hs0, hs1, hlast⟩ i hi
    by_cases hge : 2 ≤ i.val
    · -- the last three numbers go to the entries 4, 3 and 2
      have hlt : i.rev.val < vals.length := by rw [Fin.val_rev]; omega
      have hmem : vals[i.rev.val] ∈ vals.drop 2 := by
        rw [List.mem_drop_iff_getElem]
        refine ⟨i.rev.val - 2, by omega, ?_⟩
        congr 1
        rw [Fin.val_rev]
        omega
      rw [assignVolts_supplied stack (List.getElem?_eq_getElem hlt)]
      exact hlast _ hmem
    · have hcases : i = 0 ∨ i = 1 := by
        rcases Nat.lt_or_ge i.val 1 with h | h
        · exact Or.inl (Fin.ext (by simpa using h))
        · exact Or.inr (Fin.ext (by show i.val = 1; omega))
      rcases hcases with rfl | rfl
      · rwa [h0]
      · rwa [h1]

/-- **`store_vdd1_vsel` writes what it should iff `Vdd1Safe`.** -/
theorem storeVdd1Vsel_meets_iff (stripopp : Bool) (stack table : Volts 7) (buf : List Char) :
    VselMeets (vdd1Count stripopp) 25 112 (sscanf (vdd1Count stripopp) buf) table
        (storeVdd1Vsel stripopp stack buf) ↔ Vdd1Safe stripopp stack table buf := by
  cases stripopp with
  | false => exact storeVsel_full_iff (by decide) stack table buf
  | true =>
    show VselMeets 5 25 112 (sscanf 5 buf) table (storeVsel 5 25 112 stack buf) ↔
      ((sscanf 5 buf).length = 5 →
        (InBounds 25 112 (stack 0).toNat ∧ InBounds 25 112 (stack 1).toNat ∧
          ∀ v ∈ (sscanf 5 buf).drop 2, InBounds 25 112 (v % 256)) →
        (∀ v ∈ sscanf 5 buf, InBounds 25 112 v) ∧ stack 0 = table 0 ∧ stack 1 = table 1)
    rw [storeVsel_meets_iff (by decide) (by decide)]
    have hrest : (∀ i : Fin 7, 5 ≤ i.rev.val → stack i = table i) ↔ stack 0 = table 0 ∧ stack 1 = table 1 :=
      by simp [Fin.forall_fin_succ]
    rw [hrest]
    constructor
    · intro h hlen hlow
      exact h hlen ((strip_checked_iff stack hlen).mpr hlow)
    · intro h hlen hok
      exact h hlen ((strip_checked_iff stack hlen).mp hok)

/-- The table of the processor, as the patches with seven operating points set it. -/
def mpuIva2Vdd1Volts : Volts 7 := ![0x1e, 0x24, 0x30, 0x36, 0x3c, 0x3c, 0x42]

/-- **200 for the two highest operating points**, with the stack as `show_vdd1_vsel` leaves it: nothing
    compares the two numbers with the bounds, and they are in the table. -/
theorem unchecked_voltages :
    ¬ VselMeets 5 25 112 (sscanf 5 "200 200 60 54 48".toList) mpuIva2Vdd1Volts
        (storeVdd1Vsel true mpuIva2Vdd1Volts "200 200 60 54 48".toList) := by
  intro h
  have hvals : sscanf 5 "200 200 60 54 48".toList = [200, 200, 60, 54, 48] := by decide +kernel
  have hset : storeVdd1Vsel true mpuIva2Vdd1Volts "200 200 60 54 48".toList =
      some (assignVolts mpuIva2Vdd1Volts (sscanf 5 "200 200 60 54 48".toList)) := by
    apply (storeVsel_eq_some_iff (by decide) _ _ _).mpr
    rw [hvals]
    exact ⟨rfl, rfl, by decide⟩
  have hbad := (h.supplied _ hset 6 200 (by rw [hvals]; rfl)).1
  exact absurd hbad (by decide)

end KernelPatches.Cpufreq
