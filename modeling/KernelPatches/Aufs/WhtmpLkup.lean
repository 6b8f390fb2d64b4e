/-
  aufs: the temporary name of a removed directory.

  `au_whtmp_lkup` makes up a name from a prefix and a counter: the mark of a whiteout twice, the prefix, a
  dot and four digits.  The text is written into an array on the stack, or, for a long prefix, into
  memory that is allocated.  The name has to be one that is not there: there are THREE tries, with three values
  of the counter one after another, and behind them is `BUG()`.

  * `whtmpWrites`             — what is written, and where;
  * `whtmp_fits`              — the text and its zero are inside of the buffer;
  * `auWhtmpLkup_right_iff`   — the call returns a name that is not there, or an error of a lookup, unless the
                                three names are all there.
-/
import KernelPatches.Aufs.RemoveHidden

namespace KernelPatches.Aufs

/-! ## The buffer -/

/-- HEX_LEN -/
def hexLen : Nat := 4

/-- `sizeof(defname)` -/
def defnameSize : Nat := whPfx.length * 2 + dnameInlineLenMin + 1 + hexLen + 1

/-- `len`, for a prefix of that length. -/
def whtmpLen (prefixLen : Nat) : Nat := defnameSize - dnameInlineLenMin + prefixLen - 1

/-- The size of the buffer: of the array, or of what is allocated. -/
def whtmpBuf (prefixLen : Nat) : Nat :=
  if dnameInlineLenMin < prefixLen then whtmpLen prefixLen + 1 else defnameSize

/-- What `sprintf(p, "%.*d", HEX_LEN, cnt)` writes for an `unsigned char`. -/
def whtmpDigits (cnt : Nat) : List UInt8 :=
  [48, 48 + UInt8.ofNat (cnt / 100 % 10), 48 + UInt8.ofNat (cnt / 10 % 10), 48 + UInt8.ofNat (cnt % 10), 0]

/-- The offsets in the buffer, and what is written there: by two `memcpy`, `*p++ = '.'` and `sprintf`. -/
def whtmpWrites (name : Name) (cnt : Nat) : List (Nat × List UInt8) :=
  let p := whPfx.length * 2
  [(0, whPfx ++ whPfx), (p, name), (p + name.length, [46]), (p + name.length + 1, whtmpDigits cnt)]

/-- Each write begins where the one before it ended. -/
def Adjoining : Nat → List (Nat × List UInt8) → Prop
  | _, [] => True
  | start, (p, text) :: l => p = start ∧ Adjoining (start + text.length) l

/-- **The buffer is long enough** for the name and the zero behind it, and an allocated one is no longer. -/
structure WhtmpFits (name : Name) (cnt : Nat) : Prop where
  adjoining : Adjoining 0 (whtmpWrites name cnt)
  text : (whtmpWrites name cnt).flatMap Prod.snd = whtmpName name cnt ++ [0]
  length : (whtmpName name cnt).length = whtmpLen name.length
  inside : whtmpLen name.length + 1 ≤ whtmpBuf name.length
  exact : dnameInlineLenMin ≤ name.length → whtmpLen name.length + 1 = whtmpBuf name.length

theorem whtmpLen_eq (prefixLen : Nat) : whtmpLen prefixLen = prefixLen + 13 := by
  show whPfx.length * 2 + dnameInlineLenMin + 1 + hexLen + 1 - dnameInlineLenMin + prefixLen - 1 = _
  have hpfx : whPfx.length = 4 := rfl
  have hhex : hexLen = 4 := rfl
  omega

theorem defnameSize_eq : defnameSize = dnameInlineLenMin + 14 := rfl

theorem whtmp_fits (name : Name) (cnt : Nat) : WhtmpFits name cnt where
  adjoining := ⟨rfl, rfl, rfl, rfl, trivial⟩
  text := by
    simp only [whtmpWrites, List.flatMap_cons, List.flatMap_nil, List.append_nil, whtmpName, whtmpDigits,
      List.append_assoc, List.cons_append, List.nil_append]
  length := by rw [whtmpName_length, whtmpLen_eq]
  inside := by
    rw [whtmpBuf]
    split_ifs with hlong
    · exact Nat.le_refl _
    · rw [whtmpLen_eq, defnameSize_eq]
      omega
  exact := by
    intro hle
    rw [whtmpBuf]
    split_ifs with hlong
    · rfl
    · rw [whtmpLen_eq, defnameSize_eq]
      omega

/-! ## The tries -/

section

variable {hParent : HDentry} {dir : HInode} {s : RmState}

/-- The name is in the directory, and its lookup finds it. -/
def Taken (dir : HInode) (name : Name) : Prop := dir.lkupErr name = 0 ∧ (dir.find name).isSome = true

/-- No name is tried: the prefix is too long, or no memory is left for it. -/
def NotTried (s : RmState) : Prop :=
  dnameInlineLenMin < s.name.length ∧ (pathMax ≤ whtmpLen s.name.length ∨ (ask s.io).1 ≠ 0)

/-- **What the call is for**: it comes back, with a name that is not there, or with the error of a lookup of the
    names tried; or none is tried.  The names fit in the buffer. -/
def WhtmpRight (hParent : HDentry) (dir : HInode) (s : RmState) : Prop :=
  (∀ cnt, WhtmpFits s.name cnt) ∧
  ∃ r s', auWhtmpLkup hParent dir s = some (r, s') ∧
    ((∃ tmp, r = .ok tmp ∧ dir.find tmp = none) ∨
      (∃ name err, r = .error err ∧ dir.lkupErr name ≠ 0 ∧ err = min (dir.lkupErr name) (-1)) ∨
      NotTried s ∧ ∃ err, r = .error err)

/-- One try: the name is there, or it ends the loop. -/
theorem whtmpTry_succ (name : Name) (n cnt : Nat) :
    (Taken dir (whtmpName name cnt) ∧
      whtmpTry hParent dir name (n + 1) cnt = whtmpTry hParent dir name n ((cnt + 1) % 256)) ∨
    (¬ Taken dir (whtmpName name cnt) ∧
      ∃ r, whtmpTry hParent dir name (n + 1) cnt = some (r, (cnt + 1) % 256) ∧
        ((∃ tmp, r = .ok tmp ∧ dir.find tmp = none) ∨
          ∃ name err, r = .error err ∧ dir.lkupErr name ≠ 0 ∧ err = min (dir.lkupErr name) (-1))) := by
  rw [whtmpTry]
  unfold auSioLkupOne auLkupOne
  by_cases herr : dir.lkupErr (whtmpName name cnt) = 0
  · rw [if_neg (by rw [herr]; decide)]
    dsimp only
    cases hfind : dir.find (whtmpName name cnt) with
    | none =>
      refine Or.inr ⟨fun ht => ?_, _, rfl, Or.inl ⟨_, rfl, hfind⟩⟩
      have hsome := ht.2
      rw [hfind] at hsome
      exact Bool.noConfusion hsome
    | some inode => exact Or.inl ⟨⟨herr, by rw [hfind]; rfl⟩, rfl⟩
  · rw [if_pos herr]
    exact Or.inr ⟨fun ht => herr ht.1, _, rfl, Or.inr ⟨_, _, rfl, herr, rfl⟩⟩

/-- **The loop** comes back unless all names are there; by induction on the tries. -/
theorem whtmpTry_cases (name : Name) : ∀ (n cnt : Nat), cnt < 256 →
    ((∀ i < n, Taken dir (whtmpName name ((cnt + i) % 256))) ∧ whtmpTry hParent dir name n cnt = none) ∨
    ((∃ i < n, ¬ Taken dir (whtmpName name ((cnt + i) % 256))) ∧
      ∃ r cnt', whtmpTry hParent dir name n cnt = some (r, cnt') ∧
        ((∃ tmp, r = .ok tmp ∧ dir.find tmp = none) ∨
          ∃ name err, r = .error err ∧ dir.lkupErr name ≠ 0 ∧ err = min (dir.lkupErr name) (-1))) := by
  intro n
  induction n with
  | zero => exact fun cnt _ => Or.inl ⟨fun i hi => absurd hi (Nat.not_lt_zero i), rfl⟩
  | succ n ih =>
    intro cnt hcnt
    have hfirst : (cnt + 0) % 256 = cnt := Nat.mod_eq_of_lt hcnt
    have hnext : ∀ i, ((cnt + 1) % 256 + i) % 256 = (cnt + (i + 1)) % 256 := fun i => by omega
    rcases @whtmpTry_succ hParent dir name n cnt with ⟨htaken, heq⟩ | ⟨hfree, r, heq, hr⟩
    · rw [heq]
      rcases ih ((cnt + 1) % 256) (Nat.mod_lt _ (by decide)) with ⟨hall, hnone⟩ | ⟨⟨i, hi, hfree⟩, hr⟩
      · refine Or.inl ⟨fun i hi => ?_, hnone⟩
        cases i with
        | zero => rw [hfirst]; exact htaken
        | succ i =>
          rw [← hnext]
          exact hall i (by omega)
      · refine Or.inr ⟨⟨i + 1, by omega, ?_⟩, hr⟩
        rw [← hnext]
        exact hfree
    · exact Or.inr ⟨⟨0, Nat.succ_pos n, by rw [hfirst]; exact hfree⟩, r, _, heq, hr⟩

/-- **When a temporary name is found**, for a counter that is an `unsigned char`: exactly when one of the three
    names is not there, its lookup failing at most, or none is tried. -/
theorem auWhtmpLkup_right_iff (hParent : HDentry) (dir : HInode) (s : RmState) (hcnt : s.cnt < 256) :
    WhtmpRight hParent dir s ↔
      NotTried s ∨ ∃ i < 3, ¬ Taken dir (whtmpName s.name ((s.cnt + i) % 256)) := by
  have hlen : pathMax ≤ s.name.length + 13 ↔ pathMax ≤ whtmpLen s.name.length := by rw [whtmpLen_eq]
  unfold WhtmpRight auWhtmpLkup
  dsimp only
  by_cases hlong : dnameInlineLenMin < s.name.length ∧ pathMax ≤ s.name.length + 13
  · have hnot : NotTried s := ⟨hlong.1, Or.inl (hlen.mp hlong.2)⟩
    rw [if_pos hlong]
    exact iff_of_true ⟨fun cnt => whtmp_fits s.name cnt, _, _, rfl, Or.inr (Or.inr ⟨hnot, _, rfl⟩)⟩ (Or.inl hnot)
  rw [if_neg hlong]
  by_cases hmem : (if dnameInlineLenMin < s.name.length then ask s.io else (0, s.io)).1 ≠ 0
  · have hnot : NotTried s := by
      by_cases hinline : dnameInlineLenMin < s.name.length
      · rw [if_pos hinline] at hmem
        exact ⟨hinline, Or.inr hmem⟩
      · rw [if_neg hinline] at hmem
        exact absurd rfl hmem
    rw [if_pos hmem]
    exact iff_of_true ⟨fun cnt => whtmp_fits s.name cnt, _, _, rfl, Or.inr (Or.inr ⟨hnot, _, rfl⟩)⟩ (Or.inl hnot)
  rw [if_neg hmem]
  have hnot : ¬ NotTried s := by
    rintro ⟨hinline, hmax | hask⟩
    · exact hlong ⟨hinline, hlen.mpr hmax⟩
    · rw [if_pos hinline] at hmem
      exact hmem hask
  rcases @whtmpTry_cases hParent dir s.name 3 s.cnt hcnt with ⟨hall, hnone⟩ | ⟨hfree, r, cnt', hsome, hr⟩
  · -- three names that are there, and `BUG()`
    rw [hnone]
    refine iff_of_false ?_ ?_
    · rintro ⟨-, r, s', hres, -⟩
      cases hres
    · rintro (hn | ⟨i, hi, hfree⟩)
      · exact hnot hn
      · exact hfree (hall i hi)
  · rw [hsome]
    refine iff_of_true ⟨fun cnt => whtmp_fits s.name cnt, r, _, rfl, ?_⟩ (Or.inr hfree)
    exact hr.elim Or.inl fun herr => Or.inr (Or.inl herr)

end

/-- A directory with the temporary names of `a` for three values of the counter, left by removals that did not
    come to an end. -/
def leftoverDir : HInode :=
  .mk 2 sIfdir (((List.range 3).map (whtmpName [97])).map fun name => (name, .mk 3 sIfdir [] fun _ => 0)) fun _ => 0

/-- `a` is removed in it, and the counter has come round. -/
def removeAgain : RmState :=
  ⟨[97], ⟨0, 0, -1, -1, fun b => if b = 0 then some ⟨0, [[97]], some (.mk 4 sIfdir [] fun _ => 0)⟩ else none⟩,
    [47], ⟨0, 0, -1, -1, fun b => if b = 0 then some ⟨0, [[47]], some leftoverDir⟩ else none⟩, [], [], 0⟩

theorem auWhtmpLkup_right_iff_again : WhtmpRight ⟨0, [[47]], some leftoverDir⟩ leftoverDir removeAgain ↔
    NotTried removeAgain ∨
      ∃ i < 3, ¬ Taken leftoverDir (whtmpName removeAgain.name ((removeAgain.cnt + i) % 256)) :=
  auWhtmpLkup_right_iff ⟨0, [[47]], some leftoverDir⟩ leftoverDir removeAgain (by decide)

/-- Not always: three names are enough for `BUG()`. -/
theorem three_names_bug : ¬ ∀ (hParent : HDentry) (dir : HInode) (s : RmState), s.cnt < 256 →
    (∃ cnt < 256, dir.find (whtmpName s.name cnt) = none) → WhtmpRight hParent dir s := by
  intro hall
  have hfree : leftoverDir.find (whtmpName removeAgain.name 3) = none := rfl
  obtain ⟨-, r, s', hres, -⟩ := hall ⟨0, [[47]], some leftoverDir⟩ leftoverDir removeAgain (by decide)
    ⟨3, by decide, hfree⟩
  have hbug : auWhtmpLkup ⟨0, [[47]], some leftoverDir⟩ leftoverDir removeAgain = none := rfl
  rw [hbug] at hres
  cases hres

end KernelPatches.Aufs
