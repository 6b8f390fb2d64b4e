/-
  aufs: the hidden files of an open file after the branches have moved.

  `refresh_file` puts each hidden file into the slot of its branch, in place: it is swapped with what is there,
  and what comes back is looked at next.  The slots it goes over are those of the old range, `fi_bstart` to
  `fi_bend`; a hidden file may go to a slot outside it.  Then two scans, from both ends of the new branches,
  find the new range.

  Each round goes on to the next slot or puts one more hidden file where it belongs, so that the loop ends; and
  it ends with all of them in their slots, as those that come back from behind are looked at at once.

  * `remapFile`               — this part of `refresh_file`;
  * `OpenFiles`               — a file as it is before, with branches that are still there;
  * `refreshSlots_run`        — the loop comes to an end, and has lost or doubled nothing;
  * `closeDeadUp_live`, `closeDeadDown_live` — the scans, when no hidden file has lost its inode;
  * `remapFile_places`        — each hidden file is in the slot of its branch, and the range is that of the
                                slots in use.
-/
import Mathlib.Order.Bounds.Basic
import KernelPatches.Lib.Relocate
import KernelPatches.Aufs.HiddenFiles

namespace KernelPatches.Aufs

open KernelPatches.Lib

/-! ## The remapping -/

/-- `fi_hfile` after `au_kzrealloc`. -/
def regrown (s : FileSt) : FileSt :=
  { s with f := { s.f with
    fiHfile := regrow s.f.fiHfile (s.f.fiBend + 1).toNat s.sb.siBranch.length none } }

/-- `refresh_file` from there on, up to the new `fi_bend`. -/
def remapFile (o : RefreshIo) (fuel : Nat) (s : FileSt) : Option FileSt :=
  let s := regrown s
  match s.f.hFptr s.f.fiBstart with
  | none => none
  | some hf =>
    let r := refreshSlots fuel s.f.fiBstart.toNat s
    if r.1 then some (refreshRange o (s.sb.brId hf.hfBr) r.2) else none

/-- After it, `refresh_file` goes on with the reopen. -/
theorem refreshFile_eq {o : RefreshIo} {s t : FileSt} (hmem : o.nomem = false)
    (h : remapFile o o.fuel s = some t) : refreshFile o s = refreshReopen o t := by
  unfold remapFile at h
  unfold refreshFile
  cases hslot : (regrown s).f.hFptr (regrown s).f.fiBstart with
  | none =>
    simp only [hslot] at h
    cases h
  | some hf =>
    simp only [hslot] at h
    rcases hrun : refreshSlots o.fuel (regrown s).f.fiBstart.toNat (regrown s) with ⟨r, u⟩
    rw [hrun] at h
    cases r with
    | false => cases h
    | true =>
      obtain rfl := Option.some.inj h
      unfold regrown at hslot hrun
      simp only [hmem, Bool.false_eq_true, ↓reduceIte, hslot, hrun]
      rfl

/-- **The file before**: its slots in use are on different branches, in the range, which starts with one of
    them; each hidden file has an inode, as every open file, and a branch that is still there. -/
structure OpenFiles (o : RefreshIo) (s : FileSt) : Prop where
  start : 0 ≤ s.f.fiBstart
  first : ∃ hf, s.f.slot s.f.fiBstart.toNat = some hf
  stop : s.f.fiBend < s.f.fiHfile.length
  inRange : ∀ i hf, s.f.slot i = some hf → s.f.fiBstart ≤ i ∧ i ≤ s.f.fiBend
  distinct : ∀ i j hf hf', s.f.slot i = some hf → s.f.slot j = some hf' → hf.hfBr = hf'.hfBr → i = j
  inode : ∀ i hf, s.f.slot i = some hf → o.dInode hf.hfFile.id = true
  branch : ∀ i hf, s.f.slot i = some hf → hf.hfBr ∈ s.sb.siBranch

/-- **The file after**: each hidden file is in the slot of its branch and nowhere else, no branch has lost a
    reference, so that none was closed, and the range is from the first slot in use to the last. -/
structure Remapped (s t : FileSt) : Prop where
  slots : ∀ i hf, t.f.slot i = some hf ↔ (∃ j, s.f.slot j = some hf) ∧ s.sb.auFindBindex hf.hfBr = some i
  sb : t.sb = s.sb
  first : ∃ b : Nat, t.f.fiBstart = b ∧ IsLeast { i | (t.f.slot i).isSome } b
  last : ∃ b : Nat, t.f.fiBend = b ∧ IsGreatest { i | (t.f.slot i).isSome } b

/-! ## The loop -/

/-- Where a hidden file belongs. -/
def FileSb.place (sb : FileSb) (hf : AuHfile) : Option Nat := sb.auFindBindex hf.hfBr

/-- Two branches do not have one index. -/
theorem FileSb.auFindBindex_inj {sb : FileSb} {b b' n : Nat} (h : sb.auFindBindex b = some n)
    (h' : sb.auFindBindex b' = some n) : b = b' := by
  obtain ⟨hlt, heq, -⟩ := List.idxOf?_eq_some_iff.mp h
  obtain ⟨hlt', heq', -⟩ := List.idxOf?_eq_some_iff.mp h'
  exact heq.symm.trans heq'

section

variable {s₀ s : FileSt} {bindex : Nat}

/-- **The loop has come to `bindex`**: the slots are those of `s₀` in another order, and those in use that are
    not ahead of it hold what belongs there. -/
structure Remapping (s₀ : FileSt) (bindex : Nat) (s : FileSt) : Prop where
  sb : s.sb = s₀.sb
  fiBend : s.f.fiBend = s₀.f.fiBend
  length : s.f.fiHfile.length = s₀.f.fiHfile.length
  moved : Rearranged s₀.f.slot s.f.slot
  ahead : ∀ i hf, s.f.slot i = some hf → (bindex ≤ i ∧ i ≤ s.f.fiBend) ∨ s.sb.place hf = some i

theorem AufsFile.slot_swap_perm {f : AufsFile} {i j : Nat} (hi : i < f.fiHfile.length) (hj : j < f.fiHfile.length)
    (k : Nat) : (f.swap i j).slot k = f.slot (Equiv.swap i j k) := by
  rw [AufsFile.slot_swap hi hj, Equiv.swap_apply_def]
  split_ifs <;> rfl

/-- Nothing is to be done at the index. -/
theorem Remapping.pass (h : Remapping s₀ bindex s)
    (hat : ∀ hf, s.f.slot bindex = some hf → s.sb.place hf = some bindex) : Remapping s₀ (bindex + 1) s where
  sb := h.sb
  fiBend := h.fiBend
  length := h.length
  moved := h.moved
  ahead := by
    intro i hf hi
    rcases h.ahead i hf hi with ⟨hge, hle⟩ | hplace
    · by_cases heq : i = bindex
      · rw [heq] at hi ⊢
        exact Or.inr (hat hf hi)
      · exact Or.inl ⟨by omega, hle⟩
    · exact Or.inr hplace

/-- Some things are swapped: the hidden file at the index goes where it belongs, and what was there is looked
    at next. -/
theorem Remapping.swap (h : Remapping s₀ bindex s) {hf : AuHfile} {n : Nat}
    (hslot : s.f.slot bindex = some hf) (hplace : s.sb.place hf = some n)
    (hb : bindex < s.f.fiHfile.length) (hnl : n < s.f.fiHfile.length) (hle : (bindex : Int) ≤ s.f.fiBend) :
    Remapping s₀ (if (s.f.slot n).isSome then bindex else bindex + 1)
      { s with f := s.f.swap bindex n } where
  sb := h.sb
  fiBend := h.fiBend
  length := by
    rw [← h.length]
    show ((s.f.fiHfile.set n _).set bindex _).length = _
    rw [List.length_set, List.length_set]
  moved := h.moved.swap bindex n (AufsFile.slot_swap_perm hb hnl)
  ahead := by
    intro i hf' hi
    have hi : (s.f.swap bindex n).slot i = some hf' := hi
    rw [AufsFile.slot_swap hb hnl] at hi
    show (_ ∧ (i : Int) ≤ s.f.fiBend) ∨ s.sb.place hf' = some i
    by_cases hib : i = bindex
    · -- what came back is looked at again
      rw [if_pos hib] at hi
      rw [hi, hib]
      exact Or.inl ⟨Nat.le_refl _, hle⟩
    · rw [if_neg hib] at hi
      by_cases hin : i = n
      · rw [if_pos hin, hslot] at hi
        rw [← Option.some.inj hi, hplace, hin]
        exact Or.inr rfl
      · rw [if_neg hin] at hi
        rcases h.ahead i hf' hi with ⟨hge, hle'⟩ | hp
        · refine Or.inl ⟨?_, hle'⟩
          split <;> omega
        · exact Or.inr hp

/-- Behind the range everything is in its place. -/
theorem Remapping.ended (h : Remapping s₀ bindex s) (hend : s.f.fiBend < bindex) {i : Nat} {hf : AuHfile}
    (hi : s.f.slot i = some hf) : s.sb.place hf = some i := by
  rcases h.ahead i hf hi with ⟨hge, hle⟩ | hp
  · omega
  · exact hp

/-- **One round**: the loop goes on with the same hidden files, and with fewer slots ahead of it or without what
    belongs there. -/
theorem Remapping.step (hd : TargetsDistinct s₀.sb.place s₀.f.slot) (hw : s₀.sb.siBranch.length ≤ s₀.f.fiHfile.length)
    (hstop : s₀.f.fiBend < s₀.f.fiHfile.length) (hall : ∀ i hf, s₀.f.slot i = some hf → ∃ n, s₀.sb.place hf = some n)
    (h : Remapping s₀ bindex s) (hend : ¬ s.f.fiBend < bindex) :
    ∃ bindex' s', (∀ fuel, refreshSlots (fuel + 1) bindex s = refreshSlots fuel bindex' s') ∧
      Remapping s₀ bindex' s' ∧
      s'.f.fiHfile.length - bindex' + (unplaced s'.sb.place s'.f.slot s'.f.fiHfile.length).card <
        s.f.fiHfile.length - bindex + (unplaced s.sb.place s.f.slot s.f.fiHfile.length).card := by
  have hlen := h.length
  have hbend := h.fiBend
  have hb : bindex < s.f.fiHfile.length := by omega
  cases hslot : s.f.slot bindex with
  | none =>
    refine ⟨bindex + 1, s, fun fuel => ?_, h.pass fun hf hf' => ?_, by omega⟩
    · rw [refreshSlots, if_neg hend, hslot]
    · rw [hslot] at hf'
      cases hf'
  | some hf =>
    obtain ⟨j, hj⟩ := h.moved.comes hslot
    obtain ⟨n, hn⟩ := hall j hf hj
    rw [← h.sb] at hn
    have hfind : s.sb.auFindBindex hf.hfBr = some n := hn
    have hnl : n < s.f.fiHfile.length := by
      have hlt := FileSb.lt_of_auFindBindex hfind
      rw [h.sb] at hlt
      omega
    by_cases hsame : n = bindex
    · refine ⟨bindex + 1, s, fun fuel => ?_, h.pass fun hf' hi => ?_, by omega⟩
      · rw [refreshSlots, if_neg hend, hslot]
        simp only [hfind, hsame, ↓reduceIte]
      · rw [hslot] at hi
        rw [← Option.some.inj hi, hn, hsame]
    · -- one more hidden file is where it belongs
      have hd' : TargetsDistinct s.sb.place s.f.slot := by
        rw [h.sb]
        exact h.moved.distinct hd
      have hlt := unplaced_swap_lt hd' hslot hn hsame hnl (AufsFile.slot_swap_perm hb hnl)
      have hkeep := h.swap hslot hn hb hnl (by omega)
      have hlen' : (s.f.swap bindex n).fiHfile.length = s.f.fiHfile.length := hkeep.length.trans hlen.symm
      refine ⟨_, _, fun fuel => ?_, hkeep, ?_⟩
      · rw [refreshSlots, if_neg hend, hslot]
        simp only [hfind, hsame, ↓reduceIte]
      · show (s.f.swap bindex n).fiHfile.length - _ +
          (unplaced s.sb.place (s.f.swap bindex n).slot (s.f.swap bindex n).fiHfile.length).card < _
        rw [hlen']
        split <;> omega

/-- **The loop comes to an end**, with everything in its place, by induction on what is left to do: the slots
    ahead and those that do not hold what belongs there. -/
theorem refreshSlots_run (hd : TargetsDistinct s₀.sb.place s₀.f.slot) (hw : s₀.sb.siBranch.length ≤ s₀.f.fiHfile.length)
    (hstop : s₀.f.fiBend < s₀.f.fiHfile.length) (hall : ∀ i hf, s₀.f.slot i = some hf → ∃ n, s₀.sb.place hf = some n) :
    ∀ (left bindex : Nat) (s : FileSt), Remapping s₀ bindex s →
      s.f.fiHfile.length - bindex + (unplaced s.sb.place s.f.slot s.f.fiHfile.length).card ≤ left →
      ∃ t, (∀ fuel, left < fuel → refreshSlots fuel bindex s = (true, t)) ∧ t.sb = s₀.sb ∧
        t.f.fiHfile.length = s₀.f.fiHfile.length ∧ Rearranged s₀.f.slot t.f.slot ∧
        ∀ i hf, t.f.slot i = some hf → t.sb.place hf = some i := by
  intro left
  induction left with
  | zero =>
    intro bindex s h hleft
    have hlen := h.length
    have hbend := h.fiBend
    have hend : s.f.fiBend < bindex := by omega
    refine ⟨s, fun fuel hfuel => ?_, h.sb, h.length, h.moved, fun i hf hi => h.ended hend hi⟩
    obtain ⟨k, rfl⟩ : ∃ k, fuel = k + 1 := ⟨fuel - 1, by omega⟩
    rw [refreshSlots, if_pos hend]
  | succ left ih =>
    intro bindex s h hleft
    by_cases hend : s.f.fiBend < bindex
    · refine ⟨s, fun fuel hfuel => ?_, h.sb, h.length, h.moved, fun i hf hi => h.ended hend hi⟩
      obtain ⟨k, rfl⟩ : ∃ k, fuel = k + 1 := ⟨fuel - 1, by omega⟩
      rw [refreshSlots, if_pos hend]
    · obtain ⟨bindex', s', hstep, hkeep, hless⟩ := h.step hd hw hstop hall hend
      obtain ⟨t, hrun, hrest⟩ := ih bindex' s' hkeep (by omega)
      refine ⟨t, fun fuel hfuel => ?_, hrest⟩
      obtain ⟨k, rfl⟩ : ∃ k, fuel = k + 1 := ⟨fuel - 1, by omega⟩
      rw [hstep]
      exact hrun k (by omega)

end

/-! ## The range -/

section

variable {dInode : Nat → Bool} {s : FileSt}

/-- The scan from below stops at the first slot in use, and closes nothing. -/
theorem closeDeadUp_live (hl : ∀ i hf, s.f.slot i = some hf → dInode hf.hfFile.id = true) :
    ∀ count bindex : Nat, (∃ i, bindex ≤ i ∧ i < bindex + count ∧ (s.f.slot i).isSome) →
      ∃ n, closeDeadUp dInode count bindex s = (n, s) ∧ (s.f.slot n).isSome ∧
        ∀ i, bindex ≤ i → i < n → s.f.slot i = none := by
  intro count
  induction count with
  | zero =>
    rintro bindex ⟨i, hge, hlt, -⟩
    omega
  | succ count ih =>
    rintro bindex ⟨i, hge, hlt, hi⟩
    unfold closeDeadUp
    cases hslot : s.f.slot bindex with
    | none =>
      have hne : i ≠ bindex := by
        rintro rfl
        rw [hslot] at hi
        cases hi
      obtain ⟨n, hrun, hn, hempty⟩ := ih (bindex + 1) ⟨i, by omega, by omega, hi⟩
      refine ⟨n, hrun, hn, fun k hk hkn => ?_⟩
      by_cases hkb : k = bindex
      · rw [hkb, hslot]
      · exact hempty k (by omega) hkn
    | some hf =>
      refine ⟨bindex, ?_, by rw [hslot]; rfl, fun k hk hkn => by omega⟩
      simp only [hl bindex hf hslot, ↓reduceIte]

/-- The scan from above stops at the last one. -/
theorem closeDeadDown_live (hl : ∀ i hf, s.f.slot i = some hf → dInode hf.hfFile.id = true) {bstart : Nat}
    (hb : (s.f.slot bstart).isSome) : ∀ count : Nat, 0 < count →
      ∃ n : Nat, closeDeadDown dInode bstart count s = ((n : Int), s) ∧ (s.f.slot n).isSome ∧
        ∀ i, n < i → i < bstart + count → s.f.slot i = none := by
  intro count
  induction count with
  | zero =>
    intro h
    omega
  | succ count ih =>
    intro _
    unfold closeDeadDown
    cases hslot : s.f.slot (bstart + count) with
    | none =>
      have hpos : 0 < count := by
        rcases Nat.eq_zero_or_pos count with rfl | h
        · rw [Nat.add_zero] at hslot
          rw [hslot] at hb
          cases hb
        · exact h
      obtain ⟨n, hrun, hn, hempty⟩ := ih hpos
      refine ⟨n, hrun, hn, fun k hk hkn => ?_⟩
      by_cases hkb : k = bstart + count
      · rw [hkb, hslot]
      · exact hempty k hk (by omega)
    | some hf =>
      refine ⟨bstart + count, ?_, by rw [hslot]; rfl, fun k hk hkn => by omega⟩
      simp only [hl _ hf hslot, ↓reduceIte]

/-- **The new range** is from the first slot in use to the last, when all of them are slots of branches and
    have an inode; nothing else is changed. -/
theorem refreshRange_live {o : RefreshIo} {brid : Int} (hm : o.mmapped = false) (hu : o.unhashed = false)
    (hl : ∀ i hf, s.f.slot i = some hf → o.dInode hf.hfFile.id = true ∧ i < s.sb.siBranch.length)
    (hsome : ∃ i, (s.f.slot i).isSome) :
    ∃ b e : Nat, refreshRange o brid s = { s with f := { s.f with fiBstart := b, fiBend := e } } ∧
      IsLeast { i | (s.f.slot i).isSome } b ∧ IsGreatest { i | (s.f.slot i).isSome } e := by
  have hlive : ∀ i hf, s.f.slot i = some hf → o.dInode hf.hfFile.id = true := fun i hf hi => (hl i hf hi).1
  have hin : ∀ i, (s.f.slot i).isSome → i < s.sb.siBranch.length := by
    intro i hi
    obtain ⟨hf, hf'⟩ := Option.isSome_iff_exists.mp hi
    exact (hl i hf hf').2
  obtain ⟨i, hi⟩ := hsome
  obtain ⟨b, hup, hb, hbelow⟩ := closeDeadUp_live hlive s.sb.siBranch.length 0
    ⟨i, Nat.zero_le _, by rw [Nat.zero_add]; exact hin i hi, hi⟩
  have hstart : refreshStart o brid s = (b, s) := by
    unfold refreshStart
    rw [hm, hu]
    exact hup
  let s' : FileSt := { s with f := { s.f with fiBstart := b } }
  have hblt := hin b hb
  obtain ⟨e, hdown, he, habove⟩ := @closeDeadDown_live o.dInode s' hlive b hb (s.sb.siBranch.length - b) (by omega)
  refine ⟨b, e, ?_, ⟨hb, fun k hk => ?_⟩, ⟨he, fun k hk => ?_⟩⟩
  · unfold refreshRange
    rw [hstart]
    dsimp only
    rw [hdown]
  · by_contra hlt
    have hk : (s.f.slot k).isSome := hk
    rw [hbelow k (Nat.zero_le _) (by omega)] at hk
    cases hk
  · by_contra hlt
    have hk : (s.f.slot k).isSome := hk
    have hklt := hin k hk
    have hnone : s.f.slot k = none := habove k (by omega) (by omega)
    rw [hnone] at hk
    cases hk

end

/-! ## The file afterwards -/

section

variable {o : RefreshIo} {s : FileSt}

/-- What is behind the old range was empty, so that the new array holds the same hidden files. -/
theorem OpenFiles.regrown_slot (h : OpenFiles o s) (i : Nat) : (regrown s).f.slot i = s.f.slot i := by
  have hstop := h.stop
  show (regrow s.f.fiHfile (s.f.fiBend + 1).toNat s.sb.siBranch.length none).getD i none = s.f.slot i
  unfold regrow
  split
  · rfl
  · rename_i hgrow
    by_cases hi : i < (s.f.fiBend + 1).toNat
    · rw [List.getD_append _ _ _ _ (by rw [List.length_take]; omega), List.getD_eq_getElem?_getD,
        List.getElem?_take_of_lt hi, ← List.getD_eq_getElem?_getD]
      rfl
    · have hnone : s.f.slot i = none := by
        cases hs : s.f.slot i with
        | none => rfl
        | some hf =>
          have hin := h.inRange i hf hs
          omega
      rw [hnone, List.getD_append_right _ _ _ _ (by rw [List.length_take]; omega), List.getD_eq_getElem?_getD,
        List.getElem?_replicate]
      split <;> rfl

/-- It has a slot for each branch, and those of the old range. -/
theorem OpenFiles.regrown_length (h : OpenFiles o s) : s.sb.siBranch.length ≤ (regrown s).f.fiHfile.length ∧
    s.f.fiBend < (regrown s).f.fiHfile.length := by
  have hstop := h.stop
  show s.sb.siBranch.length ≤ (regrow _ _ _ _).length ∧ s.f.fiBend < ((regrow s.f.fiHfile _ _ _).length : Nat)
  unfold regrow
  split
  · exact ⟨by omega, hstop⟩
  · rw [List.length_append, List.length_take, List.length_replicate]
    omega

/-- A branch that is still there has an index. -/
theorem FileSb.place_of_mem {sb : FileSb} {hf : AuHfile} (h : hf.hfBr ∈ sb.siBranch) : ∃ n, sb.place hf = some n :=
  Option.isSome_iff_exists.mp (List.isSome_idxOf?.mpr h)

/-- **The hidden files are where their branches are**: the remapping of a mapped or unhashed file apart, it comes
    to an end, and leaves each hidden file in the slot of its branch, once, and a range that is that of the slots
    in use. -/
theorem remapFile_places (h : OpenFiles o s) (hm : o.mmapped = false) (hu : o.unhashed = false) :
    ∃ bound t, (∀ fuel, bound < fuel → remapFile o fuel s = some t) ∧ Remapped s t := by
  have hslots : (regrown s).f.slot = s.f.slot := funext h.regrown_slot
  have hsb : (regrown s).sb = s.sb := rfl
  obtain ⟨hw, hend⟩ := h.regrown_length
  obtain ⟨hf₀, hfirst⟩ := h.first
  -- the loop
  have hd : TargetsDistinct (regrown s).sb.place (regrown s).f.slot := by
    rw [hslots]
    intro i j hf hf' n hi hj hn hn'
    exact h.distinct i j hf hf' hi hj (FileSb.auFindBindex_inj hn hn')
  have hall : ∀ i hf, (regrown s).f.slot i = some hf → ∃ n, (regrown s).sb.place hf = some n := by
    intro i hf hi
    rw [hslots] at hi
    exact FileSb.place_of_mem (h.branch i hf hi)
  have hinit : Remapping (regrown s) (regrown s).f.fiBstart.toNat (regrown s) :=
    { sb := rfl
      fiBend := rfl
      length := rfl
      moved := Rearranged.refl _
      ahead := by
        intro i hf hi
        rw [hslots] at hi
        have hin := h.inRange i hf hi
        have hstart := h.start
        refine Or.inl ⟨?_, hin.2⟩
        show s.f.fiBstart.toNat ≤ i
        omega }
  let bound := (regrown s).f.fiHfile.length - (regrown s).f.fiBstart.toNat +
    (unplaced (regrown s).sb.place (regrown s).f.slot (regrown s).f.fiHfile.length).card
  obtain ⟨t, hrun, htsb, -, hmoved, hplaced⟩ := refreshSlots_run hd hw hend hall bound _ _ hinit (le_refl _)
  rw [hsb] at htsb
  rw [hslots] at hmoved
  have hiff : ∀ i hf, t.f.slot i = some hf ↔ (∃ j, s.f.slot j = some hf) ∧ s.sb.auFindBindex hf.hfBr = some i := by
    intro i hf
    rw [htsb] at hplaced
    exact hmoved.placed_iff hplaced
  -- the range
  have hl : ∀ i hf, t.f.slot i = some hf → o.dInode hf.hfFile.id = true ∧ i < t.sb.siBranch.length := by
    intro i hf hi
    obtain ⟨⟨j, hj⟩, hn⟩ := (hiff i hf).mp hi
    rw [htsb]
    exact ⟨h.inode j hf hj, FileSb.lt_of_auFindBindex hn⟩
  have hsome : ∃ i, (t.f.slot i).isSome := by
    obtain ⟨n, hn⟩ := FileSb.place_of_mem (h.branch _ _ hfirst)
    exact ⟨n, by rw [(hiff n hf₀).mpr ⟨⟨_, hfirst⟩, hn⟩]; rfl⟩
  obtain ⟨b, e, hrange, hleast, hgreatest⟩ :=
    @refreshRange_live t o (s.sb.brId hf₀.hfBr) hm hu hl hsome
  refine ⟨bound, { t with f := { t.f with fiBstart := b, fiBend := e } }, fun fuel hfuel => ?_, ?_⟩
  · have hptr : (regrown s).f.hFptr (regrown s).f.fiBstart = some hf₀ := by
      show (if s.f.fiBstart < 0 then none else (regrown s).f.slot s.f.fiBstart.toNat) = _
      rw [if_neg (not_lt.mpr h.start), hslots, hfirst]
    unfold remapFile
    simp only [hptr, hrun fuel hfuel, ↓reduceIte, hsb]
    rw [hrange]
  · exact { slots := hiff, sb := htsb, first := ⟨b, rfl, hleast⟩, last := ⟨e, rfl, hgreatest⟩ }

end

/-! ## Two branches that change places behind a new one -/

/-- A regular file of the branches 5 and 7, that are now the third and the second. -/
def reorderedFile : FileSt :=
  { sb := ⟨[9, 7, 5], 2, fun br => br, fun _ => 1⟩
    f := ⟨1, false, 0, 1, [some ⟨⟨0, ⟨5, [], none⟩, 0⟩, 5⟩, some ⟨⟨1, ⟨7, [], none⟩, 0⟩, 7⟩], 1⟩ }

def reorderedIo : RefreshIo :=
  let opens : OpenIo := ⟨false, .error (- ENOENT), 0⟩
  { nomem := false, fuel := 9, dInode := fun _ => true, mmapped := false, unhashed := false, ibstart := 1,
    testRo := false, copyup := 0, plinked := false, cpup := 0, hiWh := none, whOpen := opens,
    dinfo := { Dinfo.alloc with diBstart := 1, diBend := 2 }, starts := Int.one_nonneg, hOpen := fun _ => opens }

theorem reorderedFile_slot {i : Nat} {hf : AuHfile} (h : reorderedFile.f.slot i = some hf) :
    (i = 0 ∧ hf.hfBr = 5) ∨ (i = 1 ∧ hf.hfBr = 7) := by
  obtain ⟨hlt, heq⟩ := List.getElem?_eq_some_iff.mp (AufsFile.slot_eq_some.mp h)
  have hlt : i < 2 := hlt
  rcases (by omega : i = 0 ∨ i = 1) with rfl | rfl
  · rw [← Option.some.inj heq]
    exact Or.inl ⟨rfl, rfl⟩
  · rw [← Option.some.inj heq]
    exact Or.inr ⟨rfl, rfl⟩

theorem reorderedFile_open : OpenFiles reorderedIo reorderedFile where
  start := le_refl _
  first := ⟨_, rfl⟩
  stop := by decide
  inRange i hf h := by
    show (0 : Int) ≤ i ∧ (i : Int) ≤ 1
    rcases reorderedFile_slot h with ⟨hi, -⟩ | ⟨hi, -⟩ <;> omega
  distinct i j hf hf' h h' heq := by
    rcases reorderedFile_slot h with ⟨hi, hbr⟩ | ⟨hi, hbr⟩ <;>
      rcases reorderedFile_slot h' with ⟨hj, hbr'⟩ | ⟨hj, hbr'⟩ <;> omega
  inode _ _ _ := rfl
  branch i hf h := by
    rcases reorderedFile_slot h with ⟨-, hbr⟩ | ⟨-, hbr⟩ <;> rw [hbr] <;> decide

theorem reorderedFile_places : ∃ bound t, (∀ fuel, bound < fuel → remapFile reorderedIo fuel reorderedFile = some t) ∧
    Remapped reorderedFile t :=
  remapFile_places reorderedFile_open rfl rfl

end KernelPatches.Aufs
