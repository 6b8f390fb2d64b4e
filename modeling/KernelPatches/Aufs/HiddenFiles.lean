/-
  aufs: what a call does to the hidden files and to the counts of the branches.

  A call is `Balanced` when the count of every branch changes by as much as the slots of the file that refer to
  it.  Emptying a slot is, moving one is, and opening a hidden file and putting it into its slot is, but only if
  the open does not stop between: `StopsAtError` is the one that does.

  `SoundFile` is what a file is between two calls: its slots in use are between `fi_bstart` and `fi_bend`, they
  refer to branches that exist, and the array is long enough as long as the file is of the present generation.

  * `auHOpen_cases`           — a hidden file is opened, or the branches are as they were;
  * `closeRange_balanced`, `refreshSlots_spec`, `reopenAt_spec`, … — one lemma for each step;
  * `refreshFile_spec`, `auRevalAndLockFdi_spec`, `auReadyToWrite_spec`, `auDoOpen_spec`, `auFinfoFin_spec`
                              — the calls keep the balance and a sound file.
-/
import KernelPatches.Aufs.Reopen
import KernelPatches.Lib.Slots

namespace KernelPatches.Aufs

open KernelPatches.Lib

/-! ## Balance -/

/-- How many slots of the file refer to a branch: `hf_br`. -/
def AufsFile.refs (f : AufsFile) (br : Nat) : Nat := Lib.refs AuHfile.hfBr br f.fiHfile

/-- The branches the slots refer to exist. -/
def Live (sb : FileSb) (f : AufsFile) : Prop := ∀ i hf, f.slot i = some hf → hf.hfBr ∈ sb.siBranch

/-- **The counts change with the slots.** -/
structure Balanced (s s' : FileSt) : Prop where
  branches : s'.sb.siBranch = s.sb.siBranch
  generation : s'.sb.siGeneration = s.sb.siGeneration
  fMode : s'.f.fMode = s.f.fMode
  isDir : s'.f.isDir = s.f.isDir
  counts : ∀ br, s'.sb.brCount br + s.f.refs br = s.sb.brCount br + s'.f.refs br
  live : Live s.sb s.f → Live s'.sb s'.f

/-- Every slot is empty or as it was. -/
def Shrinks (f f' : AufsFile) : Prop := ∀ i, f'.slot i = none ∨ f'.slot i = f.slot i

theorem Balanced.refl (s : FileSt) : Balanced s s := ⟨rfl, rfl, rfl, rfl, fun _ => rfl, id⟩

theorem Balanced.trans {s t u : FileSt} (h : Balanced s t) (h' : Balanced t u) : Balanced s u where
  branches := h'.branches.trans h.branches
  generation := h'.generation.trans h.generation
  fMode := h'.fMode.trans h.fMode
  isDir := h'.isDir.trans h.isDir
  counts br := by
    have h₁ := h.counts br
    have h₂ := h'.counts br
    omega
  live := h'.live ∘ h.live

/-- Nothing but the range and the generation of the file is changed. -/
theorem Balanced.of_slots {sb : FileSb} {f f' : AufsFile} (h : f'.fiHfile = f.fiHfile) (hm : f'.fMode = f.fMode)
    (hd : f'.isDir = f.isDir) : Balanced ⟨sb, f⟩ ⟨sb, f'⟩ :=
  ⟨rfl, rfl, hm, hd, fun br => by rw [AufsFile.refs, AufsFile.refs, h], fun hl i hf hs => hl i hf (by
    rw [AufsFile.slot, h] at hs
    exact hs)⟩

section

variable {s : FileSt} {b i : Nat} {br : Nat}

theorem auBrPut_brCount {sb : FileSb} (hf : AuHfile) :
    (sb.auBrPut hf.hfBr).brCount br = sb.brCount br - (refOf AuHfile.hfBr br (some hf) : Nat) := by
  show Function.update sb.brCount hf.hfBr (sb.brCount hf.hfBr - 1) br = _
  rw [refOf_some, Function.update_apply]
  by_cases h : hf.hfBr = br
  · rw [if_pos h.symm, if_pos h, h]
    rfl
  · rw [if_neg (Ne.symm h), if_neg h]
    simp

/-- The branch of a hidden file that is taken out is put. -/
theorem auSetHFptr_brCount {val : Option HiddenFile} :
    (auSetHFptr s b val).sb.brCount br = s.sb.brCount br - (refOf AuHfile.hfBr br (s.f.slot b) : Nat) := by
  unfold auSetHFptr
  cases s.f.slot b with
  | none => rw [refOf_none]; simp
  | some hf => exact auBrPut_brCount hf

theorem auSetHFptr_siGeneration {val : Option HiddenFile} :
    (auSetHFptr s b val).sb.siGeneration = s.sb.siGeneration := by
  unfold auSetHFptr
  cases s.f.slot b <;> rfl

theorem length_auSetHFptr {val : Option HiddenFile} :
    (auSetHFptr s b val).f.fiHfile.length = s.f.fiHfile.length := List.length_set

theorem auSetHFptr_shrinks : Shrinks s.f (auSetHFptr s b none).f := fun i => by
  by_cases h : i = b
  · rw [h]
    exact Or.inl slot_auSetHFptr_self
  · exact Or.inr (slot_auSetHFptr_ne h)

theorem Shrinks.refl (f : AufsFile) : Shrinks f f := fun _ => Or.inr rfl

theorem Shrinks.trans {f g k : AufsFile} (h : Shrinks f g) (h' : Shrinks g k) : Shrinks f k := fun i => by
  rcases h' i with h' | h'
  · exact Or.inl h'
  · rw [h']
    exact h i

theorem Shrinks.some {f f' : AufsFile} {hf : AuHfile} (h : Shrinks f f') (hs : f'.slot i = some hf) :
    f.slot i = Option.some hf := by
  rcases h i with h | h
  · rw [h] at hs
    cases hs
  · rw [← h]
    exact hs

/-- Emptying a slot is balanced. -/
theorem auSetHFptr_balanced : Balanced s (auSetHFptr s b none) where
  branches := auSetHFptr_siBranch
  generation := auSetHFptr_siGeneration
  fMode := rfl
  isDir := rfl
  counts br := by
    rw [auSetHFptr_brCount]
    show _ = s.sb.brCount br + (Lib.refs AuHfile.hfBr br (s.f.fiHfile.set b none) : Nat)
    by_cases hb : b < s.f.fiHfile.length
    · have hset : Lib.refs AuHfile.hfBr br (s.f.fiHfile.set b none) + refOf AuHfile.hfBr br (s.f.slot b) =
          s.f.refs br + refOf AuHfile.hfBr br none := refs_set hb none
      rw [refOf_none] at hset
      omega
    · have hnone : s.f.slot b = none := List.getD_eq_default _ _ (by omega)
      have hsame : s.f.fiHfile.set b none = s.f.fiHfile := List.set_eq_of_length_le (by omega)
      rw [hnone, hsame, refOf_none, AufsFile.refs]
      simp
  live hl i hf hs := by
    rw [auSetHFptr_siBranch]
    exact hl i hf (auSetHFptr_shrinks.some hs)

end

/-! ## Moving and closing -/

/-- Slots were moved or emptied, and nothing else was done. -/
structure MovesSlots (s s' : FileSt) : Prop where
  balanced : Balanced s s'
  comes : ∀ i hf, s'.f.slot i = some hf → ∃ j, s.f.slot j = some hf
  length : s'.f.fiHfile.length = s.f.fiHfile.length
  fiBstart : s'.f.fiBstart = s.f.fiBstart
  fiBend : s'.f.fiBend = s.f.fiBend
  fiGeneration : s'.f.fiGeneration = s.f.fiGeneration

theorem MovesSlots.refl (s : FileSt) : MovesSlots s s := ⟨Balanced.refl s, fun i _ hs => ⟨i, hs⟩, rfl, rfl, rfl, rfl⟩

theorem MovesSlots.trans {s t u : FileSt} (h : MovesSlots s t) (h' : MovesSlots t u) : MovesSlots s u where
  balanced := h.balanced.trans h'.balanced
  comes i hf hs := by
    obtain ⟨j, hj⟩ := h'.comes i hf hs
    exact h.comes j hf hj
  length := h'.length.trans h.length
  fiBstart := h'.fiBstart.trans h.fiBstart
  fiBend := h'.fiBend.trans h.fiBend
  fiGeneration := h'.fiGeneration.trans h.fiGeneration

/-- Slots were emptied, and nothing else was done. -/
structure Closes (s s' : FileSt) : Prop extends MovesSlots s s' where
  shrinks : Shrinks s.f s'.f

theorem Closes.refl (s : FileSt) : Closes s s := ⟨MovesSlots.refl s, Shrinks.refl _⟩

theorem Closes.trans {s t u : FileSt} (h : Closes s t) (h' : Closes t u) : Closes s u :=
  ⟨h.toMovesSlots.trans h'.toMovesSlots, h.shrinks.trans h'.shrinks⟩

/-- What is empty stays so. -/
theorem Closes.empty {s t : FileSt} {i : Nat} (h : Closes s t) (hi : s.f.slot i = none) : t.f.slot i = none := by
  rcases h.shrinks i with hn | hsame
  · exact hn
  · exact hsame.trans hi

theorem auSetHFptr_closes {s : FileSt} {b : Nat} : Closes s (auSetHFptr s b none) :=
  ⟨⟨auSetHFptr_balanced, fun i _ hs => ⟨i, auSetHFptr_shrinks.some hs⟩, length_auSetHFptr, rfl, rfl, rfl⟩,
    auSetHFptr_shrinks⟩

section

variable {s : FileSt} {count bindex i : Nat}

/-- **The closing loop.**  The slots of the range are empty. -/
theorem closeSlots_spec : ∀ (count bindex : Nat) (s : FileSt), Closes s (closeSlots count bindex s) ∧
    ∀ i, bindex ≤ i → i < bindex + count → (closeSlots count bindex s).f.slot i = none := by
  intro count
  induction count with
  | zero => exact fun bindex s => ⟨Closes.refl s, fun i h h' => by omega⟩
  | succ count ih =>
    intro bindex s
    obtain ⟨hcl, hempty⟩ := ih (bindex + 1) (auSetHFptr s bindex none)
    refine ⟨auSetHFptr_closes.trans hcl, fun i h h' => ?_⟩
    by_cases hi : i = bindex
    · -- the first one was emptied before
      rw [hi]
      exact hcl.empty slot_auSetHFptr_self
    · exact hempty i (by omega) (by omega)

theorem closeRange_closes {bstart bend : Int} : Closes s (closeRange bstart bend s) :=
  (closeSlots_spec _ _ s).1

theorem closeRange_empty {bstart bend : Int} (h : bstart ≤ i) (h' : i ≤ bend) :
    (closeRange bstart bend s).f.slot i = none :=
  (closeSlots_spec _ _ s).2 i (by omega) (by omega)

end

/-! ## Opening -/

/-- **The open stops between**: the branch is counted, and FMODE_EXEC is set in an error pointer. -/
def StopsAtError (o : OpenIo) (fMode : Nat) : Prop :=
  hasMode fMode fmodeExec = true ∧ o.enoent = false ∧ ∃ err, o.dentryOpen = .error err

/-- The hidden file is there and is opened. -/
def Opens (o : OpenIo) (fMode : Nat) : Prop :=
  o.enoent = false ∧ (∃ hFile, o.dentryOpen = .ok hFile) ∧ (hasMode fMode fmodeExec = true → o.denyWrite = 0)

theorem auBrGet_auBrPut (sb : FileSb) (br : Nat) : (sb.auBrGet br).auBrPut br = sb := by
  unfold FileSb.auBrGet FileSb.auBrPut
  simp

section

variable {o : OpenIo} {d : Dinfo} {sb : FileSb}

/-- **Opening a hidden file**: it is open and its branch is counted, or nothing was done. -/
theorem auHOpen_cases {bindex : Int} {file : Option Nat} (h : ∀ m, file = some m → ¬ StopsAtError o m) :
    (∃ hFile br, auHOpen o d bindex file sb = (.ok hFile, sb.auBrGet br) ∧
      sb.siBranch[bindex.toNat]? = some br ∧ (d.hDptr bindex.toNat).isSome = true ∧
      ∀ m, file = some m → Opens o m) ∨
    ∃ r, auHOpen o d bindex file sb = (r, sb) ∧ ∀ hFile, r ≠ .ok hFile := by
  unfold auHOpen
  cases hd : d.hDptr bindex.toNat with
  | none => exact Or.inr ⟨.oops, rfl, fun _ => by simp⟩
  | some hDentry =>
    cases hn : o.enoent with
    | true => exact Or.inr ⟨.err (- ENOENT), rfl, fun _ => by simp⟩
    | false =>
      cases hbr : sb.siBranch[bindex.toNat]? with
      | none => exact Or.inr ⟨.oops, rfl, fun _ => by simp⟩
      | some br =>
        cases ho : o.dentryOpen with
        | error err =>
          -- the file is not open for execution, and the branch is put again
          have hm : file.any (hasMode · fmodeExec) = false := by
            cases file with
            | none => rfl
            | some m =>
              cases hm : hasMode m fmodeExec with
              | false => exact hm
              | true => exact absurd ⟨hm, hn, err, ho⟩ (h m rfl)
          refine Or.inr ⟨.err err, ?_, fun _ => by simp⟩
          simp [hm, auBrGet_auBrPut]
        | ok hFile =>
          cases hm : file.any (hasMode · fmodeExec) with
          | false =>
            refine Or.inl ⟨hFile, br, by simp, rfl, rfl, fun m hf => ⟨hn, ⟨hFile, ho⟩, fun hx => ?_⟩⟩
            rw [hf, Option.any_some, hx] at hm
            cases hm
          | true =>
            by_cases hw : o.denyWrite = 0
            · refine Or.inl ⟨{ hFile with fMode := hFile.fMode ||| fmodeExec }, br, by simp [hw], rfl, rfl,
                fun m hf => ⟨hn, ⟨hFile, ho⟩, fun _ => hw⟩⟩
            · exact Or.inr ⟨.err o.denyWrite, by simp [hw, auBrGet_auBrPut], fun _ => by simp⟩

/-- A hidden file is opened and put into its slot. -/
theorem openSet_balanced {f : AufsFile} {b br : Nat} {hFile : HiddenFile} (hb : b < f.fiHfile.length)
    (hbr : sb.siBranch[b]? = some br) : Balanced ⟨sb, f⟩ (auSetHFptr ⟨sb.auBrGet br, f⟩ b (some hFile)) where
  branches := auSetHFptr_siBranch
  generation := auSetHFptr_siGeneration
  fMode := rfl
  isDir := rfl
  counts x := by
    rw [auSetHFptr_brCount]
    have hget : (sb.auBrGet br).brCount x = sb.brCount x + (refOf AuHfile.hfBr x (some ⟨hFile, br⟩) : Nat) := by
      show Function.update sb.brCount br (sb.brCount br + 1) x = _
      rw [refOf_some, Function.update_apply]
      by_cases h : br = x
      · rw [if_pos h.symm, if_pos h, h]
        rfl
      · rw [if_neg (Ne.symm h), if_neg h]
        simp
    have hval : (some hFile).bind (fun h => (sb.auBrGet br).siBranch[b]?.map fun br => (⟨h, br⟩ : AuHfile)) =
        some ⟨hFile, br⟩ := by
      show (sb.siBranch[b]?.map fun br => (⟨hFile, br⟩ : AuHfile)) = _
      rw [hbr]
      rfl
    show ((sb.auBrGet br).brCount x - (refOf AuHfile.hfBr x (f.slot b) : Nat) : Int) + f.refs x =
      sb.brCount x + (Lib.refs AuHfile.hfBr x (f.fiHfile.set b _) : Nat)
    rw [hval, hget]
    have hset : Lib.refs AuHfile.hfBr x (f.fiHfile.set b (some ⟨hFile, br⟩)) + refOf AuHfile.hfBr x (f.slot b) =
        f.refs x + refOf AuHfile.hfBr x (some ⟨hFile, br⟩) := refs_set hb _
    omega
  live hl i hf hs := by
    rw [auSetHFptr_siBranch]
    by_cases hi : i = b
    · rw [hi, @slot_auSetHFptr_some ⟨sb.auBrGet br, f⟩ b hFile br hb hbr] at hs
      rw [← Option.some.inj hs]
      exact List.mem_of_getElem? hbr
    · rw [slot_auSetHFptr_ne hi] at hs
      exact hl i hf hs

end

/-! ## SoundFile files -/

/-- **A file between two calls.**  Its slots in use are in its range, the range is in the array, and its
    generation is a past one or the present one. -/
structure SoundFile (sb : FileSb) (f : AufsFile) : Prop where
  inRange : ∀ i hf, f.slot i = some hf → 0 ≤ f.fiBstart ∧ f.fiBstart ≤ i ∧ i ≤ f.fiBend
  bend : f.fiBend < f.fiHfile.length
  past : f.fiGeneration ≤ sb.siGeneration

/-- The array has a slot for every branch. -/
def Wide (sb : FileSb) (f : AufsFile) : Prop := sb.siBranch.length ≤ f.fiHfile.length

/-- A call on a file: balanced, with a sound file again, of the same generation or of the present one. -/
structure KeepsFile (s s' : FileSt) : Prop where
  balanced : Balanced s s'
  sound : SoundFile s'.sb s'.f
  length : s'.f.fiHfile.length = s.f.fiHfile.length
  gen : s'.f.fiGeneration = s.f.fiGeneration ∨ s'.f.fiGeneration = s.sb.siGeneration

section

variable {s s' t : FileSt}

theorem KeepsFile.refl (h : SoundFile s.sb s.f) : KeepsFile s s := ⟨Balanced.refl s, h, rfl, Or.inl rfl⟩

theorem KeepsFile.trans (h : KeepsFile s s') (h' : KeepsFile s' t) : KeepsFile s t where
  balanced := h.balanced.trans h'.balanced
  sound := h'.sound
  length := h'.length.trans h.length
  gen := by
    rcases h'.gen with h' | h'
    · rw [h']
      exact h.gen
    · exact Or.inr (h'.trans h.balanced.generation)

/-- The generation of the file is updated. -/
theorem KeepsFile.figen (h : KeepsFile s s') :
    KeepsFile s { s' with f := { s'.f with fiGeneration := s'.sb.siGeneration } } where
  balanced := h.balanced.trans (Balanced.of_slots rfl rfl rfl)
  sound := ⟨h.sound.inRange, h.sound.bend, le_refl _⟩
  length := h.length
  gen := Or.inr h.balanced.generation

theorem Closes.keeps (h : Closes s s') (hs : SoundFile s.sb s.f) : KeepsFile s s' where
  balanced := h.balanced
  sound :=
    { inRange := fun i hf hi => by
        rw [h.fiBstart, h.fiBend]
        exact hs.inRange i hf (h.shrinks.some hi)
      bend := by
        rw [h.fiBend, h.length]
        exact hs.bend
      past := by
        rw [h.fiGeneration, h.balanced.generation]
        exact hs.past }
  length := h.length
  gen := Or.inl h.fiGeneration

end

section

variable {o : OpenIo} {d : Dinfo} {s : FileSt}

theorem Dinfo.start_of_hDptr {b : Nat} (h : (d.hDptr b).isSome = true) : 0 ≤ d.diBstart ∧ d.diBstart ≤ b := by
  unfold Dinfo.hDptr at h
  split at h
  · cases h
  · omega

/-- **The reopen of a regular file** where its slot is empty, no hidden file being above: one slot is in use. -/
theorem reopenAt_spec (hs : SoundFile s.sb s.f) (hw : Wide s.sb s.f) (hx : ¬ StopsAtError o s.f.fMode)
    (habove : Opens o s.f.fMode → ∀ i hf, s.f.slot i = some hf → d.diBstart ≤ i) :
    KeepsFile s (reopenAt o d s).2 := by
  unfold reopenAt
  have hx' : ∀ m, some s.f.fMode = some m → ¬ StopsAtError o m := by
    intro m hm
    rw [← Option.some.inj hm]
    exact hx
  rcases @auHOpen_cases o d s.sb d.diBstart _ hx' with ⟨hFile, br, hopen, hbr, hd, hopens⟩ | ⟨r, hopen, hr⟩
  · rw [hopen]
    dsimp only
    obtain ⟨h0, -⟩ := Dinfo.start_of_hDptr hd
    have hlen : d.diBstart.toNat < s.f.fiHfile.length :=
      lt_of_lt_of_le (List.getElem?_eq_some_iff.mp hbr).1 hw
    -- the three steps: start and slot, generation, closing
    let f₀ : AufsFile := { s.f with fiBstart := d.diBstart }
    let s₁ := auSetHFptr ⟨s.sb.auBrGet br, f₀⟩ d.diBstart.toNat (some hFile)
    let s₂ : FileSt := { s₁ with f := { s₁.f with fiGeneration := (s.sb.auBrGet br).siGeneration } }
    have h₀ : Balanced s ⟨s.sb, f₀⟩ := Balanced.of_slots rfl rfl rfl
    have h₁ : Balanced ⟨s.sb, f₀⟩ s₁ := openSet_balanced hlen hbr
    have h₂ : Balanced s₁ s₂ := Balanced.of_slots rfl rfl rfl
    have h₃ : Balanced s s₂ := (h₀.trans h₁).trans h₂
    have hcl : Closes s₂ (closeRange (d.diBstart + 1) s₂.f.fiBend s₂) := closeRange_closes
    refine ⟨(h₃.trans hcl.balanced).trans (Balanced.of_slots rfl rfl rfl), ⟨?_, ?_, ?_⟩, ?_, Or.inr ?_⟩
    · -- a slot in use is the one that was filled
      intro i hf hi
      have hi : (closeRange (d.diBstart + 1) s₂.f.fiBend s₂).f.slot i = some hf := hi
      have hstart : (closeRange (d.diBstart + 1) s₂.f.fiBend s₂).f.fiBstart = d.diBstart := hcl.fiBstart
      show 0 ≤ (closeRange (d.diBstart + 1) s₂.f.fiBend s₂).f.fiBstart ∧
        (closeRange (d.diBstart + 1) s₂.f.fiBend s₂).f.fiBstart ≤ i ∧ (i : Int) ≤ d.diBstart
      rw [hstart]
      by_cases hib : i = d.diBstart.toNat
      · omega
      · have hne : s₁.f.slot i = f₀.slot i := slot_auSetHFptr_ne hib
        have hold : s.f.slot i = some hf := hne.symm.trans (hcl.shrinks.some hi)
        have hge := habove (hopens _ rfl) i hf hold
        have hle := (hs.inRange i hf hold).2.2
        have hnone : (closeRange (d.diBstart + 1) s₂.f.fiBend s₂).f.slot i = none :=
          closeRange_empty (by omega) hle
        rw [hnone] at hi
        cases hi
    · show d.diBstart < ((closeRange (d.diBstart + 1) s₂.f.fiBend s₂).f.fiHfile.length : Nat)
      rw [hcl.length]
      show d.diBstart < ((s.f.fiHfile.set _ _).length : Nat)
      rw [List.length_set]
      omega
    · show (closeRange (d.diBstart + 1) s₂.f.fiBend s₂).f.fiGeneration ≤
        (closeRange (d.diBstart + 1) s₂.f.fiBend s₂).sb.siGeneration
      rw [hcl.fiGeneration, (h₃.trans hcl.balanced).generation]
      exact le_refl _
    · exact hcl.length.trans length_auSetHFptr
    · exact hcl.fiGeneration
  · rw [hopen]
    cases r with
    | ok hFile => exact absurd rfl (hr hFile)
    | err e => exact KeepsFile.refl hs
    | oops => exact KeepsFile.refl hs

/-- **`au_reopen_nondir`** keeps the balance, unless a hidden file is above the start of the dentry. -/
theorem auReopenNondir_spec (hs : SoundFile s.sb s.f) (hw : Wide s.sb s.f) (hx : ¬ StopsAtError o s.f.fMode)
    (habove : Opens o s.f.fMode → ∀ i hf, s.f.slot i = some hf → d.diBstart ≤ i) :
    KeepsFile s (auReopenNondir o d s).2 := by
  unfold auReopenNondir
  split
  · cases hslot : s.f.hFptr d.diBstart with
    | none => exact KeepsFile.refl hs
    | some hf =>
      dsimp only
      split
      · exact KeepsFile.refl hs
      · -- the slot is emptied first
        have hcl : Closes s (auSetHFptr s d.diBstart.toNat none) := auSetHFptr_closes
        have hk := hcl.keeps hs
        refine hk.trans (reopenAt_spec hk.sound ?_ hx fun ho i hf hi => habove ho i hf (hcl.shrinks.some hi))
        show (auSetHFptr s d.diBstart.toNat none).sb.siBranch.length ≤
          (auSetHFptr s d.diBstart.toNat none).f.fiHfile.length
        rw [hk.balanced.branches, hk.length]
        exact hw
  · exact reopenAt_spec hs hw hx habove

end

/-! ## The slots after a change of the branches -/

/-- Every slot in use is the one of its branch. -/
def SlotsPlaced (s : FileSt) : Prop := ∀ i hf, s.f.slot i = some hf → s.sb.auFindBindex hf.hfBr = some i

section

variable {s : FileSt} {i j k : Nat}

theorem FileSb.lt_of_auFindBindex {sb : FileSb} {br : Nat} (h : sb.auFindBindex br = some i) :
    i < sb.siBranch.length := (List.idxOf?_eq_some_iff.mp h).1

theorem FileSb.auBrIndex_le (sb : FileSb) (brId : Int) : (sb.auBrIndex brId).toNat ≤ sb.siBranch.length := by
  unfold FileSb.auBrIndex
  cases h : sb.siBranch.findIdx? (sb.brId · = brId) with
  | none => exact Nat.zero_le _
  | some bindex =>
    obtain ⟨hlt, -⟩ := List.findIdx?_eq_some_iff_getElem.mp h
    exact le_of_lt hlt

theorem AufsFile.slot_swap {f : AufsFile} (hi : i < f.fiHfile.length) (hj : j < f.fiHfile.length) (k : Nat) :
    (f.swap i j).slot k = if k = i then f.slot j else if k = j then f.slot i else f.slot k := by
  show ((f.fiHfile.set j (f.slot i)).set i (f.slot j)).getD k none = _
  rw [List.getD_eq_getElem?_getD, List.getElem?_set, List.getElem?_set, List.length_set]
  by_cases hki : k = i
  · rw [if_pos hki.symm, if_pos hki, if_pos hi]
    rfl
  · rw [if_neg (Ne.symm hki), if_neg hki]
    by_cases hkj : k = j
    · rw [if_pos hkj.symm, if_pos hkj, if_pos hj]
      rfl
    · rw [if_neg (Ne.symm hkj), if_neg hkj, ← List.getD_eq_getElem?_getD]
      rfl

/-- Two slots that change places refer to what they referred to. -/
theorem swap_moves (hi : i < s.f.fiHfile.length) (hj : j < s.f.fiHfile.length) (hne : i ≠ j) :
    MovesSlots s { s with f := s.f.swap i j } := by
  have hcomes : ∀ k hf, (s.f.swap i j).slot k = some hf → ∃ l, s.f.slot l = some hf := by
    intro k hf hk
    rw [AufsFile.slot_swap hi hj] at hk
    split at hk
    · exact ⟨j, hk⟩
    · split at hk
      · exact ⟨i, hk⟩
      · exact ⟨k, hk⟩
  refine ⟨⟨rfl, rfl, rfl, rfl, fun br => ?_, fun hl k hf hk => ?_⟩, hcomes, ?_, rfl, rfl, rfl⟩
  · have hrefs : (s.f.swap i j).refs br = s.f.refs br := refs_swap hi hj hne
    rw [hrefs]
  · obtain ⟨l, hs⟩ := hcomes k hf hk
    exact hl l hf hs
  · show ((s.f.fiHfile.set j _).set i _).length = _
    rw [List.length_set, List.length_set]

/-- **The loop that moves the slots.**  Those it has passed are where their branches are. -/
theorem refreshSlots_spec : ∀ (fuel bindex : Nat) (s : FileSt), s.f.fiBend < s.f.fiHfile.length →
    Wide s.sb s.f →
    (∀ i hf, s.f.slot i = some hf → (bindex ≤ i ∧ i ≤ s.f.fiBend) ∨ s.sb.auFindBindex hf.hfBr = some i) →
    MovesSlots s (refreshSlots fuel bindex s).2 ∧
      ((refreshSlots fuel bindex s).1 = true → SlotsPlaced (refreshSlots fuel bindex s).2) := by
  intro fuel
  induction fuel with
  | zero => exact fun bindex s _ _ _ => ⟨MovesSlots.refl s, fun h => absurd h (by simp [refreshSlots])⟩
  | succ fuel ih =>
    intro bindex s hbend hwide hinv
    unfold refreshSlots
    by_cases hend : s.f.fiBend < bindex
    · rw [if_pos hend]
      refine ⟨MovesSlots.refl s, fun _ i hf hi => ?_⟩
      rcases hinv i hf hi with h | h
      · omega
      · exact h
    rw [if_neg hend]
    cases hslot : s.f.slot bindex with
    | none =>
      refine ih (bindex + 1) s hbend hwide fun i hf hi => ?_
      rcases hinv i hf hi with ⟨h, h'⟩ | h
      · have hne : i ≠ bindex := by
          rintro rfl
          rw [hslot] at hi
          cases hi
        exact Or.inl ⟨by omega, h'⟩
      · exact Or.inr h
    | some hf =>
      dsimp only
      cases hfind : s.sb.auFindBindex hf.hfBr with
      | none =>
        -- the branch is gone
        have hcl : Closes s (auSetHFptr s bindex none) := auSetHFptr_closes
        have hrest := ih (bindex + 1) (auSetHFptr s bindex none) (by rw [hcl.fiBend, hcl.length]; exact hbend)
          (by rw [Wide, hcl.balanced.branches, hcl.length]; exact hwide) (by
            intro i hf' hi
            have hne : i ≠ bindex := by
              rintro rfl
              rw [slot_auSetHFptr_self] at hi
              cases hi
            rw [slot_auSetHFptr_ne hne] at hi
            rw [FileSb.auFindBindex, auSetHFptr_siBranch]
            rcases hinv i hf' hi with ⟨h, h'⟩ | h
            · exact Or.inl ⟨by omega, h'⟩
            · exact Or.inr h)
        exact ⟨hcl.toMovesSlots.trans hrest.1, hrest.2⟩
      | some newBindex =>
        dsimp only
        by_cases hnew : newBindex = bindex
        · rw [if_pos hnew]
          refine ih (bindex + 1) s hbend hwide fun i hf' hi => ?_
          rcases hinv i hf' hi with ⟨h, h'⟩ | h
          · by_cases hi' : i = bindex
            · rw [hi', hslot] at hi
              rw [hi', ← Option.some.inj hi, hfind, hnew]
              exact Or.inr rfl
            · exact Or.inl ⟨by omega, h'⟩
          · exact Or.inr h
        · rw [if_neg hnew]
          have hlt : newBindex < s.f.fiHfile.length := lt_of_lt_of_le (FileSb.lt_of_auFindBindex hfind) hwide
          have hlt' : bindex < s.f.fiHfile.length := by omega
          have hmv : MovesSlots s { s with f := s.f.swap bindex newBindex } := swap_moves hlt' hlt (Ne.symm hnew)
          have hrest := ih (if (s.f.slot newBindex).isSome then bindex else bindex + 1)
            { s with f := s.f.swap bindex newBindex } (by rw [hmv.length]; exact hbend)
            (by rw [Wide, hmv.length]; exact hwide) (by
              intro i hf' hi
              have hi : (s.f.swap bindex newBindex).slot i = some hf' := hi
              rw [AufsFile.slot_swap hlt' hlt] at hi
              show (_ ∧ (i : Int) ≤ s.f.fiBend) ∨ s.sb.auFindBindex hf'.hfBr = some i
              by_cases hib : i = bindex
              · -- what came back is looked at again
                rw [if_pos hib] at hi
                rw [hi]
                refine Or.inl ⟨?_, by omega⟩
                rw [Option.isSome_some, if_pos rfl, hib]
              · rw [if_neg hib] at hi
                by_cases hin : i = newBindex
                · rw [if_pos hin, hslot] at hi
                  rw [← Option.some.inj hi, hfind, hin]
                  exact Or.inr rfl
                · rw [if_neg hin] at hi
                  rcases hinv i hf' hi with ⟨h, h'⟩ | h
                  · refine Or.inl ⟨?_, h'⟩
                    split <;> omega
                  · exact Or.inr h)
          exact ⟨hmv.trans hrest.1, hrest.2⟩

end

section

variable {dInode : Nat → Bool}

/-- From below, up to the first hidden file with an inode. -/
theorem closeDeadUp_spec : ∀ (count bindex : Nat) (s : FileSt),
    Closes s (closeDeadUp dInode count bindex s).2 ∧
      (closeDeadUp dInode count bindex s).1 ≤ bindex + count ∧
      (∀ i, bindex ≤ i → i < (closeDeadUp dInode count bindex s).1 →
        (closeDeadUp dInode count bindex s).2.f.slot i = none) ∧
      ((closeDeadUp dInode count bindex s).1 < bindex + count →
        ∃ hf, s.f.slot (closeDeadUp dInode count bindex s).1 = some hf ∧ dInode hf.hfFile.id = true) := by
  intro count
  induction count with
  | zero =>
    intro bindex s
    exact ⟨Closes.refl s, le_refl _, fun i h h' => absurd (lt_of_le_of_lt h h') (lt_irrefl _),
      fun h => absurd h (lt_irrefl _)⟩
  | succ count ih =>
    intro bindex s
    unfold closeDeadUp
    cases hslot : s.f.slot bindex with
    | none =>
      obtain ⟨hcl, hle, hempty, halive⟩ := ih (bindex + 1) s
      refine ⟨hcl, by dsimp only; omega, fun i h h' => ?_, fun h => halive (by dsimp only at h; omega)⟩
      by_cases hi : i = bindex
      · rw [hi]
        exact hcl.empty hslot
      · exact hempty i (by omega) h'
    | some hf =>
      dsimp only
      by_cases ha : dInode hf.hfFile.id = true
      · rw [if_pos ha]
        exact ⟨Closes.refl s, Nat.le_add_right _ _, fun i h h' => absurd (lt_of_le_of_lt h h') (lt_irrefl _),
          fun _ => ⟨hf, hslot, ha⟩⟩
      · rw [if_neg ha]
        obtain ⟨hcl, hle, hempty, halive⟩ := ih (bindex + 1) (auSetHFptr s bindex none)
        refine ⟨auSetHFptr_closes.trans hcl, by omega, fun i h h' => ?_, fun h => ?_⟩
        · by_cases hi : i = bindex
          · rw [hi]
            exact hcl.empty slot_auSetHFptr_self
          · exact hempty i (by omega) h'
        · obtain ⟨hf', hs', ha'⟩ := halive (by omega)
          exact ⟨hf', auSetHFptr_shrinks.some hs', ha'⟩

/-- From above, down to the last hidden file with an inode. -/
theorem closeDeadDown_spec (bstart : Nat) : ∀ (count : Nat) (s : FileSt),
    Closes s (closeDeadDown dInode bstart count s).2 ∧
      (closeDeadDown dInode bstart count s).1 < (bstart + count : Nat) ∧
      ∀ i : Nat, (closeDeadDown dInode bstart count s).1 < i → i < bstart + count →
        (closeDeadDown dInode bstart count s).2.f.slot i = none := by
  intro count
  induction count with
  | zero =>
    intro s
    refine ⟨Closes.refl s, ?_, fun i h h' => ?_⟩
    · show (bstart : Int) - 1 < _
      omega
    · have h : (bstart : Int) - 1 < i := h
      omega
  | succ count ih =>
    intro s
    unfold closeDeadDown
    cases hslot : s.f.slot (bstart + count) with
    | none =>
      obtain ⟨hcl, hlt, hempty⟩ := ih s
      refine ⟨hcl, by dsimp only; omega, fun i h h' => ?_⟩
      by_cases hi : i = bstart + count
      · rw [hi]
        exact hcl.empty hslot
      · exact hempty i h (by omega)
    | some hf =>
      dsimp only
      by_cases ha : dInode hf.hfFile.id = true
      · rw [if_pos ha]
        refine ⟨Closes.refl s, by omega, fun i h h' => ?_⟩
        dsimp only at h
        omega
      · rw [if_neg ha]
        obtain ⟨hcl, hlt, hempty⟩ := ih (auSetHFptr s (bstart + count) none)
        refine ⟨auSetHFptr_closes.trans hcl, by omega, fun i h h' => ?_⟩
        by_cases hi : i = bstart + count
        · rw [hi]
          exact hcl.empty slot_auSetHFptr_self
        · exact hempty i h (by omega)

end

section

variable {o : RefreshIo} {brid : Int} {s : FileSt}

/-- A hidden file that the refresh does not close for want of an inode. -/
def RefreshIo.Kept (o : RefreshIo) (hf : AuHfile) : Prop :=
  o.dInode hf.hfFile.id = true ∨ o.mmapped = true ∨ o.unhashed = true

/-- **The new start.**  Nothing is in use below it, and it is not below a slot that is kept. -/
theorem refreshStart_spec :
    Closes s (refreshStart o brid s).2 ∧ (refreshStart o brid s).1 ≤ s.sb.siBranch.length ∧
      (∀ i < (refreshStart o brid s).1, (refreshStart o brid s).2.f.slot i = none) ∧
      ∀ b : Int, (∀ i hf, s.f.slot i = some hf → o.Kept hf → b ≤ i) →
        ∀ i hf, (refreshStart o brid s).2.f.slot i = some hf → i < s.sb.siBranch.length → b ≤ i := by
  unfold refreshStart
  by_cases hpath : (!o.mmapped && !o.unhashed) = true
  · rw [if_pos hpath]
    obtain ⟨hcl, hle, hempty, halive⟩ := @closeDeadUp_spec o.dInode s.sb.siBranch.length 0 s
    have hempty' : ∀ i < (closeDeadUp o.dInode s.sb.siBranch.length 0 s).1, _ = none :=
      fun i hi => hempty i (Nat.zero_le i) hi
    refine ⟨hcl, by omega, hempty', fun b hb i hf hi hlt => ?_⟩
    have hge : (closeDeadUp o.dInode s.sb.siBranch.length 0 s).1 ≤ i := by
      by_contra hcon
      rw [hempty' i (by omega)] at hi
      cases hi
    -- the start itself has an inode
    obtain ⟨hf', hs', ha⟩ := halive (by omega)
    have := hb _ hf' hs' (Or.inl ha)
    omega
  · rw [if_neg hpath]
    have hcl : Closes s (closeRange 0 (s.sb.auBrIndex brid - 1) s) := closeRange_closes
    refine ⟨hcl, FileSb.auBrIndex_le _ _, fun i hi => closeRange_empty (by omega) (by dsimp only at hi; omega),
      fun b hb i hf hi _ => hb i hf (hcl.shrinks.some hi) ?_⟩
    cases hm : o.mmapped with
    | true => exact Or.inr (Or.inl hm)
    | false =>
      cases hu : o.unhashed with
      | true => exact Or.inr (Or.inr hu)
      | false => exact absurd (by rw [hm, hu]; rfl) hpath

/-- **The new range** holds all slots in use. -/
theorem refreshRange_spec (hp : SlotsPlaced s) (hw : Wide s.sb s.f) (hpast : s.f.fiGeneration ≤ s.sb.siGeneration) :
    KeepsFile s (refreshRange o brid s) ∧
      ∀ b : Int, (∀ i hf, s.f.slot i = some hf → o.Kept hf → b ≤ i) →
        ∀ i hf, (refreshRange o brid s).f.slot i = some hf → b ≤ i := by
  obtain ⟨hcl, hle, hbelow, habove⟩ := @refreshStart_spec o brid s
  let start := refreshStart o brid s
  let s₁ : FileSt := { start.2 with f := { start.2.f with fiBstart := start.1 } }
  have hn : s₁.sb.siBranch.length = s.sb.siBranch.length := congrArg List.length hcl.balanced.branches
  obtain ⟨hcl', hlt, hupper⟩ := @closeDeadDown_spec o.dInode start.1 (s₁.sb.siBranch.length - start.1) s₁
  let stop := closeDeadDown o.dInode start.1 (s₁.sb.siBranch.length - start.1) s₁
  have hrange : refreshRange o brid s = { stop.2 with f := { stop.2.f with fiBend := stop.1 } } := rfl
  have hlt : stop.1 < (start.1 + (s₁.sb.siBranch.length - start.1) : Nat) := hlt
  have hupper : ∀ i : Nat, stop.1 < i → i < start.1 + (s₁.sb.siBranch.length - start.1) →
      stop.2.f.slot i = none := hupper
  have hbelow : ∀ i < start.1, start.2.f.slot i = none := hbelow
  have hsum : start.1 + (s₁.sb.siBranch.length - start.1) = s.sb.siBranch.length := by
    rw [hn]
    exact Nat.add_sub_cancel' hle
  rw [hsum] at hlt hupper
  -- a slot in use comes from one in use, which is below the number of the branches
  have hslot : ∀ i hf, stop.2.f.slot i = some hf → start.2.f.slot i = some hf ∧ i < s.sb.siBranch.length := by
    intro i hf hi
    have hi' : start.2.f.slot i = some hf := hcl'.shrinks.some hi
    exact ⟨hi', FileSb.lt_of_auFindBindex (hp i hf (hcl.shrinks.some hi'))⟩
  rw [hrange]
  refine ⟨⟨?_, ⟨fun i hf hi => ?_, ?_, ?_⟩, ?_, Or.inl ?_⟩, fun b hb i hf hi => ?_⟩
  · have h₁ : Balanced start.2 s₁ := Balanced.of_slots rfl rfl rfl
    exact ((hcl.balanced.trans h₁).trans hcl'.balanced).trans (Balanced.of_slots rfl rfl rfl)
  · have hi : stop.2.f.slot i = some hf := hi
    obtain ⟨hi', hlen⟩ := hslot i hf hi
    have hstart : stop.2.f.fiBstart = start.1 := hcl'.fiBstart
    show 0 ≤ stop.2.f.fiBstart ∧ stop.2.f.fiBstart ≤ i ∧ (i : Int) ≤ stop.1
    rw [hstart]
    refine ⟨Int.natCast_nonneg _, ?_, ?_⟩
    · by_contra hcon
      have hnone : start.2.f.slot i = none := hbelow i (by omega)
      rw [hnone] at hi'
      cases hi'
    · by_contra hcon
      have hnone : stop.2.f.slot i = none := hupper i (by omega) hlen
      rw [hnone] at hi
      cases hi
  · show stop.1 < (stop.2.f.fiHfile.length : Nat)
    have hlen : stop.2.f.fiHfile.length = s.f.fiHfile.length := hcl'.length.trans hcl.length
    rw [hlen]
    have hw : s.sb.siBranch.length ≤ s.f.fiHfile.length := hw
    omega
  · show stop.2.f.fiGeneration ≤ stop.2.sb.siGeneration
    have hgen : stop.2.f.fiGeneration = s.f.fiGeneration := hcl'.fiGeneration.trans hcl.fiGeneration
    have hsb : stop.2.sb.siGeneration = s.sb.siGeneration :=
      hcl'.balanced.generation.trans hcl.balanced.generation
    rw [hgen, hsb]
    exact hpast
  · exact hcl'.length.trans hcl.length
  · exact hcl'.fiGeneration.trans hcl.fiGeneration
  · obtain ⟨hi', hlen⟩ := hslot i hf hi
    exact habove b hb i hf hi' hlen

end

/-! ## Directories -/

/-- The last hidden directory of a dentry is on one of the branches, as `au_set_fbend` asserts. -/
def InBranches (d : Dinfo) (sb : FileSb) : Prop := auDbtaildir d < sb.siBranch.length

section

variable {o : Nat → OpenIo} {d : Dinfo} {s : FileSt}

/-- **The loop that opens directories** fills slots of the range. -/
theorem openDirs_spec : ∀ (count bindex : Nat) (s : FileSt), SoundFile s.sb s.f → Wide s.sb s.f →
    (∀ b, ¬ StopsAtError (o b) s.f.fMode) → 0 ≤ s.f.fiBstart → s.f.fiBstart ≤ bindex →
    (bindex + count : Nat) ≤ s.f.fiBend + 1 ∨ count = 0 → KeepsFile s (openDirs o d count bindex s).2 := by
  intro count
  induction count with
  | zero => exact fun bindex s hs _ _ _ _ _ => KeepsFile.refl hs
  | succ count ih =>
    intro bindex s hs hw hx h0 hle hend
    have hend : (bindex + 1 + count : Nat) ≤ s.f.fiBend + 1 := by
      rcases hend with h | h
      · omega
      · cases h
    unfold openDirs
    split
    · exact ih (bindex + 1) s hs hw hx h0 (by omega) (Or.inl hend)
    · have hx' : ∀ m, some s.f.fMode = some m → ¬ StopsAtError (o bindex) m := by
        intro m hm
        rw [← Option.some.inj hm]
        exact hx bindex
      rcases @auHOpen_cases (o bindex) d s.sb bindex _ hx' with ⟨hFile, br, hopen, hbr, -, -⟩ | ⟨r, hopen, hr⟩
      · rw [hopen]
        dsimp only
        have hbr : s.sb.siBranch[bindex]? = some br := hbr
        have hlen : bindex < s.f.fiHfile.length := lt_of_lt_of_le (List.getElem?_eq_some_iff.mp hbr).1 hw
        let t := auSetHFptr ⟨s.sb.auBrGet br, s.f⟩ bindex (some hFile)
        have hbal : Balanced s t := openSet_balanced hlen hbr
        have hlength : t.f.fiHfile.length = s.f.fiHfile.length := length_auSetHFptr
        have hsound : SoundFile t.sb t.f := by
          refine ⟨fun i hf hi => ?_, ?_, ?_⟩
          · show 0 ≤ s.f.fiBstart ∧ s.f.fiBstart ≤ i ∧ (i : Int) ≤ s.f.fiBend
            by_cases hib : i = bindex
            · omega
            · have hne : t.f.slot i = s.f.slot i := slot_auSetHFptr_ne hib
              exact hs.inRange i hf (hne.symm.trans hi)
          · rw [hlength]
            exact hs.bend
          · show s.f.fiGeneration ≤ t.sb.siGeneration
            rw [hbal.generation]
            exact hs.past
        have hkeeps : KeepsFile s t := ⟨hbal, hsound, hlength, Or.inl rfl⟩
        refine hkeeps.trans (ih (bindex + 1) t hsound ?_ hx h0 (by show s.f.fiBstart ≤ _; omega) (Or.inl hend))
        rw [Wide, hbal.branches, hlength]
        exact hw
      · rw [hopen]
        cases r with
        | ok hFile => exact absurd rfl (hr hFile)
        | err e => exact KeepsFile.refl hs
        | oops => exact KeepsFile.refl hs

/-- The range of the file is not changed by the loop. -/
theorem openDirs_fiBend {r : Reply Unit} {t : FileSt} : ∀ {count bindex : Nat} {s : FileSt},
    openDirs o d count bindex s = (r, t) → t.f.fiBend = s.f.fiBend := by
  intro count
  induction count with
  | zero =>
    intro bindex s h
    rw [← (Prod.mk.inj h).2]
  | succ count ih =>
    intro bindex s h
    unfold openDirs at h
    split at h
    · exact ih h
    · rcases hopen : auHOpen (o bindex) d bindex (some s.f.fMode) s.sb with ⟨q, sb⟩
      rw [hopen] at h
      cases q with
      | ok hFile =>
        have hrest : t.f.fiBend = (auSetHFptr ⟨sb, s.f⟩ bindex (some hFile)).f.fiBend := ih h
        exact hrest
      | err e => rw [← (Prod.mk.inj h).2]
      | oops => rw [← (Prod.mk.inj h).2]

/-- The file as `reopen_dir` begins to open: the slots outside the dentry's range are closed. -/
def reopenRange (d : Dinfo) (s : FileSt) : FileSt :=
  let s := closeRange s.f.fiBstart (d.diBstart - 1) s
  let s := { s with f := { s.f with fiBstart := d.diBstart } }
  let s := closeRange (auDbtaildir d + 1) s.f.fiBend s
  { s with f := { s.f with fiBend := auDbtaildir d } }

theorem reopenDir_ok {t : FileSt} {u : Unit} (h : openDirs o d (auDbtaildir d + 1 - d.diBstart).toNat d.diBstart.toNat
    (reopenRange d s) = (.ok u, t)) :
    reopenDir o d s = (.ok (), { t with f := { t.f with fiGeneration := t.sb.siGeneration } }) := by
  unfold reopenRange at h
  unfold reopenDir
  simp only [h]

theorem reopenDir_stop {t : FileSt} {r : Reply Unit} (h : openDirs o d (auDbtaildir d + 1 - d.diBstart).toNat d.diBstart.toNat
    (reopenRange d s) = (r, t)) (hr : r ≠ .ok ()) : reopenDir o d s = (r, t) := by
  unfold reopenRange at h
  unfold reopenDir
  cases r with
  | ok u => exact absurd rfl hr
  | err e => simp only [h]
  | oops => simp only [h]

/-- **`reopen_dir`** -/
theorem reopenDir_spec (hs : SoundFile s.sb s.f) (hw : Wide s.sb s.f) (hx : ∀ b, ¬ StopsAtError (o b) s.f.fMode)
    (hd : 0 ≤ d.diBstart) (hin : InBranches d s.sb) : KeepsFile s (reopenDir o d s).2 := by
  -- the slots outside of the new range are closed
  let s₁ := closeRange s.f.fiBstart (d.diBstart - 1) s
  let s₂ : FileSt := { s₁ with f := { s₁.f with fiBstart := d.diBstart } }
  let s₃ := closeRange (auDbtaildir d + 1) s₂.f.fiBend s₂
  let s₄ : FileSt := { s₃ with f := { s₃.f with fiBend := auDbtaildir d } }
  have hcl : Closes s s₁ := closeRange_closes
  have hcl' : Closes s₂ s₃ := closeRange_closes
  have hbal : Balanced s s₄ := by
    have h₁ : Balanced s₁ s₂ := Balanced.of_slots rfl rfl rfl
    exact ((hcl.balanced.trans h₁).trans hcl'.balanced).trans (Balanced.of_slots rfl rfl rfl)
  have hlength : s₄.f.fiHfile.length = s.f.fiHfile.length := hcl'.length.trans hcl.length
  have hstart : s₄.f.fiBstart = d.diBstart := hcl'.fiBstart
  have hgen : s₄.f.fiGeneration = s.f.fiGeneration := hcl'.fiGeneration.trans hcl.fiGeneration
  have hsound : SoundFile s₄.sb s₄.f := by
    refine ⟨fun i hf hi => ?_, ?_, ?_⟩
    · have hi : s₃.f.slot i = some hf := hi
      have hi₁ : s₁.f.slot i = some hf := hcl'.shrinks.some hi
      obtain ⟨-, hge, hle⟩ := hs.inRange i hf (hcl.shrinks.some hi₁)
      rw [hstart]
      show 0 ≤ d.diBstart ∧ d.diBstart ≤ i ∧ (i : Int) ≤ auDbtaildir d
      refine ⟨hd, ?_, ?_⟩
      · by_contra hcon
        have hnone : s₁.f.slot i = none := closeRange_empty hge (by omega)
        rw [hnone] at hi₁
        cases hi₁
      · by_contra hcon
        have hend : s₂.f.fiBend = s.f.fiBend := hcl.fiBend
        have hnone : s₃.f.slot i = none := closeRange_empty (by omega) (by omega)
        rw [hnone] at hi
        cases hi
    · show auDbtaildir d < _
      rw [hlength]
      have hin : auDbtaildir d < s.sb.siBranch.length := hin
      have hw : s.sb.siBranch.length ≤ s.f.fiHfile.length := hw
      omega
    · rw [hgen, hbal.generation]
      exact hs.past
  have hkeeps : KeepsFile s s₄ := ⟨hbal, hsound, hlength, Or.inl hgen⟩
  have hopen : KeepsFile s₄ (openDirs o d (auDbtaildir d + 1 - d.diBstart).toNat d.diBstart.toNat s₄).2 := by
    refine openDirs_spec _ _ _ hsound ?_ (fun b => ?_) (by rw [hstart]; exact hd) (by rw [hstart]; omega) ?_
    · rw [Wide, hbal.branches, hlength]
      exact hw
    · rw [hbal.fMode]
      exact hx b
    · show _ ≤ auDbtaildir d + 1 ∨ _
      omega
  have hrest := hkeeps.trans hopen
  rcases hrun : openDirs o d (auDbtaildir d + 1 - d.diBstart).toNat d.diBstart.toNat s₄ with ⟨r, t⟩
  rw [hrun] at hrest
  cases r with
  | ok u =>
    rw [reopenDir_ok hrun]
    exact hrest.figen
  | err e =>
    rw [reopenDir_stop hrun (fun h => by cases h)]
    exact hrest
  | oops =>
    rw [reopenDir_stop hrun (fun h => by cases h)]
    exact hrest

end

/-! ## The calls -/

section

variable {o : RefreshIo} {s : FileSt}

/-- What a refresh opens does not stop between, and where it opens a regular file again no hidden file is
    above: the branch of the copy-up of a deleted file, or the start of the dentry. -/
structure RefreshIo.Suits (o : RefreshIo) (sb : FileSb) (f : AufsFile) : Prop where
  whOpen : o.hiWh.isSome = true → ¬ StopsAtError o.whOpen f.fMode
  hOpen : ∀ b, ¬ StopsAtError (o.hOpen b) f.fMode
  whStart : o.hiWh.isSome = true → Opens o.whOpen f.fMode →
    ∀ j hf i, f.slot j = some hf → o.Kept hf → sb.auFindBindex hf.hfBr = some i →
      (if o.testRo then o.copyup else o.ibstart) ≤ i
  hStart : f.isDir = false → o.unhashed = false → Opens (o.hOpen o.dinfo.diBstart.toNat) f.fMode →
    ∀ j hf i, f.slot j = some hf → o.Kept hf → sb.auFindBindex hf.hfBr = some i → o.dinfo.diBstart ≤ i

/-- `au_file_refresh_by_inode` -/
theorem auFileRefreshByInode_spec (hs : SoundFile s.sb s.f) (hw : Wide s.sb s.f)
    (hx : o.hiWh.isSome = true → ¬ StopsAtError o.whOpen s.f.fMode)
    (habove : o.hiWh.isSome = true → Opens o.whOpen s.f.fMode →
      ∀ i hf, s.f.slot i = some hf → (if o.testRo then o.copyup else o.ibstart) ≤ i) :
    KeepsFile s (auFileRefreshByInode o s).2 ∧
      ((auFileRefreshByInode o s).1 = .ok true → (auFileRefreshByInode o s).2 = s) := by
  unfold auFileRefreshByInode
  split
  · exact ⟨KeepsFile.refl hs, fun _ => rfl⟩
  generalize (if o.testRo = true then o.copyup else o.ibstart) = newBstart at habove ⊢
  dsimp only
  split
  · exact ⟨KeepsFile.refl hs, fun _ => rfl⟩
  rename_i hnonneg
  split
  · exact ⟨KeepsFile.refl hs, fun _ => rfl⟩
  cases hwh : o.hiWh with
  | none => exact ⟨KeepsFile.refl hs, fun _ => rfl⟩
  | some hiWh =>
    dsimp only
    rw [hwh] at hx habove
    have hk : KeepsFile s (auReopenNondir o.whOpen (o.dinfo.redirect newBstart.toNat (some hiWh)) s).2 := by
      refine auReopenNondir_spec hs hw (hx rfl) fun ho i hf hi => ?_
      have := habove rfl ho i hf hi
      show ((newBstart.toNat : Nat) : Int) ≤ i
      omega
    rcases hrun : auReopenNondir o.whOpen (o.dinfo.redirect newBstart.toNat (some hiWh)) s with ⟨r, t⟩
    rw [hrun] at hk
    cases r with
    | ok u => exact ⟨hk, fun h => by cases h⟩
    | err e => exact ⟨hk, fun h => by cases h⟩
    | oops => exact ⟨hk, fun h => by cases h⟩

/-- The `reopen` of the file. -/
theorem reopen_spec (hs : SoundFile s.sb s.f) (hw : Wide s.sb s.f) (hx : ∀ b, ¬ StopsAtError (o.hOpen b) s.f.fMode)
    (hin : s.f.isDir = true → InBranches o.dinfo s.sb)
    (habove : s.f.isDir = false → Opens (o.hOpen o.dinfo.diBstart.toNat) s.f.fMode →
      ∀ i hf, s.f.slot i = some hf → o.dinfo.diBstart ≤ i) :
    KeepsFile s (reopen o s).2 := by
  unfold reopen
  cases hdir : s.f.isDir with
  | true =>
    rw [if_pos rfl]
    exact reopenDir_spec hs hw hx o.starts (hin hdir)
  | false =>
    rw [if_neg Bool.false_ne_true]
    exact auReopenNondir_spec hs hw (hx _) (habove hdir)

/-- **The end of `refresh_file`.** -/
theorem refreshReopen_spec (hs : SoundFile s.sb s.f) (hw : Wide s.sb s.f)
    (hxwh : o.hiWh.isSome = true → ¬ StopsAtError o.whOpen s.f.fMode)
    (hx : ∀ b, ¬ StopsAtError (o.hOpen b) s.f.fMode) (hin : s.f.isDir = true → InBranches o.dinfo s.sb)
    (hwh : o.hiWh.isSome = true → Opens o.whOpen s.f.fMode →
      ∀ i hf, s.f.slot i = some hf → (if o.testRo then o.copyup else o.ibstart) ≤ i)
    (hstart : s.f.isDir = false → o.unhashed = false → Opens (o.hOpen o.dinfo.diBstart.toNat) s.f.fMode →
      ∀ i hf, s.f.slot i = some hf → o.dinfo.diBstart ≤ i) :
    KeepsFile s (refreshReopen o s).2 ∧
      ((refreshReopen o s).1 = .ok () → (refreshReopen o s).2.f.fiGeneration = s.sb.siGeneration) := by
  -- the first half, and the file is as it was when it is still to be reopened
  have hfirst : ∃ r t, (if o.mmapped then (.ok true, s) else auFileRefreshByInode o s) = (r, t) ∧ KeepsFile s t ∧
      (r = .ok true → t = s) := by
    cases o.mmapped with
    | true => exact ⟨.ok true, s, rfl, KeepsFile.refl hs, fun _ => rfl⟩
    | false =>
      obtain ⟨hk, heq⟩ := auFileRefreshByInode_spec hs hw hxwh hwh
      exact ⟨_, _, rfl, hk, heq⟩
  obtain ⟨r, t, hrun, hk, heq⟩ := hfirst
  -- the second half
  have hsecond : ∃ r' t', reopenNeeded o (r, t) = (r', t') ∧ KeepsFile s t' := by
    cases r with
    | err e => exact ⟨_, _, rfl, hk⟩
    | oops => exact ⟨_, _, rfl, hk⟩
    | ok needReopen =>
      cases hneed : needReopen && !o.unhashed with
      | false => exact ⟨.ok (), t, if_neg (by rw [hneed]; exact Bool.false_ne_true), hk⟩
      | true =>
        obtain ⟨hn, hu⟩ := (Bool.and_eq_true _ _).mp hneed
        obtain rfl : t = s := heq (by rw [hn])
        have hu : o.unhashed = false := by
          cases h : o.unhashed with
          | false => rfl
          | true =>
            rw [h] at hu
            cases hu
        exact ⟨_, _, if_pos hneed, reopen_spec hs hw hx hin fun hdir ho => hstart hdir hu ho⟩
  obtain ⟨r', t', hrun', hk'⟩ := hsecond
  unfold refreshReopen
  rw [hrun, hrun']
  cases r' with
  | ok u => exact ⟨hk'.figen, fun _ => hk'.balanced.generation⟩
  | err e => exact ⟨hk'.trans (closeRange_closes.keeps hk'.sound), fun h => by cases h⟩
  | oops => exact ⟨hk', fun h => by cases h⟩

/-- A sound file whose array is long enough as long as it is of the present generation. -/
def Fit (sb : FileSb) (f : AufsFile) : Prop := SoundFile sb f ∧ (f.fiGeneration = sb.siGeneration → Wide sb f)

/-- **The array is made to fit the branches**; the slots in use stay. -/
theorem regrow_spec (hs : SoundFile s.sb s.f) :
    let t : FileSt := { s with f := { s.f with
      fiHfile := regrow s.f.fiHfile (s.f.fiBend + 1).toNat s.sb.siBranch.length none } }
    Balanced s t ∧ Wide t.sb t.f ∧ t.f.fiBend < t.f.fiHfile.length ∧
      ∀ i hf, t.f.slot i = some hf → s.f.slot i = some hf := by
  intro t
  have hbend := hs.bend
  -- what is behind the range is empty
  have hbehind : ∀ y, some y ∉ s.f.fiHfile.drop (s.f.fiBend + 1).toNat := by
    intro y hy
    obtain ⟨i, hi⟩ := List.mem_iff_getElem?.mp hy
    rw [List.getElem?_drop] at hi
    have := (hs.inRange _ y (AufsFile.slot_eq_some.mpr hi)).2.2
    omega
  have hslots : ∀ i hf, t.f.slot i = some hf → s.f.slot i = some hf := by
    intro i hf hi
    rw [AufsFile.slot_eq_some] at hi ⊢
    have hi : (regrow s.f.fiHfile (s.f.fiBend + 1).toNat s.sb.siBranch.length none)[i]? = some (some hf) := hi
    unfold regrow at hi
    split at hi
    · exact hi
    · rw [List.getElem?_append, List.length_take] at hi
      split at hi
      · rw [List.getElem?_take] at hi
        split at hi
        · exact hi
        · cases hi
      · obtain ⟨hlt, heq⟩ := List.getElem?_eq_some_iff.mp hi
        rw [List.getElem_replicate] at heq
        cases heq
  have hrefs : ∀ br, t.f.refs br = s.f.refs br := by
    intro br
    show Lib.refs AuHfile.hfBr br (regrow s.f.fiHfile (s.f.fiBend + 1).toNat s.sb.siBranch.length none) = _
    unfold regrow
    split
    · rfl
    · rw [refs_append, refs_take hbehind, refs_replicate_none, Nat.add_zero]
      rfl
  refine ⟨⟨rfl, rfl, rfl, rfl, fun br => by rw [hrefs], fun hl i hf hi => hl i hf (hslots i hf hi)⟩, ?_, ?_, hslots⟩
  · show s.sb.siBranch.length ≤ (regrow _ _ _ _).length
    unfold regrow
    split
    · omega
    · rw [List.length_append, List.length_take, List.length_replicate]
      omega
  · show s.f.fiBend < ((regrow s.f.fiHfile _ _ _).length : Nat)
    unfold regrow
    split
    · exact hbend
    · rw [List.length_append, List.length_take, List.length_replicate]
      omega

/-- **`refresh_file`** keeps the balance; a call that comes back leaves a file that fits. -/
theorem refreshFile_spec (hs : Fit s.sb s.f) (hsuits : o.Suits s.sb s.f)
    (hin : s.f.isDir = true → InBranches o.dinfo s.sb) :
    Balanced s (refreshFile o s).2 ∧
      ((refreshFile o s).1 ≠ .oops → Fit (refreshFile o s).2.sb (refreshFile o s).2.f) ∧
      ((refreshFile o s).1 = .ok () → (refreshFile o s).2.f.fiGeneration = (refreshFile o s).2.sb.siGeneration) := by
  unfold refreshFile
  split
  · exact ⟨Balanced.refl s, fun _ => hs, fun h => by cases h⟩
  obtain ⟨hbal, hwide, hbend, hslots⟩ := regrow_spec hs.1
  let t : FileSt := { s with f := { s.f with
    fiHfile := regrow s.f.fiHfile (s.f.fiBend + 1).toNat s.sb.siBranch.length none } }
  dsimp only
  cases hslot : AufsFile.hFptr _ s.f.fiBstart with
  | none => exact ⟨hbal, fun h => absurd rfl h, fun h => by cases h⟩
  | some hf =>
    dsimp only
    have hinv : ∀ i hf, t.f.slot i = some hf →
        (t.f.fiBstart.toNat ≤ i ∧ i ≤ t.f.fiBend) ∨ t.sb.auFindBindex hf.hfBr = some i := by
      intro i hf hi
      obtain ⟨h0, hge, hle⟩ := hs.1.inRange i hf (hslots i hf hi)
      have hge : s.f.fiBstart.toNat ≤ i := by omega
      exact Or.inl ⟨hge, hle⟩
    obtain ⟨hmv, hplaced⟩ := refreshSlots_spec o.fuel t.f.fiBstart.toNat t hbend hwide hinv
    have hbal' := hbal.trans hmv.balanced
    rcases hrun : refreshSlots o.fuel t.f.fiBstart.toNat t with ⟨r, u⟩
    rw [hrun] at hmv hplaced hbal'
    cases r with
    | false => exact ⟨hbal', fun h => absurd rfl h, fun h => by cases h⟩
    | true =>
      dsimp only
      have hplaced := hplaced rfl
      have hwide' : Wide u.sb u.f := by
        rw [Wide, hmv.balanced.branches, hmv.length]
        exact hwide
      have hpast : u.f.fiGeneration ≤ u.sb.siGeneration := by
        rw [hmv.fiGeneration, hmv.balanced.generation]
        exact hs.1.past
      obtain ⟨hk, habove⟩ := @refreshRange_spec o (s.sb.brId hf.hfBr) u hplaced hwide' hpast
      -- a condition on the slots before is one on the slots that are left
      have hback : ∀ b : Int, (∀ j hf i, s.f.slot j = some hf → o.Kept hf →
          s.sb.auFindBindex hf.hfBr = some i → b ≤ i) →
          ∀ i hf', (refreshRange o (s.sb.brId hf.hfBr) u).f.slot i = some hf' → b ≤ i := by
        intro b hb
        refine habove b fun i hf' hi hkept => ?_
        obtain ⟨j, hj⟩ := hmv.comes i hf' hi
        have hfind := hplaced i hf' hi
        rw [FileSb.auFindBindex, hmv.balanced.branches] at hfind
        exact hb j hf' i (hslots j hf' hj) hkept hfind
      have hbal'' := hbal'.trans hk.balanced
      have hmode := hbal''.fMode
      have hwide'' : Wide (refreshRange o (s.sb.brId hf.hfBr) u).sb (refreshRange o (s.sb.brId hf.hfBr) u).f := by
        rw [Wide, hk.balanced.branches, hk.length]
        exact hwide'
      have hrest := @refreshReopen_spec o (refreshRange o (s.sb.brId hf.hfBr) u) hk.sound hwide''
        (fun h => by rw [hmode]; exact hsuits.whOpen h) (fun b => by rw [hmode]; exact hsuits.hOpen b)
        (fun h => by
          rw [InBranches, hbal''.branches]
          exact hin (hbal''.isDir.symm.trans h))
        (fun h ho => hback _ (hsuits.whStart h (by rw [← hmode]; exact ho)))
        (fun h hu ho => hback _ (hsuits.hStart (hbal''.isDir.symm.trans h) hu (by rw [← hmode]; exact ho)))
      refine ⟨hbal''.trans hrest.1.balanced, fun _ => ⟨hrest.1.sound, fun _ => ?_⟩, fun h => ?_⟩
      · rw [Wide, hrest.1.balanced.branches, hrest.1.length]
        exact hwide''
      · rw [hrest.1.balanced.generation]
        exact hrest.2 h

/-- **`au_reval_and_lock_fdi`**: when it succeeds, the file is of the present generation. -/
theorem auRevalAndLockFdi_spec {o : RevalIo} (hs : Fit s.sb s.f) (hsuits : o.refresh.Suits s.sb s.f)
    (hin : s.f.isDir = true → InBranches o.refresh.dinfo s.sb) :
    Balanced s (auRevalAndLockFdi o s).2 ∧
      ((auRevalAndLockFdi o s).1 ≠ .oops → Fit (auRevalAndLockFdi o s).2.sb (auRevalAndLockFdi o s).2.f) ∧
      ((auRevalAndLockFdi o s).1 = .ok () →
        (auRevalAndLockFdi o s).2.f.fiGeneration = (auRevalAndLockFdi o s).2.sb.siGeneration) := by
  unfold auRevalAndLockFdi
  split
  · rename_i hfast
    exact ⟨Balanced.refl s, fun _ => hs, fun _ => hfast.1.symm⟩
  split
  · exact ⟨Balanced.refl s, fun _ => hs, fun h => by cases h⟩
  · exact refreshFile_spec hs hsuits hin

end

section

variable {o : WriteIo} {d : Dinfo} {s : FileSt}

/-- What a write opens does not stop between, and no hidden file is above the branch it is opened on. -/
def WriteIo.Suits (o : WriteIo) (d : Dinfo) (f : AufsFile) : Prop :=
  ∀ d', reopenDinfo o d f = some d' → ¬ StopsAtError o.hOpen f.fMode ∧
    (Opens o.hOpen f.fMode → ∀ i hf, f.slot i = some hf → d'.diBstart ≤ i)

/-- **`au_ready_to_write`** on a file of the present generation. -/
theorem auReadyToWrite_spec (hs : SoundFile s.sb s.f) (hw : Wide s.sb s.f) (hsuits : o.Suits d s.f) :
    KeepsFile s (auReadyToWrite o d s).2.2 := by
  rw [auReadyToWrite_file]
  cases hd : reopenDinfo o d s.f with
  | none => exact KeepsFile.refl hs
  | some d' => exact auReopenNondir_spec hs hw (hsuits d' hd).1 (hsuits d' hd).2

end

/-! ## Open and release -/

/-- A file without slots in use refers to nothing. -/
theorem AufsFile.refs_of_empty {f : AufsFile} (h : ∀ i, f.slot i = none) (br : Nat) : f.refs br = 0 := by
  apply refs_eq_zero_iff.mpr
  intro hf hmem
  obtain ⟨i, hi⟩ := List.mem_iff_getElem?.mp hmem
  have := h i
  rw [AufsFile.slot_eq_some.mpr hi] at this
  cases this

section

variable {s : FileSt}

/-- **`au_finfo_fin`** empties all slots of a sound file. -/
theorem auFinfoFin_spec (hs : SoundFile s.sb s.f) :
    Closes s (auFinfoFin s) ∧ ∀ i, (auFinfoFin s).f.slot i = none := by
  unfold auFinfoFin
  split
  · refine ⟨closeRange_closes, fun i => ?_⟩
    cases hi : s.f.slot i with
    | none => exact closeRange_closes.empty hi
    | some hf =>
      obtain ⟨-, hge, hle⟩ := hs.inRange i hf hi
      exact closeRange_empty hge hle
  · rename_i hneg
    refine ⟨Closes.refl s, fun i => ?_⟩
    cases hi : s.f.slot i with
    | none => rfl
    | some hf => exact absurd (hs.inRange i hf hi).1 hneg

variable {o : DoOpenIo} {fMode : Nat} {isDir : Bool} {sb : FileSb}

theorem slot_auFinfoInit (i : Nat) : (auFinfoInit o fMode isDir sb).slot i = none := by
  show (List.replicate sb.siBranch.length none).getD i none = none
  rw [List.getD_eq_getElem?_getD, List.getElem?_replicate]
  split <;> rfl

theorem wide_auFinfoInit : Wide sb (auFinfoInit o fMode isDir sb) := by
  show _ ≤ (List.replicate _ _).length
  rw [List.length_replicate]

/-- A new file, with any range in its array, is sound. -/
theorem sound_auFinfoInit {bstart bend : Int} (hbend : bend < sb.siBranch.length) :
    SoundFile sb { auFinfoInit o fMode isDir sb with fiBstart := bstart, fiBend := bend } where
  inRange i hf hi := by
    have hnone : (auFinfoInit o fMode isDir sb).slot i = none := slot_auFinfoInit i
    cases hnone.symm.trans hi
  bend := by
    show bend < ((List.replicate _ _).length : Nat)
    rw [List.length_replicate]
    exact hbend
  past := Nat.sub_le _ _

/-- **`do_open_nondir`** of a new file. -/
theorem doOpenNondir_spec (hx : ¬ StopsAtError (o.hOpen o.dinfo.diBstart.toNat) fMode) :
    Balanced ⟨sb, auFinfoInit o fMode isDir sb⟩ (doOpenNondir o ⟨sb, auFinfoInit o fMode isDir sb⟩).2 ∧
      Fit (doOpenNondir o ⟨sb, auFinfoInit o fMode isDir sb⟩).2.sb
        (doOpenNondir o ⟨sb, auFinfoInit o fMode isDir sb⟩).2.f := by
  have hfit : Fit sb (auFinfoInit o fMode isDir sb) := ⟨sound_auFinfoInit (by omega), fun _ => wide_auFinfoInit⟩
  unfold doOpenNondir
  have hx' : ∀ m, some (auFinfoInit o fMode isDir sb).fMode = some m →
      ¬ StopsAtError (o.hOpen o.dinfo.diBstart.toNat) m := by
    intro m hm
    rw [← Option.some.inj hm]
    exact hx
  dsimp only
  rcases @auHOpen_cases _ o.dinfo sb o.dinfo.diBstart _ hx' with ⟨hFile, br, hopen, hbr, hd, -⟩ | ⟨r, hopen, hr⟩
  · rw [hopen]
    dsimp only
    obtain ⟨h0, -⟩ := Dinfo.start_of_hDptr hd
    have hlt := (List.getElem?_eq_some_iff.mp hbr).1
    let f : AufsFile := { auFinfoInit o fMode isDir sb with fiBstart := o.dinfo.diBstart, fiBend := o.dinfo.diBstart }
    let t := auSetHFptr ⟨sb.auBrGet br, f⟩ o.dinfo.diBstart.toNat (some hFile)
    have hsound : SoundFile sb f := sound_auFinfoInit (by omega)
    have hwide : sb.siBranch.length ≤ f.fiHfile.length := @wide_auFinfoInit o fMode isDir sb
    have hlen : o.dinfo.diBstart.toNat < f.fiHfile.length := lt_of_lt_of_le hlt hwide
    have h₀ : Balanced ⟨sb, auFinfoInit o fMode isDir sb⟩ ⟨sb, f⟩ := Balanced.of_slots rfl rfl rfl
    have h₁ : Balanced ⟨sb, f⟩ t := openSet_balanced hlen hbr
    have hlength : t.f.fiHfile.length = f.fiHfile.length := length_auSetHFptr
    refine ⟨(h₀.trans h₁).trans (Balanced.of_slots rfl rfl rfl), ⟨fun i hf hi => ?_, ?_, ?_⟩, fun _ => ?_⟩
    · have hi : t.f.slot i = some hf := hi
      show 0 ≤ o.dinfo.diBstart ∧ o.dinfo.diBstart ≤ i ∧ (i : Int) ≤ o.dinfo.diBstart
      by_cases hib : i = o.dinfo.diBstart.toNat
      · omega
      · have hne : t.f.slot i = f.slot i := slot_auSetHFptr_ne hib
        exact hsound.inRange i hf (hne.symm.trans hi)
    · show o.dinfo.diBstart < (t.f.fiHfile.length : Nat)
      rw [hlength]
      exact hsound.bend
    · show sb.siGeneration - o.behind ≤ t.sb.siGeneration
      rw [h₁.generation]
      exact Nat.sub_le _ _
    · show t.sb.siBranch.length ≤ t.f.fiHfile.length
      rw [h₁.branches, hlength]
      exact hwide
  · rw [hopen]
    cases r with
    | ok hFile => exact absurd rfl (hr hFile)
    | err e => exact ⟨Balanced.refl _, hfit⟩
    | oops => exact ⟨Balanced.refl _, hfit⟩

/-- The file as `do_open_dir` begins to open. -/
def doOpenRange (o : DoOpenIo) (s : FileSt) : FileSt :=
  ⟨s.sb, { s.f with fiBstart := o.dinfo.diBstart, fiBend := auDbtaildir o.dinfo }⟩

theorem doOpenDir_ok {s t : FileSt} {u : Unit} (h : openDirs o.hOpen o.dinfo (auDbtaildir o.dinfo + 1 - o.dinfo.diBstart).toNat
    o.dinfo.diBstart.toNat (doOpenRange o s) = (.ok u, t)) : doOpenDir o s =
      (.ok (), { t with f := { t.f with fiGeneration := t.sb.siGeneration - o.behind } }) := by
  unfold doOpenRange at h
  unfold doOpenDir
  simp only [h]

theorem doOpenDir_oops {s t : FileSt} (h : openDirs o.hOpen o.dinfo (auDbtaildir o.dinfo + 1 - o.dinfo.diBstart).toNat
    o.dinfo.diBstart.toNat (doOpenRange o s) = (.oops, t)) : doOpenDir o s = (.oops, t) := by
  unfold doOpenRange at h
  unfold doOpenDir
  simp only [h]

theorem doOpenDir_err {s t : FileSt} {e : Int} (h : openDirs o.hOpen o.dinfo (auDbtaildir o.dinfo + 1 - o.dinfo.diBstart).toNat
    o.dinfo.diBstart.toNat (doOpenRange o s) = (.err e, t)) :
    (doOpenDir o s).2 = { closeRange t.f.fiBstart (auDbtaildir o.dinfo) t with
      f := { (closeRange t.f.fiBstart (auDbtaildir o.dinfo) t).f with
        fiBstart := -1, fiBend := -1,
        fiGeneration := (closeRange t.f.fiBstart (auDbtaildir o.dinfo) t).sb.siGeneration - o.behind } } := by
  unfold doOpenRange at h
  unfold doOpenDir
  simp only [h]
/-- **`do_open_dir`** of a new file. -/
theorem doOpenDir_spec (hx : ∀ b, ¬ StopsAtError (o.hOpen b) fMode) (hin : InBranches o.dinfo sb) :
    Balanced ⟨sb, auFinfoInit o fMode isDir sb⟩ (doOpenDir o ⟨sb, auFinfoInit o fMode isDir sb⟩).2 ∧
      Fit (doOpenDir o ⟨sb, auFinfoInit o fMode isDir sb⟩).2.sb
        (doOpenDir o ⟨sb, auFinfoInit o fMode isDir sb⟩).2.f := by
  let f : AufsFile := { auFinfoInit o fMode isDir sb with
    fiBstart := o.dinfo.diBstart, fiBend := auDbtaildir o.dinfo }
  have hsound : SoundFile sb f := sound_auFinfoInit hin
  have hwide : Wide sb f := @wide_auFinfoInit o fMode isDir sb
  have h₀ : Balanced ⟨sb, auFinfoInit o fMode isDir sb⟩ ⟨sb, f⟩ := Balanced.of_slots rfl rfl rfl
  have hk : KeepsFile ⟨sb, f⟩ (openDirs o.hOpen o.dinfo (auDbtaildir o.dinfo + 1 - o.dinfo.diBstart).toNat
      o.dinfo.diBstart.toNat ⟨sb, f⟩).2 := by
    have h0 := o.starts
    refine openDirs_spec _ _ _ hsound hwide hx h0 ?_ ?_
    · show o.dinfo.diBstart ≤ _
      omega
    · show _ ≤ auDbtaildir o.dinfo + 1 ∨ _
      omega
  rcases hrun : openDirs o.hOpen o.dinfo (auDbtaildir o.dinfo + 1 - o.dinfo.diBstart).toNat
    o.dinfo.diBstart.toNat ⟨sb, f⟩ with ⟨r, t⟩
  rw [hrun] at hk
  have hbal : Balanced ⟨sb, auFinfoInit o fMode isDir sb⟩ t := h₀.trans hk.balanced
  have hwide' : Wide t.sb t.f := by
    rw [Wide, hk.balanced.branches, hk.length]
    exact hwide
  cases r with
  | oops =>
    rw [doOpenDir_oops (s := ⟨sb, auFinfoInit o fMode isDir sb⟩) hrun]
    exact ⟨hbal, hk.sound, fun _ => hwide'⟩
  | ok u =>
    rw [doOpenDir_ok (s := ⟨sb, auFinfoInit o fMode isDir sb⟩) hrun]
    exact ⟨hbal.trans (Balanced.of_slots rfl rfl rfl), ⟨hk.sound.inRange, hk.sound.bend, Nat.sub_le _ _⟩,
      fun _ => hwide'⟩
  | err e =>
    -- all slots are closed
    have hend : t.f.fiBend = auDbtaildir o.dinfo := openDirs_fiBend hrun
    have hcl : Closes t (closeRange t.f.fiBstart (auDbtaildir o.dinfo) t) := closeRange_closes
    rw [doOpenDir_err (s := ⟨sb, auFinfoInit o fMode isDir sb⟩) hrun]
    refine ⟨(hbal.trans hcl.balanced).trans (Balanced.of_slots rfl rfl rfl), ⟨fun i hf hi => ?_, ?_, ?_⟩, fun _ => ?_⟩
    · have hi : (closeRange t.f.fiBstart (auDbtaildir o.dinfo) t).f.slot i = some hf := hi
      obtain ⟨-, hge, hle⟩ := hk.sound.inRange i hf (hcl.shrinks.some hi)
      rw [hend] at hle
      cases (closeRange_empty hge hle).symm.trans hi
    · show (-1 : Int) < ((closeRange t.f.fiBstart (auDbtaildir o.dinfo) t).f.fiHfile.length : Nat)
      omega
    · exact Nat.sub_le _ _
    · show (closeRange _ _ t).sb.siBranch.length ≤ (closeRange _ _ t).f.fiHfile.length
      rw [hcl.balanced.branches, hcl.length]
      exact hwide'

/-- **`au_do_open`**: a file that fits, or one without hidden files when it fails. -/
theorem auDoOpen_spec {r : Reply Unit} {t : FileSt} (hx : ∀ b, ¬ StopsAtError (o.hOpen b) fMode)
    (hin : isDir = true → InBranches o.dinfo sb) (h : auDoOpen o fMode isDir sb = (r, t)) :
    Balanced ⟨sb, auFinfoInit o fMode isDir sb⟩ t ∧ (r = .ok () → Fit t.sb t.f) ∧
      ∀ err, r = .err err → ∀ i, t.f.slot i = none := by
  have hsound : SoundFile sb (auFinfoInit o fMode isDir sb) := sound_auFinfoInit (by omega)
  unfold auDoOpen at h
  dsimp only at h
  split at h
  · obtain ⟨rfl, rfl⟩ := Prod.mk.inj h
    exact ⟨Balanced.refl _, fun h => (by cases h), fun _ _ i => slot_auFinfoInit i⟩
  split at h
  · obtain ⟨rfl, rfl⟩ := Prod.mk.inj h
    obtain ⟨hcl, hempty⟩ := @auFinfoFin_spec ⟨sb, auFinfoInit o fMode isDir sb⟩ hsound
    exact ⟨hcl.balanced, fun h => (by cases h), fun _ _ => hempty⟩
  -- the open itself, and the release when it fails
  have hopen : ∃ q u, (if isDir then doOpenDir o ⟨sb, auFinfoInit o fMode isDir sb⟩
      else doOpenNondir o ⟨sb, auFinfoInit o fMode isDir sb⟩) = (q, u) ∧
      Balanced ⟨sb, auFinfoInit o fMode isDir sb⟩ u ∧ Fit u.sb u.f := by
    cases isDir with
    | true =>
      obtain ⟨hb, hfit⟩ := @doOpenDir_spec o fMode true sb hx (hin rfl)
      exact ⟨_, _, rfl, hb, hfit⟩
    | false =>
      obtain ⟨hb, hfit⟩ := @doOpenNondir_spec o fMode false sb (hx _)
      exact ⟨_, _, rfl, hb, hfit⟩
  obtain ⟨q, u, hrun, hb, hfit⟩ := hopen
  rw [hrun] at h
  cases q with
  | ok v =>
    obtain ⟨rfl, rfl⟩ := Prod.mk.inj h
    exact ⟨hb, fun _ => hfit, fun _ h => (by cases h)⟩
  | oops =>
    obtain ⟨rfl, rfl⟩ := Prod.mk.inj h
    exact ⟨hb, fun h => (by cases h), fun _ h => (by cases h)⟩
  | err e =>
    obtain ⟨rfl, rfl⟩ := Prod.mk.inj h
    obtain ⟨hcl, hempty⟩ := auFinfoFin_spec hfit.1
    exact ⟨hb.trans hcl.balanced, fun h => (by cases h), fun _ _ => hempty⟩

end

end KernelPatches.Aufs
