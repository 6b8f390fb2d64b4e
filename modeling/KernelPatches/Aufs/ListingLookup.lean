/-
  aufs: what a listing shows and what a lookup finds.

  The two follow the union rule separately.  A lookup asks for the whiteout of a name only on branches
  where whiteouts count (`auBrWhable`: rw, ro+wh and rr+wh); the listing takes every entry with the
  prefix of a whiteout for one, on any branch.  A whiteout on a branch where it does not count hides the
  name from the listing, and not from lookups.  The branches where whiteouts do not count include those
  of rw+nolwh, on which whiteouts are made all the same.

  * `OpenOn`                   — an open directory, and the dentry it was opened on;
  * `listing_lookup_iff`       — the listing and the lookup agree on a name iff a whiteout above the
                                 topmost branch that has it never stands alone on branches where it does
                                 not count;
  * `nolwh_hidden`             — a name that can be opened, and is not listed.
-/
import KernelPatches.Aufs.LookupUnion
import KernelPatches.Aufs.VdirUnion
import KernelPatches.Aufs.TestEmpty

namespace KernelPatches.Aufs

open KernelPatches.Lib

/-- A directory as `do_open_dir` opens it: the hidden directories from `au_dbstart()` to
    `au_dbtaildir()` of its dentry, which deliver the names that are in them, besides `.` and `..`. -/
structure OpenOn (parent : Dinfo) (file : DirFile) : Prop where
  fbstart : (file.fbstart : Int) = parent.diBstart
  fbend : (file.fbend : Int) = auDbtaildir parent
  entries : ∀ b, file.fbstart ≤ b → b ≤ file.fbend → ∀ n, isDots n = false →
    (HasName file.entries b n ↔ (entryAt parent n b).isSome = true)

section

variable {st : Stack} {parent : Dinfo} {file : DirFile} {name : Name}

theorem hasName_in {b : Nat} {n : Name} (h : HasName file.entries b n) :
    file.fbstart ≤ b ∧ b ≤ file.fbend := by
  obtain ⟨e, he, -⟩ := h
  by_contra hc
  rw [DirFile.entries, if_neg hc] at he
  cases he

/-- The names the lookup sees on a branch are those the listing sees. -/
theorem OpenOn.whAt_iff (h : OpenOn parent file) {b : Nat} (hs : file.fbstart ≤ b) (he : b ≤ file.fbend)
    (hpos : 0 < name.length) :
    WhAt st parent name b ↔ auBrWhable (st.brPerm b) = true ∧ HasWh file.entries b name := by
  have hdots : isDots (whPfx ++ name) = false := isDots_whiteout (isWhName_append hpos)
  rw [HasWh, h.entries b hs he _ hdots, WhAt, entryAt]
  refine and_congr_right fun _ => ?_
  cases hdir : dirAt parent b with
  | none => simp
  | some dir => simp [Option.isSome_iff_exists]

/-- A branch shows the name to lookups. -/
theorem OpenOn.shown_iff (h : OpenOn parent file) (hdots : isDots name = false) (hpos : 0 < name.length)
    (b : Nat) : Shown st parent name file.fbstart (lkupEnd parent file.fbstart) b ↔
      HasName file.entries b name ∧
        ∀ b' ≤ b, ¬ (auBrWhable (st.brPerm b') = true ∧ HasWh file.entries b' name) := by
  have hend : ∀ {b}, file.fbstart ≤ b → (b < lkupEnd parent file.fbstart ↔ b ≤ file.fbend) := by
    intro b hs
    rw [lkupEnd, ← h.fbend]
    omega
  constructor
  · rintro ⟨hs, he, hent, hwh⟩
    have hbend := (hend hs).mp he
    refine ⟨(h.entries b hs hbend name hdots).mpr hent, fun b' hb' hc => ?_⟩
    obtain ⟨hs', -⟩ := hasName_in hc.2
    exact hwh b' hs' hb' ((h.whAt_iff hs' (Nat.le_trans hb' hbend) hpos).mpr hc)
  · rintro ⟨hname, hwh⟩
    obtain ⟨hs, he⟩ := hasName_in hname
    refine ⟨hs, (hend hs).mpr he, (h.entries b hs he name hdots).mp hname, fun b' hs' hb' hc => ?_⟩
    exact hwh b' hb' ((h.whAt_iff hs' (Nat.le_trans hb' he) hpos).mp hc)

/-- The two rules, for branches none of which holds the name and its whiteout: they agree iff above the
    topmost branch `t` with the name a whiteout never stands alone on branches where it does not count. -/
theorem rules_agree_iff {E : Nat → List DirEnt} {counts : Nat → Prop}
    (hboth : ∀ b, HasName E b name → ¬ HasWh E b name) :
    ((∃ b, HasName E b name ∧ ∀ b' < b, ¬ HasWh E b' name) ↔
        ∃ b, HasName E b name ∧ ∀ b' ≤ b, ¬ (counts b' ∧ HasWh E b' name)) ↔
      ∀ t, IsLeast {b | HasName E b name} t → (∃ b < t, HasWh E b name) →
        ∃ b < t, counts b ∧ HasWh E b name := by
  classical
  constructor
  · intro hagree t ht hwh
    obtain ⟨w, hw, hwh⟩ := hwh
    have hhidden : ¬ ∃ b, HasName E b name ∧ ∀ b' ≤ b, ¬ (counts b' ∧ HasWh E b' name) := by
      rw [← hagree]
      rintro ⟨b, hb, hno⟩
      exact hno w (Nat.lt_of_lt_of_le hw (ht.2 hb)) hwh
    by_contra hnone
    refine hhidden ⟨t, ht.1, fun b' hb' hc => ?_⟩
    rcases Nat.lt_or_eq_of_le hb' with hlt | rfl
    · exact hnone ⟨b', hlt, hc⟩
    · exact hboth b' ht.1 hc.2
  · intro hcounts
    constructor
    · rintro ⟨b, hb, hno⟩
      refine ⟨b, hb, fun b' hb' hc => ?_⟩
      rcases Nat.lt_or_eq_of_le hb' with hlt | rfl
      · exact hno b' hlt hc.2
      · exact hboth b' hb hc.2
    · rintro ⟨b, hb, hno⟩
      have hex : ∃ b, HasName E b name := ⟨b, hb⟩
      refine ⟨Nat.find hex, Nat.find_spec hex, fun b' hb' hwh => ?_⟩
      obtain ⟨w, hw, hc⟩ := hcounts (Nat.find hex)
        ⟨Nat.find_spec hex, fun b' hb' => Nat.find_min' hex hb'⟩ ⟨b', hb', hwh⟩
      exact hno w (Nat.le_trans (Nat.le_of_lt hw) (Nat.find_min' hex hb)) hc

/-- **When the listing and the lookup agree** on a name: if above the topmost branch that has it either
    there is no whiteout of it, or there is one on a branch where whiteouts count. -/
theorem listing_lookup_iff {A : Arch} {fullNameHash : Name → Nat} {jiffies : Nat} {v v' : Vdir}
    {sb sb' : Sbinfo} {mem mem' : Kmem} (hv : Appended A v []) (hsb : InoSized A sb)
    (hstream : ∀ b, Stream (file.entries b))
    (hread : auDoReadVdir A fullNameHash jiffies false file v sb mem = .ok (0, v', sb', mem'))
    (hopen : OpenOn parent file) (hpos : 0 < name.length) (hpfx : whPfx.isPrefixOf name = false)
    (hdots : isDots name = false) (hboth : ∀ b, HasName file.entries b name → ¬ HasWh file.entries b name)
    (hq : Quiet st parent name file.fbstart (lkupEnd parent file.fbstart)) :
    ((∃ de ∈ listing A v', de.name = name) ↔
        ∃ n, n ≠ 0 ∧ (auLkupDentry st parent none name file.fbstart 0 .alloc).1 = .ok n) ↔
      ∀ t, IsLeast {b | HasName file.entries b name} t → (∃ b < t, HasWh file.entries b name) →
        ∃ b < t, auBrWhable (st.brPerm b) = true ∧ HasWh file.entries b name := by
  have hplain : isWhName name = false := by rw [isWhName, hpfx, Bool.and_false]
  have hlisted : (∃ de ∈ listing A v', de.name = name) ↔
      ∃ b, HasName file.entries b name ∧ ∀ b' < b, ¬ HasWh file.entries b' name := by
    rw [(auDoReadVdir_union hv hsb hstream hread).1 name, Listed]
    exact and_iff_right hplain
  have hfound : (∃ n, n ≠ 0 ∧ (auLkupDentry st parent none name file.fbstart 0 .alloc).1 = .ok n) ↔
      ∃ b, HasName file.entries b name ∧
        ∀ b' ≤ b, ¬ (auBrWhable (st.brPerm b') = true ∧ HasWh file.entries b' name) := by
    by_cases hlen : name.length ≤ pathMax - whPfx.length
    · have hallowed : Allowed st name := by
        refine ⟨if_neg ?_, hlen⟩
        rw [hpfx]
        rintro ⟨-, hc⟩
        cases hc
      rw [auLkupDentry_npositive hq hallowed]
      exact exists_congr fun b => hopen.shown_iff hdots hpos b
    · -- No branch has a name as long as this.
      have hnone : ∀ b, ¬ HasName file.entries b name := by
        rintro b ⟨e, he, rfl⟩
        have hle := (hstream b).name_le e he
        have hmax : pathMax - whPfx.length = 4092 := rfl
        omega
      constructor
      · rintro ⟨n, hn, hok⟩
        rw [auLkupDentry] at hok
        split at hok
        · cases hok
        · rw [if_pos (by omega)] at hok
          cases hok
      · rintro ⟨b, hb, -⟩
        exact absurd hb (hnone b)
  rw [hlisted, hfound]
  exact rules_agree_iff hboth

end

/-! ## A whiteout that does not count -/

/-- An rw+nolwh branch with a whiteout of `a`, which is on the ro branch below. -/
def nolwhStack : Stack := ⟨1, fun b => if b = 0 then .rwNoLinkWh else .ro, false, true⟩

def nolwhBranch (b : Nat) : HInode :=
  .mk 2 sIfdir [(if b = 0 then whPfx ++ [97] else [97], .mk 3 sIfreg [] fun _ => 0)] fun _ => 0

def nolwhParent : Dinfo := ⟨0, 1, -1, -1, fun b => some ⟨b, [], some (nolwhBranch b)⟩⟩

def nolwhFile : DirFile where
  fbstart := 0
  fbend := 1
  hFptr := fun b => some ⟨0, [([⟨if b = 0 then whPfx ++ [97] else [97], 3, 8⟩], 0)]⟩

theorem nolwhParent_dirAt (b : Nat) : dirAt nolwhParent b = some (nolwhBranch b) := by
  have hptr : nolwhParent.hDptr b = some ⟨b, [], some (nolwhBranch b)⟩ := by
    refine if_neg ?_
    show ¬ ((0 : Int) < 0 ∨ (b : Int) < 0)
    omega
  rw [dirAt, hptr]
  rfl

theorem nolwhFile_entries {b : Nat} (h : b ≤ 1) :
    nolwhFile.entries b = [⟨if b = 0 then whPfx ++ [97] else [97], 3, 8⟩] := by
  rw [DirFile.entries, if_pos ⟨Nat.zero_le b, h⟩]
  rfl

theorem nolwhFile_stream (b : Nat) : Stream (nolwhFile.entries b) := by
  match b with
  | 0 => exact ⟨by decide, by decide, by decide, by decide⟩
  | 1 => exact ⟨by decide, by decide, by decide, by decide⟩
  | b + 2 =>
    have hnil : nolwhFile.entries (b + 2) = [] := by
      rw [DirFile.entries, if_neg (by show ¬ (0 ≤ b + 2 ∧ b + 2 ≤ 1); omega)]
    rw [hnil]
    exact ⟨by decide, by decide, by decide, by decide⟩

theorem nolwhFile_openOn : OpenOn nolwhParent nolwhFile := by
  refine ⟨rfl, rfl, fun b _ hb n _ => ?_⟩
  rw [HasName, nolwhFile_entries hb, entryAt_eq (nolwhParent_dirAt b)]
  show _ ↔ (List.lookup n [(_, _)]).isSome = true
  rw [List.lookup_cons]
  cases hn : n == (if b = 0 then whPfx ++ [97] else [97]) with
  | true => simp [eq_of_beq hn]
  | false =>
    have hne : ¬ n = if b = 0 then whPfx ++ [97] else [97] := by
      intro hc
      rw [hc, beq_self_eq_true] at hn
      cases hn
    simp [Ne.symm hne]

theorem nolwhFile_noBoth (b : Nat) (hname : HasName nolwhFile.entries b [97]) :
    ¬ HasWh nolwhFile.entries b [97] := by
  obtain ⟨-, hb⟩ := hasName_in hname
  have hpair : ∀ b ≤ 1, (∃ e ∈ nolwhFile.entries b, e.name = [97]) →
      ¬ ∃ e ∈ nolwhFile.entries b, e.name = whPfx ++ [97] := by decide
  exact hpair b hb hname

theorem nolwhParent_quiet (s e : Nat) : Quiet nolwhStack nolwhParent [97] s e := by
  refine ⟨fun b dir _ _ hdir => ?_, fun b dir _ _ hable hdir => ?_, fun b hInode _ _ hable hent _ => ?_⟩
  · obtain rfl := Option.some.inj ((nolwhParent_dirAt b).symm.trans hdir)
    rfl
  all_goals
    have hnot : ¬ auBrWhable (nolwhStack.brPerm b) = true := by
      show ¬ auBrWhable (if b = 0 then .rwNoLinkWh else .ro) = true
      split <;> decide
    exact absurd hable hnot

/-- What `au_do_read_vdir` makes of it. -/
def nolwhRead : Except Trap (Int × Vdir × Sbinfo × Kmem) :=
  auDoReadVdir .ilp32 (fun _ => 0) 0 false nolwhFile newVdir plainSb []

theorem listing_lookup_iff_nolwh : ∃ v' : Vdir,
    ((∃ de ∈ listing .ilp32 v', de.name = [97]) ↔
        ∃ n, n ≠ 0 ∧ (auLkupDentry nolwhStack nolwhParent none [97] 0 0 .alloc).1 = .ok n) ↔
      ∀ t, IsLeast {b | HasName nolwhFile.entries b [97]} t → (∃ b < t, HasWh nolwhFile.entries b [97]) →
        ∃ b < t, auBrWhable (nolwhStack.brPerm b) = true ∧ HasWh nolwhFile.entries b [97] :=
  have hnew : Appended .ilp32 newVdir [] := Appended.alloc (rfl : allocVdir .ilp32 [] = (.ok newVdir, []))
  ⟨_, listing_lookup_iff hnew plainSb_sized nolwhFile_stream (rfl : nolwhRead = .ok (0, _, _, _))
    nolwhFile_openOn (by decide) (by decide) (by decide) nolwhFile_noBoth (nolwhParent_quiet 0 _)⟩

/-- **A name that can be opened, and is not listed.** -/
theorem nolwh_hidden : ∃ v' sb' mem', nolwhRead = .ok (0, v', sb', mem') ∧ listing .ilp32 v' = [] ∧
    (auLkupDentry nolwhStack nolwhParent none [97] 0 0 .alloc).1 = .ok 1 ∧
    ¬ ((∃ de ∈ listing .ilp32 v', de.name = [97]) ↔
      ∃ n, n ≠ 0 ∧ (auLkupDentry nolwhStack nolwhParent none [97] 0 0 .alloc).1 = .ok n) ∧
    OpenOn nolwhParent nolwhFile ∧ ∀ s e, Quiet nolwhStack nolwhParent [97] s e := by
  obtain ⟨v', sb', mem', hread, hlist⟩ : ∃ v' sb' mem', nolwhRead = .ok (0, v', sb', mem') ∧
      listing .ilp32 v' = [] := ⟨_, _, _, rfl, rfl⟩
  have hfound : (auLkupDentry nolwhStack nolwhParent none [97] 0 0 .alloc).1 = .ok 1 := rfl
  refine ⟨v', sb', mem', hread, hlist, hfound, fun hagree => ?_, nolwhFile_openOn, nolwhParent_quiet⟩
  obtain ⟨de, hde, -⟩ := hagree.mpr ⟨1, by decide, hfound⟩
  rw [hlist] at hde
  cases hde

end KernelPatches.Aufs
