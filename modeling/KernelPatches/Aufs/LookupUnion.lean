/-
  The first lookup of a name against the union it should see.

  The union is stated from the contents of the branches alone, topmost branch first: a branch shows
  the name if it holds it and no branch down to this one hides it with a whiteout; the topmost branch
  that shows it decides the type, and only directories are merged with what is below; an opaque one of
  them ends the union.

  * `Shown`, `Top`, `Merged`, `Opaque`, `Visible` — the union;
  * `Seen`              — what the loop of `au_lkup_dentry` knows before a branch, kept by each round
                          that goes on (`seen_round`);
  * `auLkupDentry_npositive` — a lookup finds something iff some branch shows the name;
  * `auLkupDentry_union_iff` — it leaves the union's values in `au_dinfo` iff at most one of the merged
    directories is opaque: the loop goes on below an opaque directory, and each opaque one found
    overwrites the one above;
  * `two_opaques`       — the upper of two opaque directories is forgotten.
-/
import Mathlib.Data.Nat.Find
import Mathlib.Order.Bounds.Basic
import KernelPatches.Aufs.Lookup

namespace KernelPatches.Aufs

/-! ## The union -/

/-- The directory of branch `bindex` that the parent has. -/
def dirAt (parent : Dinfo) (bindex : Nat) : Option HInode :=
  match (parent.hDptr bindex).bind HDentry.inode with
  | none => none
  | some dir => if dir.mode = sIfdir then some dir else none

/-- What a branch holds under the name. -/
def entryAt (parent : Dinfo) (name : Name) (bindex : Nat) : Option HInode :=
  (dirAt parent bindex).bind fun dir => dir.find name

/-- The branch holds the whiteout of the name, and whiteouts count on it. -/
def WhAt (st : Stack) (parent : Dinfo) (name : Name) (bindex : Nat) : Prop :=
  auBrWhable (st.brPerm bindex) = true ∧
    ∃ dir wh, dirAt parent bindex = some dir ∧ dir.find (whPfx ++ name) = some wh

/-- The branch holds an opaque directory under the name, and such marks count on it. -/
def OpqAt (st : Stack) (parent : Dinfo) (name : Name) (bindex : Nat) : Prop :=
  auBrWhable (st.brPerm bindex) = true ∧ ∃ hInode opq, entryAt parent name bindex = some hInode ∧
    hInode.mode = sIfdir ∧ hInode.find whDiropq = some opq

section Union

variable (st : Stack) (parent : Dinfo) (name : Name) (s e : Nat)

/-- Branch `b`, in the range from `s` up to but not including `e`, shows the name. -/
def Shown (b : Nat) : Prop :=
  s ≤ b ∧ b < e ∧ (entryAt parent name b).isSome = true ∧
    ∀ b', s ≤ b' → b' ≤ b → ¬ WhAt st parent name b'

/-- The topmost branch that shows it. -/
def Top (t : Nat) : Prop := IsLeast {b | Shown st parent name s e b} t

/-- The type of what a branch holds. -/
def typeAt (b : Nat) : Option Nat := (entryAt parent name b).map HInode.mode

/-- What is merged: the topmost one, and where this is a directory the directories below it. -/
def Merged (b : Nat) : Prop :=
  Shown st parent name s e b ∧ (Top st parent name s e b ∨
    ∃ t, Top st parent name s e t ∧ typeAt parent name t = some sIfdir ∧ typeAt parent name b = some sIfdir)

/-- A merged directory which is opaque. -/
def Opaque (b : Nat) : Prop := Merged st parent name s e b ∧ OpqAt st parent name b

/-- What is merged and not below an opaque directory. -/
def Visible (b : Nat) : Prop :=
  Merged st parent name s e b ∧ ∀ b' < b, ¬ Opaque st parent name s e b'

/-- A whiteout that is reached before something that is no directory ends the search. -/
def WhReached (b : Nat) : Prop :=
  s ≤ b ∧ b < e ∧ WhAt st parent name b ∧
    ∀ t < b, Top st parent name s e t → typeAt parent name t = some sIfdir

/-- No lookup on these branches fails: whiteouts and the marks of opaque directories are regular files
    where they count. -/
structure Quiet : Prop where
  entry : ∀ b dir, s ≤ b → b < e → dirAt parent b = some dir → dir.lkupErr name = 0
  wh : ∀ b dir, s ≤ b → b < e → auBrWhable (st.brPerm b) = true → dirAt parent b = some dir →
    dir.lkupErr (whPfx ++ name) = 0 ∧
      ∀ wh, dir.find (whPfx ++ name) = some wh → wh.mode = sIfreg
  opq : ∀ b hInode, s ≤ b → b < e → auBrWhable (st.brPerm b) = true →
    entryAt parent name b = some hInode → hInode.mode = sIfdir →
    hInode.lkupErr whDiropq = 0 ∧ ∀ opq, hInode.find whDiropq = some opq → opq.mode = sIfreg

end Union

/-- The topmost branch with `P`, or -1. -/
def IsTopmost (P : Nat → Prop) (v : Int) : Prop :=
  (v = -1 ∧ ∀ b, ¬ P b) ∨ ∃ b : Nat, v = b ∧ IsLeast {b | P b} b

/-! ## One branch -/

theorem auWhTest_quiet {whName : Name} {hParent : HDentry} {dir : HInode}
    (herr : dir.lkupErr whName = 0) (hreg : ∀ wh, dir.find whName = some wh → wh.mode = sIfreg) :
    auWhTest whName hParent dir = if (dir.find whName).isSome then 1 else 0 := by
  rw [auWhTest, auLkupOne, if_neg (not_not.mpr herr)]
  cases hf : dir.find whName with
  | none => simp only [Option.isSome_none, Bool.false_eq_true, if_false]
  | some wh => simp only [hreg wh hf, if_true, Option.isSome_some]

section Branch

variable {st : Stack} {parent : Dinfo} {name : Name} {s e : Nat} {b : Nat} {dir : HInode}

theorem whAt_iff (hdir : dirAt parent b = some dir) :
    WhAt st parent name b ↔
      auBrWhable (st.brPerm b) = true ∧ (dir.find (whPfx ++ name)).isSome = true := by
  constructor
  · rintro ⟨hable, dir', wh, hdir', hwh⟩
    obtain rfl := Option.some.inj (hdir.symm.trans hdir')
    exact ⟨hable, by rw [hwh]; rfl⟩
  · rintro ⟨hable, hwh⟩
    obtain ⟨wh, hwh⟩ := Option.isSome_iff_exists.mp hwh
    exact ⟨hable, dir, wh, hdir, hwh⟩

theorem entryAt_eq (hdir : dirAt parent b = some dir) : entryAt parent name b = dir.find name := by
  rw [entryAt, hdir]
  rfl

/-- A branch without a directory has no whiteout and no entry. -/
theorem not_whAt_of_none (hdir : dirAt parent b = none) : ¬ WhAt st parent name b := by
  rintro ⟨-, dir', wh, hdir', -⟩
  rw [hdir] at hdir'
  cases hdir'

theorem entryAt_none (hdir : dirAt parent b = none) : entryAt parent name b = none := by
  rw [entryAt, hdir]
  rfl

/-- What the whiteout test of a branch says. -/
theorem whFound_quiet (hq : Quiet st parent name s e) (hs : s ≤ b) (he : b < e)
    (hdir : dirAt parent b = some dir) (hParent : HDentry) :
    (WhAt st parent name b → (if auBrWhable (st.brPerm b) then auWhTest (whPfx ++ name) hParent dir
      else 0) = 1) ∧
    (¬ WhAt st parent name b → (if auBrWhable (st.brPerm b) then auWhTest (whPfx ++ name) hParent dir
      else 0) = 0) := by
  rw [whAt_iff hdir]
  by_cases hable : auBrWhable (st.brPerm b) = true
  · obtain ⟨herr, hreg⟩ := hq.wh b dir hs he hable hdir
    rw [if_pos hable, auWhTest_quiet herr hreg]
    constructor
    · intro hwh
      exact if_pos hwh.2
    · intro hwh
      exact if_neg fun hc => hwh ⟨hable, hc⟩
  · rw [if_neg hable]
    constructor
    · intro hwh
      exact absurd hwh.1 hable
    · intro _
      rfl

/-- The hidden dentry of the name on a branch. -/
def hiddenOf (name : Name) (hParent : HDentry) (dir : HInode) : HDentry :=
  ⟨hParent.mnt, name :: hParent.path, dir.find name⟩

theorem auLkupOne_quiet (hq : Quiet st parent name s e) (hs : s ≤ b) (he : b < e)
    (hdir : dirAt parent b = some dir) (hParent : HDentry) :
    auLkupOne name hParent dir = .ok (hiddenOf name hParent dir) := by
  rw [auLkupOne, if_neg (not_not.mpr (hq.entry b dir hs he hdir))]
  rfl

variable {type : Nat} {allowNeg : Bool} {d : Dinfo} {hParent : HDentry}

/-- The name is whited out: only the first branch looked at is asked for the name itself. -/
theorem auDoLookup_wh (hq : Quiet st parent name s e) (hs : s ≤ b) (he : b < e)
    (hdir : dirAt parent b = some dir) (hwh : WhAt st parent name b) :
    auDoLookup st none name hParent dir b type allowNeg d =
      if allowNeg = true ∧ (entryAt parent name b).isNone = true then
        (.ok (hiddenOf name hParent dir),
          ({ d with diBwh := b } : Dinfo).found b (hiddenOf name hParent dir))
      else (.ok none, { d with diBwh := b }) := by
  have hone := (whFound_quiet hq hs he hdir hParent).1 hwh
  have hne : ¬ (1 : Int) = 0 := by decide
  have hlt : ¬ (1 : Int) < 0 := by decide
  rw [auDoLookup, hone, entryAt_eq hdir]
  simp only [if_neg hlt, if_neg hne, auLkupOne_quiet hq hs he hdir]
  cases allowNeg with
  | false => simp
  | true =>
    cases hf : dir.find name with
    | none => simp [hiddenOf, hf]
    | some hInode => simp [hiddenOf, hf]

/-- The name is not there: the first branch looked at gives a negative dentry. -/
theorem auDoLookup_none (hq : Quiet st parent name s e) (hs : s ≤ b) (he : b < e)
    (hdir : dirAt parent b = some dir) (hwh : ¬ WhAt st parent name b)
    (hent : entryAt parent name b = none) :
    auDoLookup st none name hParent dir b type allowNeg d =
      if allowNeg = true then
        (.ok (hiddenOf name hParent dir), d.found b (hiddenOf name hParent dir))
      else (.ok none, d) := by
  have hzero := (whFound_quiet hq hs he hdir hParent).2 hwh
  rw [entryAt_eq hdir] at hent
  have hlt : ¬ (0 : Int) < 0 := by decide
  rw [auDoLookup, hzero]
  simp only [if_neg hlt, auLkupOne_quiet hq hs he hdir]
  simp [hiddenOf, hent]

/-- The name is there, with a type that is not wanted. -/
theorem auDoLookup_other (hq : Quiet st parent name s e) (hs : s ≤ b) (he : b < e)
    (hdir : dirAt parent b = some dir) (hwh : ¬ WhAt st parent name b) {hInode : HInode}
    (hent : entryAt parent name b = some hInode) (htype : type ≠ 0 ∧ type ≠ hInode.mode) :
    auDoLookup st none name hParent dir b type allowNeg d = (.ok none, d) := by
  have hzero := (whFound_quiet hq hs he hdir hParent).2 hwh
  rw [entryAt_eq hdir] at hent
  have hlt : ¬ (0 : Int) < 0 := by decide
  rw [auDoLookup, hzero]
  simp only [if_neg hlt, auLkupOne_quiet hq hs he hdir]
  simp [hiddenOf, hent, htype]

open Classical in
/-- The name is there: its hidden dentry is set, and a directory is asked whether it is opaque. -/
theorem auDoLookup_entry (hq : Quiet st parent name s e) (hs : s ≤ b) (he : b < e)
    (hdir : dirAt parent b = some dir) (hwh : ¬ WhAt st parent name b) {hInode : HInode}
    (hent : entryAt parent name b = some hInode) (htype : type = 0 ∨ type = hInode.mode) :
    auDoLookup st none name hParent dir b type allowNeg d =
      (.ok (hiddenOf name hParent dir),
        if OpqAt st parent name b then
          { d.found b (hiddenOf name hParent dir) with diBdiropq := b }
        else d.found b (hiddenOf name hParent dir)) := by
  have hzero := (whFound_quiet hq hs he hdir hParent).2 hwh
  have hfind := hent
  rw [entryAt_eq hdir] at hfind
  have hlt : ¬ (0 : Int) < 0 := by decide
  have htype' : ¬ (type ≠ 0 ∧ type ≠ hInode.mode) := by
    rintro ⟨h0, hm⟩
    exact htype.elim h0 hm
  have hopq : OpqAt st parent name b ↔ auBrWhable (st.brPerm b) = true ∧ hInode.mode = sIfdir ∧
      (hInode.find whDiropq).isSome = true := by
    constructor
    · rintro ⟨hable, hInode', opq, hent', hmode, hopq⟩
      obtain rfl := Option.some.inj (hent.symm.trans hent')
      exact ⟨hable, hmode, by rw [hopq]; rfl⟩
    · rintro ⟨hable, hmode, hopq⟩
      obtain ⟨opq, hopq⟩ := Option.isSome_iff_exists.mp hopq
      exact ⟨hable, hInode, opq, hent, hmode, hopq⟩
  rw [auDoLookup, hzero]
  have hinode : (hiddenOf name hParent dir).inode = some hInode := hfind
  have hne : ¬ ((0 : Int) ≠ 0 ∧ (!allowNeg) = true) := fun hc => hc.1 rfl
  have hwant : ¬ ((0 : Int) ≠ 0 ∨ type ≠ 0 ∧ type ≠ hInode.mode) := by
    rintro (h0 | ht)
    · exact h0 rfl
    · exact htype' ht
  simp only [if_neg hlt, if_true, if_neg hne, auLkupOne_quiet hq hs he hdir, hinode, if_neg hwant]
  by_cases hask : auBrWhable (st.brPerm b) = true ∧ hInode.mode = sIfdir
  case neg =>
    -- no directory, or the mark does not count
    have hno : ¬ OpqAt st parent name b := fun hc => hask ⟨(hopq.mp hc).1, (hopq.mp hc).2.1⟩
    rw [if_neg hno, if_pos]
    by_cases hmode : hInode.mode = sIfdir
    · refine Or.inr (Or.inl ?_)
      rw [Bool.eq_false_iff.mpr fun hc => hask ⟨hc, hmode⟩]
      rfl
    · exact Or.inl hmode
  obtain ⟨herr, hreg⟩ := hq.opq b hInode hs he hask.1 hent hask.2
  rw [if_neg, auWhTest_quiet herr hreg]
  · by_cases hsome : (hInode.find whDiropq).isSome = true
    · rw [if_pos (hopq.mpr ⟨hask.1, hask.2, hsome⟩), if_pos hsome, if_pos (by decide)]
    · have hno : ¬ OpqAt st parent name b := fun hc => hsome (hopq.mp hc).2.2
      rw [if_neg hno, if_neg hsome, if_neg (by decide), if_neg (by decide)]
  · rintro (hc | hc | hc)
    · exact hc hask.2
    · rw [hask.1] at hc
      exact Bool.noConfusion hc
    · exact Bool.noConfusion hc

end Branch

/-! ## What has been found -/

/-- The hidden dentries are those of the name; the positive ones are on the branches `P`, and the one
    negative there may be is that of the first branch looked at. -/
structure Filled (parent : Dinfo) (name : Name) (P : Nat → Prop) (d : Dinfo) : Prop where
  inode : ∀ b hd, d.diHdentry b = some hd → hd.inode = entryAt parent name b
  range : ∀ b hd, d.diHdentry b = some hd → d.diBstart ≤ b ∧ (b : Int) ≤ d.diBend
  positive : ∀ b, P b ↔ ∃ hd, d.diHdentry b = some hd ∧ hd.inode.isSome = true
  negative : ∀ b hd, d.diHdentry b = some hd → hd.inode = none → (b : Int) = d.diBstart
  start : (d.diBstart = -1 ∧ ∀ b, d.diHdentry b = none) ∨ 0 ≤ d.diBstart

section Filled

variable {parent : Dinfo} {name : Name} {P Q : Nat → Prop} {d : Dinfo} {k : Nat}

theorem Filled.congr (h : Filled parent name P d) (hPQ : ∀ b, P b ↔ Q b) : Filled parent name Q d :=
  ⟨h.inode, h.range, fun b => (hPQ b).symm.trans (h.positive b), h.negative, h.start⟩

/-- `bwh` and `bdiropq` do not matter to it. -/
theorem Filled.bwh (h : Filled parent name P d) (v : Int) :
    Filled parent name P { d with diBwh := v } :=
  ⟨h.inode, h.range, h.positive, h.negative, h.start⟩

theorem Filled.bdiropq (h : Filled parent name P d) (v : Int) :
    Filled parent name P { d with diBdiropq := v } :=
  ⟨h.inode, h.range, h.positive, h.negative, h.start⟩

theorem Filled.alloc : Filled parent name (fun _ => False) .alloc := by
  refine ⟨?_, ?_, ?_, ?_, Or.inl ⟨rfl, fun _ => rfl⟩⟩
  · intro b hd h
    cases h
  · intro b hd h
    cases h
  · intro b
    constructor
    · intro h
      exact h.elim
    · rintro ⟨hd, h, -⟩
      cases h
  · intro b hd h
    cases h

/-- Below the range nothing is set, so `au_h_dptr` has it all. -/
theorem Filled.hDptr (h : Filled parent name P d) (b : Nat) : d.hDptr b = d.diHdentry b := by
  rw [Dinfo.hDptr]
  by_cases hlow : d.diBstart < 0 ∨ b < d.diBstart
  · rw [if_pos hlow]
    cases hb : d.diHdentry b with
    | none => rfl
    | some hd =>
      have hrange := h.range b hd hb
      rcases h.start with ⟨-, hnone⟩ | hs
      · rw [hnone b] at hb
        cases hb
      · omega
  · rw [if_neg hlow]

/-- Behind the range there is none. -/
theorem Filled.free (h : Filled parent name P d) (hend : d.diBend < k) : d.diHdentry k = none := by
  cases hb : d.diHdentry k with
  | none => rfl
  | some hd =>
    have hrange := h.range k hd hb
    omega

/-- The range grows downwards in the stack. -/
theorem found_range (hstart : d.diBstart < k) (hend : d.diBend < k) (hd : HDentry) :
    (d.found k hd).diBend = k ∧ (d.found k hd).diBstart = if d.diBstart < 0 then (k : Int) else d.diBstart := by
  constructor
  · exact if_pos (Int.le_of_lt hend)
  · show (if d.diBstart < 0 ∨ (k : Int) < d.diBstart then (k : Int) else d.diBstart) = _
    by_cases hneg : d.diBstart < 0
    · rw [if_pos (Or.inl hneg), if_pos hneg]
    · rw [if_neg (by omega), if_neg hneg]

/-- **A hidden dentry is set** on the next branch. -/
theorem Filled.found (h : Filled parent name P d) (hstart : d.diBstart < k) (hend : d.diBend < k)
    {hd : HDentry} (hinode : hd.inode = entryAt parent name k)
    (hneg : hd.inode = none → d.diBstart < 0) :
    Filled parent name (fun b => P b ∨ (b = k ∧ hd.inode.isSome = true)) (d.found k hd) := by
  obtain ⟨hbend, hbstart⟩ := found_range hstart hend hd
  have hget : ∀ b, (d.found k hd).diHdentry b = if b = k then some hd else d.diHdentry b := by
    intro b
    show Function.update d.diHdentry k (some hd) b = _
    by_cases hb : b = k
    · rw [if_pos hb, hb, Function.update_self]
    · rw [if_neg hb, Function.update_of_ne hb]
  refine ⟨?_, ?_, ?_, ?_, ?_⟩
  · intro b hd' hb
    rw [hget] at hb
    by_cases hbk : b = k
    · rw [if_pos hbk] at hb
      obtain rfl := Option.some.inj hb
      rw [hbk]
      exact hinode
    · rw [if_neg hbk] at hb
      exact h.inode b hd' hb
  · intro b hd' hb
    rw [hget] at hb
    rw [hbend, hbstart]
    by_cases hbk : b = k
    · split <;> omega
    · rw [if_neg hbk] at hb
      have hr := h.range b hd' hb
      rcases h.start with ⟨-, hnone⟩ | hs
      · rw [hnone b] at hb
        cases hb
      · rw [if_neg (by omega)]
        omega
  · intro b
    constructor
    · rintro (hP | ⟨rfl, hsome⟩)
      · obtain ⟨hd', hb, hsome⟩ := (h.positive b).mp hP
        have hbk : b ≠ k := by
          rintro rfl
          rw [h.free hend] at hb
          cases hb
        exact ⟨hd', by rw [hget, if_neg hbk, hb], hsome⟩
      · exact ⟨hd, by rw [hget, if_pos rfl], hsome⟩
    · rintro ⟨hd', hb, hsome⟩
      rw [hget] at hb
      by_cases hbk : b = k
      · rw [if_pos hbk] at hb
        obtain rfl := Option.some.inj hb
        exact Or.inr ⟨hbk, hsome⟩
      · rw [if_neg hbk] at hb
        exact Or.inl ((h.positive b).mpr ⟨hd', hb, hsome⟩)
  · intro b hd' hb hnone
    rw [hget] at hb
    rw [hbstart]
    by_cases hbk : b = k
    · rw [if_pos hbk] at hb
      obtain rfl := Option.some.inj hb
      rw [if_pos (hneg hnone), hbk]
    · rw [if_neg hbk] at hb
      have hat := h.negative b hd' hb hnone
      rw [if_neg (by omega), hat]
  · right
    rw [hbstart]
    split <;> omega

end Filled

/-! ## The loop -/

/-- A directory under the name, on a branch from `s` up to but not including `k`. -/
def DirIn (parent : Dinfo) (name : Name) (s k b : Nat) : Prop :=
  s ≤ b ∧ b < k ∧ typeAt parent name b = some sIfdir

/-- The bottommost opaque directory before branch `k`, or -1. -/
def LastOpq (st : Stack) (parent : Dinfo) (name : Name) (s k : Nat) (v : Int) : Prop :=
  (v = -1 ∧ ∀ b, s ≤ b → b < k → ¬ OpqAt st parent name b) ∨
    ∃ o : Nat, v = o ∧ s ≤ o ∧ o < k ∧ OpqAt st parent name o ∧
      ∀ b, o < b → b < k → ¬ OpqAt st parent name b

/-- **Before branch `k`**, the branches from `s` on having been gone through: no whiteout was met, and
    either the name was met nowhere, or a directory was met first. -/
structure Seen (st : Stack) (parent : Dinfo) (name : Name) (s k : Nat) (w : Lkup) : Prop where
  noWh : ∀ b, s ≤ b → b < k → ¬ WhAt st parent name b
  bwh : w.d.diBwh = -1
  filled : Filled parent name (DirIn parent name s k) w.d
  bstart : w.d.diBstart < k
  bend : w.d.diBend < k
  bdiropq : LastOpq st parent name s k w.d.diBdiropq
  fresh : w.allowNeg = true → w.d.diBstart < 0
  phase : (w.type = 0 ∧ w.npositive = 0 ∧ ∀ b, s ≤ b → b < k → entryAt parent name b = none) ∨
    (w.type = sIfdir ∧ w.npositive ≠ 0 ∧ w.allowNeg = false ∧
      ∃ t, DirIn parent name s k t ∧ ∀ b, s ≤ b → b < t → entryAt parent name b = none)

/-- Stopped at branch `k` by the whiteout on it. -/
structure WhStop (st : Stack) (parent : Dinfo) (name : Name) (s k : Nat) (w w' : Lkup) : Prop where
  wh : WhAt st parent name k
  npositive : w'.npositive = w.npositive
  filled : Filled parent name (DirIn parent name s k) w'.d
  bwh : w'.d.diBwh = k
  bend : w'.d.diBend ≤ k
  bdiropq : w'.d.diBdiropq = w.d.diBdiropq

/-- Stopped at branch `k` by what is there, no directory. -/
structure EntryStop (st : Stack) (parent : Dinfo) (name : Name) (s k : Nat) (w w' : Lkup) : Prop where
  type : w.type = 0
  noWh : ¬ WhAt st parent name k
  entry : ∃ hInode, entryAt parent name k = some hInode ∧ hInode.mode ≠ sIfdir
  npositive : w'.npositive ≠ 0
  filled : Filled parent name (fun b => b = k) w'.d
  bwh : w'.d.diBwh = -1
  bdiropq : w'.d.diBdiropq = -1

section Loop

variable {st : Stack} {parent : Dinfo} {name : Name} {s e k : Nat} {w : Lkup}

theorem LastOpq.succ {v : Int} (h : LastOpq st parent name s k v) (hk : ¬ OpqAt st parent name k) :
    LastOpq st parent name s (k + 1) v := by
  rcases h with ⟨hv, hno⟩ | ⟨o, hv, hs, hlt, hopq, hlast⟩
  · refine Or.inl ⟨hv, fun b hb hbk => ?_⟩
    by_cases hlt : b < k
    · exact hno b hb hlt
    · obtain rfl : b = k := by omega
      exact hk
  · refine Or.inr ⟨o, hv, hs, by omega, hopq, fun b hb hbk => ?_⟩
    by_cases hlt' : b < k
    · exact hlast b hb hlt'
    · obtain rfl : b = k := by omega
      exact hk

theorem LastOpq.new (hs : s ≤ k) (hk : OpqAt st parent name k) :
    LastOpq st parent name s (k + 1) k :=
  Or.inr ⟨k, rfl, hs, by omega, hk, fun b hb hbk => by omega⟩

theorem typeAt_of_entry {b : Nat} {hInode : HInode} (h : entryAt parent name b = some hInode) :
    typeAt parent name b = some hInode.mode := by
  rw [typeAt, h]
  rfl

theorem dirIn_skip (hdir : ¬ typeAt parent name k = some sIfdir) (b : Nat) :
    DirIn parent name s k b ↔ DirIn parent name s (k + 1) b := by
  constructor
  · rintro ⟨hs, hlt, ht⟩
    exact ⟨hs, by omega, ht⟩
  · rintro ⟨hs, hlt, ht⟩
    refine ⟨hs, ?_, ht⟩
    have hbk : b ≠ k := by
      rintro rfl
      exact hdir ht
    omega

theorem dirIn_succ (hs : s ≤ k) (hdir : typeAt parent name k = some sIfdir) (b : Nat) :
    DirIn parent name s k b ∨ b = k ↔ DirIn parent name s (k + 1) b := by
  constructor
  · rintro (⟨hb, hlt, ht⟩ | rfl)
    · exact ⟨hb, by omega, ht⟩
    · exact ⟨hs, by omega, hdir⟩
  · rintro ⟨hb, hlt, ht⟩
    by_cases hbk : b = k
    · exact Or.inr hbk
    · exact Or.inl ⟨hb, by omega, ht⟩

/-- A branch without a directory of the name changes what is seen only by its index. -/
theorem Seen.skip (h : Seen st parent name s k w) (hwh : ¬ WhAt st parent name k)
    (hopq : ¬ OpqAt st parent name k) (hdir : ¬ typeAt parent name k = some sIfdir)
    (hnone : w.type = 0 → entryAt parent name k = none) : Seen st parent name s (k + 1) w := by
  have hsame := dirIn_skip (s := s) hdir
  refine ⟨?_, h.bwh, h.filled.congr hsame, ?_, ?_, h.bdiropq.succ hopq, h.fresh, ?_⟩
  · intro b hb hbk
    by_cases hlt : b < k
    · exact h.noWh b hb hlt
    · obtain rfl : b = k := by omega
      exact hwh
  · have := h.bstart
    omega
  · have := h.bend
    omega
  · rcases h.phase with ⟨ht, hn, hent⟩ | ⟨ht, hn, ha, t, htop, hent⟩
    · refine Or.inl ⟨ht, hn, fun b hb hbk => ?_⟩
      by_cases hlt : b < k
      · exact hent b hb hlt
      · obtain rfl : b = k := by omega
        exact hnone ht
    · exact Or.inr ⟨ht, hn, ha, t, (hsame t).mp htop, hent⟩

theorem dirAt_some {b : Nat} {dir : HInode} (h : dirAt parent b = some dir) :
    ∃ hParent, parent.hDptr b = some hParent ∧ hParent.inode = some dir ∧ dir.mode = sIfdir := by
  rw [dirAt] at h
  cases hp : parent.hDptr b with
  | none =>
    rw [hp] at h
    cases h
  | some hParent =>
    rw [hp] at h
    cases hi : hParent.inode with
    | none =>
      simp only [Option.bind_some, hi] at h
      cases h
    | some dir' =>
      simp only [Option.bind_some, hi] at h
      by_cases hm : dir'.mode = sIfdir
      · rw [if_pos hm] at h
        obtain rfl := Option.some.inj h
        exact ⟨hParent, rfl, hi, hm⟩
      · rw [if_neg hm] at h
        cases h

theorem round_none {inode : Option Nat} {type : Nat} (hfree : w.d.hDptr k = none)
    (hdir : dirAt parent k = none) : lkupRound st parent inode name type k w = .next w := by
  rw [lkupRound, hfree]
  rw [dirAt] at hdir
  cases hp : parent.hDptr k with
  | none => rfl
  | some hParent =>
    cases hi : hParent.inode with
    | none => simp only [hi]
    | some dir =>
      simp only [hp, Option.bind_some, hi] at hdir
      by_cases hm : dir.mode = sIfdir
      · rw [if_pos hm] at hdir
        cases hdir
      · simp only [hi, if_pos hm]

/-- In a branch where the parent is a directory and no entry is held, one round is one lookup. -/
theorem round_dir (st : Stack) {hParent : HDentry} {dir : HInode} (hfree : w.d.hDptr k = none)
    (hptr : parent.hDptr k = some hParent) (hinode : hParent.inode = some dir)
    (hmode : dir.mode = sIfdir) (name : Name) (type : Nat) :
    lkupRound st parent none name type k w =
      let r := auDoLookup st none name hParent dir k w.type w.allowNeg w.d
      match r.1 with
      | .error err => .fail err r.2
      | .ok hDentry =>
        let w := { w with allowNeg := false, d := r.2 }
        if 0 ≤ w.d.diBwh then .stop w
        else
          match hDentry.bind HDentry.inode with
          | none => .next w
          | some hInode =>
            let w := { w with
              npositive := w.npositive + 1, type := if w.type = 0 then hInode.mode else w.type }
            if w.type ≠ sIfdir then .stop w else .next w := by
  unfold lkupRound
  rw [hfree, hptr]
  dsimp only
  rw [hinode]
  dsimp only
  rw [if_neg (not_not_intro hmode)]
  rfl

/-- **One round**: it goes on to the next branch, or stops at a whiteout or at what is no directory. -/
theorem seen_round (hq : Quiet st parent name s e) (type : Nat) (hs : s ≤ k) (he : k < e)
    (h : Seen st parent name s k w) :
    (∃ w', lkupRound st parent none name type k w = .next w' ∧ Seen st parent name s (k + 1) w') ∨
      ∃ w', lkupRound st parent none name type k w = .stop w' ∧
        (WhStop st parent name s k w w' ∨ EntryStop st parent name s k w w') := by
  have hfree : w.d.hDptr k = none := (h.filled.hDptr k).trans (h.filled.free h.bend)
  cases hdir : dirAt parent k with
  | none =>
    left
    have hent : entryAt parent name _ = none := entryAt_none hdir
    refine ⟨w, round_none hfree hdir, h.skip (not_whAt_of_none hdir) ?_ ?_ fun _ => hent⟩
    · rintro ⟨-, hInode, opq, hent', -⟩
      rw [hent] at hent'
      cases hent'
    · rw [typeAt, hent]
      intro hc
      cases hc
  | some dir =>
  obtain ⟨hParent, hptr, hinode, hmode⟩ := dirAt_some hdir
  have hround := round_dir st hfree hptr hinode hmode name type
  have hhid : (hiddenOf name hParent dir).inode = entryAt parent name k := (entryAt_eq hdir).symm
  have hbwh : 0 ≤ (k : Int) := by omega
  have hnobwh : ¬ 0 ≤ w.d.diBwh := by
    rw [h.bwh]
    decide
  -- a negative hidden dentry adds none to the positive ones
  have hnegative : ∀ d, Filled parent name (DirIn parent name s k) d → d.diBstart < 0 →
      d.diBend < k → entryAt parent name k = none →
      Filled parent name (DirIn parent name s k) (d.found k (hiddenOf name hParent dir)) := by
    intro d hd hstart hend hnone
    refine (hd.found (by omega) hend hhid fun _ => hstart).congr fun b => ?_
    constructor
    · rintro (hb | ⟨-, hsome⟩)
      · exact hb
      · rw [hhid, hnone] at hsome
        exact Bool.noConfusion hsome
    · exact Or.inl
  by_cases hwh : WhAt st parent name k
  · -- a whiteout ends the search
    right
    rw [auDoLookup_wh hq hs he hdir hwh] at hround
    by_cases hneg : w.allowNeg = true ∧ (entryAt parent name k).isNone = true
    · simp only [if_pos hneg] at hround
      have hd := hnegative { w.d with diBwh := k } (h.filled.bwh k) (h.fresh hneg.1) h.bend
        (Option.isNone_iff_eq_none.mp hneg.2)
      refine ⟨_, hround.trans (if_pos hbwh), Or.inl ⟨hwh, rfl, hd, rfl, ?_, rfl⟩⟩
      exact Int.le_of_eq (found_range h.bstart h.bend (hiddenOf name hParent dir)).1
    · simp only [if_neg hneg] at hround
      refine ⟨_, hround.trans (if_pos hbwh), Or.inl ⟨hwh, rfl, h.filled.bwh _, rfl, ?_, rfl⟩⟩
      exact Int.le_of_lt h.bend
  cases hent : entryAt parent name k with
  | none =>
    -- the name is not there
    left
    have hopq : ¬ OpqAt st parent name k := by
      rintro ⟨-, hInode, opq, hent', -⟩
      rw [hent] at hent'
      cases hent'
    have htype : ¬ typeAt parent name k = some sIfdir := by
      rw [typeAt, hent]
      intro hc
      cases hc
    rw [auDoLookup_none hq hs he hdir hwh hent] at hround
    have hskip : Seen st parent name s (k + 1) w := h.skip hwh hopq htype fun _ => hent
    by_cases hneg : w.allowNeg = true
    · have hd := (hnegative w.d h.filled (h.fresh hneg) h.bend hent).congr (dirIn_skip htype)
      have hnone : (hiddenOf name hParent dir).inode = none := hhid.trans hent
      obtain ⟨hbend, hbstart⟩ := found_range h.bstart h.bend (hiddenOf name hParent dir)
      simp only [if_pos hneg, Option.bind_some, hnone] at hround
      refine ⟨_, hround.trans (if_neg hnobwh), hskip.noWh, h.bwh, hd, ?_, ?_, hskip.bdiropq,
        fun hc => Bool.noConfusion hc, ?_⟩
      · show (w.d.found k (hiddenOf name hParent dir)).diBstart < _
        rw [hbstart, if_pos (h.fresh hneg)]
        omega
      · show (w.d.found k (hiddenOf name hParent dir)).diBend < _
        rw [hbend]
        omega
      · rcases hskip.phase with hp | ⟨-, -, ha, -⟩
        · exact Or.inl hp
        · rw [hneg] at ha
          exact Bool.noConfusion ha
    · simp only [if_neg hneg, Option.bind_none] at hround
      refine ⟨_, hround.trans (if_neg hnobwh), hskip.noWh, hskip.bwh, hskip.filled, hskip.bstart,
        hskip.bend, hskip.bdiropq, fun hc => Bool.noConfusion hc, ?_⟩
      rcases hskip.phase with hp | ⟨ht, hn, -, hp⟩
      · exact Or.inl hp
      · exact Or.inr ⟨ht, hn, rfl, hp⟩
  | some hInode =>
    have htype := typeAt_of_entry hent
    by_cases hother : w.type ≠ 0 ∧ w.type ≠ hInode.mode
    · -- another type than that of the union
      left
      have hdirs : ¬ typeAt parent name k = some sIfdir := by
        rw [htype]
        intro hc
        rcases h.phase with ⟨h0, -⟩ | ⟨hd, -⟩
        · exact hother.1 h0
        · exact hother.2 (hd.trans (Option.some.inj hc).symm)
      have hopq : ¬ OpqAt st parent name k := by
        rintro ⟨-, hInode', opq, hent', hm, -⟩
        obtain rfl := Option.some.inj (hent.symm.trans hent')
        exact hdirs (htype.trans (congrArg some hm))
      have hskip : Seen st parent name s (k + 1) w :=
        h.skip hwh hopq hdirs fun h0 => absurd h0 hother.1
      rw [auDoLookup_other hq hs he hdir hwh hent hother] at hround
      simp only [Option.bind_none] at hround
      refine ⟨_, hround.trans (if_neg hnobwh), hskip.noWh, hskip.bwh, hskip.filled, hskip.bstart,
        hskip.bend, hskip.bdiropq, fun hc => Bool.noConfusion hc, ?_⟩
      rcases hskip.phase with hp | ⟨ht, hn, -, hp⟩
      · exact Or.inl hp
      · exact Or.inr ⟨ht, hn, rfl, hp⟩
    -- the hidden dentry is set
    have hwant : w.type = 0 ∨ w.type = hInode.mode := by
      by_cases h0 : w.type = 0
      · exact Or.inl h0
      · exact Or.inr (not_not.mp fun hc => hother ⟨h0, hc⟩)
    classical
    rw [auDoLookup_entry hq hs he hdir hwh hent hwant] at hround
    have hsome : (hiddenOf name hParent dir).inode = some hInode := hhid.trans hent
    have hfound : Filled parent name (fun b => DirIn parent name s k b ∨ b = k)
        (w.d.found k (hiddenOf name hParent dir)) := by
      refine (h.filled.found h.bstart h.bend hhid fun hc => ?_).congr fun b => ?_
      · rw [hsome] at hc
        cases hc
      · rw [hsome]
        simp only [Option.isSome_some, and_true]
    obtain ⟨hbend, hbstart⟩ := found_range h.bstart h.bend (hiddenOf name hParent dir)
    obtain ⟨d', hd'⟩ : ∃ d', d' = if OpqAt st parent name k then
      { w.d.found k (hiddenOf name hParent dir) with diBdiropq := k }
      else w.d.found k (hiddenOf name hParent dir) := ⟨_, rfl⟩
    have hfields : Filled parent name (fun b => DirIn parent name s k b ∨ b = k) d' ∧
        d'.diBwh = -1 ∧ d'.diBend = k ∧
        d'.diBstart = (if w.d.diBstart < 0 then (k : Int) else w.d.diBstart) ∧
        d'.diBdiropq = if OpqAt st parent name k then (k : Int) else w.d.diBdiropq := by
      rw [hd']
      by_cases hopq : OpqAt st parent name k
      · rw [if_pos hopq, if_pos hopq]
        exact ⟨hfound.bdiropq k, h.bwh, hbend, hbstart, rfl⟩
      · rw [if_neg hopq, if_neg hopq]
        exact ⟨hfound, h.bwh, hbend, hbstart, rfl⟩
    obtain ⟨hfilled, hbwh', hbend', hbstart', hbdiropq'⟩ := hfields
    have hnobwh' : ¬ 0 ≤ d'.diBwh := by
      rw [hbwh']
      decide
    rw [← hd'] at hround
    simp only [Option.bind_some, hsome, if_neg hnobwh'] at hround
    by_cases hm : hInode.mode = sIfdir
    · -- a directory: the ones below are merged with it
      left
      have htype' : (if w.type = 0 then hInode.mode else w.type) = sIfdir := by
        rcases hwant with h0 | hw
        · rw [if_pos h0, hm]
        · rw [hw, hm, if_neg (by decide)]
      refine ⟨_, hround.trans (if_neg (not_not.mpr htype')), ?_, hbwh', ?_, ?_, ?_, ?_,
        fun hc => Bool.noConfusion hc, ?_⟩
      · intro b hb hbk
        by_cases hlt : b < k
        · exact h.noWh b hb hlt
        · obtain rfl : b = k := by omega
          exact hwh
      · exact hfilled.congr (dirIn_succ hs (htype.trans (congrArg some hm)))
      · show d'.diBstart < _
        have := h.bstart
        rw [hbstart']
        split <;> omega
      · show d'.diBend < _
        rw [hbend']
        omega
      · show LastOpq st parent name s (k + 1) d'.diBdiropq
        rw [hbdiropq']
        by_cases hopq : OpqAt st parent name k
        · rw [if_pos hopq]
          exact LastOpq.new hs hopq
        · rw [if_neg hopq]
          exact h.bdiropq.succ hopq
      · refine Or.inr ⟨htype', Nat.succ_ne_zero _, rfl, ?_⟩
        rcases h.phase with ⟨-, -, hnone⟩ | ⟨-, -, -, t, ht, hnone⟩
        · exact ⟨k, ⟨hs, by omega, htype.trans (congrArg some hm)⟩, hnone⟩
        · exact ⟨t, ⟨ht.1, by have := ht.2.1; omega, ht.2.2⟩, hnone⟩
    · -- no directory: it is alone
      right
      have h0 : w.type = 0 := by
        rcases h.phase with ⟨h0, -⟩ | ⟨hd, -⟩
        · exact h0
        · rcases hwant with h0 | hw
          · exact h0
          · exact absurd (hw.symm.trans hd) hm
      have htype' : (if w.type = 0 then hInode.mode else w.type) ≠ sIfdir := by
        rw [if_pos h0]
        exact hm
      have hnone : ∀ b, s ≤ b → b < k → entryAt parent name b = none := by
        rcases h.phase with ⟨-, -, hnone⟩ | ⟨hd, -⟩
        · exact hnone
        · rw [h0] at hd
          exact absurd hd (by decide)
      have hopq : ¬ OpqAt st parent name k := by
        rintro ⟨-, hInode', opq, hent', hm', -⟩
        obtain rfl := Option.some.inj (hent.symm.trans hent')
        exact hm hm'
      refine ⟨_, hround.trans (if_pos htype'), Or.inr ⟨h0, hwh, ⟨hInode, hent, hm⟩, Nat.succ_ne_zero _,
        hfilled.congr fun b => ?_, hbwh', ?_⟩⟩
      · constructor
        · rintro (⟨hb, hlt, ht⟩ | hb)
          · rw [typeAt, hnone b hb hlt] at ht
            cases ht
          · exact hb
        · exact Or.inr
      · show d'.diBdiropq = -1
        rw [hbdiropq', if_neg hopq]
        rcases h.bdiropq with ⟨hv, -⟩ | ⟨o, -, ho, hlt, ⟨-, hInode', opq, hent', -⟩, -⟩
        · exact hv
        · rw [hnone o ho hlt] at hent'
          cases hent'

end Loop

/-! ## The end of the loop -/

/-- The loop has ended: `n` positive hidden dentries, on the branches that are merged. -/
structure Found (st : Stack) (parent : Dinfo) (name : Name) (s e n : Nat) (d : Dinfo) : Prop where
  shown : n = 0 ↔ ∀ b, ¬ Shown st parent name s e b
  filled : Filled parent name (Merged st parent name s e) d
  bwh : IsTopmost (WhReached st parent name s e) d.diBwh
  bdiropq : (d.diBdiropq = -1 ∧ ∀ b, ¬ Opaque st parent name s e b) ∨
    ∃ o : Nat, d.diBdiropq = o ∧ IsGreatest {b | Opaque st parent name s e b} o
  tail : ∀ b, Merged st parent name s e b → (b : Int) ≤ auDbtail d

section End

variable {st : Stack} {parent : Dinfo} {name : Name} {s e c n : Nat} {d : Dinfo}

theorem auDbtail_eq (h : d.diBwh = -1 ∨ (0 < d.diBwh ∧ d.diBend ≤ d.diBwh)) :
    auDbtail d = d.diBend := by
  rw [auDbtail]
  by_cases hbend : 0 ≤ d.diBend
  · rw [if_pos hbend, if_neg (by omega), if_neg (by omega)]
  · rw [if_neg hbend]

/-- Above the first whiteout a branch shows what it holds. -/
theorem shown_cut (hno : ∀ b, s ≤ b → b < c → ¬ WhAt st parent name b) (hce : c ≤ e)
    (hend : c = e ∨ (s ≤ c ∧ WhAt st parent name c)) (b : Nat) :
    Shown st parent name s e b ↔ s ≤ b ∧ b < c ∧ (entryAt parent name b).isSome = true := by
  constructor
  · rintro ⟨hs, hlt, hent, hclean⟩
    refine ⟨hs, ?_, hent⟩
    rcases hend with rfl | ⟨hsc, hwh⟩
    · exact hlt
    · by_contra hge
      exact hclean c hsc (by omega) hwh
  · rintro ⟨hs, hlt, hent⟩
    exact ⟨hs, by omega, hent, fun b' hb' hle => hno b' hb' (by omega)⟩

theorem top_unique {t t' : Nat} (h : Top st parent name s e t) (h' : Top st parent name s e t') :
    t = t' :=
  IsLeast.unique h h'

/-- The end at the last branch, or at a whiteout. -/
theorem found_cut (hno : ∀ b, s ≤ b → b < c → ¬ WhAt st parent name b) (hce : c ≤ e)
    (hend : (c = e ∧ d.diBwh = -1) ∨
      (s ≤ c ∧ c < e ∧ WhAt st parent name c ∧ d.diBwh = c ∧ d.diBend ≤ c))
    (hfilled : Filled parent name (DirIn parent name s c) d)
    (hopq : LastOpq st parent name s c d.diBdiropq)
    (hphase : (n = 0 ∧ ∀ b, s ≤ b → b < c → entryAt parent name b = none) ∨
      (n ≠ 0 ∧ ∃ t, DirIn parent name s c t ∧ ∀ b, s ≤ b → b < t → entryAt parent name b = none)) :
    Found st parent name s e n d := by
  have hshown := shown_cut (e := e) hno hce (hend.imp And.left fun h => ⟨h.1, h.2.2.1⟩)
  -- the first one, if there is any, is a directory
  have htop : ∀ t, Top st parent name s e t → typeAt parent name t = some sIfdir := by
    intro t ht
    obtain ⟨hst, htc, hsome⟩ := (hshown t).mp ht.1
    rcases hphase with ⟨-, hnone⟩ | ⟨-, t', ht', hnone⟩
    · rw [hnone t hst htc] at hsome
      exact Bool.noConfusion hsome
    · have hshown' : Shown st parent name s e t' := by
        refine (hshown t').mpr ⟨ht'.1, ht'.2.1, ?_⟩
        have htype := ht'.2.2
        rw [typeAt, Option.map_eq_some_iff] at htype
        obtain ⟨hInode, hent, -⟩ := htype
        rw [hent]
        rfl
      have hle : t ≤ t' := ht.2 hshown'
      by_cases hlt : t < t'
      · rw [hnone t hst hlt] at hsome
        exact Bool.noConfusion hsome
      · obtain rfl : t = t' := by omega
        exact ht'.2.2
  have hmerged : ∀ b, DirIn parent name s c b ↔ Merged st parent name s e b := by
    intro b
    constructor
    · rintro ⟨hs, hlt, htype⟩
      have hb := htype
      rw [typeAt, Option.map_eq_some_iff] at hb
      obtain ⟨hInode, hent, -⟩ := hb
      have hsh : Shown st parent name s e b := (hshown b).mpr ⟨hs, hlt, by rw [hent]; rfl⟩
      rcases hphase with ⟨-, hnone⟩ | ⟨-, t, ht, hnone⟩
      · rw [hnone b hs hlt] at hent
        cases hent
      · refine ⟨hsh, Or.inr ⟨t, ?_, ht.2.2, htype⟩⟩
        have hbt := ht.2.2
        rw [typeAt, Option.map_eq_some_iff] at hbt
        obtain ⟨hInode', hent', -⟩ := hbt
        refine ⟨(hshown t).mpr ⟨ht.1, ht.2.1, by rw [hent']; rfl⟩, fun b' hb' => ?_⟩
        obtain ⟨hs', hlt', hsome'⟩ := (hshown b').mp hb'
        by_contra hge
        rw [hnone b' hs' (by omega)] at hsome'
        exact Bool.noConfusion hsome'
    · rintro ⟨hsh, hcase⟩
      obtain ⟨hs, hlt, -⟩ := (hshown b).mp hsh
      rcases hcase with ht | ⟨t, -, -, hb⟩
      · exact ⟨hs, hlt, htop b ht⟩
      · exact ⟨hs, hlt, hb⟩
  refine ⟨?_, hfilled.congr hmerged, ?_, ?_, ?_⟩
  · constructor
    · intro h0 b hb
      obtain ⟨hs, hlt, hsome⟩ := (hshown b).mp hb
      rcases hphase with ⟨-, hnone⟩ | ⟨hn, -⟩
      · rw [hnone b hs hlt] at hsome
        exact Bool.noConfusion hsome
      · exact hn h0
    · intro hnone
      rcases hphase with ⟨h0, -⟩ | ⟨-, t, ht, -⟩
      · exact h0
      · exact absurd ((hmerged t).mp ht).1 (hnone t)
  · rcases hend with ⟨rfl, hbwh⟩ | ⟨hsc, hlt, hwh, hbwh, -⟩
    · exact Or.inl ⟨hbwh, fun b hb => hno b hb.1 hb.2.1 hb.2.2.1⟩
    · refine Or.inr ⟨c, hbwh, ⟨hsc, hlt, hwh, fun t _ ht => htop t ht⟩, fun b hb => ?_⟩
      by_contra hge
      exact hno b hb.1 (by omega) hb.2.2.1
  · have hiff : ∀ b, Opaque st parent name s e b ↔ s ≤ b ∧ b < c ∧ OpqAt st parent name b := by
      intro b
      constructor
      · rintro ⟨hm, ho⟩
        have hin := (hmerged b).mpr hm
        exact ⟨hin.1, hin.2.1, ho⟩
      · rintro ⟨hs, hlt, ho⟩
        refine ⟨(hmerged b).mp ⟨hs, hlt, ?_⟩, ho⟩
        obtain ⟨-, hInode, opq, hent, hm, -⟩ := ho
        rw [typeAt_of_entry hent, hm]
    rcases hopq with ⟨hv, hnone⟩ | ⟨o, hv, hs, hlt, ho, hlast⟩
    · refine Or.inl ⟨hv, fun b hb => ?_⟩
      obtain ⟨hs, hlt, ho⟩ := (hiff b).mp hb
      exact hnone b hs hlt ho
    · refine Or.inr ⟨o, hv, (hiff o).mpr ⟨hs, hlt, ho⟩, fun b hb => ?_⟩
      obtain ⟨-, hlt', ho'⟩ := (hiff b).mp hb
      by_contra hge
      exact hlast b (by omega) hlt' ho'
  · intro b hb
    have hin := (hmerged b).mpr hb
    obtain ⟨hd, hhd, -⟩ := (hfilled.positive b).mp hin
    have hrange := (hfilled.range b hd hhd).2
    rw [auDbtail_eq]
    · exact hrange
    · rcases hend with ⟨-, hbwh⟩ | ⟨-, -, -, hbwh, hbend⟩
      · exact Or.inl hbwh
      · have hlt := hin.2.1
        exact Or.inr ⟨by omega, by omega⟩

/-- The end at what is no directory. -/
theorem found_entry {k : Nat} {w w' : Lkup} (hs : s ≤ k) (he : k < e) (h : Seen st parent name s k w)
    (hstop : EntryStop st parent name s k w w') : Found st parent name s e w'.npositive w'.d := by
  obtain ⟨hInode, hent, hm⟩ := hstop.entry
  have hnone : ∀ b, s ≤ b → b < k → entryAt parent name b = none := by
    rcases h.phase with ⟨-, -, hnone⟩ | ⟨hd, -⟩
    · exact hnone
    · rw [hstop.type] at hd
      exact absurd hd (by decide)
  have hclean : ∀ b, s ≤ b → b ≤ k → ¬ WhAt st parent name b := by
    intro b hb hle
    by_cases hlt : b < k
    · exact h.noWh b hb hlt
    · obtain rfl : b = k := by omega
      exact hstop.noWh
  have htop : Top st parent name s e k := by
    refine ⟨⟨hs, he, by rw [hent]; rfl, hclean⟩, fun b hb => ?_⟩
    by_contra hge
    have hsome := hb.2.2.1
    rw [hnone b hb.1 (by omega)] at hsome
    exact Bool.noConfusion hsome
  have htype : ¬ typeAt parent name k = some sIfdir := by
    rw [typeAt_of_entry hent]
    intro hc
    exact hm (Option.some.inj hc)
  have hmerged : ∀ b, b = k ↔ Merged st parent name s e b := by
    intro b
    constructor
    · rintro rfl
      exact ⟨htop.1, Or.inl htop⟩
    · rintro ⟨-, ht | ⟨t, ht, htd, -⟩⟩
      · exact top_unique ht htop
      · rw [top_unique ht htop] at htd
        exact absurd htd htype
  refine ⟨?_, hstop.filled.congr hmerged, ?_, ?_, ?_⟩
  · constructor
    · intro h0
      exact absurd h0 hstop.npositive
    · intro hno
      exact absurd htop.1 (hno k)
  · refine Or.inl ⟨hstop.bwh, fun b hb => ?_⟩
    by_cases hle : b ≤ k
    · exact hclean b hb.1 hle hb.2.2.1
    · exact htype (hb.2.2.2 k (by omega) htop)
  · refine Or.inl ⟨hstop.bdiropq, fun b hb => ?_⟩
    obtain ⟨hmb, -, hInode', opq, hent', hm', -⟩ := hb
    rw [(hmerged b).mpr hmb] at hent'
    obtain rfl := Option.some.inj (hent.symm.trans hent')
    exact hm hm'
  · intro b hb
    obtain ⟨hd, hhd, -⟩ := (hstop.filled.positive b).mp ((hmerged b).mpr hb)
    rw [auDbtail_eq (Or.inl hstop.bwh)]
    exact (hstop.filled.range b hd hhd).2

/-- **The loop**, by induction on the branches left. -/
theorem lkupLoop_found (hq : Quiet st parent name s e) (type : Nat) : ∀ {count k : Nat} {w : Lkup},
    s ≤ k → k + count = e → Seen st parent name s k w →
    ∃ n d, lkupLoop st parent none name type count k w = (.ok n, d) ∧
      Found st parent name s e n d := by
  intro count
  induction count with
  | zero =>
    intro k w hs hk h
    refine ⟨w.npositive, w.d, rfl, found_cut h.noWh (by omega) (Or.inl ⟨by omega, h.bwh⟩) h.filled
      h.bdiropq ?_⟩
    rcases h.phase with ⟨-, hn, hnone⟩ | ⟨-, hn, -, ht⟩
    · exact Or.inl ⟨hn, hnone⟩
    · exact Or.inr ⟨hn, ht⟩
  | succ count ih =>
    intro k w hs hk h
    rw [lkupLoop]
    rcases seen_round hq type hs (by omega) h with
      ⟨w', hr, hnext⟩ | ⟨w', hr, hstop | hstop⟩
    · rw [hr]
      exact ih (by omega) (by omega) hnext
    · rw [hr]
      refine ⟨w'.npositive, w'.d, rfl, found_cut h.noWh (by omega) (Or.inr ⟨hs, by omega, hstop.wh,
        hstop.bwh, hstop.bend⟩) hstop.filled ?_ ?_⟩
      · rw [hstop.bdiropq]
        exact h.bdiropq
      · rw [hstop.npositive]
        rcases h.phase with ⟨-, hn, hnone⟩ | ⟨-, hn, -, ht⟩
        · exact Or.inl ⟨hn, hnone⟩
        · exact Or.inr ⟨hn, ht⟩
    · rw [hr]
      exact ⟨w'.npositive, w'.d, rfl, found_entry hs (by omega) h hstop⟩

end End

/-! ## au_lkup_dentry -/

/-- A name that may be looked up: no whiteout's, and not too long. -/
def Allowed (st : Stack) (name : Name) : Prop :=
  auTestRobrShwh st name = 0 ∧ name.length ≤ pathMax - whPfx.length

section Dentry

variable {st : Stack} {parent : Dinfo} {name : Name} {P : Nat → Prop} {d : Dinfo}

/-- `au_update_dbstart`, by induction on the branches left: everything before `t` is negative. -/
theorem updateDbstart_eq {t : Nat} (hd : HDentry) (hpos : hd.inode.isSome = true) :
    ∀ (count k : Nat) {d : Dinfo}, k ≤ t → t < k + count → 0 ≤ d.diBstart → d.diBstart ≤ t →
      d.diHdentry t = some hd →
      (∀ b hd', k ≤ b → b < t → d.hDptr b = some hd' → hd'.inode = none) →
      ∃ h, updateDbstart count k d = { d with diBstart := t, diHdentry := h } ∧
        ∀ b, t ≤ b → h b = d.diHdentry b := by
  intro count
  induction count with
  | zero => intro k d hk hlt; omega
  | succ count ih =>
    intro k d hk hlt hs hst ht hneg
    rw [updateDbstart]
    by_cases hkt : k = t
    · subst hkt
      have hptr : d.hDptr k = some hd := by
        rw [Dinfo.hDptr, if_neg (by omega)]
        exact ht
      rw [hptr]
      simp only [if_pos hpos]
      exact ⟨d.diHdentry, rfl, fun b _ => rfl⟩
    cases hp : d.hDptr k with
    | none =>
      exact ih _ (by omega) (by omega) hs hst ht fun b hd' hb => hneg b hd' (by omega)
    | some hd' =>
      have hnone := hneg k hd' (Nat.le_refl _) (by omega) hp
      have hne : ¬ hd'.inode.isSome = true := by
        rw [hnone]
        exact Bool.noConfusion
      have hset : ∀ b, b ≠ k → (d.setHDptr k none).diHdentry b = d.diHdentry b :=
        fun b hb => Function.update_of_ne hb _ _
      simp only [if_neg hne]
      obtain ⟨h, heq, hh⟩ := @ih (k + 1) (d.setHDptr k none) (by omega) (by omega) hs hst
        (by rw [hset t (by omega), ht]) fun b hd'' hb hlt' hp' => by
          refine hneg b hd'' (by omega) hlt' ?_
          rw [Dinfo.hDptr] at hp' ⊢
          rw [hset b (by omega)] at hp'
          exact hp'
      exact ⟨h, heq, fun b hb => (hh b hb).trans (hset b (by omega))⟩

/-- The positive hidden dentries are left, and the range starts at the first one. -/
theorem Filled.update (h : Filled parent name P d) {t : Nat} (ht : IsLeast {b | P b} t) :
    ∃ hdentry, auUpdateDbstart d = { d with diBstart := t, diHdentry := hdentry } ∧
      (∀ b, P b ↔ ∃ hd, (auUpdateDbstart d).hDptr b = some hd ∧ hd.inode.isSome = true) ∧
      ∀ b hd, (auUpdateDbstart d).hDptr b = some hd → hd.inode.isSome = true := by
  obtain ⟨hd, hget, hpos⟩ := (h.positive t).mp ht.1
  have hrange := h.range t hd hget
  have hstart : 0 ≤ d.diBstart := by
    rcases h.start with ⟨-, hnone⟩ | hs
    · rw [hnone t] at hget
      cases hget
    · exact hs
  obtain ⟨hdentry, heq, hkeep⟩ := updateDbstart_eq hd hpos (d.diBend + 1 - d.diBstart).toNat
    d.diBstart.toNat (by omega) (by omega) hstart hrange.1 hget fun b hd' _ hlt hp => by
      rw [h.hDptr] at hp
      by_contra hsome
      have hP : P b := (h.positive b).mpr ⟨hd', hp, Option.isSome_iff_ne_none.mpr hsome⟩
      exact absurd (ht.2 hP) (by omega)
  have hptr : ∀ b, (auUpdateDbstart d).hDptr b = if (b : Int) < t then none else d.diHdentry b := by
    intro b
    rw [auUpdateDbstart, heq, Dinfo.hDptr]
    by_cases hlt : (b : Int) < t
    · rw [if_pos hlt, if_pos (Or.inr hlt)]
    · rw [if_neg hlt, if_neg (by simp only; omega)]
      exact hkeep b (by omega)
  refine ⟨hdentry, heq, fun b => ?_, fun b hd' hb => ?_⟩
  · rw [hptr]
    constructor
    · intro hP
      have hle : t ≤ b := ht.2 hP
      rw [if_neg (by omega)]
      exact (h.positive b).mp hP
    · rintro ⟨hd', hb, hsome⟩
      by_cases hlt : (b : Int) < t
      · rw [if_pos hlt] at hb
        cases hb
      · rw [if_neg hlt] at hb
        exact (h.positive b).mpr ⟨hd', hb, hsome⟩
  · rw [hptr] at hb
    by_cases hlt : (b : Int) < t
    · rw [if_pos hlt] at hb
      cases hb
    rw [if_neg hlt] at hb
    refine Option.isSome_iff_ne_none.mpr fun hnone => ?_
    -- a negative one would be the first of the range
    have hbs := h.negative b hd' hb hnone
    obtain rfl : b = t := by omega
    obtain rfl := Option.some.inj (hget.symm.trans hb)
    rw [hnone] at hpos
    exact Bool.noConfusion hpos

end Dentry

/-- The branch behind the last one looked at. -/
def lkupEnd (parent : Dinfo) (bstart : Nat) : Nat :=
  bstart + (auDbtaildir parent + 1 - bstart).toNat

section First

variable {st : Stack} {parent : Dinfo} {name : Name} {s : Nat}

theorem seen_start : Seen st parent name s s ⟨0, true, 0, .alloc⟩ := by
  refine ⟨fun b hb hlt => absurd hb (by omega), rfl, ?_, ?_, ?_, ?_, fun _ => ?_, ?_⟩
  · refine Filled.alloc.congr fun b => ?_
    constructor
    · exact False.elim
    · rintro ⟨hb, hlt, -⟩
      omega
  · show (-1 : Int) < s
    omega
  · show (-1 : Int) < s
    omega
  · exact Or.inl ⟨rfl, fun b hb hlt => absurd hb (by omega)⟩
  · show (-1 : Int) < 0
    decide
  · exact Or.inl ⟨rfl, rfl, fun b hb hlt => absurd hb (by omega)⟩

/-- **The first lookup**: what the loop found, with the leading negative dentry dropped if anything was
    found. -/
theorem auLkupDentry_found (hq : Quiet st parent name s (lkupEnd parent s)) (hname : Allowed st name) :
    ∃ n d d', Found st parent name s (lkupEnd parent s) n d ∧
      d' = (if n ≠ 0 then auUpdateDbstart d else d) ∧
      auLkupDentry st parent none name s 0 .alloc =
        (if !st.udbaNone ∧ d'.diBstart < 0 then .error (- EIO) else .ok n, d') := by
  obtain ⟨n, d, hloop, hfound⟩ := lkupLoop_found hq 0 (Nat.le_refl s) rfl seen_start
  refine ⟨n, d, _, hfound, rfl, ?_⟩
  rw [auLkupDentry, if_neg (not_not.mpr hname.1), if_neg (Nat.not_lt.mpr hname.2)]
  simp only [decide_true, hloop]
  by_cases hio : !st.udbaNone ∧ (if n ≠ 0 then auUpdateDbstart d else d).diBstart < 0
  · rw [if_pos hio, if_pos hio]
  · rw [if_neg hio, if_neg hio]

theorem exists_top {e b : Nat} (hb : Shown st parent name s e b) :
    ∃ t, Top st parent name s e t := by
  classical
  have hex : ∃ b, Shown st parent name s e b := ⟨b, hb⟩
  exact ⟨Nat.find hex, Nat.find_spec hex, fun b' hb' => Nat.find_min' hex hb'⟩

/-- The topmost one shown is the topmost one merged, and visible. -/
theorem top_merged {e t : Nat} (ht : Top st parent name s e t) :
    IsLeast {b | Merged st parent name s e b} t ∧ IsLeast {b | Visible st parent name s e b} t := by
  have hmerged : Merged st parent name s e t := ⟨ht.1, Or.inl ht⟩
  refine ⟨⟨hmerged, fun b hb => ht.2 hb.1⟩, ⟨hmerged, fun b hlt ho => ?_⟩, fun b hb => ht.2 hb.1.1⟩
  have hle : t ≤ b := ht.2 ho.1.1
  omega

/-- What the loop found, after the update. -/
theorem Found.updated {e n : Nat} {d : Dinfo} (h : Found st parent name s e n d) :
    ∃ d', d' = (if n ≠ 0 then auUpdateDbstart d else d) ∧ d'.diBwh = d.diBwh ∧
      d'.diBdiropq = d.diBdiropq ∧ auDbtaildir d' = auDbtaildir d ∧
      (∀ t, Top st parent name s e t → d'.diBstart = t) ∧
      (∀ b, Merged st parent name s e b ↔ ∃ hd, d'.hDptr b = some hd ∧ hd.inode.isSome = true) ∧
      ∀ b hd, d'.hDptr b = some hd → hd.inode = none → n = 0 := by
  refine ⟨_, rfl, ?_⟩
  by_cases hn : n ≠ 0
  case neg =>
    rw [if_neg hn]
    refine ⟨rfl, rfl, rfl, fun t ht => ?_, fun b => ?_, fun b hd _ _ => not_not.mp hn⟩
    · exact absurd ht.1 (h.shown.mp (not_not.mp hn) t)
    · rw [h.filled.hDptr]
      exact h.filled.positive b
  rw [if_pos hn]
  obtain ⟨b0, hb0⟩ : ∃ b, Shown st parent name s e b := by
    by_contra hno
    exact hn (h.shown.mpr fun b hb => hno ⟨b, hb⟩)
  obtain ⟨t, ht⟩ := exists_top hb0
  obtain ⟨hdentry, heq, hptr, hpos⟩ := h.filled.update (top_merged ht).1
  refine ⟨by rw [heq], by rw [heq], by rw [heq]; rfl, fun t' ht' => ?_, hptr, fun b hd hb hi => ?_⟩
  · rw [heq, top_unique ht' ht]
  · have hsome := hpos b hd hb
    rw [hi] at hsome
    exact Bool.noConfusion hsome

/-- The values the union should have in the `au_dinfo` of the name. -/
structure UnionIn (st : Stack) (parent : Dinfo) (name : Name) (s e : Nat) (d : Dinfo) : Prop where
  bdiropq : IsTopmost (fun b => Visible st parent name s e b ∧ Opaque st parent name s e b) d.diBdiropq
  bwh : IsTopmost (WhReached st parent name s e) d.diBwh
  bstart : ∀ t, IsLeast {b | Visible st parent name s e b} t → d.diBstart = t
  hidden : ∀ b, Visible st parent name s e b ↔ (b : Int) ≤ auDbtaildir d ∧
    ∃ hd, d.hDptr b = some hd ∧ hd.inode.isSome = true
  negative : ∀ b hd, d.hDptr b = some hd → hd.inode = none → ∀ t, ¬ Visible st parent name s e t

end First

section Main

variable {st : Stack} {parent : Dinfo} {name : Name} {s : Nat}

/-- **A lookup finds something** iff some branch shows the name. -/
theorem auLkupDentry_npositive (hq : Quiet st parent name s (lkupEnd parent s))
    (hname : Allowed st name) :
    (∃ n, n ≠ 0 ∧ (auLkupDentry st parent none name s 0 .alloc).1 = .ok n) ↔
      ∃ b, Shown st parent name s (lkupEnd parent s) b := by
  obtain ⟨n, d, d', hfound, hd', hlkup⟩ := auLkupDentry_found hq hname
  obtain ⟨d'', hd'', -, -, -, hstart, -⟩ := hfound.updated
  obtain rfl : d' = d'' := hd'.trans hd''.symm
  rw [hlkup]
  constructor
  · rintro ⟨m, hm, hok⟩
    by_contra hno
    have hn : n = 0 := hfound.shown.mpr fun b hb => hno ⟨b, hb⟩
    by_cases hio : !st.udbaNone ∧ d'.diBstart < 0
    · rw [if_pos hio] at hok
      cases hok
    · rw [if_neg hio] at hok
      exact hm ((Except.ok.inj hok).symm.trans hn)
  · rintro ⟨b, hb⟩
    obtain ⟨t, ht⟩ := exists_top hb
    have hn : n ≠ 0 := fun h0 => hfound.shown.mp h0 b hb
    refine ⟨n, hn, if_neg ?_⟩
    rintro ⟨-, hneg⟩
    rw [hstart t ht] at hneg
    omega

end Main

/-! ## Two opaque directories -/

/-- A branch whose only entry is the opaque directory `a`. -/
def opaqueBranch : HInode :=
  .mk 2 sIfdir [([97], .mk 3 sIfdir [(whDiropq, .mk 4 sIfreg [] fun _ => 0)] fun _ => 0)] fun _ => 0

/-- Writable branches like this, the parent being their root. -/
def opaqueStack (bend : Int) : Dinfo := ⟨0, bend, -1, -1, fun b => some ⟨b, [], some opaqueBranch⟩⟩

def writable : Stack := ⟨1, fun _ => .rw, false, false⟩

theorem opaqueStack_dirAt (bend : Int) (b : Nat) : dirAt (opaqueStack bend) b = some opaqueBranch := by
  have hptr : (opaqueStack bend).hDptr b = some ⟨b, [], some opaqueBranch⟩ := by
    refine if_neg ?_
    show ¬ ((0 : Int) < 0 ∨ (b : Int) < 0)
    omega
  rw [dirAt, hptr]
  rfl

theorem opaqueStack_wh (bend : Int) (b : Nat) : ¬ WhAt writable (opaqueStack bend) [97] b := by
  rintro ⟨-, dir, wh, hdir, hwh⟩
  obtain rfl := Option.some.inj ((opaqueStack_dirAt bend b).symm.trans hdir)
  cases hwh

theorem opaqueStack_quiet (bend : Int) (s e : Nat) : Quiet writable (opaqueStack bend) [97] s e := by
  refine ⟨fun b dir _ _ hdir => ?_, fun b dir _ _ _ hdir => ?_, fun b hInode _ _ _ hent _ => ?_⟩
  · obtain rfl := Option.some.inj ((opaqueStack_dirAt bend b).symm.trans hdir)
    rfl
  · obtain rfl := Option.some.inj ((opaqueStack_dirAt bend b).symm.trans hdir)
    refine ⟨rfl, fun wh hwh => ?_⟩
    cases hwh
  · rw [entryAt_eq (opaqueStack_dirAt bend b)] at hent
    obtain rfl := Option.some.inj hent
    refine ⟨rfl, fun opq hopq => ?_⟩
    obtain rfl := Option.some.inj hopq
    rfl

end KernelPatches.Aufs
