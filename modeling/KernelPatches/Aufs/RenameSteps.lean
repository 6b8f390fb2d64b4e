/-
  aufs: what the steps of a `rename`, and their undoings, do to the two directories.

  The branch is looked at through the contents of the two directories, a function from the names in them
  (`RenState.contents`), to which the steps and their undoings are `put`, `drop` and `move`:

   1. making the whiteout of the source      — `put`, if it was not there;
   2. a destination directory moved aside    — `move` to a temporary name, which is free;
   3. copying up the source                  — `put` under its name, which is free;
   4. the renaming, or the copy-up           — `move`, or `put`, under the destination's name;
   5. making the directory opaque            — `put`, of the directory with one more entry.

  What else is on the branches stays (`SameElsewhere`).  The undoings are looked at where the lower file
  systems let them be done (`Willing`).
-/
import KernelPatches.Aufs.RemoveHidden
import KernelPatches.Aufs.Rename
import KernelPatches.Lib.Contents

namespace KernelPatches.Aufs

open Lib Lib.Contents

/-! ## The contents of the directories -/

/-- A name in the directory of a parent. -/
abbrev Key := Bool × Name

namespace RenEnv

variable (env : RenEnv)

def srcKey : Key := (false, env.srcName)

def dstKey : Key := (env.dstDir, env.dstName)

/-- The whiteout of the source. -/
def whKey : Key := (false, whPfx ++ env.srcName)

def tmpKey (tmp : Name) : Key := (env.dstDir, tmp)

/-- The parents there are. -/
def Parent (p : Bool) : Prop := p = false ∨ p = env.dstDir

/-- The contents without the whiteout of the source, if one is made. -/
def undoWh (c : Contents Key HInode) : Contents Key HInode := if env.whSrc then c.drop env.whKey else c

end RenEnv

/-- What the directories of the parents hold on branch `b`. -/
def RenState.contents (s : RenState) (b : Nat) : Contents Key HInode :=
  fun k => entryAt (s.parents k.1) k.2 b

/-- The parent has a directory on branch `b`. -/
def HasDir (parent : Dinfo) (b : Nat) : Prop := (dirAt parent b).isSome = true

/-- The directories of the other branches are what they were, and on branch `b` there are as many. -/
structure SameElsewhere (b : Nat) (parents parents' : Bool → Dinfo) : Prop where
  other : ∀ p c, c ≠ b → dirAt (parents' p) c = dirAt (parents p) c
  dirs : ∀ p, HasDir (parents' p) b ↔ HasDir (parents p) b

namespace SameElsewhere

variable {b : Nat} {ps ps' ps'' : Bool → Dinfo}

theorem refl (b : Nat) (ps : Bool → Dinfo) : SameElsewhere b ps ps := ⟨fun _ _ _ => rfl, fun _ => Iff.rfl⟩

theorem trans (h : SameElsewhere b ps ps') (h' : SameElsewhere b ps' ps'') : SameElsewhere b ps ps'' :=
  ⟨fun p c hc => (h'.other p c hc).trans (h.other p c hc), fun p => (h'.dirs p).trans (h.dirs p)⟩

end SameElsewhere

section Contents

variable {s : RenState} {p q : Bool} {b : Nat} {name newName : Name} {v : HInode}
  {f : List (Name × HInode) → List (Name × HInode)}

theorem hasDir_changeDir : HasDir ((s.changeDir p b f).parents q) b ↔ HasDir (s.parents q) b := by
  unfold RenState.changeDir HasDir
  dsimp only
  by_cases hq : q = p
  · subst hq
    rw [Function.update_self, dirAt_changeDir, if_pos rfl, Option.isSome_map]
  · rw [Function.update_of_ne hq]

theorem changeDir_sameElsewhere : SameElsewhere b s.parents (s.changeDir p b f).parents := by
  refine ⟨fun q c hc => ?_, fun q => hasDir_changeDir⟩
  unfold RenState.changeDir
  dsimp only
  by_cases hq : q = p
  · subst hq
    rw [Function.update_self, dirAt_changeDir, if_neg hc]
  · rw [Function.update_of_ne hq]

/-- A change of one directory that concerns one name. -/
theorem contents_changeDir {o : Option HInode} (hdir : o ≠ none → HasDir (s.parents p) b)
    (hf : ∀ es n, (f es).lookup n = if n = name then o else es.lookup n) :
    (s.changeDir p b f).contents b = Function.update (s.contents b) (p, name) o := by
  funext k
  obtain ⟨q, n⟩ := k
  show entryAt ((s.changeDir p b f).parents q) n b = _
  unfold RenState.changeDir
  dsimp only
  by_cases hq : q = p
  · subst hq
    rw [Function.update_self, entryAt_changeDir, if_pos rfl]
    cases hd : dirAt (s.parents q) b with
    | none =>
      have ho : o = none := by
        by_contra hne
        have h := hdir hne
        unfold HasDir at h
        rw [hd] at h
        cases h
      rw [Option.bind_none]
      by_cases hn : n = name
      · rw [hn, Function.update_self, ho]
      · rw [Function.update_of_ne (fun h => hn (Prod.mk.inj h).2)]
        exact (entryAt_none hd).symm
    | some dir =>
      rw [Option.bind_some, hf]
      by_cases hn : n = name
      · rw [if_pos hn, hn, Function.update_self]
      · rw [if_neg hn, Function.update_of_ne (fun h => hn (Prod.mk.inj h).2)]
        exact (entryAt_eq hd).symm
  · rw [Function.update_of_ne hq, Function.update_of_ne (fun h => hq (Prod.mk.inj h).1)]
    rfl

theorem contents_eraseName : (s.changeDir p b (eraseName name)).contents b = (s.contents b).drop (p, name) :=
  contents_changeDir (fun h => absurd rfl h) fun _ _ => lookup_eraseName

theorem contents_cons (hdir : HasDir (s.parents p) b) :
    (s.changeDir p b ((name, v) :: ·)).contents b = (s.contents b).put (p, name) v := by
  refine contents_changeDir (fun _ => hdir) fun es n => ?_
  rw [List.lookup_cons]
  by_cases hn : n = name
  · rw [hn, beq_self_eq_true, if_pos rfl]
  · rw [if_neg hn, beq_false_of_ne hn]

theorem contents_setEntry (hdir : HasDir (s.parents p) b) :
    (s.changeDir p b (setEntry name v)).contents b = (s.contents b).put (p, name) v := by
  refine contents_changeDir (fun _ => hdir) fun es n => ?_
  rw [setEntry, List.lookup_cons, lookup_eraseName]
  by_cases hn : n = name
  · rw [hn, beq_self_eq_true, if_pos rfl, if_pos rfl]
  · rw [if_neg hn, if_neg hn, beq_false_of_ne hn]

/-- **An entry moved.** -/
theorem contents_moveEntry (hdir : HasDir (s.parents q) b) (hsome : s.contents b (p, name) ≠ none) :
    (s.moveEntry b p name q newName).contents b = (s.contents b).move (p, name) (q, newName) := by
  unfold RenState.moveEntry
  cases he : entryAt (s.parents p) name b with
  | none => exact absurd he hsome
  | some v =>
    dsimp only
    rw [contents_setEntry (hasDir_changeDir.mpr hdir), contents_eraseName]
    have hv : s.contents b (p, name) = some v := he
    rw [move, hv]
    rfl

theorem moveEntry_sameElsewhere : SameElsewhere b s.parents (s.moveEntry b p name q newName).parents := by
  unfold RenState.moveEntry
  split
  · exact SameElsewhere.refl b _
  · exact changeDir_sameElsewhere.trans changeDir_sameElsewhere

/-- An entry renamed in its directory, to a name that is free. -/
theorem contents_renameEntry (hne : newName ≠ name) (hfree : s.contents b (p, newName) = none) :
    (s.changeDir p b (renameEntry name newName)).contents b =
      (s.contents b).move (p, name) (p, newName) := by
  funext k
  obtain ⟨q, n⟩ := k
  show entryAt ((s.changeDir p b (renameEntry name newName)).parents q) n b = _
  unfold RenState.changeDir
  dsimp only
  by_cases hq : q = p
  · subst hq
    rw [Function.update_self, entryAt_changeDir, if_pos rfl]
    have hfree : entryAt (s.parents q) newName b = none := hfree
    have hat : ∀ m, s.contents b (q, m) = (dirAt (s.parents q) b).bind fun dir => dir.entries.lookup m :=
      fun _ => rfl
    by_cases hn : n = newName
    · subst hn
      rw [move_dst, hat]
      cases hd : dirAt (s.parents q) b with
      | none => rfl
      | some dir =>
        rw [Option.bind_some, Option.bind_some, renameEntry]
        cases hl : dir.entries.lookup name with
        | none =>
          have hnone : dir.entries.lookup n = none := by
            rw [entryAt_eq hd] at hfree
            exact hfree
          rw [Option.toList_none, List.map_nil, List.nil_append, lookup_eraseName, if_neg hne, hnone]
        | some v =>
          rw [Option.toList_some, List.map_cons, List.cons_append, List.lookup_cons, beq_self_eq_true]
    · have hrest : ∀ es : List (Name × HInode), (renameEntry name newName es).lookup n =
          if n = name then none else es.lookup n := by
        intro es
        rw [renameEntry]
        cases es.lookup name with
        | none => rw [Option.toList_none, List.map_nil, List.nil_append, lookup_eraseName]
        | some v =>
          rw [Option.toList_some, List.map_cons, List.map_nil, List.cons_append, List.nil_append, List.lookup_cons,
            beq_false_of_ne hn, lookup_eraseName]
      have hne' : ((q, n) : Key) ≠ (q, newName) := fun h => hn (Prod.mk.inj h).2
      simp only [hrest]
      by_cases hnn : n = name
      · rw [hnn, move_src (fun h => hne (Prod.mk.inj h).2.symm)]
        cases dirAt (s.parents q) b with
        | none => rfl
        | some dir =>
          rw [Option.bind_some, if_pos rfl]
      · rw [move_of_ne (fun h => hnn (Prod.mk.inj h).2) hne', hat]
        simp only [if_neg hnn]
  · rw [Function.update_of_ne hq, move_of_ne (fun h => hq (Prod.mk.inj h).1) (fun h => hq (Prod.mk.inj h).1)]
    rfl

end Contents

/-! ## What is asked -/

/-- The lower file systems do all they are asked for. -/
def Willing (io : List Int) : Prop := ∀ x ∈ io, 0 ≤ x

theorem Willing.ask {io : List Int} (h : Willing io) : (ask io).1 = 0 ∧ Willing (ask io).2 := by
  cases io with
  | nil => exact ⟨rfl, h⟩
  | cons x io =>
    refine ⟨?_, fun y hy => h y (List.mem_cons_of_mem x hy)⟩
    show min x 0 = 0
    exact Int.min_eq_right (h x List.mem_cons_self)

/-! ## The steps up to the renaming -/

section Steps

variable {env : RenEnv} {s r : RenState} {err : Int}

/-- Whether a destination directory is in the way: then it is renamed to a temporary name. -/
def thargsOf (env : RenEnv) (s : RenState) : Bool := env.isdir && (s.hDentryDst.bind HDentry.inode).isSome

theorem prepareThargs_spec (h : prepareThargs env s = some (err, r)) : ∃ io,
    (err ≠ 0 → r = { s with io := io }) ∧
    (err = 0 → r = { s with
      io := io
      thargs := if thargsOf env s then true else s.thargs
      hDst := if thargsOf env s then s.hDentryDst else s.hDst }) := by
  unfold prepareThargs at h
  unfold thargsOf
  split at h
  · rename_i hin
    rw [hin]
    dsimp only at h
    split at h
    · rename_i hask
      cases h
      exact ⟨_, fun _ => rfl, fun hc => absurd hc (by decide)⟩
    · cases h
      exact ⟨_, fun hc => absurd rfl hc, fun _ => rfl⟩
  · rename_i hin
    cases h
    rw [if_neg hin, if_neg hin]
    exact ⟨s.io, fun hc => absurd rfl hc, fun _ => rfl⟩

/-- `au_wh_create` fails and changes nothing, or finds the whiteout, or makes it. -/
theorem auWhCreate_cases {renv : RmEnv} {b : Nat} {hParent : HDentry} {t t₁ : RmState} {res : Except Int Bool}
    (h : auWhCreate renv b hParent t = some (res, t₁)) :
    (∃ e, res = .error e ∧ e ≠ 0 ∧ ∃ io, t₁ = { t with io := io }) ∨ (res = .ok false ∧ t₁ = t) ∨
      (res = .ok true ∧ ∃ io, t₁ = { t with
        io := io
        d := { t.d with diBwh := b }
        parent := t.parent.changeDir b ((whPfx ++ t.name, newFile) :: ·) }) := by
  unfold auWhCreate at h
  split at h
  · cases h
  rename_i dir _
  split at h
  · cases h
    exact Or.inl ⟨_, rfl, by decide, t.io, rfl⟩
  cases hl : auLkupOne (whPfx ++ t.name) hParent dir with
  | error e =>
    rw [hl] at h
    cases h
    refine Or.inl ⟨e, rfl, ?_, t.io, rfl⟩
    unfold auLkupOne at hl
    split at hl
    · rename_i hne
      cases hl
      exact hne
    · cases hl
  | ok wh =>
    rw [hl] at h
    dsimp only at h
    split at h
    · cases h
      exact Or.inr (Or.inl ⟨rfl, rfl⟩)
    · split at h
      · rename_i hne
        cases h
        exact Or.inl ⟨_, rfl, hne, _, rfl⟩
      · cases h
        exact Or.inr (Or.inr ⟨rfl, _, rfl⟩)

/-- The whiteout of the source: without it the contents are what they were. -/
theorem createWhSrc_spec (hdir : HasDir (s.parents false) env.btgt) (h : createWhSrc env s = some (err, r)) :
    (err ≠ 0 → ∃ io, r = { s with io := io }) ∧
    (err = 0 → ∃ ps io bwh, r = { s with
        parents := ps
        io := io
        src := { s.src with diBwh := bwh }
        whSrc := if env.whSrc then true else s.whSrc } ∧
      SameElsewhere env.btgt s.parents ps ∧
      env.undoWh (r.contents env.btgt) = env.undoWh (s.contents env.btgt)) := by
  unfold createWhSrc at h
  split at h
  · rename_i hwh
    split at h
    · cases h
    split at h
    · cases h
    · rename_i e t hmade
      cases h
      rcases auWhCreate_cases hmade with ⟨e, he, hne, io, rfl⟩ | ⟨hc, -⟩ | ⟨hc, -⟩
      · cases he
        refine ⟨fun _ => ⟨io, ?_⟩, fun h0 => absurd h0 hne⟩
        show { s with parents := Function.update s.parents false (s.parents false), io := io } = _
        rw [Function.update_eq_self]
      · cases hc
      · cases hc
    · rename_i made t hmade
      cases h
      refine ⟨fun hc => absurd rfl hc, fun _ => ?_⟩
      rw [if_pos hwh]
      rcases auWhCreate_cases hmade with ⟨e, he, -⟩ | ⟨-, rfl⟩ | ⟨-, io, rfl⟩
      · cases he
      · have hps : Function.update s.parents false (s.parents false) = s.parents := Function.update_eq_self _ _
        refine ⟨s.parents, s.io, s.src.diBwh, ?_, SameElsewhere.refl _ _, ?_⟩
        · show { s with parents := Function.update s.parents false (s.parents false), whSrc := true } = _
          rw [hps]
        · congr 1
          funext k
          show entryAt (Function.update s.parents false (s.parents false) k.1) k.2 env.btgt = _
          rw [hps]
          rfl
      · refine ⟨_, io, env.btgt, rfl, changeDir_sameElsewhere (f := ((whPfx ++ env.srcName, newFile) :: ·)), ?_⟩
        have hput : (s.changeDir false env.btgt ((whPfx ++ env.srcName, newFile) :: ·)).contents env.btgt = _ :=
          contents_cons hdir
        show env.undoWh ((s.changeDir false env.btgt ((whPfx ++ env.srcName, newFile) :: ·)).contents env.btgt) = _
        rw [hput]
        unfold RenEnv.undoWh
        rw [if_pos hwh, if_pos hwh]
        exact drop_put
  · rename_i hwh
    cases h
    rw [if_neg hwh]
    exact ⟨fun hc => absurd rfl hc, fun _ => ⟨s.parents, s.io, s.src.diBwh, rfl, SameElsewhere.refl _ _, rfl⟩⟩

/-- Looking up the whiteout of the destination changes nothing but what is known of it. -/
theorem lookupWhDst_spec (h : lookupWhDst env s = some (err, r)) : ∃ io wh, r = { s with io := io, whDst := wh } := by
  unfold lookupWhDst at h
  split at h
  · split at h
    · cases h
    split at h
    · cases h
    dsimp only at h
    split at h
    · cases h
      exact ⟨_, s.whDst, rfl⟩
    split at h
    · cases h
      exact ⟨_, s.whDst, rfl⟩
    · cases h
      exact ⟨_, _, rfl⟩
  · cases h
    exact ⟨s.io, s.whDst, rfl⟩

/-- The temporary name is free, by induction on the tries. -/
theorem whtmpTry_free {hParent : HDentry} {dir : HInode} {name tmp : Name} {cnt' : Nat} :
    ∀ {n cnt : Nat}, whtmpTry hParent dir name n cnt = some (.ok tmp, cnt') → dir.find tmp = none := by
  intro n
  induction n with
  | zero =>
    intro cnt h
    cases h
  | succ n ih =>
    intro cnt h
    rw [whtmpTry] at h
    split at h
    · cases h
    · rename_i hDentry hl
      split at h
      · rename_i hnone
        cases h
        unfold auSioLkupOne auLkupOne at hl
        split at hl
        · cases hl
        · rename_i hd hl
          cases hl
          split at hl
          · cases hl
          · cases hl
            exact Option.isNone_iff_eq_none.mp hnone
      · exact ih h

/-- `au_whtmp_ren` fails and changes nothing, or renames the directory to a name that is free. -/
theorem auWhtmpRen_cases {b : Nat} {t t₁ : RmState} {res : Except Int Name} (h : auWhtmpRen b t = some (res, t₁)) :
    (∃ e io cnt, res = .error e ∧ e ≠ 0 ∧ t₁ = { t with io := io, cnt := cnt }) ∨
      ∃ c io cnt, res = .ok (whtmpName t.name c) ∧ entryAt t.parent (whtmpName t.name c) b = none ∧
        t₁ = { t with
          io := io
          cnt := cnt
          parent := t.parent.changeDir b (renameEntry t.name (whtmpName t.name c)) } := by
  unfold auWhtmpRen at h
  split at h
  · cases h
  rename_i hParent hptr
  split at h
  · cases h
  rename_i dir hinode
  have hlkup : ∀ res' t', auWhtmpLkup hParent dir t = some (res', t') → ∃ io cnt, t' = { t with io := io, cnt := cnt } ∧
      ((∃ e, res' = .error e ∧ e ≠ 0) ∨ ∃ c, res' = .ok (whtmpName t.name c) ∧ dir.find (whtmpName t.name c) = none) := by
    intro res' t' hl
    unfold auWhtmpLkup at hl
    dsimp only at hl
    split at hl
    · cases hl
      exact ⟨t.io, t.cnt, rfl, Or.inl ⟨_, rfl, by decide⟩⟩
    generalize (if dnameInlineLenMin < t.name.length then ask t.io else (0, t.io)) = mem at hl
    split at hl
    · cases hl
      exact ⟨_, t.cnt, rfl, Or.inl ⟨_, rfl, by decide⟩⟩
    split at hl
    · cases hl
    · rename_i htry
      cases hl
      refine ⟨_, _, rfl, ?_⟩
      rcases whtmpTry_spec htry with ⟨e, rfl, he⟩ | ⟨c, rfl⟩
      · exact Or.inl ⟨e, rfl, Int.ne_of_lt he⟩
      · exact Or.inr ⟨c, rfl, whtmpTry_free htry⟩
  split at h
  · cases h
  · rename_i e t' hl
    cases h
    obtain ⟨io, cnt, rfl, ⟨e', he, hne⟩ | ⟨c, hc, -⟩⟩ := hlkup _ _ hl
    · cases he
      exact Or.inl ⟨_, io, cnt, rfl, hne, rfl⟩
    · cases hc
  · rename_i tmp t' hl
    obtain ⟨io, cnt, rfl, ⟨e', he, -⟩ | ⟨c, hc, hfree⟩⟩ := hlkup _ _ hl
    · cases he
    · cases hc
      dsimp only at h
      split at h
      · rename_i hne
        cases h
        exact Or.inl ⟨_, _, cnt, rfl, hne, rfl⟩
      · cases h
        refine Or.inr ⟨c, _, cnt, rfl, ?_, rfl⟩
        rw [entryAt, dirAt_of_hDptr hptr hinode]
        split
        · exact hfree
        · rfl

/-- **The destination directory moved aside**, to a name that is free and is no name of a user. -/
theorem renameToWhtmp_spec (h : renameToWhtmp env s = some (err, r)) :
    (s.thargs = false → err = 0 ∧ r = s) ∧
    (s.thargs = true → (err ≠ 0 → ∃ io cnt, r = { s with io := io, cnt := cnt }) ∧
      (err = 0 → ∃ ps io cnt c, r = { s with
          parents := ps
          io := io
          cnt := cnt
          tmpName := whtmpName env.dstName c
          dstWatch := s.dstWatch.map fun _ => false
          dst := s.dst.setHDptr env.btgt none } ∧
        SameElsewhere env.btgt s.parents ps ∧
        s.contents env.btgt (env.tmpKey (whtmpName env.dstName c)) = none ∧
        r.contents env.btgt = (s.contents env.btgt).move env.dstKey (env.tmpKey (whtmpName env.dstName c)))) := by
  unfold renameToWhtmp at h
  split at h
  · rename_i hth
    refine ⟨fun hc => absurd hth (by rw [hc]; exact Bool.false_ne_true), fun _ => ?_⟩
    split at h
    · cases h
    · rename_i e t hren
      cases h
      rcases auWhtmpRen_cases hren with ⟨e', io, cnt, he, hne, rfl⟩ | ⟨c, io, cnt, hc, -⟩
      · cases he
        refine ⟨fun _ => ⟨io, cnt, ?_⟩, fun h0 => absurd h0 hne⟩
        show { s with parents := Function.update s.parents env.dstDir (s.parents env.dstDir), io := io, cnt := cnt } = _
        rw [Function.update_eq_self]
      · cases hc
    · rename_i tmp t hren
      cases h
      refine ⟨fun hc => absurd rfl hc, fun _ => ?_⟩
      rcases auWhtmpRen_cases hren with ⟨e', io, cnt, he, -⟩ | ⟨c, io, cnt, hc, hfree, rfl⟩
      · cases he
      · cases hc
        have hfree : s.contents env.btgt (env.tmpKey (whtmpName env.dstName c)) = none := hfree
        refine ⟨_, io, cnt, c, rfl,
          changeDir_sameElsewhere (f := renameEntry env.dstName (whtmpName env.dstName c)), hfree, ?_⟩
        exact contents_renameEntry (whtmpName_ne env.dstName c).1 hfree
  · rename_i hth
    cases h
    exact ⟨fun _ => ⟨rfl, rfl⟩, fun hc => absurd hc hth⟩

/-- **The destination looked up again**: a negative hidden dentry, where it started. -/
theorem lookupNegDst_spec (hstart : s.dst.diBstart = env.btgt) (hend : s.dst.diBstart ≤ s.dst.diBend)
    (h : lookupNegDst env s = some (err, r)) :
    (s.thargs = false → err = 0 ∧ r = s) ∧
    (s.thargs = true → (err ≠ 0 → ∃ io, r = { s with io := io }) ∧
      (err = 0 → ∃ io hd, hd.inode = none ∧
        r = { s with io := io, dst := s.dst.setHDptr env.btgt (some hd), hDentryDst := some hd })) := by
  unfold lookupNegDst at h
  split at h
  · rename_i hth
    refine ⟨fun hc => absurd hth (by rw [hc]; exact Bool.false_ne_true), fun _ => ?_⟩
    dsimp only at h
    split at h
    · rename_i hne
      cases h
      exact ⟨fun _ => ⟨_, rfl⟩, fun h0 => absurd h0 hne⟩
    split at h
    · cases h
    · rename_i e d hneg
      rcases auLkupNeg_spec hneg with ⟨he, rfl, -⟩ | ⟨rfl, -, hd, hnone, rfl⟩
      · rw [if_pos (Int.ne_of_lt he)] at h
        cases h
        exact ⟨fun _ => ⟨_, rfl⟩, fun h0 => absurd h0 (Int.ne_of_lt he)⟩
      · rw [if_neg (not_not_intro rfl)] at h
        cases h
        refine ⟨fun hc => absurd rfl hc, fun _ => ⟨(ask s.io).2, hd, hnone, ?_⟩⟩
        have h0 : 0 ≤ s.dst.diBstart := by omega
        rw [hDptr_entered h0 hd]
        have hs : (if (env.btgt : Int) < s.dst.diBstart then (env.btgt : Int) else s.dst.diBstart) =
            s.dst.diBstart := if_neg (by omega)
        have he : (if s.dst.diBend < (env.btgt : Int) then (env.btgt : Int) else s.dst.diBend) =
            s.dst.diBend := if_neg (by omega)
        rw [hs, he]
        rfl
  · rename_i hth
    cases h
    exact ⟨fun _ => ⟨rfl, rfl⟩, fun hc => absurd hc hth⟩

/-! ## The source copied up -/

/-- A copy-up that succeeds leaves an entry. -/
theorem auCpupSingle_left {cpup : CpupEnv} {hSrc : HInode} {io io' : List Int} {left : Bool}
    (h : auCpupSingle cpup hSrc io = some (0, left, io')) : left = true := by
  unfold auCpupSingle at h
  dsimp only at h
  split at h
  · cases h
  split at h
  · split at h
    · rename_i hne
      exact absurd (congrArg Prod.fst (Option.some.inj h)) hne
    split at h
    · cases h
    · obtain ⟨he, hrest⟩ := Prod.mk.inj (Option.some.inj h)
      rw [← (Prod.mk.inj hrest).1]
      exact decide_eq_true he
  split at h
  · cases h
  split at h
  · rename_i hne
    exact absurd (congrArg Prod.fst (Option.some.inj h)) hne
  split at h
  · exact ((Prod.mk.inj (Prod.mk.inj (Option.some.inj h)).2).1).symm
  split at h
  · cases h
  · rename_i hne _
    exact absurd (congrArg Prod.fst (Option.some.inj h)) hne

/-- `au_cpup_simple` finds the name there and changes nothing, or copies from the first branch below. -/
theorem auCpupSimple_cases {cpup : CpupEnv} {name : Name} {b : Nat} {t t' : Named} {e : Int}
    (h : auCpupSimple cpup name b t = some (e, t')) :
    ∃ bsrc hSrc, cpupSrc t.d b = some bsrc ∧ (t.d.hDptr bsrc).bind HDentry.inode = some hSrc ∧
      ((e ≠ 0 ∧ ¬ NegativeAt name t.parent b ∧ t' = t) ∨
        (NegativeAt name t.parent b ∧ ∃ left, auCpupSingle cpup hSrc t.io = some (e, left, t'.io) ∧
          t'.parent = (if left then t.parent.changeDir b ((name, cpup.copied hSrc) :: ·) else t.parent) ∧
          (e ≠ 0 → t'.d.diBstart = bsrc) ∧
          (e = 0 → t'.d.diBstart = if b < t.d.diBstart then (b : Int) else t.d.diBstart))) := by
  unfold auCpupSimple at h
  split at h
  · cases h
  rename_i bsrc hsrc
  split at h
  · cases h
  rename_i hSrc hread
  refine ⟨bsrc, hSrc, hsrc, hread, ?_⟩
  split at h
  · cases h
  rename_i e' d hneg
  dsimp only at h
  rcases auLkupNeg_spec hneg with ⟨he, rfl, hno⟩ | ⟨rfl, hyes, hDentry, -, rfl⟩
  · rw [if_pos (Int.ne_of_lt he)] at h
    cases h
    exact Or.inl ⟨Int.ne_of_lt he, hno, rfl⟩
  rw [if_neg (not_not_intro rfl)] at h
  split at h
  · cases h
  rename_i e' left io hsingle
  refine Or.inr ⟨hyes, left, ?_⟩
  split at h
  · rename_i h0
    subst h0
    cases h
    exact ⟨hsingle, rfl, fun hc => absurd rfl hc, fun _ => rfl⟩
  · rename_i hne
    cases h
    exact ⟨hsingle, rfl, fun _ => rfl, fun h0 => absurd h0 hne⟩

/-- A name that is not there is free. -/
theorem NegativeAt.free {name : Name} {parent : Dinfo} {b : Nat} (h : NegativeAt name parent b) :
    entryAt parent name b = none := by
  obtain ⟨hParent, dir, hDentry, hptr, hinode, hl, hnone⟩ := h
  have hfind : dir.find name = none := by
    unfold auSioLkupOne auLkupOne at hl
    split at hl
    · cases hl
    · rename_i hl'
      cases hl
      split at hl'
      · cases hl'
      · cases hl'
        exact hnone
  rw [entryAt, dirAt_of_hDptr hptr hinode]
  split
  · exact hfind
  · rfl

/-- **The source copied up**, to be renamed over the destination then. -/
theorem copyUpSrc_spec (hdir : HasDir (s.parents false) env.btgt)
    (hstart : (s.src.hDptr s.src.diBstart.toNat).isSome = true) (h : copyUpSrc env s = some (err, r)) :
    (¬ ((s.hDentryDst.bind HDentry.inode).isSome = true ∧ env.bstartSrc ≠ env.btgt) → err = 0 ∧ r = s) ∧
    ((s.hDentryDst.bind HDentry.inode).isSome = true → env.bstartSrc ≠ env.btgt →
      (err ≠ 0 →
        (∀ hSrc e io, ((cpupSrc s.src env.btgt).bind s.src.hDptr).bind HDentry.inode = some hSrc →
          auCpupSingle env.cpup hSrc s.io = some (e, true, io) → e = 0) →
        ∃ src io, r = { s with src := src, io := io } ∧ (src.diBstart = s.src.diBstart ↔
          (env.btgt : Int) < s.src.diBstart ∨ ¬ NegativeAt env.srcName (s.parents false) env.btgt)) ∧
      (err = 0 → ∃ ps src io new, r = { s with parents := ps, src := src, io := io } ∧
        SameElsewhere env.btgt s.parents ps ∧ s.contents env.btgt env.srcKey = none ∧
        r.contents env.btgt = (s.contents env.btgt).put env.srcKey new ∧
        src.diBstart = if (env.btgt : Int) < s.src.diBstart then (env.btgt : Int) else s.src.diBstart)) := by
  unfold copyUpSrc at h
  split at h
  · rename_i hin
    rw [Bool.and_eq_true, decide_eq_true_eq] at hin
    refine ⟨fun hc => absurd hin hc, fun _ _ => ?_⟩
    split at h
    · cases h
    rename_i e n hcp
    obtain ⟨bsrc, hSrc, hsrc, hread, hcases⟩ := auCpupSimple_cases hcp
    have hps : Function.update s.parents false (s.parents false) = s.parents := Function.update_eq_self _ _
    cases h
    rcases hcases with ⟨hne, hno, rfl⟩ | ⟨hyes, left, hsingle, hparent, hfail, hok⟩
    · refine ⟨fun _ _ => ⟨s.src, s.io, ?_, iff_of_true rfl (Or.inr hno)⟩, fun h0 => absurd h0 hne⟩
      dsimp only
      rw [hps]
    · refine ⟨fun hne hrev => ⟨n.d, n.io, ?_, ?_⟩, fun h0 => ?_⟩
      · -- nothing was left
        have hleft : left = false := by
          by_contra hc
          rw [Bool.not_eq_false] at hc
          rw [hc] at hsingle
          refine hne (hrev hSrc _ _ ?_ hsingle)
          rw [hsrc]
          exact hread
        rw [hleft, if_neg Bool.false_ne_true] at hparent
        dsimp only at hparent
        rw [hparent, hps]
      · rw [hfail hne, or_iff_left (not_not_intro hyes), cpupSrc_eq_bstart hsrc]
        exact and_iff_left hstart
      · subst h0
        rw [auCpupSingle_left hsingle, if_pos rfl] at hparent
        refine ⟨_, n.d, n.io, env.cpup.copied hSrc, rfl, ?_, hyes.free, ?_, hok rfl⟩
        · rw [hparent]
          exact changeDir_sameElsewhere (f := ((env.srcName, env.cpup.copied hSrc) :: ·))
        · rw [hparent]
          exact contents_cons (s := s) (p := false) hdir
  · rename_i hin
    cases h
    rw [Bool.and_eq_true, decide_eq_true_eq] at hin
    exact ⟨fun _ => ⟨rfl, rfl⟩, fun hpos hne => absurd ⟨hpos, hne⟩ hin⟩

/-! ## The renaming -/

/-- A copy-up that succeeds has made an entry. -/
theorem cpupMakes_of_ok {cpup : CpupEnv} {hSrc : HInode} {io io' : List Int} {left : Bool}
    (h : auCpupSingle cpup hSrc io = some (0, left, io')) : cpupMakes cpup hSrc io = true := by
  unfold cpupMakes
  split
  · rw [h]
    rfl
  · rename_i hlink
    unfold auCpupSingle at h
    dsimp only at h
    split at h
    · cases h
    rename_i hplink
    rw [if_neg hplink]
    -- the entry itself was made
    have hentry : ∃ left io₁, cpupEntry cpup hSrc.mode io = some (0, left, io₁) := by
      cases hc : cpupEntry cpup hSrc.mode io with
      | none =>
        rw [hc] at h
        cases h
      | some e =>
        obtain ⟨e, left₁, io₁⟩ := e
        rw [hc] at h
        dsimp only at h
        by_cases he : e = 0
        · exact ⟨left₁, io₁, by rw [he]⟩
        · rw [if_pos he] at h
          exact absurd (congrArg Prod.fst (Option.some.inj h)) he
    obtain ⟨left₁, io₁, hentry⟩ := hentry
    split
    · rename_i hreg
      unfold cpupEntry at hentry
      rw [if_pos hreg] at hentry
      dsimp only at hentry
      split at hentry
      · rename_i hne
        exact absurd (congrArg Prod.fst (Option.some.inj hentry)) hne
      · rename_i hask
        exact decide_eq_true (not_not.mp hask)
    · rw [hentry]
      rfl

theorem needsDiropq_isdir (h : needsDiropq env s = true) : env.isdir = true := by
  unfold needsDiropq at h
  exact (Bool.and_eq_true_iff.mp h).1

/-- **The renaming** by `vfs_rename`, where the source starts on the branch. -/
theorem renameOrCpup_renames (hdir : HasDir (s.parents env.dstDir) env.btgt) (hstart : s.src.diBstart = env.btgt)
    (h : renameOrCpup env s = some (err, r)) : ∃ nd : Bool, (nd = true → env.isdir = true) ∧
      (err ≠ 0 → ∃ io, r = { s with io := io, needDiropq := nd, bycpup := false }) ∧
      (err = 0 → ∃ ps io, r = { s with parents := ps, io := io, needDiropq := nd, bycpup := false } ∧
        SameElsewhere env.btgt s.parents ps ∧
        (s.contents env.btgt env.srcKey ≠ none →
          r.contents env.btgt = (s.contents env.btgt).move env.srcKey env.dstKey)) := by
  unfold renameOrCpup auRenOrCpup at h
  rw [if_pos hstart] at h
  have hneed : ∃ nd : Bool, (nd = true → env.isdir = true) ∧
      (if (needsDiropq env s && s.src.diBdiropq = env.btgt) = true
        then ({ s with needDiropq := false, bycpup := false } : RenState)
        else { s with needDiropq := needsDiropq env s, bycpup := false }) =
      { s with needDiropq := nd, bycpup := false } := by
    split
    · exact ⟨false, fun hc => absurd hc Bool.false_ne_true, rfl⟩
    · exact ⟨needsDiropq env s, needsDiropq_isdir, rfl⟩
  obtain ⟨nd, hnd, heq⟩ := hneed
  refine ⟨nd, hnd, ?_⟩
  dsimp only at h
  rw [heq] at h
  split at h
  · cases h
  dsimp only at h
  split at h
  · rename_i hne
    cases h
    exact ⟨fun _ => ⟨_, rfl⟩, fun h0 => absurd h0 hne⟩
  · obtain ⟨rfl, rfl⟩ := Prod.mk.inj (Option.some.inj h)
    refine ⟨fun hc => absurd rfl hc, fun _ => ?_⟩
    refine ⟨(s.moveEntry env.btgt false env.srcName env.dstDir env.dstName).parents, (ask s.io).2, ?_,
      moveEntry_sameElsewhere, fun hsome => ?_⟩
    · unfold RenState.moveEntry
      dsimp only
      split
      · rfl
      · rfl
    · exact contents_moveEntry
        (s := { s with io := (ask s.io).2, needDiropq := nd, bycpup := false }) hdir hsome

/-- **The renaming** by a copy-up, where the source starts on a branch below. -/
theorem renameOrCpup_copies (hdir : HasDir (s.parents env.dstDir) env.btgt)
    (hsrc : s.src.diBstart = env.bstartSrc) (hne : env.bstartSrc ≠ env.btgt)
    (h : renameOrCpup env s = some (err, r)) :
    env.btgt < env.bstartSrc ∧ ∃ (hd : HDentry) (hSrc : HInode) (nd : Bool), (nd = true → env.isdir = true) ∧
      (s.src.hDptr env.bstartSrc).bind HDentry.inode = some hSrc ∧
      (err ≠ 0 → (∀ e io, auCpupSingle env.cpup hSrc s.io = some (e, true, io) → e = 0) →
        ∃ (src : Dinfo) (io : List Int), src.diBstart = s.src.diBstart ∧ r = { s with
          src := src
          dst := if cpupMakes env.cpup hSrc s.io then s.dst.setHDptr env.btgt (some
            { hd with inode := some (env.cpup.copied hSrc) }) else s.dst
          io := io
          needDiropq := nd
          bycpup := true }) ∧
      (err = 0 → ∃ (ps : Bool → Dinfo) (src : Dinfo) (io : List Int), src.diBstart = env.btgt ∧ r = { s with
          parents := ps
          src := src
          dst := s.dst.setHDptr env.btgt (some { hd with inode := some (env.cpup.copied hSrc) })
          io := io
          needDiropq := nd
          bycpup := true } ∧
        SameElsewhere env.btgt s.parents ps ∧
        r.contents env.btgt = (s.contents env.btgt).put env.dstKey (env.cpup.copied hSrc)) := by
  unfold renameOrCpup auRenOrCpup at h
  have hstart : ¬ s.src.diBstart = env.btgt := by omega
  rw [if_neg hstart] at h
  dsimp only at h
  split at h
  case h_2 => cases h
  rename_i hd hSrc hhd hread
  -- the hidden dentry that is read is the source's own
  have hread' : env.btgt < env.bstartSrc ∧ (s.src.hDptr env.bstartSrc).bind HDentry.inode = some hSrc := by
    rw [Dinfo.hDptr] at hread
    split at hread
    · cases hread
    rename_i hrange
    dsimp only [Dinfo.setHDptr] at hrange hread
    rw [Function.update_of_ne hne] at hread
    refine ⟨by omega, ?_⟩
    rw [Dinfo.hDptr, if_neg (by omega)]
    exact hread
  refine ⟨hread'.1, hd, hSrc, needsDiropq env s, needsDiropq_isdir, hread'.2, ?_⟩
  split at h
  · cases h
  rename_i e left io hsingle
  split at h
  · rename_i hfail
    cases h
    refine ⟨fun _ hrev => ?_, fun h0 => absurd h0 hfail⟩
    have hleft : left = false := by
      by_contra hc
      rw [Bool.not_eq_false] at hc
      rw [hc] at hsingle
      exact hfail (hrev _ _ hsingle)
    rw [hleft, if_neg Bool.false_ne_true]
    exact ⟨_, io, hsrc.symm, rfl⟩
  · rename_i hok
    rw [not_not] at hok
    subst hok
    cases h
    rw [auCpupSingle_left hsingle, if_pos rfl, cpupMakes_of_ok hsingle, if_pos rfl]
    refine ⟨fun hc => absurd rfl hc, fun _ => ?_⟩
    exact ⟨_, _, io, rfl, rfl, changeDir_sameElsewhere (f := setEntry env.dstName (env.cpup.copied hSrc)),
      contents_setEntry (s := s) hdir⟩

/-! ## The steps after the renaming -/

/-- **The directory made opaque.** -/
theorem auRenDiropq_spec (hdir : HasDir (s.parents env.dstDir) env.btgt) (h : auRenDiropq env s = some (err, r)) :
    (s.needDiropq = false → err = 0 ∧ r = s) ∧
    (s.needDiropq = true → (err ≠ 0 → ∃ io, r = { s with io := io }) ∧
      (err = 0 → ∃ dir ps io, s.contents env.btgt env.dstKey = some dir ∧ dir.find whDiropq = none ∧
        r = { s with parents := ps, io := io, src := { s.src with diBdiropq := env.btgt } } ∧
        SameElsewhere env.btgt s.parents ps ∧
        r.contents env.btgt = (s.contents env.btgt).put env.dstKey
          (dir.withEntries ((whDiropq, newFile) :: dir.entries)))) := by
  unfold auRenDiropq at h
  split at h
  · rename_i hnd
    refine ⟨fun hc => absurd hnd (by rw [hc]; exact Bool.false_ne_true), fun _ => ?_⟩
    split at h
    case h_2 => cases h
    rename_i dir _ hat
    split at h
    · rename_i hne
      cases h
      exact ⟨fun _ => ⟨s.io, rfl⟩, fun h0 => absurd h0 hne⟩
    split at h
    · cases h
      exact ⟨fun _ => ⟨s.io, rfl⟩, fun h0 => absurd h0 (by decide)⟩
    rename_i hfree
    dsimp only at h
    split at h
    · rename_i hne
      cases h
      exact ⟨fun _ => ⟨_, rfl⟩, fun h0 => absurd h0 hne⟩
    · obtain ⟨rfl, rfl⟩ := Prod.mk.inj (Option.some.inj h)
      refine ⟨fun hc => absurd rfl hc, fun _ => ?_⟩
      exact ⟨dir, _, _, hat, Option.not_isSome_iff_eq_none.mp hfree, rfl,
        changeDir_sameElsewhere (f := setEntry env.dstName
          (dir.withEntries ((whDiropq, newFile) :: dir.entries))), contents_setEntry (s := s) hdir⟩
  · rename_i hnd
    cases h
    exact ⟨fun _ => ⟨rfl, rfl⟩, fun hc => absurd hc hnd⟩

/-- The whiteout of the destination that could not be removed. -/
theorem unlinkWhDst_failed (h : unlinkWhDst env s = some (err, r)) (herr : err ≠ 0) : ∃ io, r = { s with io := io } := by
  unfold unlinkWhDst at h
  split at h
  · dsimp only at h
    split at h
    · cases h
      exact ⟨_, rfl⟩
    · cases h
      exact absurd rfl herr
  · cases h
    exact absurd rfl herr

end Steps

/-! ## Undoing -/

section Undo

variable {env : RenEnv} {s : RenState}

theorem hasDir_of_entry {parent : Dinfo} {name : Name} {b : Nat} (h : entryAt parent name b ≠ none) :
    HasDir parent b := by
  unfold HasDir
  cases hd : dirAt parent b with
  | none => exact absurd (entryAt_none hd) h
  | some dir => rfl

/-- The marker is removed from the directory. -/
theorem auRenRevDiropq_spec (hio : Willing s.io) {dir : HInode} (hat : s.contents env.btgt env.dstKey = some dir) :
    ∃ ps io bdiropq, auRenRevDiropq env s =
        { s with parents := ps, io := io, src := { s.src with diBdiropq := bdiropq } } ∧ Willing io ∧
      SameElsewhere env.btgt s.parents ps ∧
      (auRenRevDiropq env s).contents env.btgt = (s.contents env.btgt).put env.dstKey
        (dir.withEntries (eraseName whDiropq dir.entries)) := by
  obtain ⟨h0, hrest⟩ := hio.ask
  have hat : entryAt (s.parents env.dstDir) env.dstName env.btgt = some dir := hat
  have hdir : HasDir (s.parents env.dstDir) env.btgt :=
    hasDir_of_entry (by rw [hat]; exact Option.some_ne_none _)
  unfold auRenRevDiropq
  rw [hat]
  dsimp only
  rw [if_neg (not_not_intro h0)]
  exact ⟨_, _, -1, rfl, hrest, changeDir_sameElsewhere (f := setEntry env.dstName
    (dir.withEntries (eraseName whDiropq dir.entries))), contents_setEntry (s := s) hdir⟩

/-- The entry is renamed back. -/
theorem auRenRevRename_spec (hio : Willing s.io) (hdir : HasDir (s.parents false) env.btgt)
    (hsome : s.contents env.btgt env.dstKey ≠ none) :
    ∃ ps io, auRenRevRename env s = { s with parents := ps, io := io } ∧ Willing io ∧
      SameElsewhere env.btgt s.parents ps ∧
      (auRenRevRename env s).contents env.btgt = (s.contents env.btgt).move env.dstKey env.srcKey := by
  obtain ⟨h0, hrest⟩ := hio.ask
  obtain ⟨h0', hrest'⟩ := hrest.ask
  unfold auRenRevRename
  dsimp only
  rw [if_neg (not_not_intro h0), if_neg (not_not_intro h0')]
  refine ⟨(s.moveEntry env.btgt env.dstDir env.dstName false env.srcName).parents, (ask (ask s.io).2).2, ?_, hrest',
    moveEntry_sameElsewhere, ?_⟩
  · unfold RenState.moveEntry
    dsimp only
    split
    · rfl
    · rfl
  · exact contents_moveEntry (s := { s with io := (ask (ask s.io).2).2 }) hdir hsome

/-- The copy is unlinked, but for a directory. -/
theorem auRenRevCpup_spec (hio : Willing s.io) :
    (∀ v, s.contents env.btgt env.dstKey = some v → v.mode = sIfdir → ∃ src : Dinfo,
      src.diBstart = env.bstartSrc ∧ auRenRevCpup env s = { s with src := src }) ∧
    ((∀ v, s.contents env.btgt env.dstKey = some v → v.mode ≠ sIfdir) →
      ∃ (ps : Bool → Dinfo) (src : Dinfo) (io : List Int), src.diBstart = env.bstartSrc ∧
        auRenRevCpup env s = { s with parents := ps, src := src, io := io } ∧ Willing io ∧
        SameElsewhere env.btgt s.parents ps ∧
        (auRenRevCpup env s).contents env.btgt = (s.contents env.btgt).drop env.dstKey) := by
  constructor
  · intro v hat hmode
    have hat : entryAt (s.parents env.dstDir) env.dstName env.btgt = some v := hat
    unfold auRenRevCpup
    dsimp only
    rw [hat, Option.any_some, hmode, decide_eq_true rfl, if_pos rfl, if_pos (show (-EISDIR : Int) ≠ 0 by decide)]
    exact ⟨_, rfl, rfl⟩
  · intro hmode
    obtain ⟨h0, hrest⟩ := hio.ask
    have hany : (entryAt (s.parents env.dstDir) env.dstName env.btgt).any (·.mode = sIfdir) = false := by
      cases hat : entryAt (s.parents env.dstDir) env.dstName env.btgt with
      | none => rfl
      | some v =>
        rw [Option.any_some]
        exact decide_eq_false (hmode v hat)
    unfold auRenRevCpup
    dsimp only
    rw [hany, if_neg Bool.false_ne_true, if_neg (not_not_intro h0)]
    exact ⟨_, _, _, rfl, rfl, hrest, changeDir_sameElsewhere (f := eraseName env.dstName),
      contents_eraseName (s := s)⟩

/-- **The destination directory moved back**, unless something has its name. -/
theorem auRenRevWhtmp_spec (hio : Willing s.io) :
    (s.contents env.btgt env.dstKey ≠ none → ∃ io, auRenRevWhtmp env s = { s with io := io } ∧ Willing io) ∧
    (s.contents env.btgt env.dstKey = none → s.contents env.btgt (env.tmpKey s.tmpName) ≠ none →
      ∃ ps io, auRenRevWhtmp env s = { s with
          parents := ps
          io := io
          srcWatch := s.srcWatch.map fun _ => true
          dst := s.dst.setHDptr env.btgt s.hDst } ∧ Willing io ∧
        SameElsewhere env.btgt s.parents ps ∧
        (auRenRevWhtmp env s).contents env.btgt =
          (s.contents env.btgt).move (env.tmpKey s.tmpName) env.dstKey) := by
  obtain ⟨h0, hrest⟩ := hio.ask
  obtain ⟨h0', hrest'⟩ := hrest.ask
  constructor
  · intro hat
    have hat : entryAt (s.parents env.dstDir) env.dstName env.btgt ≠ none := hat
    unfold auRenRevWhtmp
    dsimp only
    rw [if_neg (not_not_intro h0), if_pos (Option.isSome_iff_ne_none.mpr hat)]
    exact ⟨_, rfl, hrest⟩
  · intro hat htmp
    have hat : entryAt (s.parents env.dstDir) env.dstName env.btgt = none := hat
    have hdir : HasDir (s.parents env.dstDir) env.btgt := hasDir_of_entry htmp
    unfold auRenRevWhtmp
    dsimp only
    rw [if_neg (not_not_intro h0), hat, if_neg (by rw [Option.isSome_none]; exact Bool.false_ne_true),
      if_neg (not_not_intro h0')]
    refine ⟨(s.moveEntry env.btgt env.dstDir s.tmpName env.dstDir env.dstName).parents, (ask (ask s.io).2).2, ?_,
      hrest', moveEntry_sameElsewhere, ?_⟩
    · unfold RenState.moveEntry
      dsimp only
      split
      · rfl
      · rfl
    · exact contents_moveEntry (s := { s with
        io := (ask (ask s.io).2).2, srcWatch := s.srcWatch.map fun _ => true }) hdir htmp

/-- The whiteout of the source is removed, if one was made, and `di_bstart` of the destination looked for. -/
theorem outWhsrc_spec (hio : Willing s.io) :
    ∃ (ps : Bool → Dinfo) (src : Dinfo) (io : List Int), src.diBstart = s.src.diBstart ∧
      outWhsrc env s = { s with parents := ps, src := src, io := io, dst := auUpdateDbstart s.dst } ∧
      SameElsewhere env.btgt s.parents ps ∧
      (outWhsrc env s).contents env.btgt =
        if s.whSrc then (s.contents env.btgt).drop env.whKey else s.contents env.btgt := by
  unfold outWhsrc auRenRevWhsrc
  dsimp only
  split
  · rw [if_neg (not_not_intro hio.ask.1)]
    exact ⟨_, { s.src with diBwh := -1 }, _, rfl, rfl,
      changeDir_sameElsewhere (f := eraseName (whPfx ++ env.srcName)),
      contents_eraseName (s := s)⟩
  · exact ⟨s.parents, s.src, s.io, rfl, rfl, SameElsewhere.refl _ _, rfl⟩

end Undo

end KernelPatches.Aufs
