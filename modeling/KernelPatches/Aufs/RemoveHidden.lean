/-
  aufs: is a removed name gone?

  A name is gone when no branch shows it.  After the topmost hidden entry is removed a lower branch may show
  the name, and then a whiteout has to hide it.  `au_wr_dir_need_wh` decides by looking the name up below
  the entry, and the whiteout is made on the branch that is written to.

  Two things go wrong.  With a directory, `di_bwh` may be known from the first lookup; the second one ends
  then at the first branch it looks at, and a name which is further down, but above that whiteout, is not
  found (`MissesBelow`).  And lookups ignore the whiteouts of a branch with `rw+nolwh`.

  * `removeHidden_ok`, `auCpupDirs_ok`, `lockHdirCreateWh_ok` — what the steps do to the parent's directories;
  * `current_of_lookup` — what is known of a name after the first lookup;
  * `lkupBelow_iff`     — what the second lookup finds;
  * `auRemove_found_iff` — whether a fresh lookup finds the name after the removal;
  * `whiteout_decision_iff` — the decision, and the removal, are right exactly in the other cases.
-/
import KernelPatches.Aufs.CpupRevert
import KernelPatches.Aufs.LookupBelow
import KernelPatches.Aufs.RemoveRevert

namespace KernelPatches.Aufs

/-! ## Changed directories -/

section Changes

variable {st : Stack} {parent : Dinfo} {name : Name} {b c : Nat}
  {f : List (Name × HInode) → List (Name × HInode)}

theorem hDptr_changeDir : (parent.changeDir b f).hDptr c =
    if c = b then (parent.hDptr b).map fun hd =>
      { hd with inode := hd.inode.map fun dir => dir.withEntries (f dir.entries) }
    else parent.hDptr c := by
  rw [Dinfo.hDptr]
  unfold Dinfo.changeDir
  by_cases hc : c = b
  · subst hc
    rw [if_pos rfl, Dinfo.hDptr]
    dsimp only
    rw [Function.update_self]
    split
    · rfl
    · rfl
  · rw [if_neg hc, Dinfo.hDptr]
    dsimp only
    rw [Function.update_of_ne hc]

theorem dirAt_changeDir : dirAt (parent.changeDir b f) c =
    if c = b then (dirAt parent b).map fun dir => dir.withEntries (f dir.entries)
    else dirAt parent c := by
  by_cases hc : c = b
  · subst hc
    rw [if_pos rfl, dirAt, hDptr_changeDir, if_pos rfl, dirAt]
    cases hptr : parent.hDptr c with
    | none => rfl
    | some hd =>
      rw [Option.map_some, Option.bind_some, Option.bind_some]
      cases hi : hd.inode with
      | none => rfl
      | some dir =>
        rw [Option.map_some]
        show (if dir.mode = sIfdir then _ else none) = Option.map _ (if dir.mode = sIfdir then _ else none)
        by_cases hmode : dir.mode = sIfdir
        · rw [if_pos hmode, if_pos hmode, Option.map_some]
        · rw [if_neg hmode, if_neg hmode, Option.map_none]
  · rw [if_neg hc, dirAt, hDptr_changeDir, if_neg hc, dirAt]

/-- The entry of a changed directory. -/
theorem entryAt_changeDir : entryAt (parent.changeDir b f) name c =
    if c = b then (dirAt parent b).bind fun dir => (f dir.entries).lookup name
    else entryAt parent name c := by
  rw [entryAt, dirAt_changeDir]
  by_cases hc : c = b
  · rw [if_pos hc, if_pos hc]
    cases dirAt parent b with
    | none => rfl
    | some dir => rfl
  · rw [if_neg hc, if_neg hc]
    rfl

/-- The whiteout of a changed directory. -/
theorem whAt_changeDir : WhAt st (parent.changeDir b f) name c ↔
    if c = b then auBrWhable (st.brPerm b) = true ∧ ∃ dir wh, dirAt parent b = some dir ∧
      (f dir.entries).lookup (whPfx ++ name) = some wh
    else WhAt st parent name c := by
  rw [WhAt, dirAt_changeDir]
  by_cases hc : c = b
  · subst hc
    rw [if_pos rfl, if_pos rfl]
    constructor
    · rintro ⟨hable, dir', wh, hdir', hwh⟩
      obtain ⟨dir, hdir, rfl⟩ := Option.map_eq_some_iff.mp hdir'
      exact ⟨hable, dir, wh, hdir, hwh⟩
    · rintro ⟨hable, dir, wh, hdir, hwh⟩
      exact ⟨hable, _, wh, Option.map_eq_some_iff.mpr ⟨dir, hdir, rfl⟩, hwh⟩
  · rw [if_neg hc, if_neg hc]
    exact Iff.rfl

/-- The entries are those of before, but for the name, which may be gone, and its whiteout, which may be
    new. -/
structure Changes (name : Name) (f : List (Name × HInode) → List (Name × HInode)) : Prop where
  entry : ∀ es v, (f es).lookup name = some v → es.lookup name = some v
  whMode : ∀ es v, (f es).lookup (whPfx ++ name) = some v → v.mode = sIfreg ∨ es.lookup (whPfx ++ name) = some v

/-- Such a change keeps lookups from failing. -/
theorem Quiet.changeDir {s e : Nat} (hq : Quiet st parent name s e) (hf : Changes name f) :
    Quiet st (parent.changeDir b f) name s e := by
  -- the directory looked at is that of before, up to its entries
  have hdir : ∀ c dir', dirAt (parent.changeDir b f) c = some dir' → ∃ dir, dirAt parent c = some dir ∧
      dir'.lkupErr = dir.lkupErr ∧ (dir' = dir ∨ dir'.entries = f dir.entries) := by
    intro c dir' h
    rw [dirAt_changeDir] at h
    by_cases hc : c = b
    · subst hc
      rw [if_pos rfl] at h
      obtain ⟨dir, hdir, rfl⟩ := Option.map_eq_some_iff.mp h
      exact ⟨dir, hdir, rfl, Or.inr rfl⟩
    · rw [if_neg hc] at h
      exact ⟨dir', h, rfl, Or.inl rfl⟩
  refine ⟨?_, ?_, ?_⟩
  · intro c dir' hs he h
    obtain ⟨dir, hd, herr, -⟩ := hdir c dir' h
    rw [herr]
    exact hq.entry c dir hs he hd
  · intro c dir' hs he hable h
    obtain ⟨dir, hd, herr, hor⟩ := hdir c dir' h
    obtain ⟨hzero, hreg⟩ := hq.wh c dir hs he hable hd
    refine ⟨by rw [herr]; exact hzero, fun wh hwh => ?_⟩
    rcases hor with rfl | hes
    · exact hreg wh hwh
    · rw [HInode.find, hes] at hwh
      exact (hf.whMode _ _ hwh).elim id (hreg wh)
  · intro c hInode hs he hable hent hmode
    refine hq.opq c hInode hs he hable ?_ hmode
    rw [entryAt_changeDir] at hent
    by_cases hc : c = b
    · subst hc
      rw [if_pos rfl] at hent
      obtain ⟨dir, hd, hl⟩ := Option.bind_eq_some_iff.mp hent
      rw [entryAt_eq hd]
      exact hf.entry _ _ hl
    · rw [if_neg hc] at hent
      exact hent

end Changes

/-! ## Names -/

section Names

variable {name : Name} {entries : List (Name × HInode)}

theorem wh_ne_name (name : Name) : whPfx ++ name ≠ name := by
  intro h
  have hlen := congrArg List.length h
  rw [List.length_append] at hlen
  have hpfx : whPfx.length = 4 := rfl
  omega

theorem whtmpName_length (name : Name) (cnt : Nat) : (whtmpName name cnt).length = name.length + 13 := by
  unfold whtmpName
  simp only [List.length_append, List.length_cons, List.length_nil]
  have hpfx : whPfx.length = 4 := rfl
  omega

/-- A temporary name is not the name, nor its whiteout. -/
theorem whtmpName_ne (name : Name) (cnt : Nat) :
    whtmpName name cnt ≠ name ∧ whtmpName name cnt ≠ whPfx ++ name := by
  have hlen := whtmpName_length name cnt
  refine ⟨fun h => ?_, fun h => ?_⟩
  · rw [h] at hlen
    omega
  · rw [h, List.length_append] at hlen
    have hpfx : whPfx.length = 4 := rfl
    omega

/-- A change that removes the name and leaves its whiteout. -/
structure Drops (name : Name) (f : List (Name × HInode) → List (Name × HInode)) : Prop where
  gone : ∀ es, (f es).lookup name = none
  wh : ∀ es, (f es).lookup (whPfx ++ name) = es.lookup (whPfx ++ name)

theorem Drops.changes {f : List (Name × HInode) → List (Name × HInode)} (h : Drops name f) :
    Changes name f := by
  refine ⟨fun es v hv => ?_, fun es v hv => ?_⟩
  · rw [h.gone] at hv
    cases hv
  · rw [h.wh] at hv
    exact Or.inr hv

theorem drops_eraseName (name : Name) : Drops name (eraseName name) := by
  refine ⟨fun es => ?_, fun es => ?_⟩
  · rw [lookup_eraseName, if_pos rfl]
  · rw [lookup_eraseName, if_neg (wh_ne_name name)]

theorem drops_renameEntry (name : Name) (cnt : Nat) :
    Drops name (renameEntry name (whtmpName name cnt)) := by
  obtain ⟨hname, hwh⟩ := whtmpName_ne name cnt
  -- the temporary name in front is neither of the two
  have hskip : ∀ (other : Name) (es : List (Name × HInode)), whtmpName name cnt ≠ other →
      (renameEntry name (whtmpName name cnt) es).lookup other = (eraseName name es).lookup other := by
    intro other es hne
    unfold renameEntry
    cases es.lookup name with
    | none => rfl
    | some v =>
      show List.lookup other ((whtmpName name cnt, v) :: eraseName name es) = _
      rw [List.lookup_cons, beq_false_of_ne (Ne.symm hne)]
  refine ⟨fun es => ?_, fun es => ?_⟩
  · rw [hskip name es hname, lookup_eraseName, if_pos rfl]
  · rw [hskip _ es hwh, lookup_eraseName, if_neg (wh_ne_name name)]

theorem Drops.erase_tmp {f : List (Name × HInode) → List (Name × HInode)} (h : Drops name f) (cnt : Nat) :
    Drops name (eraseName (whtmpName name cnt) ∘ f) := by
  obtain ⟨hname, hwh⟩ := whtmpName_ne name cnt
  refine ⟨fun es => ?_, fun es => ?_⟩
  · show (eraseName _ (f es)).lookup name = none
    rw [lookup_eraseName, if_neg (Ne.symm hname), h.gone]
  · show (eraseName _ (f es)).lookup (whPfx ++ name) = _
    rw [lookup_eraseName, if_neg (Ne.symm hwh), h.wh]

end Names

/-- A change that leaves the name, and may make its whiteout. -/
structure Whites (name : Name) (f : List (Name × HInode) → List (Name × HInode)) : Prop where
  entry : ∀ es, (f es).lookup name = es.lookup name
  whMode : ∀ es v, (f es).lookup (whPfx ++ name) = some v → v.mode = sIfreg ∨ es.lookup (whPfx ++ name) = some v

theorem whites_id (name : Name) : Whites name id := ⟨fun _ => rfl, fun _ _ h => Or.inr h⟩

theorem whites_cons (name : Name) : Whites name ((whPfx ++ name, newFile) :: ·) := by
  refine ⟨fun es => ?_, fun es v h => ?_⟩
  · show List.lookup name ((whPfx ++ name, newFile) :: es) = _
    rw [List.lookup_cons, beq_false_of_ne (Ne.symm (wh_ne_name name))]
  · have hv : List.lookup (whPfx ++ name) ((whPfx ++ name, newFile) :: es) = some v := h
    rw [List.lookup_cons_self] at hv
    obtain rfl := Option.some.inj hv
    exact Or.inl rfl

theorem Whites.changes {name : Name} {f : List (Name × HInode) → List (Name × HInode)} (h : Whites name f) :
    Changes name f :=
  ⟨fun es v hv => by rw [h.entry] at hv; exact hv, h.whMode⟩

section Steps

variable {env : RmEnv} {isdir : Bool} {s s₁ s₂ : RmState}

/-! ## The entry removed -/

theorem ask_le (io : List Int) : (ask io).1 ≤ 0 := by
  cases io with
  | nil => exact Int.le_refl 0
  | cons r io => exact Int.min_le_right r 0

/-- The temporary name is one of those tried, by induction on the tries. -/
theorem whtmpTry_spec {hParent : HDentry} {dir : HInode} {name : Name} {r : Except Int Name} {cnt' : Nat} :
    ∀ {n cnt : Nat}, whtmpTry hParent dir name n cnt = some (r, cnt') →
      (∃ err, r = .error err ∧ err < 0) ∨ ∃ c, r = .ok (whtmpName name c) := by
  intro n
  induction n with
  | zero =>
    intro cnt h
    cases h
  | succ n ih =>
    intro cnt h
    rw [whtmpTry] at h
    cases hl : auSioLkupOne (whtmpName name cnt) hParent dir with
    | error err =>
      rw [hl] at h
      cases h
      left
      refine ⟨err, rfl, ?_⟩
      unfold auSioLkupOne at hl
      split at hl
      · cases hl
        omega
      · cases hl
    | ok hDentry =>
      rw [hl] at h
      dsimp only at h
      split at h
      · cases h
        exact Or.inr ⟨cnt, rfl⟩
      · exact ih h

/-- The directory is renamed, or the error is negative. -/
theorem auWhtmpRen_spec {b : Nat} {r : Except Int Name} (h : auWhtmpRen b s = some (r, s₁)) :
    (∃ err, r = .error err ∧ err < 0) ∨ ∃ cnt, r = .ok (whtmpName s.name cnt) ∧
      s₁.parent = s.parent.changeDir b (renameEntry s.name (whtmpName s.name cnt)) ∧ s₁.name = s.name := by
  unfold auWhtmpRen at h
  split at h
  · cases h
  rename_i hParent _
  split at h
  · cases h
  rename_i dir _
  -- the lookup of a temporary name
  have hlkup : ∀ r s', auWhtmpLkup hParent dir s = some (r, s') → s'.parent = s.parent ∧ s'.name = s.name ∧
      ((∃ err, r = .error err ∧ err < 0) ∨ ∃ cnt, r = .ok (whtmpName s.name cnt)) := by
    intro r s' hl
    unfold auWhtmpLkup at hl
    dsimp only at hl
    split at hl
    · cases hl
      exact ⟨rfl, rfl, Or.inl ⟨_, rfl, by decide⟩⟩
    generalize (if dnameInlineLenMin < s.name.length then ask s.io else (0, s.io)) = mem at hl
    split at hl
    · cases hl
      exact ⟨rfl, rfl, Or.inl ⟨_, rfl, by decide⟩⟩
    split at hl
    · cases hl
    · rename_i htry
      cases hl
      exact ⟨rfl, rfl, whtmpTry_spec htry⟩
  split at h
  · cases h
  · rename_i hl
    cases h
    left
    rcases (hlkup _ _ hl).2.2 with herr | ⟨_, hc⟩
    · exact herr
    · cases hc
  · rename_i tmp s' hl
    obtain ⟨hparent, hname, htmp⟩ := hlkup _ _ hl
    dsimp only at h
    split at h
    · rename_i hask
      cases h
      have hle := ask_le s'.io
      exact Or.inl ⟨_, rfl, by omega⟩
    · cases h
      right
      rcases htmp with ⟨_, hc, -⟩ | ⟨cnt, hc⟩
      · cases hc
      obtain rfl := Except.ok.inj hc
      refine ⟨cnt, rfl, ?_, hname⟩
      show s'.parent.changeDir b (renameEntry s'.name _) = _
      rw [hparent, hname]

/-- **A hidden entry that was removed** is gone from its directory, and nothing else. -/
theorem removeHidden_ok {b : Nat} (h : removeHidden env isdir b s = some (0, s₁)) :
    ∃ f, Drops s.name f ∧ s₁.parent = s.parent.changeDir b f ∧ s₁.name = s.name := by
  unfold removeHidden at h
  split at h
  · unfold renwhAndRmdir at h
    cases hren : auWhtmpRen b s with
    | none =>
      rw [hren] at h
      cases h
    | some r =>
      obtain ⟨r, s'⟩ := r
      rw [hren] at h
      rcases auWhtmpRen_spec hren with ⟨err, rfl, hneg⟩ | ⟨cnt, rfl, hparent, hname⟩
      · dsimp only at h
        rw [if_neg (by omega)] at h
        have hzero : err = 0 := (Prod.mk.inj (Option.some.inj h)).1
        omega
      · dsimp only at h
        by_cases hlater : env.rmdirLater = true
        · rw [if_pos hlater] at h
          dsimp only at h
          cases h
          exact ⟨_, drops_renameEntry s.name cnt, hparent, hname⟩
        rw [if_neg hlater] at h
        dsimp only at h
        by_cases hask : (ask s'.io).1 = 0
        · rw [if_pos hask] at h
          cases h
          refine ⟨_, (drops_renameEntry s.name cnt).erase_tmp cnt, ?_, hname⟩
          show s'.parent.changeDir b (eraseName _) = _
          rw [hparent, changeDir_changeDir]
        · -- the renamed directory stays
          rw [if_neg hask] at h
          cases h
          exact ⟨_, drops_renameEntry s.name cnt, hparent, hname⟩
  · dsimp only at h
    split at h
    · rename_i hask
      exact absurd (Prod.mk.inj (Option.some.inj h)).1 hask
    · cases h
      exact ⟨eraseName s.name, drops_eraseName s.name, rfl, rfl⟩

/-! ## The branch that is written to -/

theorem auWbrBu_lt {wbr : WbrEnv} {u : UnionSb} : ∀ {n : Nat} {b : Int}, auWbrBu wbr u n = .ok b → b < n := by
  intro n
  induction n with
  | zero =>
    intro b h
    cases h
    decide
  | succ n ih =>
    intro b h
    rw [auWbrBu] at h
    split at h
    · cases h
    split at h
    · cases h
      omega
    · have hlt := ih h
      omega

theorem createTdpFrom_lt {wbr : WbrEnv} {u : UnionSb} {parent : Dinfo} : ∀ {n k : Nat} {b : Int},
    createTdpFrom wbr u parent n k = .ok b → b < k + n := by
  intro n
  induction n with
  | zero =>
    intro k b h
    cases h
    have hneg : -EROFS < 0 := by decide
    omega
  | succ n ih =>
    intro k b h
    rw [createTdpFrom] at h
    split at h
    · have hlt := ih h
      omega
    split at h
    · cases h
    split at h
    · cases h
      omega
    · have hlt := ih h
      omega

theorem copyupBupFrom_le {parent : Dinfo} : ∀ {n k : Nat} {b : Int},
    copyupBupFrom env parent n k = some b → b ≤ k := by
  intro n
  induction n with
  | zero =>
    intro k b h
    cases h
    have hneg : -EROFS < 0 := by decide
    omega
  | succ n ih =>
    intro k b h
    rw [copyupBupFrom] at h
    split at h
    · have hle := ih h
      omega
    split at h
    · cases h
    split at h
    · cases h
      omega
    · have hle := ih h
      omega

theorem auWbrCreateTdp_le {wbr : WbrEnv} {u : UnionSb} {d parent : Dinfo} {b : Int} {t : Nat}
    (ht : d.diBstart = t) (hparent : parent.diBstart ≤ t) (h : auWbrCreateTdp wbr u d parent = .ok b) :
    b ≤ t := by
  have htoNat : d.diBstart.toNat = t := by omega
  unfold auWbrCreateTdp at h
  dsimp only at h
  rw [htoNat] at h
  split at h
  · cases h
  split at h
  · cases h
    exact Int.le_refl _
  split at h
  · cases h
  · rename_i b' hfrom
    have hlt := createTdpFrom_lt hfrom
    split at h
    · have hbu := auWbrBu_lt h
      omega
    · cases h
      omega

/-- **No branch below the entry's own** is ever chosen. -/
theorem rmTarget_le {d parent : Dinfo} {b : Int} {t : Nat} (ht : d.diBstart = t)
    (hparent : parent.diBstart ≤ t) (h : rmTarget env d parent = some b) : b ≤ t := by
  have htoNat : d.diBstart.toNat = t := by omega
  have hok : ∀ {r : Except BrTrap Int}, r.toOption = some b → r = .ok b := by
    intro r hr
    cases r with
    | error e => cases hr
    | ok b' => rw [Option.some.inj hr]
  unfold rmTarget at h
  split at h
  · cases h
  · cases h
    omega
  unfold auWbrCopyup at h
  rw [htoNat] at h
  split at h
  · exact auWbrCreateTdp_le ht hparent (hok h)
  · split at h
    · cases h
    rename_i b' hfrom
    have hle := copyupBupFrom_le hfrom
    split at h
    · have hbu := auWbrBu_lt (hok h)
      omega
    · cases h
      exact hle
  · have hbu := auWbrBu_lt (hok h)
    omega

end Steps

/-! ## The second lookup -/

/-- A fresh lookup of the name finds it. -/
def FoundAnew (env : RmEnv) (parent : Dinfo) (name : Name) : Prop :=
  ∃ n, n ≠ 0 ∧ (auLkupDentry env.stack parent none name parent.diBstart.toNat 0 .alloc).1 = .ok n

/-- Without the entry on branch `t` it would still be found. -/
def Remains (env : RmEnv) (s : RmState) (t : Nat) : Prop :=
  FoundAnew env (s.parent.changeDir t (eraseName s.name)) s.name

/-- A whiteout is known, so the second lookup ends at the first branch below `t` on which the parent has a
    directory; but that branch's hidden dentry is not known. -/
def Misses (env : RmEnv) (s : RmState) (t : Nat) : Prop :=
  0 ≤ s.d.diBwh ∧ Remains env s t ∧ ¬ ∃ b, t < b ∧ (s.d.hDptr b).isSome = true ∧
    ∀ b', t < b' → b' < b → dirAt s.parent b' = none

/-- What is so of an entry that can be seen: branch `t` is the topmost one with it, what else is known of the
    branches below is right, and lookups do not fail. -/
structure Current (env : RmEnv) (s : RmState) (t : Nat) : Prop where
  start : s.d.diBstart = t
  parent : 0 ≤ s.parent.diBstart
  dirs : ∀ b hd dir, s.parent.hDptr b = some hd → hd.inode = some dir → dir.mode = sIfdir
  tidy : ∀ b : Nat, (b : Int) < s.parent.diBstart → s.parent.diHdentry b = none
  quiet : Quiet env.stack s.parent s.name s.parent.diBstart.toNat
    (lkupEnd s.parent s.parent.diBstart.toNat)
  allowed : Allowed env.stack s.name
  top : Top env.stack s.parent s.name s.parent.diBstart.toNat (lkupEnd s.parent s.parent.diBstart.toNat) t
  bwh : -1 ≤ s.d.diBwh
  held : HeldFrom env.stack s.parent s.name (t + 1) (lkupEnd s.parent s.parent.diBstart.toNat) s.d

section Second

variable {env : RmEnv} {isdir : Bool} {s : RmState} {t : Nat}

/-- **What the first lookup leaves** is right. -/
theorem current_of_lookup (hparent : 0 ≤ s.parent.diBstart)
    (hdirs : ∀ b hd dir, s.parent.hDptr b = some hd → hd.inode = some dir → dir.mode = sIfdir)
    (htidy : ∀ b : Nat, (b : Int) < s.parent.diBstart → s.parent.diHdentry b = none)
    (hq : Quiet env.stack s.parent s.name s.parent.diBstart.toNat
      (lkupEnd s.parent s.parent.diBstart.toNat)) (hname : Allowed env.stack s.name)
    (htop : Top env.stack s.parent s.name s.parent.diBstart.toNat
      (lkupEnd s.parent s.parent.diBstart.toNat) t)
    (hd : s.d = (auLkupDentry env.stack s.parent none s.name s.parent.diBstart.toNat 0 .alloc).2) :
    Current env s t := by
  obtain ⟨n, d, d', hfound, hd', hlkup⟩ := auLkupDentry_found hq hname
  obtain ⟨d'', hd'', hbwh, -, -, hstart, hptr, hneg⟩ := hfound.updated
  obtain rfl : d' = d'' := hd'.trans hd''.symm
  have hsd : s.d = d' := by rw [hd, hlkup]
  have hn : n ≠ 0 := fun h0 => hfound.shown.mp h0 t htop.1
  refine ⟨hsd ▸ hstart t htop, hparent, hdirs, htidy, hq, hname, htop, ?_, fun b hd hb hlt hget => ?_⟩
  · rw [hsd, hbwh]
    rcases hfound.bwh with ⟨h, -⟩ | ⟨b, h, -⟩ <;> omega
  · rw [hsd] at hget
    have hpos : hd.inode.isSome = true :=
      Option.isSome_iff_ne_none.mpr fun hnone => hn (hneg b hd hget hnone)
    have hshown := ((hptr b).mpr ⟨hd, hget, hpos⟩).1
    exact ⟨hpos, hshown.2.2.1, hshown.2.2.2 b hshown.1 (Nat.le_refl b)⟩

theorem shown_drops {st : Stack} {parent : Dinfo} {name : Name} {f : List (Name × HInode) → List (Name × HInode)}
    {k e b : Nat} (hf : Drops name f) :
    Shown st (parent.changeDir t f) name k e b ↔ b ≠ t ∧ Shown st parent name k e b := by
  have hwh : ∀ c, WhAt st (parent.changeDir t f) name c ↔ WhAt st parent name c := by
    intro c
    rw [whAt_changeDir]
    by_cases hc : c = t
    · rw [if_pos hc, hc]
      simp only [hf.wh]
      exact Iff.rfl
    · rw [if_neg hc]
  have hent : (entryAt (parent.changeDir t f) name b).isSome = true ↔
      b ≠ t ∧ (entryAt parent name b).isSome = true := by
    rw [entryAt_changeDir]
    by_cases hb : b = t
    · rw [if_pos hb]
      refine iff_of_false ?_ fun hc => hc.1 hb
      cases dirAt parent t with
      | none => exact Bool.noConfusion
      | some dir =>
        rw [Option.bind_some, hf.gone]
        exact Bool.noConfusion
    · rw [if_neg hb]
      exact (and_iff_right hb).symm
  unfold Shown
  rw [hent]
  simp only [hwh]
  constructor
  · rintro ⟨hk, he, ⟨hb, hsome⟩, hclean⟩
    exact ⟨hb, hk, he, hsome, hclean⟩
  · rintro ⟨hb, hk, he, hsome, hclean⟩
    exact ⟨hk, he, ⟨hb, hsome⟩, hclean⟩

/-- Below the topmost branch that shows the name. -/
theorem shownFrom_below {st : Stack} {parent : Dinfo} {name : Name} {k e : Nat}
    (htop : Top st parent name k e t) :
    ShownFrom st parent name (t + 1) e ↔ ∃ b, b ≠ t ∧ Shown st parent name k e b := by
  constructor
  · rintro ⟨b, hb, hlt, hent, hclean⟩
    refine ⟨b, by omega, by have := htop.1.1; omega, hlt, hent, fun b' hb' hle => ?_⟩
    by_cases ht : b' ≤ t
    · exact htop.1.2.2.2 b' hb' ht
    · exact hclean b' (by omega) hle
  · rintro ⟨b, hne, hb⟩
    have hle : t ≤ b := htop.2 hb
    exact ⟨b, by omega, hb.2.1, hb.2.2.1, fun b' hb' hle' => hb.2.2.2 b' (by have := htop.1.1; omega) hle'⟩

theorem foundAnew_iff {parent : Dinfo} {name : Name}
    (hq : Quiet env.stack parent name parent.diBstart.toNat (lkupEnd parent parent.diBstart.toNat))
    (hname : Allowed env.stack name) : FoundAnew env parent name ↔
      ∃ b, Shown env.stack parent name parent.diBstart.toNat (lkupEnd parent parent.diBstart.toNat) b :=
  auLkupDentry_npositive hq hname

/-- **What remains** is what the branches below show. -/
theorem remains_iff (h : Current env s t) : Remains env s t ↔
    ShownFrom env.stack s.parent s.name (t + 1) (lkupEnd s.parent s.parent.diBstart.toNat) := by
  have hdrops := drops_eraseName s.name
  rw [shownFrom_below h.top]
  exact (foundAnew_iff (h.quiet.changeDir hdrops.changes) h.allowed).trans
    (exists_congr fun b => shown_drops hdrops)

theorem updateDbstart_nonneg : ∀ {count k : Nat} {d : Dinfo}, 0 ≤ d.diBstart →
    0 ≤ (updateDbstart count k d).diBstart := by
  intro count
  induction count with
  | zero => exact fun h => h
  | succ count ih =>
    intro k d h
    rw [updateDbstart]
    split
    · exact ih h
    · split
      · exact Int.natCast_nonneg k
      · exact ih h

/-- **The second lookup** finds something iff something remains that it does not miss. -/
theorem lkupBelow_iff (h : Current env s t) (isdir : Bool) : ∃ n : Nat,
    (lkupBelow env isdir s).1 = .ok n ∧ (n ≠ 0 ↔ Remains env s t ∧ ¬ Misses env s t) := by
  -- the branches looked at are those below the entry
  have hs : s.parent.diBstart.toNat ≤ t := h.top.1.1
  have he : t < lkupEnd s.parent s.parent.diBstart.toNat := h.top.1.2.1
  obtain ⟨e, hend⟩ : ∃ e, e = lkupEnd s.parent s.parent.diBstart.toNat := ⟨_, rfl⟩
  have hcount : (t + 1) + (auDbtaildir s.parent + 1 - (t + 1 : Nat)).toNat = e := by
    unfold lkupEnd at he hend
    omega
  rw [← hend] at he
  have hheld := h.held
  have hquiet := h.quiet
  have hremains := remains_iff h
  rw [← hend] at hheld hquiet hremains
  -- the opaque index does not matter
  obtain ⟨d, hd⟩ : ∃ d, d = if isdir then { s.d with diBdiropq := -1 } else s.d := ⟨_, rfl⟩
  have hsame : d.diBstart = t ∧ d.diBwh = s.d.diBwh ∧ ∀ b, d.hDptr b = s.d.hDptr b := by
    rw [hd]
    by_cases hdir : isdir = true
    · rw [if_pos hdir]
      exact ⟨h.start, rfl, fun _ => rfl⟩
    · rw [if_neg hdir]
      exact ⟨h.start, rfl, fun _ => rfl⟩
  obtain ⟨hstart, hbwh, hptr⟩ := hsame
  have hheld' : HeldFrom env.stack s.parent s.name (t + 1) e d :=
    fun b hd hb hlt hget => hheld b hd hb hlt (by rw [← hptr]; exact hget)
  obtain ⟨n, d', hloop, -, hstart'⟩ := @lkupLoop_total _ _ _ _ e (some env.mode) hquiet
    (auDbtaildir s.parent + 1 - (t + 1 : Nat)).toNat (t + 1) ⟨0, decide ((0 : Nat) = 0), 0, d⟩ (by omega) (by omega)
    (by show 0 ≤ d.diBstart; omega) (by show d.diBstart < _; omega) hheld'
  have hstart'' : d'.diBstart = t := hstart'.trans hstart
  refine ⟨n, ?_, ?_⟩
  · unfold lkupBelow
    rw [h.start, Int.toNat_natCast, ← hd]
    unfold auLkupDentry
    rw [if_neg (not_not_intro h.allowed.1), if_neg (Nat.not_lt.mpr h.allowed.2)]
    dsimp only
    rw [hloop]
    dsimp only
    rw [if_neg]
    rintro ⟨-, hneg⟩
    split at hneg
    · have hnn := @updateDbstart_nonneg (d'.diBend + 1 - d'.diBstart).toNat d'.diBstart.toNat d' (by omega)
      unfold auUpdateDbstart at hneg
      omega
    · omega
  · by_cases hwh : 0 ≤ s.d.diBwh
    · rw [lkupLoop_stale hquiet (by omega) hcount hheld' (by show 0 ≤ d.diBwh; omega) rfl hloop]
      constructor
      · rintro ⟨b, hb, hlt, hsome, hno⟩
        rw [hptr] at hsome
        refine ⟨hremains.mpr ⟨b, hb, hlt, ?_⟩, fun hm => hm.2.2 ⟨b, hb, hsome, hno⟩⟩
        obtain ⟨hd', hget⟩ := Option.isSome_iff_exists.mp hsome
        obtain ⟨-, hent, hclear⟩ := hheld b hd' hb hlt hget
        refine ⟨hent, fun b' hb' hle => ?_⟩
        by_cases hbb : b' = b
        · rw [hbb]
          exact hclear
        · exact not_whAt_of_none (hno b' hb' (by omega))
      · rintro ⟨hrem, hm⟩
        obtain ⟨b, hb, hsome, hno⟩ := not_not.mp fun hc => hm ⟨hwh, hrem, hc⟩
        obtain ⟨b₀, hb₀, hlt₀, hent, -⟩ := hremains.mp hrem
        refine ⟨b, hb, ?_, by rw [hptr]; exact hsome, hno⟩
        -- a branch that shows the name has a directory
        by_contra hge
        rw [entryAt_none (hno b₀ hb₀ (by omega))] at hent
        cases hent
    · have hbwh' : d.diBwh = -1 := by
        have := h.bwh
        omega
      rw [lkupLoop_below hquiet (by omega) hcount (by show 0 ≤ d.diBstart; omega)
        (by show d.diBstart < _; omega) hheld' hbwh' rfl rfl hloop, ← hremains]
      exact (and_iff_left fun hm => hwh hm.1).symm

end Second

/-! ## The parent copied up -/

/-- The parent has a new, empty directory on branch `b`. -/
structure CopiedUp (parent parent' : Dinfo) (b : Nat) : Prop where
  free : parent.hDptr b = none
  start : parent'.diBstart = if b < parent.diBstart then (b : Int) else parent.diBstart
  bend : parent'.diBend = if parent.diBend < b then (b : Int) else parent.diBend
  bwh : parent'.diBwh = parent.diBwh
  bdiropq : parent'.diBdiropq = parent.diBdiropq
  slots : ∃ (hd : HDentry) (ino : Nat), hd.inode = some (.mk ino sIfdir [] fun _ => 0) ∧
    parent'.diHdentry = Function.update parent.diHdentry b (some hd)

section Copy

variable {env : CpupEnv} {name : Name}

/-- Errors are negative. -/
theorem auCpupSingle_le {hSrc : HInode} {io io' : List Int} {err : Int} {left : Bool}
    (h : auCpupSingle env hSrc io = some (err, left, io')) : err ≤ 0 := by
  have hio : - EIO ≤ 0 := by decide
  have hentry : ∀ {io io' err left}, cpupEntry env hSrc.mode io = some (err, left, io') → err ≤ 0 := by
    intro io io' err left hc
    unfold cpupEntry at hc
    dsimp only at hc
    have hask := ask_le io
    split at hc
    · split at hc
      · cases hc
        exact hask
      unfold auDoCpupRegular at hc
      dsimp only at hc
      generalize (if env.len = -1 ∨ env.size < env.len then env.size else env.len) = len at hc
      have hc1 : (if len ≠ 0 then ask (ask io).2 else (0, (ask io).2)).1 ≤ 0 := by
        split
        · exact ask_le _
        · exact Int.le_refl 0
      generalize (if len ≠ 0 then ask (ask io).2 else (0, (ask io).2)) = c at hc hc1
      split at hc
      · cases hc
        exact Int.le_refl 0
      split at hc
      · cases hc
      split at hc
      · cases hc
        exact hio
      · cases hc
        exact hc1
    split at hc
    · unfold auDoCpupSymlink at hc
      dsimp only at hc
      split at hc
      · cases hc
        decide
      split at hc
      · rename_i hneg
        cases hc
        omega
      split at hc
      · cases hc
      · cases hc
        exact ask_le _
    split at hc
    · cases hc
      exact hask
    · cases hc
      exact hio
  unfold auCpupSingle at h
  dsimp only at h
  split at h
  · cases h
    exact hio
  split at h
  · split at h
    · cases h
      exact ask_le io
    split at h
    · cases h
      exact hio
    · cases h
      exact ask_le _
  split at h
  · cases h
  rename_i err' left' io₁ hc
  split at h
  · cases h
    exact hentry hc
  split at h
  · cases h
    exact Int.le_refl 0
  split at h
  · cases h
    exact hio
  · cases h
    exact ask_le _

/-- One directory is copied up, or the error is negative. -/
theorem auCpupSimple_ok {b : Nat} {s s' : Named} {err : Int}
    (h : auCpupSimple env name b s = some (err, s')) :
    err ≤ 0 ∧ (err = 0 → s.d.hDptr b = none →
      (∀ c hd dir, s.d.hDptr c = some hd → hd.inode = some dir → dir.mode = sIfdir) →
      CopiedUp s.d s'.d b) := by
  unfold auCpupSimple at h
  split at h
  · cases h
  rename_i bsrc hsrc
  split at h
  · cases h
  rename_i hSrc hread
  obtain ⟨hd, hget, hinode⟩ := Option.bind_eq_some_iff.mp hread
  split at h
  · cases h
  rename_i e d hneg
  dsimp only at h
  rcases auLkupNeg_spec hneg with ⟨he, rfl, -⟩ | ⟨rfl, -, hDentry, -, rfl⟩
  · rw [if_pos (Int.ne_of_lt he)] at h
    cases h
    exact ⟨Int.le_of_lt he, fun h0 => absurd h0 (Int.ne_of_lt he)⟩
  rw [if_neg (not_not_intro rfl)] at h
  split at h
  · cases h
  rename_i err' left io hsingle
  have hle := auCpupSingle_le hsingle
  split at h
  · rename_i h0
    cases h
    refine ⟨Int.le_refl 0, fun _ hfree hdirs => ⟨hfree, rfl, rfl, rfl, rfl, ?_⟩⟩
    have hmode := hdirs bsrc hd hSrc hget hinode
    refine ⟨{ hDentry with inode := some (env.copied hSrc) }, env.newIno, ?_, ?_⟩
    · show some (env.copied hSrc) = _
      unfold CpupEnv.copied
      rw [if_pos hmode, hmode]
    · -- the slot of the target holds the new directory now
      have hrange := bstart_le_of_hDptr (Option.isSome_iff_exists.mpr ⟨hd, hget⟩)
      have hptr := @hDptr_entered s.d b hrange.1 hDentry
      show Function.update (Function.update s.d.diHdentry b (some hDentry)) b _ = _
      rw [hptr, Function.update_idem]
      rfl
  · rename_i h0
    cases h
    exact ⟨hle, fun hc => absurd hc h0⟩

/-- **The parent afterwards**, by induction on the directories above: as it was, or copied up. -/
theorem auCpupDirs_ok {cpup : Nat → CpupEnv} {b : Nat} : ∀ {rest : List (Name × Dinfo)} {name : Name}
    {d : Dinfo} {io io' : List Int} {err : Int} {list : List (Name × Dinfo)},
    auCpupDirs cpup b ((name, d) :: rest) io = some (err, list, io') →
      err ≤ 0 ∧ ∃ d' rest', list = (name, d') :: rest' ∧ (err = 0 →
        (∀ c hd dir, d.hDptr c = some hd → hd.inode = some dir → dir.mode = sIfdir) →
        d' = d ∨ CopiedUp d d' b) := by
  intro rest
  induction rest with
  | nil =>
    intro name d io io' err list h
    rw [auCpupDirs] at h
    cases h
    exact ⟨Int.le_refl 0, d, [], rfl, fun _ _ => Or.inl rfl⟩
  | cons next rest ih =>
    intro name d io io' err list h
    obtain ⟨pname, parent⟩ := next
    unfold auCpupDirs at h
    by_cases hthere : (d.hDptr b).isSome = true
    · rw [if_pos hthere] at h
      cases h
      exact ⟨Int.le_refl 0, d, _, rfl, fun _ _ => Or.inl rfl⟩
    rw [if_neg hthere] at h
    have hfree := Option.not_isSome_iff_eq_none.mp hthere
    split at h
    · cases h
    rename_i err₁ list₁ io₁ hup
    obtain ⟨hle, parent', rest', rfl, -⟩ := ih hup
    dsimp only at h
    split at h
    · rename_i hne
      cases h
      exact ⟨hle, d, _, rfl, fun h0 => absurd h0 hne⟩
    split at h
    · cases h
    · rename_i err₂ s hsimple
      cases h
      obtain ⟨hle₂, hok⟩ := auCpupSimple_ok hsimple
      exact ⟨hle₂, s.d, _, rfl, fun h0 hdirs => Or.inr (hok h0 hfree hdirs)⟩

end Copy

section Up

variable {st : Stack} {parent parent' : Dinfo} {name : Name} {b c : Nat}

/-- Nothing but the new directory is new. -/
theorem CopiedUp.dirAt (h : CopiedUp parent parent' b) (h0 : 0 ≤ parent.diBstart)
    (htidy : ∀ c : Nat, (c : Int) < parent.diBstart → parent.diHdentry c = none) :
    ∃ ino, ∀ c, Aufs.dirAt parent' c = if c = b then some (.mk ino sIfdir [] fun _ => 0)
      else Aufs.dirAt parent c := by
  obtain ⟨hd, ino, hinode, hslots⟩ := h.slots
  have hstart : parent'.diBstart = if (b : Int) < parent.diBstart then (b : Int) else parent.diBstart := h.start
  have hfree := h.free
  refine ⟨ino, fun c => ?_⟩
  by_cases hc : c = b
  · subst hc
    have hptr : parent'.hDptr c = some hd := by
      rw [Dinfo.hDptr, hslots, if_neg (by rw [hstart]; split <;> omega), Function.update_self]
    rw [if_pos rfl, Aufs.dirAt, hptr, Option.bind_some, hinode]
    exact if_pos rfl
  · have hptr : parent'.hDptr c = parent.hDptr c := by
      rw [Dinfo.hDptr, Dinfo.hDptr, hslots, Function.update_of_ne hc]
      by_cases hlt : (c : Int) < parent.diBstart
      · -- above the old start there was nothing
        rw [htidy c hlt, ite_self, ite_self]
      · rw [if_neg (by rw [hstart]; split <;> omega), if_neg (by omega)]
    rw [if_neg hc, Aufs.dirAt, hptr, Aufs.dirAt]

theorem dirAt_of_free (h : parent.hDptr b = none) : dirAt parent b = none := by
  rw [dirAt, h]
  rfl

theorem le_of_dirAt {dir : HInode} (h : dirAt parent c = some dir) :
    0 ≤ parent.diBstart ∧ parent.diBstart.toNat ≤ c := by
  obtain ⟨hd, hptr, -⟩ := dirAt_some h
  have hrange := bstart_le_of_hDptr (Option.isSome_iff_exists.mpr ⟨hd, hptr⟩)
  omega

/-- No branch holds anything else under the name. -/
theorem CopiedUp.same (h : CopiedUp parent parent' b) (h0 : 0 ≤ parent.diBstart)
    (htidy : ∀ c : Nat, (c : Int) < parent.diBstart → parent.diHdentry c = none) :
    (∀ c, entryAt parent' name c = entryAt parent name c) ∧
      ∀ c, WhAt st parent' name c ↔ WhAt st parent name c := by
  obtain ⟨ino, hdir⟩ := h.dirAt h0 htidy
  have hnone := dirAt_of_free h.free
  refine ⟨fun c => ?_, fun c => ?_⟩
  · rw [entryAt, hdir]
    by_cases hc : c = b
    · rw [if_pos hc, hc, entryAt_none hnone]
      rfl
    · rw [if_neg hc, entryAt]
  · rw [WhAt, hdir]
    by_cases hc : c = b
    · rw [if_pos hc, hc]
      refine iff_of_false ?_ (not_whAt_of_none hnone)
      rintro ⟨-, dir, wh, heq, hwh⟩
      obtain rfl := Option.some.inj heq
      cases hwh
    · rw [if_neg hc, WhAt]

theorem Quiet.copiedUp {k e : Nat} (hq : Quiet st parent name parent.diBstart.toNat e)
    (h : CopiedUp parent parent' b) (h0 : 0 ≤ parent.diBstart)
    (htidy : ∀ c : Nat, (c : Int) < parent.diBstart → parent.diHdentry c = none) :
    Quiet st parent' name k e := by
  obtain ⟨ino, hdir⟩ := h.dirAt h0 htidy
  have hent : ∀ c, entryAt parent' name c = entryAt parent name c := (@CopiedUp.same st _ _ name _ h h0 htidy).1
  refine ⟨?_, ?_, ?_⟩
  · intro c dir _ he hd
    rw [hdir] at hd
    by_cases hc : c = b
    · rw [if_pos hc] at hd
      obtain rfl := Option.some.inj hd
      rfl
    · rw [if_neg hc] at hd
      exact hq.entry c dir (le_of_dirAt hd).2 he hd
  · intro c dir _ he hable hd
    rw [hdir] at hd
    by_cases hc : c = b
    · rw [if_pos hc] at hd
      obtain rfl := Option.some.inj hd
      exact ⟨rfl, fun wh hwh => by cases hwh⟩
    · rw [if_neg hc] at hd
      exact hq.wh c dir (le_of_dirAt hd).2 he hable hd
  · intro c hInode _ he hable hc hmode
    rw [hent] at hc
    obtain ⟨dir, hd, -⟩ := Option.bind_eq_some_iff.mp hc
    exact hq.opq c hInode (le_of_dirAt hd).2 he hable hc hmode

theorem CopiedUp.shown (h : CopiedUp parent parent' b) (h0 : 0 ≤ parent.diBstart)
    (htidy : ∀ c : Nat, (c : Int) < parent.diBstart → parent.diHdentry c = none) (e : Nat) :
    Shown st parent' name parent'.diBstart.toNat e c ↔ Shown st parent name parent.diBstart.toNat e c := by
  obtain ⟨hent, hwh⟩ := @CopiedUp.same st _ _ name _ h h0 htidy
  have hstart : parent'.diBstart ≤ parent.diBstart := by
    rw [h.start]
    split <;> omega
  unfold Shown
  simp only [hent, hwh]
  constructor
  · rintro ⟨-, he, hsome, hclean⟩
    obtain ⟨v, hv⟩ := Option.isSome_iff_exists.mp hsome
    obtain ⟨dir, hd, -⟩ := Option.bind_eq_some_iff.mp hv
    exact ⟨(le_of_dirAt hd).2, he, hsome, fun b' hb' hle => hclean b' (by omega) hle⟩
  · rintro ⟨hk, he, hsome, hclean⟩
    refine ⟨by omega, he, hsome, ?_⟩
    intro b' _ hle hw
    obtain ⟨-, dir, -, hd, -⟩ := id hw
    exact hclean b' (le_of_dirAt hd).2 hle hw

theorem auDbtaildir_le {d : Dinfo} : auDbtaildir d ≤ d.diBend := by
  have htail : auDbtail d ≤ d.diBend := by
    unfold auDbtail
    split
    · split
      · omega
      · split <;> omega
    · exact Int.le_refl _
  unfold auDbtaildir
  dsimp only
  split <;> omega

theorem CopiedUp.lkupEnd (h : CopiedUp parent parent' b) {t : Nat} (hb : b < t)
    (ht : t < Aufs.lkupEnd parent parent.diBstart.toNat) (hs : parent.diBstart.toNat ≤ t) :
    Aufs.lkupEnd parent' parent'.diBstart.toNat = Aufs.lkupEnd parent parent.diBstart.toNat := by
  have hle := @auDbtaildir_le parent
  have hstart : parent'.diBstart ≤ parent.diBstart := by
    rw [h.start]
    split <;> omega
  have hbend : parent'.diBend = parent.diBend := by
    rw [h.bend, if_neg]
    unfold Aufs.lkupEnd at ht
    omega
  have htail : auDbtaildir parent' = auDbtaildir parent := by
    unfold auDbtaildir auDbtail
    rw [hbend, h.bwh, h.bdiropq]
  unfold Aufs.lkupEnd at ht ⊢
  rw [htail]
  omega

end Up

/-! ## The whiteout made -/

/-- What is shown once there is a whiteout: if it counts, nothing from its branch on. -/
theorem shown_whites {st : Stack} {parent : Dinfo} {name : Name} {b k e c : Nat} {dir : HInode}
    {f : List (Name × HInode) → List (Name × HInode)} (hf : Whites name f) (hdir : dirAt parent b = some dir)
    (hmade : (f dir.entries).lookup (whPfx ++ name) ≠ none) (hk : k ≤ b) :
    Shown st (parent.changeDir b f) name k e c ↔
      Shown st parent name k e c ∧ ¬ (auBrWhable (st.brPerm b) = true ∧ b ≤ c) := by
  have hent : entryAt (parent.changeDir b f) name c = entryAt parent name c := by
    rw [entryAt_changeDir]
    by_cases hc : c = b
    · rw [if_pos hc, hdir, hc, entryAt_eq hdir, Option.bind_some, hf.entry]
      rfl
    · rw [if_neg hc]
  have hwh : ∀ c, WhAt st (parent.changeDir b f) name c ↔
      WhAt st parent name c ∨ (c = b ∧ auBrWhable (st.brPerm b) = true) := by
    intro c
    rw [whAt_changeDir]
    by_cases hc : c = b
    · rw [if_pos hc, hc]
      obtain ⟨wh, hwh⟩ := Option.ne_none_iff_exists'.mp hmade
      constructor
      · exact fun h => Or.inr ⟨rfl, h.1⟩
      · rintro (h | ⟨-, h⟩)
        · exact ⟨h.1, dir, wh, hdir, hwh⟩
        · exact ⟨h, dir, wh, hdir, hwh⟩
    · rw [if_neg hc]
      exact (or_iff_left fun h => hc h.1).symm
  unfold Shown
  rw [hent]
  constructor
  · rintro ⟨hs, he, hsome, hclean⟩
    refine ⟨⟨hs, he, hsome, fun b' hb' hle hw => hclean b' hb' hle ((hwh b').mpr (Or.inl hw))⟩, ?_⟩
    rintro ⟨hable, hle⟩
    exact hclean b hk hle ((hwh b).mpr (Or.inr ⟨rfl, hable⟩))
  · rintro ⟨⟨hs, he, hsome, hclean⟩, hno⟩
    refine ⟨hs, he, hsome, fun b' hb' hle hw => ?_⟩
    rcases (hwh b').mp hw with hw | ⟨rfl, hable⟩
    · exact hclean b' hb' hle hw
    · exact hno ⟨hable, hle⟩

section Made

variable {env : RmEnv} {isdir : Bool} {s s₁ s₂ : RmState}

theorem auWhCreate_ok {b : Nat} {hParent : HDentry} {created : Bool}
    (h : auWhCreate env b hParent s = some (.ok created, s₁)) (hptr : s.parent.hDptr b = some hParent) :
    ∃ dir f, hParent.inode = some dir ∧ Whites s.name f ∧ (f dir.entries).lookup (whPfx ++ s.name) ≠ none ∧
      s₁.parent = s.parent.changeDir b f ∧ s₁.name = s.name := by
  unfold auWhCreate at h
  cases hi : hParent.inode with
  | none =>
    rw [hi] at h
    cases h
  | some dir =>
    rw [hi] at h
    dsimp only at h
    split at h
    · cases h
    cases hl : auLkupOne (whPfx ++ s.name) hParent dir with
    | error e =>
      rw [hl] at h
      cases h
    | ok wh =>
      rw [hl] at h
      dsimp only at h
      split at h
      · -- it is there already
        rename_i hsome
        cases h
        refine ⟨dir, id, rfl, whites_id s.name, ?_, (changeDir_eq_self hptr hi rfl).symm, rfl⟩
        unfold auLkupOne at hl
        split at hl
        · cases hl
        · cases hl
          exact Option.isSome_iff_ne_none.mp hsome
      · split at h
        · cases h
        · cases h
          refine ⟨dir, _, rfl, whites_cons s.name, ?_, rfl, rfl⟩
          show List.lookup (whPfx ++ s.name) ((whPfx ++ s.name, newFile) :: dir.entries) ≠ none
          rw [List.lookup_cons_self]
          exact Option.some_ne_none _

/-- **The whiteout is made** on the branch chosen iff the decision says so. -/
theorem lockHdirCreateWh_ok {wh : Option Bool} {b : Int}
    (h : lockHdirCreateWh env isdir s = some (.ok wh, b, s₁)) :
    ∃ n s', auWrDirNeedWh env isdir (-1) s = some (n, b, s') ∧ 0 ≤ n ∧ s₁.name = s'.name ∧
      ((n = 0 ∧ s₁.parent = s'.parent) ∨ (n ≠ 0 ∧ ∃ hParent dir f, s'.parent.hDptr b.toNat = some hParent ∧
        hParent.inode = some dir ∧ Whites s'.name f ∧ (f dir.entries).lookup (whPfx ++ s'.name) ≠ none ∧
        s₁.parent = s'.parent.changeDir b.toNat f)) := by
  unfold lockHdirCreateWh at h
  dsimp only at h
  cases hneed : auWrDirNeedWh env isdir (-1) s with
  | none =>
    rw [hneed] at h
    cases h
  | some r =>
    obtain ⟨n, b', s'⟩ := r
    rw [hneed] at h
    dsimp only at h
    split at h
    · cases h
    rename_i hn
    split at h
    · cases h
    split at h
    · cases h
    rename_i hParent hptr
    split at h
    · cases h
    split at h
    · cases h
    split at h
    · rename_i h0
      cases h
      exact ⟨n, s', rfl, by omega, rfl, Or.inl ⟨h0, rfl⟩⟩
    rename_i h0
    split at h
    · cases h
    · cases h
    · rename_i created s'' hwh
      cases h
      obtain ⟨dir, f, hinode, hf, hmade, hparent, hname⟩ := auWhCreate_ok hwh hptr
      exact ⟨n, s', rfl, by omega, hname, Or.inr ⟨h0, hParent, dir, f, hptr, hinode, hf, hmade, hparent⟩⟩

/-- **The decision**: the branch, the parent then, and when a whiteout is necessary. -/
theorem auWrDirNeedWh_spec {t : Nat} {n b : Int} (hcur : Current env s t)
    (h : auWrDirNeedWh env isdir (-1) s = some (n, b, s₁)) (hn : 0 ≤ n) :
    rmTarget env s.d s.parent = some b ∧ 0 ≤ b ∧ s₁.name = s.name ∧
      ((b = t ∧ s₁.parent = s.parent ∧ (0 < n ↔ Remains env s t ∧ ¬ Misses env s t)) ∨
        (b ≠ t ∧ 0 < n ∧ (s₁.parent = s.parent ∨ CopiedUp s.parent s₁.parent b.toNat))) := by
  unfold auWrDirNeedWh at h
  rw [if_pos (show (-1 : Int) < 0 by decide)] at h
  dsimp only at h
  rw [hcur.start] at h
  cases htarget : rmTarget env s.d s.parent with
  | none =>
    rw [htarget] at h
    cases h
  | some b' =>
    rw [htarget] at h
    dsimp only at h
    split at h
    · cases h
      omega
    rename_i h0
    split at h
    · rename_i hne
      -- another branch: the parent's directories are copied up
      split at h
      · rename_i hup
        cases h
        obtain ⟨hle, d', rest', heq, hok⟩ := auCpupDirs_ok hup
        obtain ⟨⟨-, rfl⟩, -⟩ := (List.cons.inj heq).imp_left Prod.mk.inj
        split at hn
        · omega
        rename_i hzero
        rw [not_not] at hzero
        refine ⟨rfl, by omega, rfl, Or.inr ⟨hne, ?_, hok hzero hcur.dirs⟩⟩
        rw [if_neg (not_not_intro hzero)]
        decide
      · cases h
    · rename_i heq
      rw [not_not] at heq
      obtain ⟨m, hm, hiff⟩ := lkupBelow_iff hcur isdir
      rw [hm] at h
      dsimp only at h
      cases h
      refine ⟨by rw [heq], by omega, rfl, Or.inl ⟨heq, rfl, ?_⟩⟩
      rw [← hiff]
      omega

theorem lockHdirCreateWh_error {b err : Int} (h : lockHdirCreateWh env isdir s = some (.error err, b, s₁)) :
    err ≠ 0 := by
  unfold lockHdirCreateWh at h
  dsimp only at h
  split at h
  · cases h
  split at h
  · rename_i hneg
    cases h
    exact Int.ne_of_lt hneg
  split at h
  · rename_i hpin
    cases h
    exact hpin
  split at h
  · cases h
  rename_i hParent _
  split at h
  · cases h
  split at h
  · rename_i herr
    cases h
    exact herr
  split at h
  · cases h
  split at h
  · cases h
  · rename_i hwh
    cases h
    unfold auWhCreate at hwh
    dsimp only at hwh
    split at hwh
    · cases hwh
    split at hwh
    · cases hwh
      decide
    split at hwh
    · rename_i hl
      cases hwh
      unfold auLkupOne at hl
      split at hl
      · rename_i hne
        cases hl
        exact hne
      · cases hl
    split at hwh
    · cases hwh
    split at hwh
    · rename_i hne
      cases hwh
      exact hne
    · cases hwh
  · cases h

/-! ## The removal -/

/-- A removal that succeeds: what was done to the parent's directories. -/
theorem auRemove_ok (h : auRemove env isdir s = some (0, s₁)) :
    ∃ wh b s', lockHdirCreateWh env isdir s = some (.ok wh, b, s') ∧ s₁.name = s'.name ∧
      ((b = s.d.diBstart ∧ ∃ f, Drops s'.name f ∧ s₁.parent = s'.parent.changeDir b.toNat f) ∨
        (b ≠ s.d.diBstart ∧ s₁.parent = s'.parent)) := by
  have hepilog : ∀ s : RmState, (epilog env s).parent = s.parent ∧ (epilog env s).name = s.name := by
    intro s
    unfold epilog
    split <;> exact ⟨rfl, rfl⟩
  unfold auRemove at h
  dsimp only at h
  split at h
  · cases h
  · rename_i err b s' hlock
    exact absurd (Prod.mk.inj (Option.some.inj h)).1 (lockHdirCreateWh_error hlock)
  rename_i wh b s' hlock
  refine ⟨wh, b, s', hlock, ?_⟩
  split at h
  · cases h
  rename_i err s'' hremoved
  split at h
  · rename_i h0
    subst h0
    have hs₁ := (Prod.mk.inj (Option.some.inj h)).2
    -- neither the marks of the dentry nor its hidden dentries are the parent's
    have hlast : s₁.parent = s''.parent ∧ s₁.name = s''.name := by
      rw [← hs₁]
      obtain ⟨hp, hn⟩ := hepilog (if isdir = true then { s'' with d := { s''.d with diBdiropq := -1 } } else s'')
      rw [hp, hn]
      split <;> exact ⟨rfl, rfl⟩
    rw [hlast.1, hlast.2]
    split at hremoved
    · rename_i hown
      obtain ⟨f, hf, hparent, hname⟩ := removeHidden_ok hremoved
      rw [← hown] at hparent
      exact ⟨hname, Or.inl ⟨hown, f, hf, hparent⟩⟩
    · rename_i hother
      cases hremoved
      exact ⟨rfl, Or.inr ⟨hother, rfl⟩⟩
  · rename_i hne
    split at h
    · unfold revertWh at h
      split at h
      · cases h
      · rename_i rerr _ _
        have hzero := (Prod.mk.inj (Option.some.inj h)).1
        split at hzero
        · rename_i hr
          exact absurd hzero hr
        · exact absurd hzero hne
    · exact absurd (Prod.mk.inj (Option.some.inj h)).1 hne

theorem dirAt_of_hDptr {parent : Dinfo} {b : Nat} {hParent : HDentry} {dir : HInode}
    (hptr : parent.hDptr b = some hParent) (hinode : hParent.inode = some dir) :
    dirAt parent b = if dir.mode = sIfdir then some dir else none := by
  rw [dirAt, hptr, Option.bind_some, hinode]

section After

variable {t b : Nat} {f g : List (Name × HInode) → List (Name × HInode)}

theorem found_drops (hcur : Current env s t) (hf : Drops s.name f) :
    FoundAnew env (s.parent.changeDir t f) s.name ↔ Remains env s t := by
  rw [remains_iff hcur, shownFrom_below hcur.top]
  exact (foundAnew_iff (hcur.quiet.changeDir hf.changes) hcur.allowed).trans
    (exists_congr fun b => shown_drops hf)

/-- The entry's own branch, with a whiteout. -/
theorem found_whites_drops (hcur : Current env s t) (hg : Whites s.name g) (hf : Drops s.name f)
    {dir : HInode} (hdir : dirAt s.parent t = some dir)
    (hmade : (g dir.entries).lookup (whPfx ++ s.name) ≠ none) :
    FoundAnew env ((s.parent.changeDir t g).changeDir t f) s.name ↔
      Remains env s t ∧ ¬ auBrWhable (env.stack.brPerm t) = true := by
  have hs : s.parent.diBstart.toNat ≤ t := hcur.top.1.1
  rw [remains_iff hcur, shownFrom_below hcur.top]
  refine (foundAnew_iff ((hcur.quiet.changeDir hg.changes).changeDir hf.changes) hcur.allowed).trans ?_
  have hshown : ∀ c, Shown env.stack ((s.parent.changeDir t g).changeDir t f) s.name
      s.parent.diBstart.toNat (lkupEnd s.parent s.parent.diBstart.toNat) c ↔
      c ≠ t ∧ Shown env.stack s.parent s.name s.parent.diBstart.toNat
        (lkupEnd s.parent s.parent.diBstart.toNat) c ∧
        ¬ (auBrWhable (env.stack.brPerm t) = true ∧ t ≤ c) := fun c =>
    (shown_drops hf).trans (and_congr_right fun _ => shown_whites hg hdir hmade hs)
  constructor
  · rintro ⟨c, hc⟩
    obtain ⟨hne, hc, hno⟩ := (hshown c).mp hc
    exact ⟨⟨c, hne, hc⟩, fun hable => hno ⟨hable, hcur.top.2 hc⟩⟩
  · rintro ⟨⟨c, hne, hc⟩, hno⟩
    exact ⟨c, (hshown c).mpr ⟨hne, hc, fun h => hno h.1⟩⟩

/-- A branch above the entry, with a whiteout. -/
theorem found_up (hcur : Current env s t) (hb : b < t) {parent : Dinfo}
    (hparent : parent = s.parent ∨ CopiedUp s.parent parent b) (hg : Whites s.name g) {hParent : HDentry}
    {dir : HInode} (hptr : parent.hDptr b = some hParent) (hinode : hParent.inode = some dir)
    (hmade : (g dir.entries).lookup (whPfx ++ s.name) ≠ none) :
    FoundAnew env (parent.changeDir b g) s.name ↔ ¬ auBrWhable (env.stack.brPerm b) = true := by
  -- what is known of the parent before the whiteout
  have hbefore : dirAt parent b = some dir ∧
      lkupEnd parent parent.diBstart.toNat = lkupEnd s.parent s.parent.diBstart.toNat ∧
      Quiet env.stack parent s.name parent.diBstart.toNat (lkupEnd s.parent s.parent.diBstart.toNat) ∧
      ∀ c, Shown env.stack parent s.name parent.diBstart.toNat
          (lkupEnd s.parent s.parent.diBstart.toNat) c ↔
        Shown env.stack s.parent s.name s.parent.diBstart.toNat
          (lkupEnd s.parent s.parent.diBstart.toNat) c := by
    rw [dirAt_of_hDptr hptr hinode]
    rcases hparent with rfl | hup
    · exact ⟨if_pos (hcur.dirs b hParent dir hptr hinode), rfl, hcur.quiet, fun _ => Iff.rfl⟩
    · refine ⟨?_, hup.lkupEnd hb hcur.top.1.2.1 hcur.top.1.1,
        hcur.quiet.copiedUp hup hcur.parent hcur.tidy, fun c => hup.shown hcur.parent hcur.tidy _⟩
      obtain ⟨ino, hdir⟩ := hup.dirAt hcur.parent hcur.tidy
      have hnew := hdir b
      rw [if_pos rfl, dirAt_of_hDptr hptr hinode] at hnew
      split at hnew
      · rename_i hmode
        exact if_pos hmode
      · cases hnew
  obtain ⟨hdir, hend, hquiet, hshown⟩ := hbefore
  rw [← hend] at hquiet hshown
  have hs : parent.diBstart.toNat ≤ b := (le_of_dirAt hdir).2
  refine (foundAnew_iff (hquiet.changeDir hg.changes) hcur.allowed).trans ?_
  constructor
  · rintro ⟨c, hc⟩ hable
    obtain ⟨hc, hno⟩ := (shown_whites hg hdir hmade hs).mp hc
    have hle : t ≤ c := hcur.top.2 (hend ▸ (hshown c).mp hc)
    exact hno ⟨hable, by omega⟩
  · intro hno
    refine ⟨t, (shown_whites hg hdir hmade hs).mpr ⟨(hshown t).mpr ?_, fun h => hno h.1⟩⟩
    rw [hend]
    exact hcur.top.1

end After

/-- **Whether the name is found again** after it was removed. -/
theorem auRemove_found_iff {t : Nat} (hcur : Current env s t) (h : auRemove env isdir s = some (0, s₁)) :
    ¬ FoundAnew env s₁.parent s₁.name ↔ ∃ b : Nat, rmTarget env s.d s.parent = some (b : Int) ∧
      ((b = t ∧ ¬ Remains env s t) ∨
        (auBrWhable (env.stack.brPerm b) = true ∧ ¬ (b = t ∧ Misses env s t))) := by
  obtain ⟨wh, b, s', hlock, hname₁, hlast⟩ := auRemove_ok h
  obtain ⟨n, s'', hneed, hn, hname', hmade⟩ := lockHdirCreateWh_ok hlock
  obtain ⟨htarget, h0, hname'', hwhere⟩ := auWrDirNeedWh_spec hcur hneed hn
  obtain ⟨b, rfl⟩ := Int.eq_ofNat_of_zero_le h0
  rw [Int.toNat_natCast] at hlast hmade
  rw [hname''] at hname' hmade
  rw [hname'] at hname₁ hlast
  rw [hcur.start] at hlast
  have hexists : (∃ b' : Nat, rmTarget env s.d s.parent = some (b' : Int) ∧ ((b' = t ∧ ¬ Remains env s t) ∨
      (auBrWhable (env.stack.brPerm b') = true ∧ ¬ (b' = t ∧ Misses env s t)))) ↔
      ((b = t ∧ ¬ Remains env s t) ∨ (auBrWhable (env.stack.brPerm b) = true ∧ ¬ (b = t ∧ Misses env s t))) := by
    rw [htarget]
    constructor
    · rintro ⟨b', hb', hor⟩
      obtain rfl : b = b' := by
        have := Option.some.inj hb'
        omega
      exact hor
    · exact fun hor => ⟨b, rfl, hor⟩
  rw [hexists, hname₁]
  rcases hwhere with ⟨hbt, hparent, hiff⟩ | ⟨hbt, hpos, hparent⟩
  · -- the entry's own branch
    obtain rfl : b = t := by omega
    rcases hlast with ⟨-, f, hf, hlast⟩ | ⟨hne, -⟩
    swap
    · exact absurd rfl hne
    rcases hmade with ⟨rfl, hmade⟩ | ⟨hne, hParent, dir, g, hptr, hinode, hg, hmade, hp⟩
    · rw [hlast, hmade, hparent, found_drops hcur hf]
      have hnot : ¬ (Remains env s b ∧ ¬ Misses env s b) := fun hc => absurd (hiff.mpr hc) (by decide)
      constructor
      · exact fun h => Or.inl ⟨rfl, h⟩
      · rintro (⟨-, h⟩ | ⟨-, hm⟩) hr
        · exact h hr
        · exact hnot ⟨hr, fun hmiss => hm ⟨rfl, hmiss⟩⟩
    · rw [hparent] at hptr hp
      obtain ⟨hr, hm⟩ := hiff.mp (by omega)
      have hdir : dirAt s.parent b = some dir := by
        rw [dirAt_of_hDptr hptr hinode, if_pos (hcur.dirs b hParent dir hptr hinode)]
      rw [hlast, hp, found_whites_drops hcur hg hf hdir hmade]
      constructor
      · intro h
        exact Or.inr ⟨not_not.mp fun hno => h ⟨hr, hno⟩, fun hc => hm hc.2⟩
      · rintro (⟨-, h⟩ | ⟨hable, -⟩) hc
        · exact h hc.1
        · exact hc.2 hable
  · -- a branch above it
    have hle := rmTarget_le hcur.start (by have := hcur.top.1.1; omega) htarget
    have hlt : b < t := by omega
    rcases hlast with ⟨heq, -⟩ | ⟨-, hlast⟩
    · exact absurd heq hbt
    rcases hmade with ⟨rfl, -⟩ | ⟨-, hParent, dir, g, hptr, hinode, hg, hmade, hp⟩
    · exact absurd hpos (by decide)
    rw [hlast, hp, found_up hcur hlt hparent hg hptr hinode hmade, not_not]
    constructor
    · exact fun hable => Or.inr ⟨hable, fun hc => by omega⟩
    · rintro (⟨hc, -⟩ | ⟨hable, -⟩)
      · omega
      · exact hable

/-- Requests to the lower file systems do not matter. -/
theorem Current.io {t : Nat} (h : Current env s t) (io : List Int) : Current env { s with io := io } t :=
  ⟨h.start, h.parent, h.dirs, h.tidy, h.quiet, h.allowed, h.top, h.bwh, h.held⟩

end Made

/-- **The whiteout** is decided rightly iff it is not for a name of the entry's own branch that the second
    lookup misses; and a removed name is not found again iff nothing remained of it, or whiteouts count on
    the branch written to and it was decided rightly. -/
theorem whiteout_decision_iff {env : RmEnv} {s : RmState} {t : Nat} (h : Current env s t) :
    (∀ isdir n b s', auWrDirNeedWh env isdir (-1) s = some (n, b, s') → 0 ≤ n →
      ((0 < n ↔ b ≠ t ∨ Remains env s t) ↔ ¬ (b = t ∧ Misses env s t))) ∧
    (∀ s', aufsUnlink env s = some (0, s') ∨ aufsRmdir env s = some (0, s') →
      (¬ FoundAnew env s'.parent s'.name ↔ ∃ b : Nat, rmTarget env s.d s.parent = some (b : Int) ∧
        ((b = t ∧ ¬ Remains env s t) ∨
          (auBrWhable (env.stack.brPerm b) = true ∧ ¬ (b = t ∧ Misses env s t))))) := by
  constructor
  · intro isdir n b s' hneed hn
    obtain ⟨-, -, -, hwhere⟩ := auWrDirNeedWh_spec h hneed hn
    rcases hwhere with ⟨hbt, -, hiff⟩ | ⟨hbt, hpos, -⟩
    · rw [hiff, or_iff_right (not_not_intro hbt), and_iff_right hbt]
      constructor
      · intro heq hm
        exact (heq.mpr hm.2.1).2 hm
      · exact fun hm => and_iff_left hm
    · exact iff_of_true (iff_of_true hpos (Or.inl hbt)) fun hc => hbt hc.1
  · intro s' hor
    rcases hor with hunlink | hrmdir
    · exact auRemove_found_iff h hunlink
    · unfold aufsRmdir at hrmdir
      dsimp only at hrmdir
      split at hrmdir
      · cases hrmdir
      split at hrmdir
      · cases hrmdir
      split at hrmdir
      · rename_i hne
        exact absurd (Prod.mk.inj (Option.some.inj hrmdir)).1 hne
      · have hfound := auRemove_found_iff (h.io (ask (ask s.io).2).2) hrmdir
        exact hfound

/-! ## A directory under a gap, and a branch without links -/

/-- The directory `x`. -/
def emptyDir : HInode := .mk 5 sIfdir [] fun _ => 0

/-- What the four branches hold: `x`, nothing, `x` again, and the whiteout of `x`. -/
def gapEntries (b : Nat) : List (Name × HInode) :=
  if b = 0 ∨ b = 2 then [([120], emptyDir)] else if b = 3 then [(whPfx ++ [120], newFile)] else []

/-- The roots of the branches. -/
def gapRoots : Dinfo :=
  ⟨0, 3, -1, -1, fun b => some ⟨b, [], some (.mk 2 sIfdir (gapEntries b) fun _ => 0)⟩⟩

/-- The first branch is writable, and whiteouts count on the last. -/
def gapUnion : RmEnv :=
  { rwOverRo with
    mode := sIfdir
    union := { unmounted with
      siBend := 3
      siBranch := [some ⟨1, .rw, ⟨1, 0⟩, some 0⟩, some ⟨2, .ro, ⟨2, 0⟩, none⟩, some ⟨3, .ro, ⟨3, 0⟩, none⟩,
        some ⟨4, .roWh, ⟨4, 0⟩, none⟩] } }

/-- `x` has been looked up. -/
def gapState : RmState where
  name := [120]
  d := (auLkupDentry gapUnion.stack gapRoots none [120] 0 0 .alloc).2
  parentName := []
  parent := gapRoots
  above := []
  io := []
  cnt := 0

theorem gapRoots_hDptr (b : Nat) :
    gapRoots.hDptr b = some ⟨b, [], some (.mk 2 sIfdir (gapEntries b) fun _ => 0)⟩ := by
  rw [gapRoots, Dinfo.hDptr, if_neg (by dsimp only; omega)]

theorem gapRoots_dirAt (b : Nat) : dirAt gapRoots b = some (.mk 2 sIfdir (gapEntries b) fun _ => 0) := by
  rw [dirAt, gapRoots_hDptr]
  rfl

theorem gapState_current : Current gapUnion gapState 0 := by
  have hfind : ∀ b v, (gapEntries b).lookup [120] = some v → v = emptyDir := by
    intro b v h
    unfold gapEntries at h
    split at h
    · exact (Option.some.inj h).symm
    split at h
    · cases h
    · cases h
  have hwh : ∀ b v, (gapEntries b).lookup (whPfx ++ [120]) = some v → v = newFile := by
    intro b v h
    unfold gapEntries at h
    split at h
    · cases h
    split at h
    · exact (Option.some.inj h).symm
    · cases h
  refine current_of_lookup (Int.le_refl 0) ?_ ?_ ⟨?_, ?_, ?_⟩ ⟨rfl, by decide⟩ ⟨⟨Nat.le_refl 0, by decide,
    rfl, ?_⟩, fun b _ => Nat.zero_le b⟩ rfl
  · intro b hd dir hptr hinode
    rw [← Option.some.inj ((gapRoots_hDptr b).symm.trans hptr)] at hinode
    rw [← Option.some.inj hinode]
    rfl
  · intro b hlt
    exact absurd (show (b : Int) < 0 from hlt) (by omega)
  · intro b dir _ _ hd
    rw [show dirAt gapState.parent b = _ from gapRoots_dirAt b] at hd
    rw [← Option.some.inj hd]
    rfl
  · intro b dir _ _ _ hd
    rw [show dirAt gapState.parent b = _ from gapRoots_dirAt b] at hd
    rw [← Option.some.inj hd]
    exact ⟨rfl, fun wh h => by rw [hwh b wh h]; rfl⟩
  · intro b hInode _ _ _ hent _
    rw [entryAt, show dirAt gapState.parent b = _ from gapRoots_dirAt b, Option.bind_some] at hent
    rw [hfind b hInode hent]
    exact ⟨rfl, fun opq h => by cases h⟩
  · intro b _ hle hw
    obtain rfl : b = 0 := by omega
    obtain ⟨-, dir, wh, hd, h⟩ := hw
    rw [show dirAt gapState.parent 0 = _ from gapRoots_dirAt 0] at hd
    rw [← Option.some.inj hd] at h
    cases h

/-- The removed directory is found again, in the one case that is left out. -/
theorem gapState_decision : ∃ s', aufsRmdir gapUnion gapState = some (0, s') ∧
    (¬ FoundAnew gapUnion s'.parent s'.name ↔
      ∃ b : Nat, rmTarget gapUnion gapState.d gapState.parent = some (b : Int) ∧
        ((b = 0 ∧ ¬ Remains gapUnion gapState 0) ∨
          (auBrWhable (gapUnion.stack.brPerm b) = true ∧ ¬ (b = 0 ∧ Misses gapUnion gapState 0)))) :=
  ⟨_, rfl, (whiteout_decision_iff gapState_current).2 _ (Or.inr rfl)⟩

/-- A writable branch on which whiteouts do not count. -/
def nolwhOverRo : RmEnv :=
  { rwOverRo with
    union := { unmounted with
      siBend := 1
      siBranch := [some ⟨1, .rwNoLinkWh, ⟨1, 0⟩, some 0⟩, some ⟨2, .ro, ⟨2, 0⟩, none⟩] } }

/-- **The directory comes back** from the third branch, as no whiteout was made for it; and the file comes
    back from the second one, as its whiteout does not count. -/
theorem removed_is_back :
    (∃ s₁, auWrDirNeedWh gapUnion true (-1) gapState = some (0, 0, s₁) ∧ Remains gapUnion gapState 0) ∧
    (∃ s₁, aufsRmdir gapUnion gapState = some (0, s₁) ∧ FoundAnew gapUnion s₁.parent s₁.name) ∧
    ∃ s₁, aufsUnlink nolwhOverRo { fileOnBoth with io := [] } = some (0, s₁) ∧
      FoundAnew nolwhOverRo s₁.parent s₁.name :=
  ⟨⟨_, rfl, 1, by decide, rfl⟩, ⟨_, rfl, 1, by decide, rfl⟩, _, rfl, 1, by decide, rfl⟩

end KernelPatches.Aufs
