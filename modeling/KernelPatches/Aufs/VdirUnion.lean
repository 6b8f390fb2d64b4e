/-
  aufs: the listing of a directory is the union of its branches.

  `Listed E n` says what the listing is for: some branch has the name, and no branch above it has a
  whiteout of the name; names that are whiteouts are not listed.  `E b` are the entries branch `b`
  delivers.

  `fillvdir` works with lists of the names listed and the names whited out, and looks for a name in the
  lists of the branches above only.  A name the list of names lacks although a branch above has it was
  itself hidden there, so that looking in the lists is as good as looking in the branches: this is what
  `Progress` keeps, entry by entry (`Progress.step`), chunk by chunk, branch by branch.

  * `auIno_ok`             — a number `au_ino` gives is in the xino file, and the others stay there;
  * `auDoReadVdir_union`   — the listing is the union, each name once.
-/
import KernelPatches.Aufs.Readdir
import KernelPatches.Aufs.VdirFill
import KernelPatches.Aufs.InodeNumbers

namespace KernelPatches.Aufs

open KernelPatches.Lib

variable {A : Arch}

/-! ## Inode numbers, whatever the lower file systems answer -/

section Ino

variable {s s' : Sbinfo} {b h ino : Nat}

theorem xibSearch_tables {cond : Nat → Bool} {next : Nat → Nat} :
    ∀ {fuel ul : Nat} {s : Sbinfo}, SameTables s (xibSearch cond next fuel ul s).2 := by
  intro fuel
  induction fuel with
  | zero => intro ul s; exact SameTables.refl s
  | succ fuel ih =>
    intro ul s
    rw [xibSearch]
    have hp := xibPindex_tables (p := ul) (s := s)
    dsimp only
    split
    · split
      · exact hp
      · split
        · exact hp
        · exact hp.trans ih
    · exact SameTables.refl s

theorem xibFindFree_tables {r : Search} (hr : xibFindFree A s = .ok (r, s')) : SameTables s s' := by
  rw [xibFindFree] at hr
  dsimp only at hr
  split at hr
  · cases hr
  · cases hr
    exact SameTables.refl _
  · split at hr
    · cases hr
      exact SameTables.refl _
    · split at hr
      · have hs' : (xibSearchUp A s.siXibLastPindex (xibSearchDown A s.siXibLastPindex s).2).2 = s' :=
          congrArg Prod.snd (Except.ok.inj hr)
        rw [← hs']
        exact SameTables.trans xibSearch_tables xibSearch_tables
      · have hs' : (xibSearchDown A s.siXibLastPindex s).2 = s' := congrArg Prod.snd (Except.ok.inj hr)
        rw [← hs']
        exact xibSearch_tables

/-- A new number, from the bitmap. -/
theorem auXinoNewIno_tables (hx : s.xino = true) (hr : auXinoNewIno A s = .ok (ino, s')) :
    SameTables s s' ∧ ino < 2 ^ A.bitsPerLong := by
  rw [auXinoNewIno, hx] at hr
  simp only [Bool.not_true, Bool.false_eq_true, if_false] at hr
  split at hr
  · cases hr
  · case h_2 hfind =>
    cases hr
    have ht := xibFindFree_tables hfind
    exact ⟨⟨ht.xino, ht.siBend, ht.siBranch, ht.xinoFiles, ht.uniq, ht.io⟩,
      Nat.mod_lt _ (Nat.two_pow_pos _)⟩
  · case h_3 hfind =>
    cases hr
    exact ⟨xibFindFree_tables hfind, Nat.two_pow_pos _⟩
  · cases hr

/-- What is read is the entry. -/
theorem auXinoRead_ok (hx : s.xino = true) (hr : (auXinoRead A b h s).1 = 0) :
    (auXinoRead A b h s).2.1 = xinoEntry A s b h ∧ ∃ io, (auXinoRead A b h s).2.2 = { s with io := io } := by
  have hoff : ¬ (!s.xino) = true := by rw [hx]; decide
  rw [auXinoRead, if_neg hoff] at hr ⊢
  by_cases hh : loffMax / inoSize A - 1 < h
  · rw [if_pos hh] at hr
    exact absurd hr (show (-EFBIG : Int) ≠ 0 by decide)
  rw [if_neg hh] at hr ⊢
  by_cases hsz : (s.xinoFiles (s.siBranch b).xiFile).size < h * inoSize A + inoSize A
  · rw [if_pos hsz, xinoEntry, entry, if_neg (by omega)]
    exact ⟨rfl, s.io, rfl⟩
  simp only [if_neg hsz] at hr ⊢
  by_cases hfull : (xinoFread (s.xinoFiles (s.siBranch b).xiFile) (fun _ => 0) (inoSize A) (h * inoSize A)
      s.io).1 = inoSize A
  · simp only [if_pos hfull]
    refine ⟨?_, _, rfl⟩
    have hfull' : (answer (min (inoSize A) ((s.xinoFiles (s.siBranch b).xiFile).size - h * inoSize A))
        s.io).1 = inoSize A := hfull
    rw [xinoEntry, entry, if_pos (by omega), ← Nat.add_zero (h * inoSize A), ← num_shift]
    refine num_congr fun k _ hk => ?_
    rw [Nat.zero_add] at hk
    simp only [xinoFread, hfull', Int.toNat_natCast, if_pos hk, Nat.add_zero]
  · rw [if_neg hfull] at hr
    exact absurd hr (transferErr_ne_zero _)

/-- What is written is the entry. -/
theorem auXinoDoWrite_ok {file : File} {io : List Int} (hr : (auXinoDoWrite A file h ino io).1 = 0) :
    (auXinoDoWrite A file h ino io).2.1 = writeEntry A file h ino := by
  rw [auXinoDoWrite] at hr ⊢
  by_cases hh : loffMax / inoSize A - 1 < h
  · rw [if_pos hh] at hr
    exact absurd hr (show (-EFBIG : Int) ≠ 0 by decide)
  rw [if_neg hh] at hr ⊢
  by_cases hfull : (xinoFwrite file (bytesOf ino) (inoSize A) (h * inoSize A) io).1 = inoSize A
  · simp only [if_pos hfull]
    have hfull' : (answer (inoSize A) io).1 = inoSize A := hfull
    rw [writeEntry]
    simp only [xinoFwrite, hfull', Int.toNat_natCast]
  · simp only [if_neg hfull] at hr
    exact absurd hr (show (- EIO : Int) ≠ 0 by decide)

theorem auXinoWrite_ok (hx : s.xino = true) (hr : (auXinoWrite A b h ino s).1 = 0) :
    ∃ io, (auXinoWrite A b h ino s).2 = { recordEntry A s b h ino with io := io } := by
  have hoff : ¬ (!s.xino) = true := by rw [hx]; decide
  rw [auXinoWrite, if_neg hoff] at hr ⊢
  by_cases hw : (auXinoDoWrite A (s.xinoFiles (s.siBranch b).xiFile) h ino s.io).1 = 0
  · simp only [if_pos hw, auXinoDoWrite_ok hw]
    exact ⟨_, rfl⟩
  · simp only [if_neg hw] at hr
    exact absurd hr (show (- EIO : Int) ≠ 0 by decide)

theorem entry_writeEntry_self (file : File) (hino : ino < 2 ^ A.bitsPerLong) :
    entry A (writeEntry A file h ino) h = ino := by
  rw [entry, writeEntry, File.write_size (Nat.pos_iff_ne_zero.mp (inoSize_pos A)),
    if_pos (Nat.le_max_right _ _)]
  exact num_write _ _ (by rw [inoSize_pow]; exact hino)

/-- An entry there is stays, also in a file that does not end with a whole entry. -/
theorem entry_writeEntry_other {file : File} {h' : Nat} (hne : h' ≠ h) (hnz : entry A file h' ≠ 0) :
    entry A (writeEntry A file h ino) h' = entry A file h' := by
  have hin : h' * inoSize A + inoSize A ≤ file.size := by
    by_contra hc
    rw [entry, if_neg hc] at hnz
    exact hnz rfl
  have hle := File.size_le_write file (h * inoSize A) (inoSize A) (bytesOf ino)
  rw [entry, entry, if_pos hin, if_pos (show h' * inoSize A + inoSize A ≤ (writeEntry A file h ino).size from
    Nat.le_trans hin hle)]
  exact num_write_out _ _ (entry_apart hne)

/-- The numbers `iunique()` gives fit an `ino_t`. -/
def InoSized (A : Arch) (s : Sbinfo) : Prop := ∀ n, s.uniq n < 2 ^ A.bitsPerLong

/-- What `au_ino` has done when it gives a number. -/
structure Gives (A : Arch) (s : Sbinfo) (b h ino : Nat) (s' : Sbinfo) : Prop where
  lt : ino < 2 ^ A.bitsPerLong
  sized : InoSized A s'
  xino : s'.xino = s.xino
  got : s.xino = true → ino ≠ 0 ∧ xinoEntry A s' b h = ino
  kept : s.xino = true → ∀ b' h', xinoEntry A s b' h' ≠ 0 → xinoEntry A s' b' h' = xinoEntry A s b' h'
  unique : s.xino = false → (∃ n, s.uniq n = ino) ∧ ∀ n, ∃ k, s'.uniq n = s.uniq k

/-- **A number `au_ino` gives** is in the xino file afterwards, and what was there before still is. -/
theorem auIno_ok (hs : InoSized A s) (hr : auIno A b h s = .ok (0, ino, s')) : Gives A s b h ino s' := by
  cases hx : s.xino with
  | false =>
    have hread : auXinoRead A b h s = (0, 0, s) := by rw [auXinoRead, hx]; rfl
    have hnew : auXinoNewIno A s = .ok (s.uniq 0, { s with uniq := fun n => s.uniq (n + 1) }) := by
      have hon : (!s.xino) = true := by rw [hx]; rfl
      rw [auXinoNewIno, if_pos hon]
    rw [auIno, hread, hnew] at hr
    simp only [ne_eq, not_true_eq_false, if_false] at hr
    by_cases h0 : s.uniq 0 = 0
    · rw [if_pos h0] at hr
      cases hr
    · rw [if_neg h0, auXinoWrite] at hr
      simp only [hx, Bool.not_false, if_true] at hr
      obtain rfl := congrArg (fun r => r.2.1) (Except.ok.inj hr)
      obtain rfl := congrArg (fun r => r.2.2) (Except.ok.inj hr)
      exact ⟨hs 0, fun n => hs (n + 1), hx.symm, fun h => absurd h (by rw [hx]; decide),
        fun h => absurd h (by rw [hx]; decide), fun _ => ⟨⟨0, rfl⟩, fun n => ⟨n + 1, rfl⟩⟩⟩
  | true =>
    have hnx : ∀ {P : Prop}, s.xino = false → P := fun h => by rw [hx] at h; cases h
    rw [auIno] at hr
    by_cases herr : (auXinoRead A b h s).1 ≠ 0
    · rw [if_pos herr] at hr
      exact absurd (congrArg Prod.fst (Except.ok.inj hr)) herr
    obtain ⟨hentry, io, hio⟩ := auXinoRead_ok hx (not_not.mp herr)
    obtain ⟨s₁, hs₁⟩ : ∃ s₁ : Sbinfo, s₁ = { s with io := io } := ⟨_, rfl⟩
    rw [← hs₁] at hio
    rw [if_neg herr, hentry, hio] at hr
    by_cases hent : xinoEntry A s b h ≠ 0
    · -- The number is there.
      rw [if_pos hent] at hr
      obtain rfl := congrArg (fun r => r.2.1) (Except.ok.inj hr)
      obtain rfl : s₁ = s' := congrArg (fun r => r.2.2) (Except.ok.inj hr)
      rw [hs₁]
      exact ⟨entry_lt _ _, hs, rfl, fun _ => ⟨hent, rfl⟩, fun _ _ _ _ => rfl, hnx⟩
    rw [if_neg hent] at hr
    rw [not_not] at hent
    rcases hnew : auXinoNewIno A s₁ with e | ⟨n, t⟩
    · rw [hnew] at hr
      cases hr
    have hx₁ : s₁.xino = true := by rw [hs₁]; exact hx
    obtain ⟨ht, hlt⟩ := auXinoNewIno_tables hx₁ hnew
    obtain ⟨hbranch, hfiles, huniq⟩ : t.siBranch = s.siBranch ∧ t.xinoFiles = s.xinoFiles ∧
        t.uniq = s.uniq := by
      rw [ht.siBranch, ht.xinoFiles, ht.uniq, hs₁]
      exact ⟨rfl, rfl, rfl⟩
    rw [hnew] at hr
    by_cases h0 : n = 0
    · have hr' := Except.ok.inj ((if_pos h0).symm.trans hr)
      cases congrArg Prod.fst hr'
    · -- A new number is put there.
      have hr' := Except.ok.inj ((if_neg h0).symm.trans hr)
      obtain rfl := congrArg (fun r => r.2.1) hr'
      obtain ⟨io', hw⟩ := auXinoWrite_ok (ht.xino.trans hx₁) (congrArg Prod.fst hr')
      have hs' : s' = { recordEntry A t b h n with io := io' } :=
        (congrArg (fun r => r.2.2) hr').symm.trans hw
      rw [hs']
      refine ⟨hlt, fun k => ?_, (ht.xino.trans hx₁).trans hx.symm, fun _ => ⟨h0, ?_⟩,
        fun _ b' h' hnz => ?_, hnx⟩
      · show t.uniq k < _
        rw [huniq]
        exact hs k
      · show entry A (Function.update t.xinoFiles (t.siBranch b).xiFile _ (t.siBranch b).xiFile) h = n
        rw [Function.update_self]
        exact entry_writeEntry_self _ hlt
      · show entry A (Function.update t.xinoFiles (t.siBranch b).xiFile _ (t.siBranch b').xiFile) h' = _
        rw [xinoEntry] at hnz hent ⊢
        rw [hfiles, hbranch]
        by_cases hf : (s.siBranch b').xiFile = (s.siBranch b).xiFile
        · rw [hf] at hnz ⊢
          rw [Function.update_self]
          refine entry_writeEntry_other (fun hh => ?_) hnz
          rw [hh] at hnz
          exact hnz hent
        · rw [Function.update_of_ne hf]

end Ino

/-! ## The union -/

/-- A branch has an entry of the name. -/
def HasName (E : Nat → List DirEnt) (b : Nat) (n : Name) : Prop := ∃ e ∈ E b, e.name = n

/-- And one that is its whiteout. -/
def HasWh (E : Nat → List DirEnt) (b : Nat) (n : Name) : Prop := HasName E b (whPfx ++ n)

/-- **The union of the branches**: some branch has the name, and none above it a whiteout of it. -/
def Listed (E : Nat → List DirEnt) (n : Name) : Prop :=
  isWhName n = false ∧ ∃ b, HasName E b n ∧ ∀ b' < b, ¬ HasWh E b' n

/-- The entries of the branches of an open directory. -/
def DirFile.entries (file : DirFile) (b : Nat) : List DirEnt :=
  if file.fbstart ≤ b ∧ b ≤ file.fbend then
    match file.hFptr b with
    | none => []
    | some hf => hf.entries
  else []

/-- What the VFS promises of the entries of a directory: names of 1 to 255 bytes, each once, and types
    of a byte. -/
structure Stream (es : List DirEnt) : Prop where
  name_pos : ∀ e ∈ es, 0 < e.name.length
  name_le : ∀ e ∈ es, e.name.length ≤ 255
  type_lt : ∀ e ∈ es, e.type < 256
  nodup : (es.map DirEnt.name).Nodup

theorem isWhName_append {n : Name} (hn : 0 < n.length) : isWhName (whPfx ++ n) = true := by
  rw [isWhName, List.length_append, decide_eq_true (by omega), Bool.true_and, List.isPrefixOf_iff_prefix]
  exact List.prefix_append _ _

theorem isWhName_eq {n : Name} (h : isWhName n = true) :
    n = whPfx ++ n.drop whPfx.length ∧ 0 < (n.drop whPfx.length).length := by
  rw [isWhName, Bool.and_eq_true, decide_eq_true_eq, List.isPrefixOf_iff_prefix] at h
  obtain ⟨hlen, m, rfl⟩ := h
  rw [List.drop_left]
  rw [List.length_append] at hlen
  exact ⟨rfl, by omega⟩

/-! ## What is kept while the branches are read -/

/-- An entry of the listing, with the branch and the entry it comes from. -/
structure Source where
  bindex : Nat
  ent : DirEnt
  ino : Nat

def Source.de (x : Source) : De := ⟨x.ent.name, x.ino, x.ent.type⟩

/-- The number an entry of a branch is listed with: the one the xino file maps it to, or one of those
    `iunique()` gives. -/
def Translated (A : Arch) (sb sb' : Sbinfo) (b hIno ino : Nat) : Prop :=
  (sb.xino = true → ino ≠ 0 ∧ xinoEntry A sb' b hIno = ino) ∧ (sb.xino = false → ∃ n, sb.uniq n = ino)

/-- **What is kept.**  `seen b` are the entries of branch `b` read so far, `src` those that are listed. -/
structure Progress (A : Arch) (fullNameHash : Name → Nat) (sb : Sbinfo) (seen : Nat → List DirEnt)
    (src : List Source) (arg : FillvdirArg) : Prop where
  shwh : arg.shwh = false
  listed : ∃ bs last, IsOpen A arg.vdir bs last ∧ (bs ++ [last]).flatten = src.map Source.de
  dePlaced : ∀ b, Buckets.Placed (auNameHash fullNameHash) id (arg.delist b)
  whPlaced : ∀ b, Buckets.Placed (auNameHash fullNameHash) Wh.name (arg.whlist b)
  de : ∀ b n, Buckets.Holds (arg.delist b) n ↔ ∃ x ∈ src, x.bindex = b ∧ x.ent.name = n
  wh : ∀ b n, (∃ w, Buckets.Holds (arg.whlist b) w ∧ w.name = n) ↔ 0 < n.length ∧ HasWh seen b n
  ent : ∀ x ∈ src, x.ent ∈ seen x.bindex
  plain : ∀ x ∈ src, isWhName x.ent.name = false
  top : ∀ x ∈ src, ∀ b' < x.bindex, ¬ HasName seen b' x.ent.name ∧ ¬ HasWh seen b' x.ent.name
  complete : ∀ b n, HasName seen b n → isWhName n = false →
    (∃ x ∈ src, x.ent.name = n ∧ x.bindex ≤ b) ∨ ∃ b' < b, HasWh seen b' n
  once : (src.map fun x => x.ent.name).Nodup
  future : ∀ b, arg.bindex < b → seen b = []
  sized : InoSized A arg.sb
  xino : arg.sb.xino = sb.xino
  unique : sb.xino = false → ∀ n, ∃ k, arg.sb.uniq n = sb.uniq k
  ino : ∀ x ∈ src, Translated A sb arg.sb x.bindex x.ent.ino x.ino

section Step

variable {fullNameHash : Name → Nat} {jiffies : Nat} {sb : Sbinfo} {seen : Nat → List DirEnt}
  {src : List Source} {arg arg' : FillvdirArg} {e : DirEnt}

/-- The lists of the branches above know a name iff one of them has it, or its whiteout. -/
theorem Progress.known_iff (h : Progress A fullNameHash sb seen src arg) {b : Nat} {n : Name}
    (hn : 0 < n.length) (hplain : isWhName n = false) :
    ((List.range b).any fun bindex => testKnown fullNameHash (arg.delist bindex) n ||
        auNhashTestKnownWh fullNameHash (arg.whlist bindex) n) = true ↔
      ∃ b' < b, HasName seen b' n ∨ HasWh seen b' n := by
  have hde : ∀ b', testKnown fullNameHash (arg.delist b') n = true ↔
      ∃ x ∈ src, x.bindex = b' ∧ x.ent.name = n := fun b' => by
    rw [testKnown, Buckets.known_iff (h.dePlaced b'), ← h.de b' n]
    exact ⟨fun ⟨x, hx, hxn⟩ => hxn ▸ hx, fun hx => ⟨n, hx, rfl⟩⟩
  have hwh : ∀ b', auNhashTestKnownWh fullNameHash (arg.whlist b') n = true ↔ HasWh seen b' n := fun b' => by
    rw [auNhashTestKnownWh, Buckets.known_iff (h.whPlaced b'), h.wh b' n]
    exact ⟨fun hc => hc.2, fun hc => ⟨hn, hc⟩⟩
  rw [List.any_eq_true]
  constructor
  · rintro ⟨b', hb', hknown⟩
    refine ⟨b', List.mem_range.mp hb', ?_⟩
    rcases (Bool.or_eq_true _ _).mp hknown with hk | hk
    · obtain ⟨x, hx, rfl, rfl⟩ := (hde b').mp hk
      exact Or.inl ⟨x.ent, h.ent x hx, rfl⟩
    · exact Or.inr ((hwh b').mp hk)
  · have hfind : ∀ {b'}, b' < b → ((∃ x ∈ src, x.bindex = b' ∧ x.ent.name = n) ∨ HasWh seen b' n) →
        ∃ x ∈ List.range b, (testKnown fullNameHash (arg.delist x) n ||
          auNhashTestKnownWh fullNameHash (arg.whlist x) n) = true := by
      intro b' hb' hc
      refine ⟨b', List.mem_range.mpr hb', (Bool.or_eq_true _ _).mpr ?_⟩
      exact hc.imp (hde b').mpr (hwh b').mpr
    rintro ⟨b', hb', hname | hwh'⟩
    · rcases h.complete b' n hname hplain with ⟨x, hx, hxn, hxb⟩ | ⟨b'', hb'', hc⟩
      · exact hfind (Nat.lt_of_le_of_lt hxb hb') (Or.inl ⟨x, hx, rfl, hxn⟩)
      · exact hfind (Nat.lt_trans hb'' hb') (Or.inr hc)
    · exact hfind hb' (Or.inr hwh')

/-- The entries read so far, and one more. -/
def seeing (seen : Nat → List DirEnt) (c : Nat) (e : DirEnt) : Nat → List DirEnt :=
  Function.update seen c (seen c ++ [e])

theorem hasName_seeing {c b : Nat} {n : Name} :
    HasName (seeing seen c e) b n ↔ HasName seen b n ∨ b = c ∧ e.name = n := by
  rw [HasName, seeing]
  by_cases hb : b = c
  · rw [hb, Function.update_self]
    constructor
    · rintro ⟨e', he', hn⟩
      rcases List.mem_append.mp he' with he' | he'
      · exact Or.inl ⟨e', he', hn⟩
      · rw [List.mem_singleton] at he'
        exact Or.inr ⟨rfl, he' ▸ hn⟩
    · rintro (⟨e', he', hn⟩ | ⟨-, hn⟩)
      · exact ⟨e', List.mem_append_left _ he', hn⟩
      · exact ⟨e, List.mem_append_right _ (List.mem_singleton_self e), hn⟩
  · rw [Function.update_of_ne hb]
    exact ⟨Or.inl, fun hc => hc.resolve_right fun hc => hb hc.1⟩

/-- An entry that is no whiteout is the whiteout of no name. -/
theorem hasWh_seeing_plain {c b : Nat} {n : Name} (hplain : isWhName e.name = false) (hn : 0 < n.length) :
    HasWh (seeing seen c e) b n ↔ HasWh seen b n := by
  rw [HasWh, hasName_seeing]
  refine ⟨fun hc => hc.resolve_right fun hc => ?_, Or.inl⟩
  rw [hc.2, isWhName_append hn] at hplain
  cases hplain

theorem mem_seeing {c b : Nat} {e' : DirEnt} (h : e' ∈ seen b) : e' ∈ seeing seen c e b := by
  rw [seeing]
  by_cases hb : b = c
  · rw [hb] at h ⊢
    rw [Function.update_self]
    exact List.mem_append_left _ h
  · rw [Function.update_of_ne hb]
    exact h

theorem Progress.bindex_le (h : Progress A fullNameHash sb seen src arg) {x : Source} (hx : x ∈ src) :
    x.bindex ≤ arg.bindex := by
  by_contra hc
  have hent := h.ent x hx
  rw [h.future x.bindex (by omega)] at hent
  cases hent

theorem Progress.name_pos (h : Progress A fullNameHash sb seen src arg) {x : Source} (hx : x ∈ src) :
    0 < x.ent.name.length := by
  obtain ⟨bs, last, hopen, hflat⟩ := h.listed
  have hmem : x.de ∈ (bs ++ [last]).flatten := by
    rw [hflat]
    exact List.mem_map_of_mem hx
  obtain ⟨es, hes, hx'⟩ := List.mem_flatten.mp hmem
  obtain ⟨i, hi⟩ := List.mem_iff_getElem?.mp hes
  exact ((hopen.built.laid i es hi).fits x.de hx').name_pos

/-- Above the branch of a listed entry nothing changes any more. -/
theorem Progress.top_seeing (h : Progress A fullNameHash sb seen src arg) {x : Source} (hx : x ∈ src) :
    ∀ b' < x.bindex, ¬ HasName (seeing seen arg.bindex e) b' x.ent.name ∧
      ¬ HasWh (seeing seen arg.bindex e) b' x.ent.name := by
  intro b' hb'
  have hle := h.bindex_le hx
  obtain ⟨hname, hwh⟩ := h.top x hx b' hb'
  rw [HasWh, hasName_seeing, hasName_seeing]
  exact ⟨fun hc => hc.elim hname fun hc => absurd hc.1 (by omega),
    fun hc => hc.elim hwh fun hc => absurd hc.1 (by omega)⟩

theorem Progress.future_seeing (h : Progress A fullNameHash sb seen src arg) :
    ∀ b, arg.bindex < b → seeing seen arg.bindex e b = [] := by
  intro b hb
  rw [seeing, Function.update_of_ne (by omega)]
  exact h.future b hb

/-- What a name hidden above stays hidden by. -/
theorem Progress.hidden (h : Progress A fullNameHash sb seen src arg) {b : Nat} {n : Name}
    (hplain : isWhName n = false) (hhid : ∃ b' < b, HasName seen b' n ∨ HasWh seen b' n) :
    (∃ x ∈ src, x.ent.name = n ∧ x.bindex ≤ b) ∨ ∃ b' < b, HasWh seen b' n := by
  obtain ⟨b', hb', hname | hwh⟩ := hhid
  · rcases h.complete b' n hname hplain with ⟨x, hx, hxn, hxb⟩ | ⟨b'', hb'', hwh⟩
    · exact Or.inl ⟨x, hx, hxn, by omega⟩
    · exact Or.inr ⟨b'', by omega, hwh⟩
  · exact Or.inr ⟨b', hb', hwh⟩

theorem Progress.complete_seeing (h : Progress A fullNameHash sb seen src arg)
    (he : isWhName e.name = false → (∃ x ∈ src, x.ent.name = e.name ∧ x.bindex ≤ arg.bindex) ∨
      ∃ b' < arg.bindex, HasWh seen b' e.name) {b : Nat} {n : Name}
    (hname : HasName (seeing seen arg.bindex e) b n) (hplain : isWhName n = false) :
    (∃ x ∈ src, x.ent.name = n ∧ x.bindex ≤ b) ∨
      ∃ b' < b, HasWh (seeing seen arg.bindex e) b' n := by
  have hmono : ∀ {b'}, HasWh seen b' n → HasWh (seeing seen arg.bindex e) b' n := fun hc =>
    hasName_seeing.mpr (Or.inl hc)
  rcases hasName_seeing.mp hname with hname | ⟨rfl, rfl⟩
  · exact (h.complete b n hname hplain).imp_right fun ⟨b', hb', hc⟩ => ⟨b', hb', hmono hc⟩
  · exact (he hplain).imp_right fun ⟨b', hb', hc⟩ => ⟨b', hb', hmono hc⟩

/-- An entry is left out, since a branch above has the name or its whiteout. -/
theorem Progress.hide (h : Progress A fullNameHash sb seen src arg) (hplain : isWhName e.name = false)
    (hhid : ∃ b' < arg.bindex, HasName seen b' e.name ∨ HasWh seen b' e.name)
    (hbindex : arg'.bindex = arg.bindex) (hshwh : arg'.shwh = arg.shwh) (hdelist : arg'.delist = arg.delist)
    (hwhlist : arg'.whlist = arg.whlist) (hsb : arg'.sb = arg.sb)
    (hopen : ∀ bs last, IsOpen A arg.vdir bs last → IsOpen A arg'.vdir bs last) :
    Progress A fullNameHash sb (seeing seen arg.bindex e) src arg' where
  shwh := hshwh.trans h.shwh
  listed := by
    obtain ⟨bs, last, ho, hflat⟩ := h.listed
    exact ⟨bs, last, hopen bs last ho, hflat⟩
  dePlaced := by rw [hdelist]; exact h.dePlaced
  whPlaced := by rw [hwhlist]; exact h.whPlaced
  de := by rw [hdelist]; exact h.de
  wh := fun b n => by
    rw [hwhlist, h.wh b n]
    exact and_congr_right fun hn => (hasWh_seeing_plain hplain hn).symm
  ent := fun x hx => mem_seeing (h.ent x hx)
  plain := h.plain
  top := fun x hx => h.top_seeing hx
  complete := fun b n => h.complete_seeing fun _ => h.hidden hplain hhid
  once := h.once
  future := by rw [hbindex]; exact h.future_seeing
  sized := by rw [hsb]; exact h.sized
  xino := by rw [hsb]; exact h.xino
  unique := by rw [hsb]; exact h.unique
  ino := by rw [hsb]; exact h.ino

theorem Translated.kept {t t' : Sbinfo} {b h ino b' h' ino' : Nat} (hx : t.xino = sb.xino)
    (hg : Gives A t b' h' ino' t') (ht : Translated A sb t b h ino) : Translated A sb t' b h ino := by
  refine ⟨fun hon => ?_, ht.2⟩
  obtain ⟨hne, hent⟩ := ht.1 hon
  refine ⟨hne, ?_⟩
  rw [hg.kept (hx.trans hon) b h (by rw [hent]; exact hne), hent]

/-- An entry is listed, since no branch above has the name or its whiteout. -/
theorem Progress.add {ino : Nat} (h : Progress A fullNameHash sb seen src arg)
    (hplain : isWhName e.name = false)
    (htop : ¬ ∃ b' < arg.bindex, HasName seen b' e.name ∨ HasWh seen b' e.name) (hpos : 0 < e.name.length)
    (hnew : ¬ HasName seen arg.bindex e.name) (hgives : Gives A arg.sb arg.bindex e.ino ino arg'.sb)
    (hbindex : arg'.bindex = arg.bindex) (hshwh : arg'.shwh = arg.shwh)
    (hdelist : arg'.delist = Function.update arg.delist arg.bindex
      ((arg.delist arg.bindex).add (auNameHash fullNameHash) id e.name))
    (hwhlist : arg'.whlist = arg.whlist)
    (hopen : ∃ bs last, IsOpen A arg'.vdir bs last ∧
      (bs ++ [last]).flatten = src.map Source.de ++ [⟨e.name, ino, e.type⟩]) :
    Progress A fullNameHash sb (seeing seen arg.bindex e) (src ++ [⟨arg.bindex, e, ino⟩]) arg' where
  shwh := hshwh.trans h.shwh
  listed := by
    obtain ⟨bs, last, ho, hflat⟩ := hopen
    exact ⟨bs, last, ho, by rw [hflat, List.map_append]; rfl⟩
  dePlaced := fun b => by
    rw [hdelist]
    by_cases hb : b = arg.bindex
    · rw [hb, Function.update_self]
      exact Buckets.placed_add (h.dePlaced _) _
    · rw [Function.update_of_ne hb]
      exact h.dePlaced b
  whPlaced := by rw [hwhlist]; exact h.whPlaced
  de := fun b n => by
    have hsplit : (∃ x ∈ src ++ [⟨arg.bindex, e, ino⟩], x.bindex = b ∧ x.ent.name = n) ↔
        (∃ x ∈ src, x.bindex = b ∧ x.ent.name = n) ∨ arg.bindex = b ∧ e.name = n := by
      simp [or_and_right, exists_or]
    rw [hsplit, ← h.de b n, hdelist]
    by_cases hb : b = arg.bindex
    · rw [hb, Function.update_self, Buckets.holds_add]
      exact ⟨fun hc => hc.elim (fun hn => Or.inr ⟨rfl, hn.symm⟩) Or.inl,
        fun hc => hc.elim Or.inr fun hn => Or.inl hn.2.symm⟩
    · rw [Function.update_of_ne hb]
      exact ⟨Or.inl, fun hc => hc.resolve_right fun hn => hb hn.1.symm⟩
  wh := fun b n => by
    rw [hwhlist, h.wh b n]
    exact and_congr_right fun hn => (hasWh_seeing_plain hplain hn).symm
  ent := fun x hx => by
    rcases List.mem_append.mp hx with hx | hx
    · exact mem_seeing (h.ent x hx)
    · rw [List.mem_singleton.mp hx, seeing, Function.update_self]
      exact List.mem_append_right _ (List.mem_singleton_self e)
  plain := fun x hx => by
    rcases List.mem_append.mp hx with hx | hx
    · exact h.plain x hx
    · rw [List.mem_singleton.mp hx]
      exact hplain
  top := fun x hx => by
    rcases List.mem_append.mp hx with hx | hx
    · exact h.top_seeing hx
    · rw [List.mem_singleton.mp hx]
      intro b' hb'
      have hb : b' < arg.bindex := hb'
      refine ⟨fun hc => ?_, fun hc => ?_⟩
      · refine htop ⟨b', hb, Or.inl ?_⟩
        exact (hasName_seeing.mp hc).resolve_right fun hc => by omega
      · refine htop ⟨b', hb, Or.inr ?_⟩
        exact (hasWh_seeing_plain hplain hpos).mp hc
  complete := fun b n hname hn => by
    rcases hasName_seeing.mp hname with hname | ⟨rfl, rfl⟩
    · rcases h.complete b n hname hn with ⟨x, hx, hxn⟩ | ⟨b', hb', hc⟩
      · exact Or.inl ⟨x, List.mem_append_left _ hx, hxn⟩
      · exact Or.inr ⟨b', hb', hasName_seeing.mpr (Or.inl hc)⟩
    · exact Or.inl ⟨⟨arg.bindex, e, ino⟩, List.mem_append_right _ (List.mem_singleton_self _), rfl,
        Nat.le_refl _⟩
  once := by
    rw [List.map_append, List.nodup_append]
    refine ⟨h.once, List.pairwise_singleton _ _, ?_⟩
    rintro n hn m hm rfl
    obtain ⟨x, hx, rfl⟩ := List.mem_map.mp hn
    have hxe : x.ent.name = e.name := by simpa using hm
    rcases Nat.lt_or_eq_of_le (h.bindex_le hx) with hlt | heq
    · exact htop ⟨x.bindex, hlt, Or.inl ⟨x.ent, h.ent x hx, hxe⟩⟩
    · exact hnew ⟨x.ent, heq ▸ h.ent x hx, hxe⟩
  future := by rw [hbindex]; exact h.future_seeing
  sized := hgives.sized
  xino := hgives.xino.trans h.xino
  unique := fun hoff n => by
    obtain ⟨k, hk⟩ := (hgives.unique (h.xino.trans hoff)).2 n
    obtain ⟨j, hj⟩ := h.unique hoff k
    exact ⟨j, hk.trans hj⟩
  ino := fun x hx => by
    rcases List.mem_append.mp hx with hx | hx
    · exact (h.ino x hx).kept h.xino hgives
    · rw [List.mem_singleton.mp hx]
      refine ⟨fun hon => hgives.got (h.xino.trans hon), fun hoff => ?_⟩
      obtain ⟨k, hk⟩ := (hgives.unique (h.xino.trans hoff)).1
      obtain ⟨j, hj⟩ := h.unique hoff k
      exact ⟨j, hj.symm.trans hk⟩

/-- A whiteout is noted. -/
theorem Progress.whiteout {n : Name} (h : Progress A fullNameHash sb seen src arg) (hn : 0 < n.length)
    (hname : e.name = whPfx ++ n) (hbindex : arg'.bindex = arg.bindex) (hshwh : arg'.shwh = arg.shwh)
    (hdelist : arg'.delist = arg.delist)
    (hplaced : ∀ b, Buckets.Placed (auNameHash fullNameHash) Wh.name (arg'.whlist b))
    (hwh : ∀ b n', (∃ w, Buckets.Holds (arg'.whlist b) w ∧ w.name = n') ↔
      (∃ w, Buckets.Holds (arg.whlist b) w ∧ w.name = n') ∨ b = arg.bindex ∧ n = n')
    (hsb : arg'.sb = arg.sb) (hopen : ∀ bs last, IsOpen A arg.vdir bs last → IsOpen A arg'.vdir bs last) :
    Progress A fullNameHash sb (seeing seen arg.bindex e) src arg' where
  shwh := hshwh.trans h.shwh
  listed := by
    obtain ⟨bs, last, ho, hflat⟩ := h.listed
    exact ⟨bs, last, hopen bs last ho, hflat⟩
  dePlaced := by rw [hdelist]; exact h.dePlaced
  whPlaced := hplaced
  de := by rw [hdelist]; exact h.de
  wh := fun b n' => by
    have hsame : e.name = whPfx ++ n' ↔ n = n' := by
      rw [hname]
      exact List.append_right_inj whPfx
    rw [hwh, h.wh b n', HasWh, HasWh, hasName_seeing, hsame]
    constructor
    · rintro (⟨hpos, hc⟩ | ⟨hb, rfl⟩)
      · exact ⟨hpos, Or.inl hc⟩
      · exact ⟨hn, Or.inr ⟨hb, rfl⟩⟩
    · rintro ⟨hpos, hc | hc⟩
      · exact Or.inl ⟨hpos, hc⟩
      · exact Or.inr hc
  ent := fun x hx => mem_seeing (h.ent x hx)
  plain := h.plain
  top := fun x hx => h.top_seeing hx
  complete := fun b n => h.complete_seeing fun hplain => by
    rw [hname, isWhName_append hn] at hplain
    cases hplain
  once := h.once
  future := by rw [hbindex]; exact h.future_seeing
  sized := by rw [hsb]; exact h.sized
  xino := by rw [hsb]; exact h.xino
  unique := by rw [hsb]; exact h.unique
  ino := by rw [hsb]; exact h.ino

/-- `vd_jiffy` says nothing of the blocks. -/
theorem IsOpen.setJiffy {v : Vdir} {bs : List (List De)} {last : List De} (h : IsOpen A v bs last)
    (j : Nat) : IsOpen A { v with vdJiffy := j } bs last :=
  ⟨⟨h.built.nblk, h.built.laid⟩, h.full, h.lastI, h.lastP, h.room⟩

/-- Every way through `fillvdir` notes that it was called. -/
theorem fillvdir_called (hfill : fillvdir A fullNameHash jiffies e arg = .ok arg') :
    arg'.called = true := by
  rw [fillvdir] at hfill
  dsimp only at hfill
  repeat' split at hfill
  all_goals cases hfill
  all_goals rfl

/-- **What `fillvdir` does with an entry**, when it succeeds. -/
inductive FillvdirOk (A : Arch) (fullNameHash : Name → Nat) (jiffies : Nat) (e : DirEnt) (arg : FillvdirArg) :
    FillvdirArg → Prop
  | hidden (hplain : isWhName e.name = false)
      (hknown : ((List.range arg.bindex).any fun bindex => testKnown fullNameHash (arg.delist bindex) e.name ||
        auNhashTestKnownWh fullNameHash (arg.whlist bindex) e.name) = true) :
      FillvdirOk A fullNameHash jiffies e arg
        { arg with err := 0, called := true, vdir := { arg.vdir with vdJiffy := jiffies } }
  | listed {ino : Nat} {t : Sbinfo} {v : Vdir} {d : Buckets Name} {mem : Kmem}
      (hplain : isWhName e.name = false)
      (hknown : ¬ ((List.range arg.bindex).any fun bindex => testKnown fullNameHash (arg.delist bindex) e.name ||
        auNhashTestKnownWh fullNameHash (arg.whlist bindex) e.name) = true)
      (hino : auIno A arg.bindex e.ino arg.sb = .ok (0, ino, t))
      (happ : appendDe A fullNameHash arg.vdir ⟨e.name, ino, e.type⟩ (arg.delist arg.bindex) arg.mem =
        (0, v, d, mem)) :
      FillvdirOk A fullNameHash jiffies e arg
        { arg with
          err := 0, called := true, sb := t, vdir := { v with vdJiffy := jiffies }
          delist := Function.update arg.delist arg.bindex d, mem := mem }
  | known (hwh : isWhName e.name = true)
      (hknown : auNhashTestKnownWh fullNameHash (arg.whlist arg.bindex) (e.name.drop whPfx.length) = true) :
      FillvdirOk A fullNameHash jiffies e arg
        { arg with err := 0, called := true, vdir := { arg.vdir with vdJiffy := jiffies } }
  | whiteout {ino : Nat} {t : Sbinfo} {mem : Kmem} (hwh : isWhName e.name = true)
      (hino : (if arg.shwh then auIno A arg.bindex e.ino arg.sb else .ok (0, 1, arg.sb)) = .ok (0, ino, t)) :
      FillvdirOk A fullNameHash jiffies e arg
        { arg with
          err := 0, called := true, sb := t, vdir := { arg.vdir with vdJiffy := jiffies }
          whlist := Function.update arg.whlist arg.bindex ((arg.whlist arg.bindex).add (auNameHash fullNameHash)
            Wh.name ⟨e.name.drop whPfx.length, arg.bindex, ino, e.type⟩)
          mem := mem }

theorem auNhashAppendWh_ok {whlist : Buckets Wh} {wh : Wh} {mem : Kmem}
    (h0 : (auNhashAppendWh fullNameHash whlist wh mem).1 = 0) :
    (auNhashAppendWh fullNameHash whlist wh mem).2.1 = whlist.add (auNameHash fullNameHash) Wh.name wh := by
  rw [auNhashAppendWh] at h0 ⊢
  by_cases hmem : (kmalloc mem).1.isNone
  · rw [if_pos hmem] at h0
    cases h0
  · rw [if_neg hmem]

theorem fillvdir_ok (hfill : fillvdir A fullNameHash jiffies e arg = .ok arg') (herr : arg'.err = 0) :
    FillvdirOk A fullNameHash jiffies e arg arg' := by
  rw [fillvdir] at hfill
  dsimp only at hfill
  cases hplain : isWhName e.name with
  | false =>
    rw [hplain] at hfill
    by_cases hknown : ((List.range arg.bindex).any fun bindex =>
        testKnown fullNameHash (arg.delist bindex) e.name ||
          auNhashTestKnownWh fullNameHash (arg.whlist bindex) e.name) = true
    · simp only [Bool.not_false, if_true, if_pos hknown] at hfill
      obtain rfl := Except.ok.inj hfill
      exact .hidden hplain hknown
    · simp only [Bool.not_false, if_true, if_neg hknown] at hfill
      rcases hino : auIno A arg.bindex e.ino arg.sb with t | ⟨err, ino, t⟩
      · rw [hino] at hfill
        cases hfill
      simp only [hino] at hfill
      by_cases h0 : err = 0
      · subst h0
        simp only [ne_eq, not_true_eq_false, if_false] at hfill
        obtain ⟨a, ha⟩ : ∃ a, a = appendDe A fullNameHash arg.vdir ⟨e.name, ino, e.type⟩
            (arg.delist arg.bindex) arg.mem := ⟨_, rfl⟩
        simp only [← ha] at hfill
        by_cases ha0 : a.1 = 0
        · rw [if_pos ha0] at hfill
          obtain rfl := Except.ok.inj hfill
          rw [ha0]
          exact .listed hplain hknown hino (ha.symm.trans (Prod.ext ha0 rfl))
        · rw [if_neg ha0] at hfill
          obtain rfl := Except.ok.inj hfill
          exact absurd herr ha0
      · simp only [ne_eq, h0, not_false_eq_true, if_true, if_false] at hfill
        obtain rfl := Except.ok.inj hfill
        exact absurd herr h0
  | true =>
    rw [hplain] at hfill
    by_cases hknown : ((List.range arg.bindex).any fun _ =>
        auNhashTestKnownWh fullNameHash (arg.whlist arg.bindex) (e.name.drop whPfx.length)) = true
    · simp only [Bool.not_true, Bool.false_eq_true, if_false, if_pos hknown, if_true] at hfill
      obtain rfl := Except.ok.inj hfill
      obtain ⟨_, -, hhere⟩ := List.any_eq_true.mp hknown
      exact .known hplain hhere
    · simp only [Bool.not_true, Bool.false_eq_true, if_false, if_neg hknown] at hfill
      rcases hino : (if arg.shwh then auIno A arg.bindex e.ino arg.sb else .ok (0, 1, arg.sb))
        with t | ⟨err, ino, t⟩
      · rw [hino] at hfill
        cases hfill
      simp only [hino] at hfill
      by_cases h0 : err = 0
      · subst h0
        simp only [ne_eq, not_true_eq_false, if_false] at hfill
        obtain ⟨a, ha⟩ : ∃ a, a = auNhashAppendWh fullNameHash (arg.whlist arg.bindex)
            ⟨e.name.drop whPfx.length, arg.bindex, ino, e.type⟩ arg.mem := ⟨_, rfl⟩
        simp only [← ha] at hfill
        by_cases ha0 : a.1 = 0
        · rw [if_pos ha0] at hfill
          obtain rfl := Except.ok.inj hfill
          rw [ha0, ha, auNhashAppendWh_ok (ha ▸ ha0)]
          exact .whiteout hplain hino
        · rw [if_neg ha0] at hfill
          obtain rfl := Except.ok.inj hfill
          exact absurd herr ha0
      · simp only [ne_eq, h0, not_false_eq_true, if_true, if_false] at hfill
        obtain rfl := Except.ok.inj hfill
        exact absurd herr h0

/-- **One entry.** -/
theorem Progress.step (h : Progress A fullNameHash sb seen src arg) (hpos : 0 < e.name.length)
    (hle : e.name.length ≤ 255) (htype : e.type < 256) (hnew : ¬ HasName seen arg.bindex e.name)
    (hfill : fillvdir A fullNameHash jiffies e arg = .ok arg') (herr : arg'.err = 0) :
    arg'.bindex = arg.bindex ∧
      ∃ src', Progress A fullNameHash sb (seeing seen arg.bindex e) src' arg' := by
  cases fillvdir_ok hfill herr with
  | hidden hplain hknown =>
    refine ⟨rfl, src, ?_⟩
    exact h.hide hplain ((h.known_iff hpos hplain).mp hknown) rfl rfl rfl rfl rfl
      fun _ _ ho => ho.setJiffy jiffies
  | listed hplain hknown hino happ =>
    have hgives := auIno_ok h.sized hino
    obtain ⟨bs, last, hopen, hflat⟩ := h.listed
    obtain ⟨⟨bs', last', hopen', hflat'⟩, hdelist⟩ := appendDe_spec hopen ⟨hpos, hle, hgives.lt, htype⟩ happ
    refine ⟨rfl, _, h.add hplain (mt (h.known_iff hpos hplain).mpr hknown) hpos hnew
      hgives rfl rfl ?_ rfl ⟨bs', last', hopen'.setJiffy jiffies, by rw [hflat', hflat]⟩⟩
    rw [hdelist]
  | known hwh hknown =>
    obtain ⟨hname, hn⟩ := isWhName_eq hwh
    have hhas := (Buckets.known_iff (h.whPlaced _)).mp hknown
    refine ⟨rfl, src, h.whiteout hn hname rfl rfl rfl h.whPlaced (fun b n' => ?_) rfl
      fun _ _ ho => ho.setJiffy jiffies⟩
    refine ⟨Or.inl, fun hc => hc.elim id fun ⟨hb, hn'⟩ => ?_⟩
    rw [← hn', hb]
    exact hhas
  | whiteout hwh hino =>
    obtain ⟨hname, hn⟩ := isWhName_eq hwh
    rw [h.shwh] at hino
    have hsb : arg.sb = _ := congrArg (fun r => r.2.2) (Except.ok.inj hino)
    refine ⟨rfl, src, h.whiteout hn hname rfl rfl rfl (fun b => ?_) (fun b n' => ?_) hsb.symm
      fun _ _ ho => ho.setJiffy jiffies⟩
    · dsimp only
      by_cases hb : b = arg.bindex
      · rw [hb, Function.update_self]
        exact Buckets.placed_add (h.whPlaced _) _
      · rw [Function.update_of_ne hb]
        exact h.whPlaced b
    · dsimp only
      by_cases hb : b = arg.bindex
      · rw [hb, Function.update_self]
        simp only [Buckets.holds_add, true_and]
        constructor
        · rintro ⟨w, rfl | hw, hwn⟩
          · exact Or.inr hwn
          · exact Or.inl ⟨w, hw, hwn⟩
        · rintro (⟨w, hw, hwn⟩ | hwn)
          · exact ⟨w, Or.inr hw, hwn⟩
          · exact ⟨_, Or.inl rfl, hwn⟩
      · rw [Function.update_of_ne hb]
        exact ⟨Or.inl, fun hc => hc.resolve_right fun hc => hb hc.1⟩

theorem Progress.setFlags (h : Progress A fullNameHash sb seen src arg) (err : Int) (called : Bool) :
    Progress A fullNameHash sb seen src { arg with err := err, called := called } :=
  ⟨h.shwh, h.listed, h.dePlaced, h.whPlaced, h.de, h.wh, h.ent, h.plain, h.top, h.complete, h.once,
    h.future, h.sized, h.xino, h.unique, h.ino⟩

theorem Progress.setBindex (h : Progress A fullNameHash sb seen src arg) {bindex : Nat}
    (hnone : ∀ b, bindex < b → seen b = []) :
    Progress A fullNameHash sb seen src { arg with bindex := bindex } :=
  ⟨h.shwh, h.listed, h.dePlaced, h.whPlaced, h.de, h.wh, h.ent, h.plain, h.top, h.complete, h.once,
    hnone, h.sized, h.xino, h.unique, h.ino⟩

/-! ## The branches one after the other -/

/-- What `fillvdir` keeps, told of the entries read so far of each branch. -/
structure FillvdirKeeps (A : Arch) (fullNameHash : Name → Nat) (jiffies : Nat)
    (I : (Nat → List DirEnt) → FillvdirArg → Prop) : Prop where
  flags : ∀ {seen arg} err called, I seen arg → I seen { arg with err := err, called := called }
  bindex : ∀ {seen arg bindex}, I seen arg → (∀ b, bindex < b → seen b = []) →
    I seen { arg with bindex := bindex }
  step : ∀ {seen arg e arg'}, I seen arg → 0 < e.name.length → e.name.length ≤ 255 → e.type < 256 →
    ¬ HasName seen arg.bindex e.name → fillvdir A fullNameHash jiffies e arg = .ok arg' → arg'.err = 0 →
    arg'.bindex = arg.bindex ∧ I (seeing seen arg.bindex e) arg'

variable {I : (Nat → List DirEnt) → FillvdirArg → Prop}

/-- While one branch is read. -/
theorem FillvdirKeeps.branch (hI : FillvdirKeeps A fullNameHash jiffies I) {c : Nat} (hnone : seen c = [])
    {all : List DirEnt} (hstream : Stream all) :
    (fillvdirFilldir A fullNameHash jiffies).Keeps all
      (fun done arg => arg.bindex = c ∧ I (Function.update seen c done) arg) (fun _ => True) where
  clear := fun _ _ ⟨hb, h⟩ => ⟨hb, hI.flags 0 false h⟩
  err_clear := fun _ => rfl
  called_clear := fun _ => rfl
  called := fun _ _ _ hcall => fillvdir_called hcall
  step := by
    rintro done e rest arg arg' hall ⟨rfl, h⟩ hcall herr
    have hmem : e ∈ all := by rw [hall]; exact List.mem_append_right _ List.mem_cons_self
    have hhere : Function.update seen arg.bindex done arg.bindex = done := Function.update_self _ _ _
    have hnew : ¬ HasName (Function.update seen arg.bindex done) arg.bindex e.name := by
      rintro ⟨e', he', hn⟩
      rw [hhere] at he'
      have hnodup := hstream.nodup
      rw [hall, List.map_append] at hnodup
      exact (List.nodup_append.mp hnodup).2.2 e'.name (List.mem_map_of_mem he') e.name
        (List.mem_map_of_mem List.mem_cons_self) hn
    obtain ⟨hbindex, h'⟩ := hI.step h (hstream.name_pos e hmem) (hstream.name_le e hmem)
      (hstream.type_lt e hmem) hnew hcall herr
    rw [seeing, hhere, Function.update_idem] at h'
    exact ⟨hbindex, h'⟩
  fail := fun _ _ _ _ _ _ _ _ _ => trivial

/-- The branches. -/
theorem FillvdirKeeps.branches (hI : FillvdirKeeps A fullNameHash jiffies I) {file : DirFile}
    (hstream : ∀ b, Stream (file.entries b)) :
    ∀ {count bindex : Nat} {seen : Nat → List DirEnt} {arg : FillvdirArg},
    I seen arg → file.fbstart ≤ bindex →
    (count ≠ 0 → bindex + count ≤ file.fbend + 1) → (∀ b, bindex + count ≤ b → file.entries b = []) →
    (∀ b < bindex, seen b = file.entries b) → (∀ b, bindex ≤ b → seen b = []) →
    readBranches A fullNameHash jiffies file.hFptr count bindex arg = .ok (0, arg') →
    I file.entries arg' := by
  intro count
  induction count with
  | zero =>
    intro bindex seen arg h _ _ hrest hdone hnone hread
    obtain rfl := congrArg Prod.snd (Except.ok.inj hread)
    have hseen : seen = file.entries := by
      funext b
      by_cases hb : b < bindex
      · exact hdone b hb
      · rw [hnone b (by omega), hrest b (by omega)]
    exact hseen ▸ h
  | succ count ih =>
    intro bindex seen arg h hstart hend hrest hdone hnone hread
    have hbend := hend (Nat.succ_ne_zero count)
    rw [readBranches] at hread
    cases hf : file.hFptr bindex with
    | none =>
      simp only [hf] at hread
      have hempty : file.entries bindex = [] := by
        rw [DirFile.entries, if_pos ⟨hstart, by omega⟩, hf]
      refine ih h (by omega) (fun _ => by omega) (fun b hb => hrest b (by omega)) (fun b hb => ?_)
        (fun b hb => hnone b (by omega)) hread
      rcases Nat.lt_or_eq_of_le (Nat.lt_succ_iff.mp hb) with hlt | rfl
      · exact hdone b hlt
      · rw [hempty, hnone b (Nat.le_refl _)]
    | some hf' =>
      have hentries : file.entries bindex = hf'.entries := by
        rw [DirFile.entries, if_pos ⟨hstart, by omega⟩, hf]
      simp only [hf] at hread
      by_cases hseek : hf'.llseek ≠ 0
      · rw [if_pos hseek] at hread
        exact absurd (congrArg Prod.fst (Except.ok.inj hread)) hseek
      rw [if_neg hseek] at hread
      rcases hbranch : readAll (fillvdirFilldir A fullNameHash jiffies) hf'.chunks
        { arg with bindex := bindex } with t | ⟨err, arg₁⟩
      · rw [hbranch] at hread
        cases hread
      simp only [hbranch] at hread
      by_cases herr : err = 0
      · subst herr
        rw [if_neg (not_not.mpr rfl)] at hread
        have hnil : seen bindex = [] := hnone bindex (Nat.le_refl _)
        have hbindex := hI.bindex h fun b (hb : bindex < b) => hnone b (Nat.le_of_lt hb)
        have hs := hstream bindex
        rw [hentries] at hs
        rw [← Function.update_eq_self bindex seen, hnil] at hbindex
        obtain ⟨-, -, h₁⟩ | ⟨h0, -⟩ | ⟨_, -, -, h0⟩ := readAll_rule
          (hI.branch hnil hs) (List.nil_append _).symm ⟨rfl, hbindex⟩ hbranch
        · refine ih h₁ (by omega) (fun _ => by omega) (fun b hb => hrest b (by omega)) (fun b hb => ?_)
            (fun b hb => ?_) hread
          · rcases Nat.lt_or_eq_of_le (Nat.lt_succ_iff.mp hb) with hlt | rfl
            · rw [Function.update_of_ne (by omega)]
              exact hdone b hlt
            · rw [Function.update_self, hentries]
          · rw [Function.update_of_ne (by omega)]
            exact hnone b (by omega)
        · exact absurd rfl h0
        · exact absurd h0 (by decide)
      · rw [if_pos herr] at hread
        exact absurd (congrArg Prod.fst (Except.ok.inj hread)) herr

/-- **`au_do_read_vdir`**, when it succeeds: what is kept holds of all entries of all branches, before the
    whiteouts are listed. -/
theorem FillvdirKeeps.read (hI : FillvdirKeeps A fullNameHash jiffies I) {file : DirFile}
    (hstream : ∀ b, Stream (file.entries b)) {shwh : Bool} {v v' : Vdir} {sb' : Sbinfo} {mem mem' : Kmem}
    (h0 : ∀ mem, I (fun _ => []) ⟨v, fun _ => .empty, fun _ => .empty, 0, false, shwh, 0, sb, mem⟩)
    (hread : auDoReadVdir A fullNameHash jiffies shwh file v sb mem = .ok (0, v', sb', mem')) :
    ∃ arg, I file.entries arg ∧
      (0, v', sb', mem') = (let r := if shwh then auHandleShwh A fullNameHash file.fbstart file.fbend arg
        else (0, arg); (r.1, r.2.vdir, r.2.sb, r.2.mem)) := by
  rw [auDoReadVdir] at hread
  dsimp only at hread
  by_cases hd : (kmalloc mem).1.isNone
  · rw [if_pos hd] at hread
    cases congrArg Prod.fst (Except.ok.inj hread)
  rw [if_neg hd] at hread
  by_cases hw : (kmalloc (kmalloc mem).2).1.isNone
  · rw [if_pos hw] at hread
    cases congrArg Prod.fst (Except.ok.inj hread)
  rw [if_neg hw] at hread
  split at hread
  · cases hread
  case h_2 err arg hbranches =>
    have hres := Except.ok.inj hread
    have herr : err = 0 := by
      by_contra hne
      rw [if_neg fun hc => hne hc.1] at hres
      exact hne (congrArg Prod.fst hres)
    subst herr
    have hbelow : ∀ b, file.fbstart + (file.fbend + 1 - file.fbstart) ≤ b → file.entries b = [] :=
      fun b hb => if_neg (by omega)
    have habove : ∀ b < file.fbstart, ([] : List DirEnt) = file.entries b :=
      fun b hb => (if_neg (by omega)).symm
    refine ⟨arg, hI.branches hstream (h0 _) (Nat.le_refl _) (fun _ => by omega) hbelow habove
      (fun _ _ => rfl) hbranches, ?_⟩
    rw [← hres]
    cases shwh <;> rfl

end Step

/-! ## The listing -/

variable {fullNameHash : Name → Nat} {jiffies : Nat} {sb : Sbinfo}

theorem progress_start {v : Vdir} {sb : Sbinfo} (hv : IsOpen A v [] []) (hsb : InoSized A sb) (mem : Kmem) :
    Progress A fullNameHash sb (fun _ => []) []
      ⟨v, fun _ => .empty, fun _ => .empty, 0, false, false, 0, sb, mem⟩ where
  shwh := rfl
  listed := ⟨[], [], hv, rfl⟩
  dePlaced := fun _ => Buckets.placed_empty _ _
  whPlaced := fun _ => Buckets.placed_empty _ _
  de := fun _ n => ⟨fun h => absurd h (Buckets.holds_empty n), fun ⟨_, h, _⟩ => absurd h List.not_mem_nil⟩
  wh := fun _ _ => ⟨fun ⟨w, h, _⟩ => absurd h (Buckets.holds_empty w),
    fun ⟨_, _, h, _⟩ => absurd h List.not_mem_nil⟩
  ent := fun _ h => absurd h List.not_mem_nil
  plain := fun _ h => absurd h List.not_mem_nil
  top := fun _ h => absurd h List.not_mem_nil
  complete := fun _ _ ⟨_, h, _⟩ => absurd h List.not_mem_nil
  once := List.nodup_nil
  future := fun _ _ => rfl
  sized := hsb
  xino := rfl
  unique := fun _ n => ⟨n, rfl⟩
  ino := fun _ h => absurd h List.not_mem_nil

theorem progress_keeps : FillvdirKeeps A fullNameHash jiffies
    (fun seen arg => ∃ src, Progress A fullNameHash sb seen src arg) where
  flags := fun err called ⟨src, h⟩ => ⟨src, h.setFlags err called⟩
  bindex := fun ⟨src, h⟩ hnone => ⟨src, h.setBindex hnone⟩
  step := fun ⟨_, h⟩ hpos hle htype hnew hfill herr => h.step hpos hle htype hnew hfill herr

/-- A listing that is read to the end, and where its entries come from. -/
theorem auDoReadVdir_progress {file : DirFile} {v v' : Vdir} {sb sb' : Sbinfo} {mem mem' : Kmem}
    (hv : IsOpen A v [] []) (hsb : InoSized A sb) (hstream : ∀ b, Stream (file.entries b))
    (hread : auDoReadVdir A fullNameHash jiffies false file v sb mem = .ok (0, v', sb', mem')) :
    ∃ src arg, Progress A fullNameHash sb file.entries src arg ∧ arg.vdir = v' ∧ arg.sb = sb' := by
  obtain ⟨arg, ⟨src, h⟩, hres⟩ := progress_keeps.read hstream
    (fun mem => ⟨[], progress_start hv hsb mem⟩) hread
  exact ⟨src, arg, h, (congrArg (fun r => r.2.1) hres).symm, (congrArg (fun r => r.2.2.1) hres).symm⟩

/-- **The listing is the union of the branches**: a name is listed iff some branch has it and none above
    that branch a whiteout of it, and it is listed once, as the topmost branch that has it says. -/
theorem auDoReadVdir_union {file : DirFile} {v v' : Vdir} {sb sb' : Sbinfo} {mem mem' : Kmem}
    (hv : Appended A v []) (hsb : InoSized A sb) (hstream : ∀ b, Stream (file.entries b))
    (hread : auDoReadVdir A fullNameHash jiffies false file v sb mem = .ok (0, v', sb', mem')) :
    (∀ n, (∃ de ∈ listing A v', de.name = n) ↔ Listed file.entries n) ∧
      ((listing A v').map De.name).Nodup ∧
      ∀ de ∈ listing A v', ∃ b, ∃ e ∈ file.entries b, e.name = de.name ∧ e.type = de.type ∧
        (∀ b' < b, ¬ HasName file.entries b' de.name) ∧ Translated A sb sb' b e.ino de.ino := by
  obtain ⟨src, arg, h, rfl, rfl⟩ := auDoReadVdir_progress hv.fresh hsb hstream hread
  obtain ⟨bs', last', hopen', hflat'⟩ := h.listed
  rw [hopen'.built.listing_eq, hflat']
  refine ⟨fun n => ⟨?_, ?_⟩, ?_, ?_⟩
  · rintro ⟨de, hde, rfl⟩
    obtain ⟨x, hx, rfl⟩ := List.mem_map.mp hde
    exact ⟨h.plain x hx, x.bindex, ⟨x.ent, h.ent x hx, rfl⟩, fun b' hb' => (h.top x hx b' hb').2⟩
  · rintro ⟨hplain, b, hname, htop⟩
    rcases h.complete b n hname hplain with ⟨x, hx, rfl, -⟩ | ⟨b', hb', hwh⟩
    · exact ⟨x.de, List.mem_map_of_mem hx, rfl⟩
    · exact absurd hwh (htop b' hb')
  · rw [List.map_map]
    exact h.once
  · intro de hde
    obtain ⟨x, hx, rfl⟩ := List.mem_map.mp hde
    exact ⟨x.bindex, x.ent, h.ent x hx, rfl, rfl, fun b' hb' => (h.top x hx b' hb').1, h.ino x hx⟩

/-- A super block without xino files, and a directory whose top branch has `a` and a whiteout of `b`,
    and whose lower branch has `b`. -/
def plainSb : Sbinfo where
  xino := false
  siBend := 1
  siBranch := fun b => ⟨b, b⟩
  xinoFiles := fun _ => .empty
  siXib := .empty
  siXibBuf := fun _ => 0
  siXibLastPindex := 0
  siXibNextBit := 0
  uniq := fun _ => 5
  io := []
  xibIo := []

def twoBranches : DirFile where
  fbstart := 0
  fbend := 1
  hFptr := fun b => if b = 0 then some ⟨0, [([⟨[97], 1, 8⟩, ⟨whPfx ++ [98], 2, 8⟩], 0)]⟩
    else some ⟨0, [([⟨[98], 3, 8⟩], 0)]⟩

theorem plainSb_sized : InoSized .ilp32 plainSb := fun _ => by
  show 5 < 2 ^ 32
  decide

theorem twoBranches_stream (b : Nat) : Stream (twoBranches.entries b) := by
  match b with
  | 0 => exact ⟨by decide, by decide, by decide, by decide⟩
  | 1 => exact ⟨by decide, by decide, by decide, by decide⟩
  | b + 2 =>
    have hnil : twoBranches.entries (b + 2) = [] := by
      rw [DirFile.entries, if_neg (by show ¬ (0 ≤ b + 2 ∧ b + 2 ≤ 1); omega)]
    rw [hnil]
    exact ⟨by decide, by decide, by decide, by decide⟩

theorem auDoReadVdir_union_two : ∃ v' sb', (∀ n, (∃ de ∈ listing .ilp32 v', de.name = n) ↔
      Listed twoBranches.entries n) ∧
    ((listing .ilp32 v').map De.name).Nodup ∧
    ∀ de ∈ listing .ilp32 v', ∃ b, ∃ e ∈ twoBranches.entries b, e.name = de.name ∧ e.type = de.type ∧
      (∀ b' < b, ¬ HasName twoBranches.entries b' de.name) ∧
        Translated .ilp32 plainSb sb' b e.ino de.ino :=
  have hnew : Appended .ilp32 newVdir [] := Appended.alloc (rfl : allocVdir .ilp32 [] = (.ok newVdir, []))
  ⟨_, _, auDoReadVdir_union hnew plainSb_sized twoBranches_stream (rfl : auDoReadVdir .ilp32 (fun _ => 0) 0 false
    twoBranches newVdir plainSb [] = .ok (0, _, _, _))⟩

end KernelPatches.Aufs
