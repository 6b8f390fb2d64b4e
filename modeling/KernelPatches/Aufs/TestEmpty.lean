/-
  aufs: whether a directory of the union is empty (dir.c).

  `rmdir` and `rename` ask before they whiteout a directory.  The hidden directories are read from the
  topmost one down, with one list of whiteouts for all of them: a name that is not on the list when it
  is met makes the directory not empty.

  This is the union rule a second time, by other means than the listing (`auDoReadVdir`), which keeps a
  list for each branch and looks at those above only.  The two agree as long as no branch holds both a
  name and its whiteout.

  * `testEmptyCb`, `auTestEmpty`  — the model;
  * `Checked`                     — what the list of whiteouts is, and what it means that no name was met;
  * `auTestEmpty_iff`             — the answer is "empty" iff the listing has only `.` and `..`.
-/
import KernelPatches.Aufs.VdirUnion

namespace KernelPatches.Aufs

open KernelPatches.Lib

/-! ## The model -/

def negENOTEMPTY : Int := -39

/-- A hidden directory as `au_test_empty` finds it: what the permission check and the work queue answer,
    what opening it answers, whether it is still linked, and its entries. -/
structure TestDir where
  perm : Int
  wkqErr : Int
  openErr : Int
  nlink : Nat
  file : HFile

/-- `struct test_empty_arg`, and the memory it draws on. -/
structure TestEmptyArg where
  whlist : Buckets Wh
  whonly : Bool
  called : Bool
  err : Int
  bindex : Nat
  mem : Kmem

/-- `name[0] == '.' && (namelen == 1 || (name[1] == '.' && namelen == 2))` -/
def isDots (name : Name) : Bool := name == [46] || name == [46, 46]

section Model

variable (fullNameHash : Name → Nat)

/-- `test_empty_cb`, whose result is `arg.err`.  Whiteouts are not shown, so that their inode numbers do
    not matter. -/
def testEmptyCb (e : DirEnt) (arg : TestEmptyArg) : TestEmptyArg :=
  let arg := { arg with err := 0, called := true }
  if isDots e.name then arg
  else if !isWhName e.name then
    if arg.whonly && !auNhashTestKnownWh fullNameHash arg.whlist e.name then { arg with err := negENOTEMPTY }
    else arg
  else
    let name := e.name.drop whPfx.length
    if !auNhashTestKnownWh fullNameHash arg.whlist name then
      let a := auNhashAppendWh fullNameHash arg.whlist ⟨name, arg.bindex, e.ino, e.type⟩ arg.mem
      { arg with err := a.1, whlist := a.2.1, mem := a.2.2 }
    else arg

/-- `test_empty_cb`, for `vfsub_readdir`. -/
def testEmptyFilldir : Filldir TestEmptyArg where
  call e arg := .ok (testEmptyCb fullNameHash e arg)
  err := TestEmptyArg.err
  called := TestEmptyArg.called
  clear arg := { arg with err := 0, called := false }

/-- `do_test_empty` -/
def doTestEmpty (inotify : Bool) (dir : TestDir) (arg : TestEmptyArg) : Except Trap (Int × TestEmptyArg) :=
  if dir.openErr ≠ 0 then .ok (dir.openErr, arg)
  else if inotify && dir.nlink == 0 then .ok (0, arg)
  else readAll (testEmptyFilldir fullNameHash) dir.file.chunks arg

/-- `sio_test_empty` -/
def sioTestEmpty (inotify : Bool) (dir : TestDir) (arg : TestEmptyArg) :
    Except Trap (Int × TestEmptyArg) :=
  if dir.perm ≠ 0 ∧ dir.wkqErr ≠ 0 then .ok (dir.wkqErr, arg)
  else doTestEmpty fullNameHash inotify dir arg

/-- The loop of `au_test_empty` over the branches that have the directory, `count` from `bindex` on. -/
def testBranches (inotify : Bool) (hDir : Nat → Option TestDir) : Nat → Nat → TestEmptyArg →
    Except Trap (Int × TestEmptyArg)
  | 0, _, arg => .ok (0, arg)
  | count + 1, bindex, arg =>
    match hDir bindex with
    | none => testBranches inotify hDir count (bindex + 1) arg
    | some dir =>
      match sioTestEmpty fullNameHash inotify dir { arg with bindex := bindex } with
      | .error t => .error t
      | .ok (err, arg) =>
        if err ≠ 0 then .ok (err, arg) else testBranches inotify hDir count (bindex + 1) arg

/-- `au_test_empty` -/
def auTestEmpty (inotify : Bool) (hDir : Nat → Option TestDir) (dbstart dbtaildir : Nat)
    (whlist : Buckets Wh) (mem : Kmem) : Except Trap (Int × TestEmptyArg) :=
  testBranches fullNameHash inotify hDir (dbtaildir + 1 - dbstart) dbstart
    ⟨whlist, true, false, 0, 0, mem⟩

end Model

/-! ## What is kept -/

/-- Nothing fails: the directory is opened and read, it is still linked, and there is memory. -/
structure TestDir.Fine (inotify : Bool) (dir : TestDir) : Prop where
  wkq : dir.wkqErr = 0
  opened : dir.openErr = 0
  linked : inotify = true → dir.nlink ≠ 0
  read : ∀ c ∈ dir.file.chunks, 0 ≤ c.2

/-- No branch holds a name and its whiteout. -/
def NoBoth (E : Nat → List DirEnt) : Prop := ∀ b n, HasName E b n → ¬ HasWh E b n

/-- The directory is not empty: a name is listed that is neither `.` nor `..`. -/
def NotEmpty (E : Nat → List DirEnt) : Prop := ∃ n, isDots n = false ∧ Listed E n

/-- **What is kept.**  The list has the whiteouts seen so far; of the names seen so far, each has a
    whiteout in its branch or above. -/
structure Checked (fullNameHash : Name → Nat) (seen : Nat → List DirEnt) (arg : TestEmptyArg) : Prop where
  whonly : arg.whonly = true
  mem : none ∉ arg.mem
  placed : Buckets.Placed (auNameHash fullNameHash) Wh.name arg.whlist
  wh : ∀ n, (∃ w, Buckets.Holds arg.whlist w ∧ w.name = n) ↔ 0 < n.length ∧ ∃ b, HasWh seen b n
  gone : ∀ b n, HasName seen b n → isWhName n = false → isDots n = false → ∃ b' ≤ b, HasWh seen b' n
  future : ∀ b, arg.bindex < b → seen b = []

section Step

variable {fullNameHash : Name → Nat} {seen E : Nat → List DirEnt} {arg arg' : TestEmptyArg} {e : DirEnt}

theorem isDots_whiteout {n : Name} (h : isWhName n = true) : isDots n = false := by
  obtain ⟨hn, hpos⟩ := isWhName_eq h
  rw [hn, isDots]
  simp [whPfx]

theorem kmalloc_isSome {mem : Kmem} (h : none ∉ mem) : (kmalloc mem).1.isNone = false ∧
    none ∉ (kmalloc mem).2 := by
  cases mem with
  | nil => exact ⟨rfl, h⟩
  | cons r mem =>
    cases r with
    | none => exact absurd List.mem_cons_self h
    | some r => exact ⟨rfl, fun hc => h (List.mem_cons_of_mem _ hc)⟩

/-- The names seen before have their whiteouts still. -/
theorem Checked.gone_seeing (h : Checked fullNameHash seen arg)
    (he : isWhName e.name = false → isDots e.name = false → ∃ b' ≤ arg.bindex, HasWh seen b' e.name) :
    ∀ b n, HasName (seeing seen arg.bindex e) b n → isWhName n = false → isDots n = false →
      ∃ b' ≤ b, HasWh (seeing seen arg.bindex e) b' n := by
  intro b n hname hplain hdots
  rcases hasName_seeing.mp hname with hname | ⟨rfl, rfl⟩
  · obtain ⟨b', hb', hwh⟩ := h.gone b n hname hplain hdots
    exact ⟨b', hb', hasName_seeing.mpr (Or.inl hwh)⟩
  · obtain ⟨b', hb', hwh⟩ := he hplain hdots
    exact ⟨b', hb', hasName_seeing.mpr (Or.inl hwh)⟩

theorem Checked.future_seeing (h : Checked fullNameHash seen arg) :
    ∀ b, arg.bindex < b → seeing seen arg.bindex e b = [] := by
  intro b hb
  rw [seeing, Function.update_of_ne (by omega)]
  exact h.future b hb

/-- An entry that is no whiteout changes nothing, if it may stay. -/
theorem Checked.plain (h : Checked fullNameHash seen arg) (hplain : isWhName e.name = false)
    (he : isDots e.name = false → ∃ b' ≤ arg.bindex, HasWh seen b' e.name) :
    Checked fullNameHash (seeing seen arg.bindex e) { arg with err := 0, called := true } :=
  ⟨h.whonly, h.mem, h.placed, fun n => by
    rw [show (({ arg with err := 0, called := true } : TestEmptyArg).whlist) = arg.whlist from rfl, h.wh n]
    refine and_congr_right fun hn => exists_congr fun b => (hasWh_seeing_plain hplain hn).symm,
    h.gone_seeing fun _ => he, h.future_seeing⟩

/-- A whiteout that is on the list now. -/
theorem Checked.whiteout {n : Name} (h : Checked fullNameHash seen arg) (hn : 0 < n.length)
    (hname : e.name = whPfx ++ n) (hbindex : arg'.bindex = arg.bindex) (hwhonly : arg'.whonly = arg.whonly)
    (hmem : none ∉ arg'.mem) (hplaced : Buckets.Placed (auNameHash fullNameHash) Wh.name arg'.whlist)
    (hwh : ∀ n', (∃ w, Buckets.Holds arg'.whlist w ∧ w.name = n') ↔
      (∃ w, Buckets.Holds arg.whlist w ∧ w.name = n') ∨ n = n') :
    Checked fullNameHash (seeing seen arg.bindex e) arg' := by
  refine ⟨hwhonly.trans h.whonly, hmem, hplaced, fun n' => ?_, h.gone_seeing fun hplain => ?_, ?_⟩
  · have hsame : e.name = whPfx ++ n' ↔ n = n' := by
      rw [hname]
      exact List.append_right_inj whPfx
    rw [hwh, h.wh n']
    constructor
    · rintro (⟨hpos, b, hb⟩ | rfl)
      · exact ⟨hpos, b, hasName_seeing.mpr (Or.inl hb)⟩
      · exact ⟨hn, arg.bindex, hasName_seeing.mpr (Or.inr ⟨rfl, hname⟩)⟩
    · rintro ⟨hpos, b, hb⟩
      rcases hasName_seeing.mp hb with hb | ⟨-, hb⟩
      · exact Or.inl ⟨hpos, b, hb⟩
      · exact Or.inr (hsame.mp hb)
  · rw [hname, isWhName_append hn] at hplain
    cases hplain
  · rw [hbindex]
    exact h.future_seeing

/-- **One entry**: either all is as it should be, or a name was met that is listed. -/
theorem Checked.step (h : Checked fullNameHash seen arg) (hpos : 0 < e.name.length)
    (hmem : e ∈ E arg.bindex) (habove : ∀ b < arg.bindex, seen b = E b) :
    (testEmptyCb fullNameHash e arg).bindex = arg.bindex ∧
      (((testEmptyCb fullNameHash e arg).err = 0 ∧
          Checked fullNameHash (seeing seen arg.bindex e) (testEmptyCb fullNameHash e arg)) ∨
        ((testEmptyCb fullNameHash e arg).err = negENOTEMPTY ∧ NotEmpty E)) := by
  have hknown : ∀ n, auNhashTestKnownWh fullNameHash arg.whlist n = true ↔
      0 < n.length ∧ ∃ b, HasWh seen b n := fun n => by
    rw [auNhashTestKnownWh, Buckets.known_iff h.placed, h.wh n]
  rw [testEmptyCb]
  dsimp only
  cases hdots : isDots e.name with
  | true =>
    have hplain : isWhName e.name = false := by
      by_contra hc
      rw [isDots_whiteout (Bool.eq_true_of_not_eq_false hc)] at hdots
      cases hdots
    rw [if_pos rfl]
    exact ⟨rfl, Or.inl ⟨rfl, h.plain hplain fun hc => by rw [hdots] at hc; cases hc⟩⟩
  | false =>
    rw [if_neg Bool.false_ne_true]
    cases hplain : isWhName e.name with
    | false =>
      rw [if_pos (by rfl), h.whonly]
      cases hk : auNhashTestKnownWh fullNameHash arg.whlist e.name with
      | true =>
        rw [if_neg (by decide)]
        obtain ⟨-, b, hb⟩ := (hknown e.name).mp hk
        have hle : b ≤ arg.bindex := by
          by_contra hc
          obtain ⟨e', he', -⟩ := hb
          rw [h.future b (by omega)] at he'
          cases he'
        exact ⟨rfl, Or.inl ⟨rfl, h.whonly ▸ h.plain hplain fun _ => ⟨b, hle, hb⟩⟩⟩
      | false =>
        rw [if_pos (by decide)]
        refine ⟨rfl, Or.inr ⟨rfl, e.name, hdots, hplain, arg.bindex, ⟨e, hmem, rfl⟩, fun b' hb' hwh => ?_⟩⟩
        have hseen : HasWh seen b' e.name := by
          rw [HasWh, HasName, habove b' hb']
          exact hwh
        rw [(hknown e.name).mpr ⟨hpos, b', hseen⟩] at hk
        cases hk
    | true =>
      obtain ⟨hname, hn⟩ := isWhName_eq hplain
      rw [if_neg (by decide)]
      cases hk : auNhashTestKnownWh fullNameHash arg.whlist (e.name.drop whPfx.length) with
      | true =>
        rw [if_neg (by decide)]
        refine ⟨rfl, Or.inl ⟨rfl, h.whiteout hn hname rfl rfl h.mem h.placed fun n' => ?_⟩⟩
        refine ⟨Or.inl, fun hc => hc.elim id fun hn' => ?_⟩
        rw [← hn']
        exact (h.wh _).mpr ((hknown _).mp hk)
      | false =>
        obtain ⟨hsome, hrest⟩ := kmalloc_isSome h.mem
        rw [if_pos (by decide), auNhashAppendWh, hsome, if_neg Bool.false_ne_true]
        refine ⟨rfl, Or.inl ⟨rfl, h.whiteout hn hname rfl rfl hrest (Buckets.placed_add h.placed _)
          fun n' => ?_⟩⟩
        simp only [Buckets.holds_add]
        constructor
        · rintro ⟨w, rfl | hw, hwn⟩
          · exact Or.inr hwn
          · exact Or.inl ⟨w, hw, hwn⟩
        · rintro (⟨w, hw, hwn⟩ | hwn)
          · exact ⟨w, Or.inr hw, hwn⟩
          · exact ⟨_, Or.inl rfl, hwn⟩

/-- What `test_empty_cb` keeps while a branch is read. -/
theorem testEmptyCb_keeps {c : Nat} (habove : ∀ b < c, seen b = E b) (hstream : Stream (E c)) :
    (testEmptyFilldir fullNameHash).Keeps (E c)
      (fun done arg => arg.bindex = c ∧ Checked fullNameHash (Function.update seen c done) arg)
      (fun arg => arg.err = negENOTEMPTY ∧ NotEmpty E) := by
  have hone : ∀ done e rest arg arg', E c = done ++ e :: rest →
      (arg.bindex = c ∧ Checked fullNameHash (Function.update seen c done) arg) →
      (testEmptyFilldir fullNameHash).call e arg = .ok arg' → arg'.bindex = c ∧
      ((arg'.err = 0 ∧ Checked fullNameHash (Function.update seen c (done ++ [e])) arg') ∨
        (arg'.err = negENOTEMPTY ∧ NotEmpty E)) := by
    rintro done e rest arg arg' hall ⟨rfl, h⟩ hcall
    have hmem : e ∈ E arg.bindex := by rw [hall]; exact List.mem_append_right _ List.mem_cons_self
    have hstep := h.step (hstream.name_pos e hmem) hmem fun b hb => by
      rw [Function.update_of_ne (by omega)]
      exact habove b hb
    rw [seeing, Function.update_self, Function.update_idem] at hstep
    obtain rfl := Except.ok.inj hcall
    exact hstep
  refine ⟨fun done arg h => ⟨h.1, h.2.whonly, h.2.mem, h.2.placed, h.2.wh, h.2.gone, h.2.future⟩, fun _ => rfl,
    fun _ => rfl, fun e arg arg' hcall => ?_, fun done e rest arg arg' hall hI hcall herr => ?_,
    fun done e rest arg arg' hall hI hcall herr => ?_⟩
  · obtain rfl := Except.ok.inj hcall
    show (testEmptyCb fullNameHash e arg).called = true
    rw [testEmptyCb]
    dsimp only
    repeat' split
    all_goals rfl
  · obtain ⟨hb, ⟨-, h⟩ | ⟨herr', -⟩⟩ := hone done e rest arg arg' hall hI hcall
    · exact ⟨hb, h⟩
    · exact absurd (herr'.symm.trans herr) (by decide)
  · obtain ⟨-, ⟨h0, -⟩ | hfail⟩ := hone done e rest arg arg' hall hI hcall
    · exact absurd h0 herr
    · exact hfail

end Step

/-! ## The answer -/

/-- The entries of the branches `au_test_empty` reads. -/
def testEntries (hDir : Nat → Option TestDir) (dbstart dbtaildir b : Nat) : List DirEnt :=
  if dbstart ≤ b ∧ b ≤ dbtaildir then
    match hDir b with
    | none => []
    | some dir => dir.file.entries
  else []

variable {fullNameHash : Name → Nat} {inotify : Bool} {hDir : Nat → Option TestDir} {dbstart dbtaildir : Nat}

/-- A branch that can be read is read to its end. -/
theorem sioTestEmpty_fine {dir : TestDir} (hfine : dir.Fine inotify) (arg : TestEmptyArg) :
    sioTestEmpty fullNameHash inotify dir arg = readAll (testEmptyFilldir fullNameHash) dir.file.chunks arg := by
  have hlinked : ¬ (inotify && dir.nlink == 0) = true := by
    intro hc
    obtain ⟨hon, hzero⟩ := (Bool.and_eq_true _ _).mp hc
    exact hfine.linked hon (eq_of_beq hzero)
  rw [sioTestEmpty, if_neg (fun hc => hc.2 hfine.wkq), doTestEmpty, if_neg (not_not.mpr hfine.opened),
    if_neg hlinked]

/-- The branches: all their names are whited out, or one was met that is listed. -/
theorem testBranches_spec {E : Nat → List DirEnt} (hE : E = testEntries hDir dbstart dbtaildir)
    (hstream : ∀ b, Stream (E b)) (hfine : ∀ b dir, hDir b = some dir → dir.Fine inotify) :
    ∀ {count bindex : Nat} {seen : Nat → List DirEnt} {arg : TestEmptyArg},
    Checked fullNameHash seen arg → dbstart ≤ bindex → (count ≠ 0 → bindex + count ≤ dbtaildir + 1) →
    (∀ b, bindex + count ≤ b → E b = []) → (∀ b < bindex, seen b = E b) →
    (∀ b, bindex ≤ b → seen b = []) →
    ∃ err arg', testBranches fullNameHash inotify hDir count bindex arg = .ok (err, arg') ∧
      ((err = 0 ∧ Checked fullNameHash E arg') ∨ (err = negENOTEMPTY ∧ NotEmpty E)) := by
  intro count
  induction count with
  | zero =>
    intro bindex seen arg h _ _ hrest hdone hnone
    have hseen : seen = E := by
      funext b
      by_cases hb : b < bindex
      · exact hdone b hb
      · rw [hnone b (by omega), hrest b (by omega)]
    exact ⟨0, arg, rfl, Or.inl ⟨rfl, hseen ▸ h⟩⟩
  | succ count ih =>
    intro bindex seen arg h hstart hend hrest hdone hnone
    have hbend := hend (Nat.succ_ne_zero count)
    have hin : dbstart ≤ bindex ∧ bindex ≤ dbtaildir := ⟨hstart, by omega⟩
    rw [testBranches]
    cases hd : hDir bindex with
    | none =>
      have hempty : E bindex = [] := by rw [hE, testEntries, if_pos hin, hd]
      refine ih h (by omega) (fun _ => by omega) (fun b hb => hrest b (by omega)) (fun b hb => ?_)
        (fun b hb => hnone b (by omega))
      rcases Nat.lt_or_eq_of_le (Nat.lt_succ_iff.mp hb) with hlt | rfl
      · exact hdone b hlt
      · rw [hempty, hnone b (Nat.le_refl _)]
    | some dir =>
      have hentries : E bindex = chunkEntries dir.file.chunks := by
        rw [hE, testEntries, if_pos hin, hd]
        rfl
      have hnil : Function.update seen bindex [] = seen := by
        rw [← hnone bindex (Nat.le_refl _), Function.update_eq_self]
      have hstartc : Checked fullNameHash (Function.update seen bindex []) { arg with bindex := bindex } := by
        rw [hnil]
        exact ⟨h.whonly, h.mem, h.placed, h.wh, h.gone, fun b hb => hnone b (Nat.le_of_lt hb)⟩
      obtain ⟨⟨err, arg₁⟩, hread⟩ := readAll_total (f := testEmptyFilldir fullNameHash)
        (fun e arg => ⟨_, rfl⟩) dir.file.chunks { arg with bindex := bindex }
      simp only [sioTestEmpty_fine (hfine bindex dir hd), hread]
      obtain ⟨rfl, -, h₁⟩ | ⟨h0, rfl, hfail, hne⟩ | ⟨c, hc, rfl, hneg⟩ := readAll_rule
        (testEmptyCb_keeps (E := E) hdone (hstream bindex)) hentries ⟨rfl, hstartc⟩ hread
      · rw [if_neg (not_not.mpr rfl)]
        refine ih h₁ (by omega) (fun _ => by omega) (fun b hb => hrest b (by omega)) (fun b hb => ?_)
          (fun b hb => ?_)
        · rcases Nat.lt_or_eq_of_le (Nat.lt_succ_iff.mp hb) with hlt | rfl
          · rw [Function.update_of_ne (by omega)]
            exact hdone b hlt
          · rw [Function.update_self]
        · rw [Function.update_of_ne (by omega)]
          exact hnone b (by omega)
      · exact ⟨_, arg₁, if_pos h0, Or.inr ⟨hfail, hne⟩⟩
      · have hpos := (hfine bindex dir hd).read c hc
        omega

/-- Where all names are whited out, none is listed. -/
theorem Checked.empty {E : Nat → List DirEnt} {arg : TestEmptyArg} (h : Checked fullNameHash E arg)
    (hboth : NoBoth E) : ¬ NotEmpty E := by
  rintro ⟨n, hdots, hplain, b, hname, htop⟩
  obtain ⟨b', hb', hwh⟩ := h.gone b n hname hplain hdots
  rcases Nat.lt_or_eq_of_le hb' with hlt | rfl
  · exact htop b' hlt hwh
  · exact hboth b' n hname hwh

/-- **The test for emptiness and the listing agree**: where no branch holds a name and its whiteout, the
    test succeeds if the listing has only `.` and `..`, and says that the directory is not empty
    otherwise. -/
theorem auTestEmpty_iff {A : Arch} {jiffies : Nat} {file : DirFile} {v v' : Vdir} {sb sb' : Sbinfo}
    {mem mem' memT : Kmem} (hv : Appended A v []) (hsb : InoSized A sb)
    (hstream : ∀ b, Stream (file.entries b))
    (hread : auDoReadVdir A fullNameHash jiffies false file v sb mem = .ok (0, v', sb', mem'))
    (hsame : ∀ b, testEntries hDir dbstart dbtaildir b = file.entries b)
    (hboth : NoBoth file.entries) (hfine : ∀ b dir, hDir b = some dir → dir.Fine inotify)
    (hmem : none ∉ memT) :
    ∃ arg, auTestEmpty fullNameHash inotify hDir dbstart dbtaildir .empty memT =
      .ok (if ∀ de ∈ listing A v', isDots de.name = true then 0 else negENOTEMPTY, arg) := by
  have hE : file.entries = testEntries hDir dbstart dbtaildir := (funext hsame).symm
  have hlisted := (auDoReadVdir_union hv hsb hstream hread).1
  have hempty : (∀ de ∈ listing A v', isDots de.name = true) ↔ ¬ NotEmpty file.entries := by
    constructor
    · rintro h ⟨n, hdots, hn⟩
      obtain ⟨de, hde, rfl⟩ := (hlisted n).mpr hn
      rw [h de hde] at hdots
      cases hdots
    · intro h de hde
      by_contra hc
      exact h ⟨de.name, Bool.eq_false_of_not_eq_true hc, (hlisted de.name).mp ⟨de, hde, rfl⟩⟩
  have hstart : Checked fullNameHash (fun _ => []) ⟨.empty, true, false, 0, 0, memT⟩ :=
    ⟨rfl, hmem, Buckets.placed_empty _ _,
      fun n => ⟨fun ⟨w, h, _⟩ => absurd h (Buckets.holds_empty w),
        fun ⟨_, _, _, h, _⟩ => absurd h List.not_mem_nil⟩,
      fun _ _ ⟨_, h, _⟩ => absurd h List.not_mem_nil, fun _ _ => rfl⟩
  have hcount : dbtaildir + 1 - dbstart ≠ 0 → dbstart + (dbtaildir + 1 - dbstart) ≤ dbtaildir + 1 :=
    fun _ => by omega
  have hbelow : ∀ b, dbstart + (dbtaildir + 1 - dbstart) ≤ b → file.entries b = [] := fun b hb => by
    rw [hE]
    exact if_neg (by omega)
  have habove : ∀ b < dbstart, ([] : List DirEnt) = file.entries b := fun b hb => by
    rw [hE]
    exact (if_neg (by omega)).symm
  obtain ⟨err, arg, hrun, ⟨rfl, hchecked⟩ | ⟨rfl, hne⟩⟩ := testBranches_spec hE hstream hfine hstart
    (Nat.le_refl dbstart) hcount hbelow habove (fun _ _ => rfl)
  · rw [if_pos (hempty.mpr (hchecked.empty hboth))]
    exact ⟨arg, hrun⟩
  · rw [if_neg (fun hc => hempty.mp hc hne)]
    exact ⟨arg, hrun⟩

/-- The directory of `twoBranches`, as the test finds it. -/
def twoDirs (b : Nat) : Option TestDir :=
  if b = 0 then some ⟨0, 0, 0, 1, ⟨0, [([⟨[97], 1, 8⟩, ⟨whPfx ++ [98], 2, 8⟩], 0)]⟩⟩
  else some ⟨0, 0, 0, 1, ⟨0, [([⟨[98], 3, 8⟩], 0)]⟩⟩

theorem twoDirs_entries (b : Nat) : testEntries twoDirs 0 1 b = twoBranches.entries b := by
  match b with
  | 0 => rfl
  | 1 => rfl
  | b + 2 =>
    rw [testEntries, DirFile.entries, if_neg (by omega),
      if_neg (by show ¬ (0 ≤ b + 2 ∧ b + 2 ≤ 1); omega)]

theorem twoDirs_fine (b : Nat) (dir : TestDir) (h : twoDirs b = some dir) : dir.Fine false := by
  rw [twoDirs] at h
  split at h
  · obtain rfl := Option.some.inj h
    exact ⟨rfl, rfl, fun hc => Bool.noConfusion hc, by decide⟩
  · obtain rfl := Option.some.inj h
    exact ⟨rfl, rfl, fun hc => Bool.noConfusion hc, by decide⟩

theorem twoBranches_noBoth : NoBoth twoBranches.entries := by
  intro b n hname hwh
  obtain ⟨e', he', hwh⟩ := hwh
  obtain ⟨e, he, rfl⟩ := hname
  match b with
  | 0 =>
    have hpair : ∀ e ∈ twoBranches.entries 0, ∀ e' ∈ twoBranches.entries 0,
        e'.name ≠ whPfx ++ e.name := by decide
    exact hpair e he e' he' hwh
  | 1 =>
    have hpair : ∀ e ∈ twoBranches.entries 1, ∀ e' ∈ twoBranches.entries 1,
        e'.name ≠ whPfx ++ e.name := by decide
    exact hpair e he e' he' hwh
  | b + 2 =>
    rw [DirFile.entries, if_neg (by show ¬ (0 ≤ b + 2 ∧ b + 2 ≤ 1); omega)] at he
    cases he

theorem auTestEmpty_iff_two : ∃ v' arg, auTestEmpty (fun _ => 0) false twoDirs 0 1 .empty [] =
    .ok (if ∀ de ∈ listing .ilp32 v', isDots de.name = true then 0 else negENOTEMPTY, arg) :=
  have hnew : Appended .ilp32 newVdir [] := Appended.alloc (rfl : allocVdir .ilp32 [] = (.ok newVdir, []))
  ⟨_, auTestEmpty_iff hnew plainSb_sized twoBranches_stream (rfl : auDoReadVdir .ilp32 (fun _ => 0) 0 false
    twoBranches newVdir plainSb [] = .ok (0, _, _, _)) twoDirs_entries twoBranches_noBoth twoDirs_fine
    List.not_mem_nil⟩

end KernelPatches.Aufs
