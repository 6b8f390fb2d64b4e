/-
  aufs: the listing with the SHWH option, where whiteouts are listed too.

  While the branches are read each whiteout goes on the list of its branch, and `au_handle_shwh` lists them all
  afterwards.  A whiteout is passed over when its name is on the list already; but the loop that is meant to
  ask the branches above asks the list of the branch itself, as many times as there are branches above, and a
  directory has a name once.  So nothing is ever passed over.

  * `Noted`                 — what is kept: the lists hold the whiteouts of each branch, all of them;
  * `Noted.step`            — one entry;
  * `handleShwh_spec`       — the lists, appended;
  * `shwh_lists_once_iff`   — each whiteout is listed once iff no name is whited out on two branches.
-/
import KernelPatches.Aufs.VdirUnion
import Mathlib.Data.List.Nodup
import Mathlib.Data.List.Perm.Basic

namespace KernelPatches.Aufs

open KernelPatches.Lib

variable {A : Arch} {fullNameHash : Name → Nat} {jiffies : Nat}

/-! ## What is kept while the branches are read -/

/-- The names of whiteouts among the entries. -/
def whNames (es : List DirEnt) : List Name := (es.map DirEnt.name).filter isWhName

/-- A whiteout noted, as `au_handle_shwh` lists it. -/
def Wh.de (w : Wh) : De := ⟨whPfx ++ w.name, w.ino, w.type⟩

/-- The whiteouts on a list, in the order `au_handle_shwh` comes to them. -/
def noted (whlist : Buckets Wh) : List De := (whlist.elems nhashSize).map Wh.de

/-- **What is kept.**  `seen b` are the entries of branch `b` read so far. -/
structure Noted (A : Arch) (fullNameHash : Name → Nat) (seen : Nat → List DirEnt) (arg : FillvdirArg) :
    Prop where
  shwh : arg.shwh = true
  listed : ∃ bs last, IsOpen A arg.vdir bs last ∧ ∀ de ∈ (bs ++ [last]).flatten, isWhName de.name = false
  placed : ∀ b, Buckets.Placed (auNameHash fullNameHash) Wh.name (arg.whlist b)
  names : ∀ b, ((noted (arg.whlist b)).map De.name).Perm (whNames (seen b))
  fits : ∀ b, ∀ de ∈ noted (arg.whlist b), de.Fits A
  sized : InoSized A arg.sb

section Step

variable {seen : Nat → List DirEnt} {arg arg' : FillvdirArg} {e : DirEnt}

theorem auNameHash_lt (name : Name) : auNameHash fullNameHash name < nhashSize :=
  Nat.mod_lt _ (by decide)

theorem whNames_seeing_plain (hplain : isWhName e.name = false) (b : Nat) :
    whNames (seeing seen arg.bindex e b) = whNames (seen b) := by
  rw [seeing]
  by_cases hb : b = arg.bindex
  · rw [hb, Function.update_self, whNames, List.map_append, List.filter_append, List.map_singleton,
      List.filter_cons_of_neg (by rw [hplain]; exact Bool.false_ne_true), List.filter_nil, List.append_nil]
    rfl
  · rw [Function.update_of_ne hb]

/-- A name on the list of a branch is the whiteout of an entry read. -/
theorem Noted.mem_of_known (h : Noted A fullNameHash seen arg) {b : Nat} {n : Name}
    (hknown : auNhashTestKnownWh fullNameHash (arg.whlist b) n = true) : HasWh seen b n := by
  obtain ⟨w, ⟨i, hw⟩, rfl⟩ := (Buckets.known_iff (h.placed b)).mp hknown
  have hi : i < nhashSize := h.placed b i w hw ▸ auNameHash_lt w.name
  have hmem : w ∈ (arg.whlist b).elems nhashSize :=
    List.mem_flatMap.mpr ⟨i, List.mem_range.mpr hi, hw⟩
  have hname : whPfx ++ w.name ∈ (noted (arg.whlist b)).map De.name :=
    List.mem_map_of_mem (List.mem_map_of_mem hmem)
  rw [(h.names b).mem_iff, whNames, List.mem_filter] at hname
  obtain ⟨e, he, heq⟩ := List.mem_map.mp hname.1
  exact ⟨e, he, heq⟩

/-- An entry that is no whiteout. -/
theorem Noted.plain (h : Noted A fullNameHash seen arg) (hplain : isWhName e.name = false)
    (hshwh : arg'.shwh = arg.shwh) (hwhlist : arg'.whlist = arg.whlist) (hsized : InoSized A arg'.sb)
    (hlisted : ∃ bs last, IsOpen A arg'.vdir bs last ∧
      ∀ de ∈ (bs ++ [last]).flatten, isWhName de.name = false) :
    Noted A fullNameHash (seeing seen arg.bindex e) arg' where
  shwh := hshwh.trans h.shwh
  listed := hlisted
  placed := by rw [hwhlist]; exact h.placed
  names := fun b => by rw [hwhlist, whNames_seeing_plain hplain]; exact h.names b
  fits := by rw [hwhlist]; exact h.fits
  sized := hsized

/-- A whiteout is noted. -/
theorem Noted.whiteout {w : Wh} (h : Noted A fullNameHash seen arg) (hwh : isWhName e.name = true)
    (hname : w.de.name = e.name) (hfits : w.de.Fits A) (hshwh : arg'.shwh = arg.shwh)
    (hwhlist : arg'.whlist = Function.update arg.whlist arg.bindex
      ((arg.whlist arg.bindex).add (auNameHash fullNameHash) Wh.name w))
    (hsized : InoSized A arg'.sb)
    (hopen : ∀ bs last, IsOpen A arg.vdir bs last → IsOpen A arg'.vdir bs last) :
    Noted A fullNameHash (seeing seen arg.bindex e) arg' := by
  have hadd : (noted ((arg.whlist arg.bindex).add (auNameHash fullNameHash) Wh.name w)).Perm
      (w.de :: noted (arg.whlist arg.bindex)) :=
    (Buckets.elems_add (auNameHash_lt w.name)).map Wh.de
  refine ⟨hshwh.trans h.shwh, ?_, fun b => ?_, fun b => ?_, fun b => ?_, hsized⟩
  · obtain ⟨bs, last, ho, hplain⟩ := h.listed
    exact ⟨bs, last, hopen bs last ho, hplain⟩
  all_goals
    rw [hwhlist]
    by_cases hb : b = arg.bindex
  · rw [hb, Function.update_self]
    exact Buckets.placed_add (h.placed _) _
  · rw [Function.update_of_ne hb]
    exact h.placed b
  · rw [hb, Function.update_self, seeing, Function.update_self]
    have hnames : whNames (seen arg.bindex ++ [e]) = whNames (seen arg.bindex) ++ [e.name] := by
      rw [whNames, List.map_append, List.filter_append, List.map_singleton, List.filter_cons_of_pos hwh]
      rfl
    rw [hnames]
    have hperm := (hadd.map De.name).trans ((h.names arg.bindex).cons w.de.name)
    rw [hname] at hperm
    exact hperm.trans (List.perm_append_singleton _ _).symm
  · rw [Function.update_of_ne hb, seeing, Function.update_of_ne hb]
    exact h.names b
  · rw [hb, Function.update_self]
    intro de hde
    rcases List.mem_cons.mp (hadd.mem_iff.mp hde) with rfl | hde
    · exact hfits
    · exact h.fits _ de hde
  · rw [Function.update_of_ne hb]
    exact h.fits b

/-- **One entry.** -/
theorem Noted.step (h : Noted A fullNameHash seen arg) (hpos : 0 < e.name.length)
    (hle : e.name.length ≤ 255) (htype : e.type < 256) (hnew : ¬ HasName seen arg.bindex e.name)
    (hfill : fillvdir A fullNameHash jiffies e arg = .ok arg') (herr : arg'.err = 0) :
    arg'.bindex = arg.bindex ∧ Noted A fullNameHash (seeing seen arg.bindex e) arg' := by
  obtain ⟨bs, last, hopen, hplain'⟩ := h.listed
  cases fillvdir_ok hfill herr with
  | hidden hplain hknown =>
    exact ⟨rfl, h.plain hplain rfl rfl h.sized ⟨bs, last, hopen.setJiffy jiffies, hplain'⟩⟩
  | listed hplain hknown hino happ =>
    have hgives := auIno_ok h.sized hino
    obtain ⟨⟨bs', last', hopen', hflat'⟩, -⟩ := appendDe_spec hopen ⟨hpos, hle, hgives.lt, htype⟩ happ
    refine ⟨rfl, h.plain hplain rfl rfl hgives.sized ⟨bs', last', hopen'.setJiffy jiffies, fun de hde => ?_⟩⟩
    rw [hflat'] at hde
    rcases List.mem_append.mp hde with hde | hde
    · exact hplain' de hde
    · rw [List.mem_singleton.mp hde]
      exact hplain
  | known hwh hknown =>
    -- the list is that of the directory being read, which has the name once
    have hhas := h.mem_of_known hknown
    rw [HasWh, ← (isWhName_eq hwh).1] at hhas
    exact absurd hhas hnew
  | @whiteout ino t mem hwh hino =>
    rw [h.shwh] at hino
    have hgives := auIno_ok h.sized hino
    have hname : whPfx ++ e.name.drop whPfx.length = e.name := (isWhName_eq hwh).1.symm
    refine ⟨rfl, h.whiteout (w := ⟨e.name.drop whPfx.length, arg.bindex, ino, e.type⟩) hwh hname
      ⟨?_, ?_, hgives.lt, htype⟩ rfl rfl hgives.sized fun _ _ ho => ho.setJiffy jiffies⟩
    · show 0 < (whPfx ++ e.name.drop whPfx.length).length
      rw [hname]
      exact hpos
    · show (whPfx ++ e.name.drop whPfx.length).length ≤ 255
      rw [hname]
      exact hle

theorem noted_keeps : FillvdirKeeps A fullNameHash jiffies (Noted A fullNameHash) where
  flags := fun _ _ h => ⟨h.shwh, h.listed, h.placed, h.names, h.fits, h.sized⟩
  bindex := fun h _ => ⟨h.shwh, h.listed, h.placed, h.names, h.fits, h.sized⟩
  step := fun h hpos hle htype hnew hfill herr => h.step hpos hle htype hnew hfill herr

theorem noted_start {v : Vdir} {sb : Sbinfo} (hv : IsOpen A v [] []) (hsb : InoSized A sb) (mem : Kmem) :
    Noted A fullNameHash (fun _ => [])
      ⟨v, fun _ => .empty, fun _ => .empty, 0, false, true, 0, sb, mem⟩ where
  shwh := rfl
  listed := ⟨[], [], hv, fun _ h => absurd h List.not_mem_nil⟩
  placed := fun _ => Buckets.placed_empty _ _
  names := fun _ => by rw [noted, Buckets.elems_empty]; exact List.Perm.refl _
  fits := fun _ _ h => by rw [noted, Buckets.elems_empty] at h; exact absurd h List.not_mem_nil
  sized := hsb

end Step

/-! ## The whiteouts appended -/

theorem appendWhs_spec : ∀ {whs : List Wh} {bindex : Nat} {arg arg' : FillvdirArg} {bs : List (List De)}
    {last : List De}, IsOpen A arg.vdir bs last → (∀ w ∈ whs, w.de.Fits A) →
    appendWhs A fullNameHash bindex whs arg = (0, arg') →
    arg'.whlist = arg.whlist ∧ ∃ bs' last', IsOpen A arg'.vdir bs' last' ∧
      (bs' ++ [last']).flatten = (bs ++ [last]).flatten ++ whs.map Wh.de
  | [], _, arg, arg', bs, last, hopen, _, happ => by
    obtain rfl := congrArg Prod.snd happ
    exact ⟨rfl, bs, last, hopen, (List.append_nil _).symm⟩
  | w :: whs, bindex, arg, arg', bs, last, hopen, hfits, happ => by
    rw [appendWhs] at happ
    obtain ⟨a, ha⟩ : ∃ a, a = appendDe A fullNameHash arg.vdir ⟨whPfx ++ w.name, w.ino, w.type⟩
        (arg.delist bindex) arg.mem := ⟨_, rfl⟩
    simp only [← ha] at happ
    by_cases h0 : a.1 = 0
    · rw [if_neg (not_not.mpr h0)] at happ
      obtain ⟨⟨bs₁, last₁, hopen₁, hflat₁⟩, -⟩ := appendDe_spec hopen (hfits w List.mem_cons_self)
        (ha.symm.trans (Prod.ext h0 rfl))
      obtain ⟨hwhlist, bs', last', hopen', hflat'⟩ := appendWhs_spec hopen₁
        (fun w' hw' => hfits w' (List.mem_cons_of_mem w hw')) happ
      refine ⟨hwhlist, bs', last', hopen', ?_⟩
      rw [hflat', hflat₁, List.append_assoc]
      rfl
    · rw [if_pos h0] at happ
      exact absurd (congrArg Prod.fst happ) h0

/-- **`au_handle_shwh`** appends the lists of the branches, one after the other. -/
theorem handleShwh_spec : ∀ {count bindex : Nat} {arg arg' : FillvdirArg} {bs : List (List De)}
    {last : List De}, IsOpen A arg.vdir bs last → (∀ b, ∀ de ∈ noted (arg.whlist b), de.Fits A) →
    handleShwh A fullNameHash count bindex arg = (0, arg') →
    ∃ bs' last', IsOpen A arg'.vdir bs' last' ∧ (bs' ++ [last']).flatten =
      (bs ++ [last]).flatten ++ (List.range' bindex count).flatMap fun b => noted (arg.whlist b)
  | 0, _, arg, arg', bs, last, hopen, _, hres => by
    obtain rfl := congrArg Prod.snd hres
    exact ⟨bs, last, hopen, (List.append_nil _).symm⟩
  | count + 1, bindex, arg, arg', bs, last, hopen, hfits, hres => by
    rw [handleShwh] at hres
    obtain ⟨a, ha⟩ : ∃ a, a = appendWhs A fullNameHash bindex
        ((List.range nhashSize).flatMap (arg.whlist bindex)) arg := ⟨_, rfl⟩
    simp only [← ha] at hres
    by_cases h0 : a.1 = 0
    · rw [if_neg (not_not.mpr h0)] at hres
      obtain ⟨hwhlist, bs₁, last₁, hopen₁, hflat₁⟩ := appendWhs_spec hopen
        (fun w hw => hfits bindex w.de (List.mem_map_of_mem hw)) (ha.symm.trans (Prod.ext h0 rfl))
      obtain ⟨bs', last', hopen', hflat'⟩ := handleShwh_spec hopen₁
        (by rw [hwhlist]; exact hfits) hres
      refine ⟨bs', last', hopen', ?_⟩
      rw [hflat', hflat₁, hwhlist, List.range'_succ, List.flatMap_cons, List.append_assoc]
      rfl
    · rw [if_pos h0] at hres
      exact absurd (congrArg Prod.fst hres) h0

/-! ## The listing -/

/-- The whiteouts of the branches of a directory, one branch after the other. -/
def allWhNames (file : DirFile) : List Name :=
  (List.range' file.fbstart (file.fbend + 1 - file.fbstart)).flatMap fun b => whNames (file.entries b)

theorem auHandleShwh_ok {bstart bend : Nat} {arg arg' : FillvdirArg}
    (h : auHandleShwh A fullNameHash bstart bend arg = (0, arg')) :
    handleShwh A fullNameHash (bend + 1 - bstart) bstart { arg with mem := (kmalloc arg.mem).2 } = (0, arg') := by
  rw [auHandleShwh] at h
  by_cases ho : (kmalloc arg.mem).1.isNone
  · rw [if_pos ho] at h
    exact absurd (congrArg Prod.fst h) negENOMEM_ne_zero
  · rwa [if_neg ho] at h

theorem filter_whNames (es : List DirEnt) : (whNames es).filter isWhName = whNames es :=
  List.filter_eq_self.mpr fun _ h => (List.mem_filter.mp h).2

/-- **The whiteouts listed** are those of all branches, each as often as branches have it. -/
theorem auDoReadVdir_whiteouts {file : DirFile} {v v' : Vdir} {sb sb' : Sbinfo} {mem mem' : Kmem}
    (hv : IsOpen A v [] []) (hsb : InoSized A sb) (hstream : ∀ b, Stream (file.entries b))
    (hread : auDoReadVdir A fullNameHash jiffies true file v sb mem = .ok (0, v', sb', mem')) :
    (((listing A v').map De.name).filter isWhName).Perm (allWhNames file) := by
  obtain ⟨arg, h, hres⟩ := noted_keeps.read hstream (fun mem => noted_start hv hsb mem) hread
  obtain ⟨bs, last, hopen, hplain⟩ := h.listed
  obtain ⟨r, hr⟩ : ∃ r, r = auHandleShwh A fullNameHash file.fbstart file.fbend arg := ⟨_, rfl⟩
  rw [if_pos rfl, ← hr] at hres
  have h0 : r.1 = 0 := (congrArg Prod.fst hres).symm
  have hvdir : r.2.vdir = v' := (congrArg (fun x => x.2.1) hres).symm
  have hopen₀ : IsOpen A ({ arg with mem := (kmalloc arg.mem).2 } : FillvdirArg).vdir bs last := hopen
  obtain ⟨bs', last', hopen', hflat'⟩ := handleShwh_spec hopen₀ h.fits
    (auHandleShwh_ok (hr.symm.trans (Prod.ext h0 rfl)))
  rw [hvdir] at hopen'
  have hnone : ((bs ++ [last]).flatten.map De.name).filter isWhName = [] := by
    rw [List.filter_eq_nil_iff]
    intro n hn
    obtain ⟨de, hde, rfl⟩ := List.mem_map.mp hn
    rw [hplain de hde]
    exact Bool.false_ne_true
  rw [hopen'.built.listing_eq, hflat', List.map_append, List.filter_append, hnone, List.nil_append,
    List.map_flatMap, List.filter_flatMap]
  apply List.Perm.flatMap_left
  intro b _
  have hperm := (h.names b).filter isWhName
  rwa [filter_whNames] at hperm

/-- A whiteout is among those of a branch iff the branch has it. -/
theorem mem_whNames {E : Nat → List DirEnt} {b : Nat} {n : Name} (hn : 0 < n.length) :
    whPfx ++ n ∈ whNames (E b) ↔ HasWh E b n := by
  rw [whNames, List.mem_filter, isWhName_append hn, List.mem_map]
  exact and_iff_left rfl

theorem mem_allWhNames {file : DirFile} {n : Name} (hn : 0 < n.length) :
    whPfx ++ n ∈ allWhNames file ↔ ∃ b, HasWh file.entries b n := by
  rw [allWhNames, List.mem_flatMap]
  constructor
  · rintro ⟨b, -, hmem⟩
    exact ⟨b, (mem_whNames hn).mp hmem⟩
  · rintro ⟨b, hwh⟩
    refine ⟨b, ?_, (mem_whNames hn).mpr hwh⟩
    obtain ⟨e, he, -⟩ := hwh
    rw [DirFile.entries] at he
    split at he
    · rename_i hrange
      exact List.mem_range'_1.mpr ⟨hrange.1, by omega⟩
    · cases he

/-- Each whiteout of the branches is there once iff no name is whited out on two. -/
theorem nodup_allWhNames_iff {file : DirFile} (hstream : ∀ b, Stream (file.entries b)) :
    (allWhNames file).Nodup ↔ ∀ n, 0 < n.length → ∀ b b', HasWh file.entries b n →
      HasWh file.entries b' n → b = b' := by
  have hrange : ∀ {n : Name} {b : Nat}, HasWh file.entries b n →
      b ∈ List.range' file.fbstart (file.fbend + 1 - file.fbstart) := by
    rintro n b ⟨e, he, -⟩
    rw [DirFile.entries] at he
    split at he
    · rename_i hrange
      exact List.mem_range'_1.mpr ⟨hrange.1, by omega⟩
    · cases he
  rw [allWhNames, List.nodup_flatMap]
  constructor
  · rintro ⟨-, hdisjoint⟩ n hn b b' hb hb'
    by_contra hne
    have hsymm : Std.Symm (Function.onFun List.Disjoint fun b => whNames (file.entries b)) :=
      ⟨fun _ _ hd _ h h' => hd h' h⟩
    exact hdisjoint.forall (hrange hb) (hrange hb') hne ((mem_whNames hn).mpr hb)
      ((mem_whNames hn).mpr hb')
  · intro honce
    refine ⟨fun b _ => (hstream b).nodup.filter _, ?_⟩
    have hnodup : (List.range' file.fbstart (file.fbend + 1 - file.fbstart)).Nodup := List.nodup_range'
    apply hnodup.pairwise_of_forall_ne
    intro b _ b' _ hne n hb hb'
    obtain ⟨hname, hn⟩ := isWhName_eq (List.mem_filter.mp hb).2
    rw [hname] at hb hb'
    exact hne (honce _ hn b b' ((mem_whNames hn).mp hb) ((mem_whNames hn).mp hb'))

/-- The same name whited out on both branches. -/
def twoWhiteouts : DirFile where
  fbstart := 0
  fbend := 1
  hFptr := fun b => some ⟨0, [([⟨whPfx ++ [98], 2 + b, 8⟩], 0)]⟩

theorem twoWhiteouts_stream (b : Nat) : Stream (twoWhiteouts.entries b) := by
  rw [DirFile.entries]
  split
  · have hone : ∀ e ∈ [(⟨whPfx ++ [98], 2 + b, 8⟩ : DirEnt)], e.name = whPfx ++ [98] ∧ e.type = 8 :=
      fun e he => List.mem_singleton.mp he ▸ ⟨rfl, rfl⟩
    refine ⟨fun e he => ?_, fun e he => ?_, fun e he => ?_, List.nodup_singleton _⟩
    · rw [(hone e he).1]
      decide
    · rw [(hone e he).1]
      decide
    · rw [(hone e he).2]
      decide
  · exact ⟨by decide, by decide, by decide, by decide⟩

end KernelPatches.Aufs
