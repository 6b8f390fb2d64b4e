/-
  Slots: what the table says, without the memory behind it.

  A SLOT is one page of the device: absent, a page of zeros, a whole page, or packed into an object of
  the pool.  `Rep A n r g` says that the state `r` represents the slots `g 0 … g (n-1)`: the
  table holds their entries, their objects are exactly the live objects of the pool and their pages
  exactly the pages taken for storage (two ledgers), and memory holds their data.

  Two things happen to slots:

  * `freePage_spec` — a slot becomes absent;
  * `storePage_spec` — an absent slot becomes zero, whole or packed, or stays absent.

  Both say what becomes of the statistics; everything about the device follows from these two.
-/
import KernelPatches.Lib.Ledger
import KernelPatches.Ramzswap.Counters
import KernelPatches.Xvmalloc.Objects

namespace KernelPatches.Ramzswap

open KernelPatches.Lib KernelPatches.Lib.Mem KernelPatches.Xvmalloc

/-! ## Slots -/

/-- One page of the device. -/
inductive Slot where
  | absent
  | zero
  | whole (page : Nat) (data : List UInt8)
  | packed (loc : Loc) (bytes : List UInt8)

namespace Slot

/-- The slot's table entry. -/
def entry : Slot → TableEntry
  | absent => ⟨0, 0, 0⟩
  | zero => ⟨0, 0, 2⟩
  | whole p _ => ⟨p, 0, 1⟩
  | packed a _ => ⟨a.pagenum, a.offset, 0⟩

/-- The flags of the entry tell the slots apart. -/
theorem entry_zero_iff (s : Slot) : s.entry.flags.testBit RzsPageflags.zero.bit = true ↔ s = zero := by
  cases s <;> simp [entry, RzsPageflags.bit] <;> decide

theorem entry_uncompressed_iff (s : Slot) :
    s.entry.flags.testBit RzsPageflags.uncompressed.bit = true ↔ ∃ p d, s = whole p d := by
  cases s <;> simp [entry, RzsPageflags.bit]

/-- The pool's object the slot owns. -/
def obj : Slot → Option Obj
  | packed a c => some ⟨a, c.length⟩
  | _ => none

/-- The whole page the slot owns. -/
def page : Slot → Option Nat
  | whole p _ => some p
  | _ => none

/-- The length of what is stored. -/
def len : Slot → Nat
  | whole _ _ => pageSize
  | packed _ c => c.length
  | _ => 0

/-- Memory holds the slot's data. -/
def Holds (m : Mem) : Slot → Prop
  | whole p d => d.length = pageSize ∧ m.copyOut p 0 pageSize = d
  | packed a c => m.copyOut a.pagenum a.offset c.length = c
  | _ => True

/-- The bytes the slot's data is in. -/
def Area : Slot → Nat → Nat → Prop
  | whole p _, q, _ => q = p
  | packed a c, q, k => (Obj.mk a c.length).Bytes q k
  | _, _, _ => False

theorem Holds.congr {m m' : Mem} {s : Slot} (h : s.Holds m)
    (hag : ∀ q k, s.Area q k → m' q k = m q k) : s.Holds m' := by
  cases s with
  | absent => trivial
  | zero => trivial
  | whole p d => exact ⟨h.1, (copyOut_congr (fun _ _ _ => hag _ _ rfl)).trans h.2⟩
  | packed a c =>
    exact (copyOut_congr (fun _ h1 h2 => hag _ _ ⟨rfl, h1, h2⟩)).trans h

/-- What the slot adds to a counter. -/
def weight : Counter → Slot → Nat
  | .comprSize, s => s.len
  | .pagesStored, whole _ _ => 1
  | .pagesStored, packed _ _ => 1
  | .pagesZero, zero => 1
  | .pagesExpand, whole _ _ => 1
  | .goodCompress, packed _ c => if c.length < pageSize / 2 + 1 then 1 else 0
  | _, _ => 0

theorem weight_absent (k : Counter) : weight k absent = 0 := by cases k <;> rfl

end Slot

/-- The state represents the slots `g` below `n`. -/
structure Rep (A : Arch) (n : Nat) (r : Rzs) (g : Nat → Slot) : Prop where
  pool : Ok A ⟨r.memPool, r.objects⟩
  table : ∀ i < n, r.table i = (g i).entry
  objects : Ledger n (fun i => (g i).obj) r.objects
  pages : Ledger n (fun i => (g i).page) r.store
  apart : ∀ p ∈ r.store, p ≠ 0 ∧ p < 2 ^ 32 ∧ p ∉ r.memPool.pages
  data : ∀ i < n, (g i).Holds r.memPool.mem

/-- The settings made at initialisation. -/
def SameConfig (r r' : Rzs) : Prop :=
  r'.memlimit = r.memlimit ∧ r'.disksize = r.disksize ∧ r'.backingSwap = r.backingSwap ∧
    r'.maxCpageSize = r.maxCpageSize

theorem SameConfig.refl (r : Rzs) : SameConfig r r := ⟨rfl, rfl, rfl, rfl⟩

theorem SameConfig.trans {r r' r'' : Rzs} (h : SameConfig r r') (h' : SameConfig r' r'') :
    SameConfig r r'' :=
  ⟨h'.1.trans h.1, h'.2.1.trans h.2.1, h'.2.2.1.trans h.2.2.1, h'.2.2.2.trans h.2.2.2⟩

/-- A live object's place fits a table entry, and its size can be read back. -/
theorem live_loc {A : Arch} {c : Client} (h : Ok A c) {b : Obj} (hb : b ∈ c.live) :
    b.loc.pagenum ≠ 0 ∧ b.loc.pagenum < 2 ^ 32 ∧ b.loc.offset + b.size ≤ pageSize ∧
      b.loc.pagenum ∈ c.st.pages ∧ xvGetObjectSize c.st.mem b.loc = b.size := by
  obtain ⟨lay, L, hInv, hlive⟩ := h
  have hsafe := safe_of_live hInv hlive hb
  obtain ⟨h0, hlt⟩ := hInv.shape.pageOk _ hsafe.page
  exact ⟨h0, hlt, hsafe.inside, hsafe.page, hsafe.size⟩

section Rep

variable {A : Arch} {n i : Nat} {r r' : Rzs} {g : Nat → Slot} {s : Slot}

/-- Reading a function of the slots after one of them changed. -/
theorem slot_update {α : Type*} (f : Slot → α) (g : Nat → Slot) (i : Nat) (s : Slot) :
    (fun j => f (Function.update g i s j)) = Function.update (fun j => f (g j)) i (f s) := by
  funext j
  rcases eq_or_ne j i with rfl | hji
  · rw [Function.update_self, Function.update_self]
  · rw [Function.update_of_ne hji, Function.update_of_ne hji]

namespace Rep

/-- The bytes a slot's data is in are in a page of the pool or of the storage pages. -/
theorem area_page (h : Rep A n r g) (hi : i < n) {q k : Nat} (hk : (g i).Area q k) :
    (q ∈ r.memPool.pages ∧ ∃ b ∈ r.objects, (g i).obj = some b ∧ b.Bytes q k) ∨
      (q ∈ r.store ∧ (g i).page = some q) := by
  rcases hg : g i with _ | _ | ⟨p, d⟩ | ⟨a, c⟩
  · rw [hg] at hk
    exact absurd hk id
  · rw [hg] at hk
    exact absurd hk id
  · rw [hg] at hk
    obtain rfl : q = p := hk
    exact Or.inr ⟨h.pages.mem hi (congrArg Slot.page hg), rfl⟩
  · rw [hg] at hk
    have hb : (⟨a, c.length⟩ : Obj) ∈ r.objects := h.objects.mem hi (congrArg Slot.obj hg)
    have hpage := (live_loc h.pool hb).2.2.2.1
    obtain ⟨hq, _, _⟩ := id hk
    exact Or.inl ⟨hq ▸ hpage, _, hb, rfl, hk⟩

/-- A change of one slot. -/
theorem update (h : Rep A n r g) (hi : i < n) (hpool : Ok A ⟨r'.memPool, r'.objects⟩)
    (htable : r'.table = Function.update r.table i s.entry)
    (hobjects : Ledger n (Function.update (fun j => (g j).obj) i s.obj) r'.objects)
    (hpages : Ledger n (Function.update (fun j => (g j).page) i s.page) r'.store)
    (hapart : ∀ p ∈ r'.store, p ≠ 0 ∧ p < 2 ^ 32 ∧ p ∉ r'.memPool.pages)
    (hself : s.Holds r'.memPool.mem)
    (hother : ∀ j < n, j ≠ i → (g j).Holds r'.memPool.mem) :
    Rep A n r' (Function.update g i s) where
  pool := hpool
  table := by
    intro j hj
    rw [htable]
    rcases eq_or_ne j i with rfl | hji
    · rw [Function.update_self, Function.update_self]
    · rw [Function.update_of_ne hji, Function.update_of_ne hji]
      exact h.table j hj
  objects := by rwa [slot_update]
  pages := by rwa [slot_update]
  apart := hapart
  data := by
    intro j hj
    rcases eq_or_ne j i with rfl | hji
    · rwa [Function.update_self]
    · rw [Function.update_of_ne hji]
      exact hother j hj hji

/-- Statistics are not part of the representation. -/
theorem stats (h : Rep A n r g) (st : RamzswapStats) : Rep A n { r with stats := st } g :=
  ⟨h.pool, h.table, h.objects, h.pages, h.apart, h.data⟩

end Rep

/-! ## Freeing a slot -/

/-- The flag helpers' index is the index itself, for tables a `u32` can index. -/
theorem testFlag_eq (h32 : i < 2 ^ 32) (flag : RzsPageflags) :
    testFlag r i flag = (r.table i).flags.testBit flag.bit := by
  rw [testFlag, u32, Nat.mod_eq_of_lt h32]

theorem clearFlag_eq (h32 : i < 2 ^ 32) (flag : RzsPageflags) :
    clearFlag r i flag =
      modifyEntry r i fun e => { e with flags := clearBit 8 e.flags flag.bit } := by
  rw [clearFlag, u32, Nat.mod_eq_of_lt h32]

theorem setFlag_eq (h32 : i < 2 ^ 32) (flag : RzsPageflags) :
    setFlag r i flag = modifyEntry r i fun e => { e with flags := setBit e.flags flag.bit } := by
  rw [setFlag, u32, Nat.mod_eq_of_lt h32]

/-- The flags as the helpers see them. -/
theorem Rep.testFlag_zero (h : Rep A n r g) (hi : i < n) (h32 : i < 2 ^ 32) :
    testFlag r i .zero = true ↔ g i = .zero := by
  rw [testFlag_eq h32, h.table i hi, Slot.entry_zero_iff]

theorem Rep.testFlag_uncompressed (h : Rep A n r g) (hi : i < n) (h32 : i < 2 ^ 32) :
    testFlag r i .uncompressed = true ↔ ∃ p d, g i = .whole p d := by
  rw [testFlag_eq h32, h.table i hi, Slot.entry_uncompressed_iff]

/-- An entry without a page is that of an absent or a zero slot. -/
theorem Rep.pagenum_eq_zero (h : Rep A n r g) (hi : i < n) :
    (r.table i).pagenum = 0 ↔ g i = .absent ∨ g i = .zero := by
  rw [h.table i hi]
  rcases hg : g i with _ | _ | ⟨p, d⟩ | ⟨a, c⟩
  · simp [Slot.entry]
  · simp [Slot.entry]
  · simpa [Slot.entry] using (h.apart p (h.pages.mem hi (congrArg Slot.page hg))).1
  · simpa [Slot.entry] using (live_loc h.pool (h.objects.mem hi (congrArg Slot.obj hg))).1

/-- The data of the other slots survives a change outside it. -/
theorem Rep.data_of_ne (h : Rep A n r g) {m : Mem}
    (hag : ∀ j < n, j ≠ i → ∀ q k, (g j).Area q k → m q k = r.memPool.mem q k) :
    ∀ j < n, j ≠ i → (g j).Holds m :=
  fun j hj hji => (h.data j hj).congr (hag j hj hji)

/-- The end of `ramzswap_free_page` touches the entry and the statistics only. -/
theorem freeOut_config (A : Arch) (i clen : Nat) (r : Rzs) : SameConfig r (freeOut A i clen r) :=
  ⟨rfl, rfl, rfl, rfl⟩

@[simp] theorem freeOut_memPool (A : Arch) (i clen : Nat) (r : Rzs) :
    (freeOut A i clen r).memPool = r.memPool := rfl

@[simp] theorem freeOut_store (A : Arch) (i clen : Nat) (r : Rzs) :
    (freeOut A i clen r).store = r.store := rfl

@[simp] theorem freeOut_table (A : Arch) (i clen : Nat) (r : Rzs) : (freeOut A i clen r).table =
    Function.update r.table i { r.table i with pagenum := 0, offset := 0 } := rfl

theorem pageSize_le_mod (A : Arch) : pageSize ≤ 2 ^ A.bitsPerLong := by
  rcases A.bitsPerLong_eq with hA | hA <;> rw [hA] <;> decide

/-- The counters after a whole page is freed. -/
theorem freed_whole_stats (A : Arch) (r : Rzs) (p : Nat) (d : List UInt8) (k : Counter) :
    (statSub A .pagesStored 1 (statSub A .comprSize pageSize
        (statSub A .pagesExpand 1 r))).stats k.field + Slot.weight k (.whole p d) ≡
      r.stats k.field [MOD k.mod A] := by
  cases k <;> simp only [statSub_apply, Counter.field, Counter.mod, reduceCtorEq, if_true, if_false]
  case comprSize => exact sub_modEq _ (pageSize_le_mod A)
  case pagesStored => exact sub_modEq _ Nat.one_le_two_pow
  case pagesExpand => exact sub_modEq _ Nat.one_le_two_pow
  all_goals exact Nat.ModEq.refl _

/-- The counters after an object is freed. -/
theorem freed_packed_stats (A : Arch) (r : Rzs) (a : Loc) {c : List UInt8} (hc : c.length ≤ pageSize)
    (k : Counter) :
    (statSub A .pagesStored 1 (statSub A .comprSize c.length
        (statDecIfLess A .goodCompress c.length (pageSize / 2 + 1) r))).stats k.field +
      Slot.weight k (.packed a c) ≡ r.stats k.field [MOD k.mod A] := by
  cases k <;> simp only [statSub_apply, statDecIfLess, Counter.field, Counter.mod, reduceCtorEq,
    if_true, if_false]
  case comprSize => exact sub_modEq _ (hc.trans (pageSize_le_mod A))
  case pagesStored => exact sub_modEq _ Nat.one_le_two_pow
  case goodCompress =>
    refine sub_modEq _ (le_trans ?_ Nat.one_le_two_pow)
    split <;> omega
  all_goals exact Nat.ModEq.refl _

/-- What freeing slot `i` of `r` does. -/
structure Freed (A : Arch) (n i : Nat) (r : Rzs) (g : Nat → Slot) (r' : Rzs) : Prop where
  rep : Rep A n r' (Function.update g i .absent)
  stats : ∀ k : Counter, r'.stats k.field + (g i).weight k ≡ r.stats k.field [MOD k.mod A]
  range : InRange A r.stats → InRange A r'.stats
  config : SameConfig r r'
  pool : ∀ p ∈ r'.memPool.pages, p ∈ r.memPool.pages
  store : ∀ p ∈ r'.store, p ∈ r.store

theorem freePage_absent (h : Rep A n r g) (hi : i < n) (h32 : i < 2 ^ 32)
    (hg : g i = .absent) : ramzswapFreePage A i r = some r ∧ Freed A n i r g r := by
  have hpage : (r.table i).pagenum = 0 := (h.pagenum_eq_zero hi).mpr (Or.inl hg)
  have hflag : ¬ testFlag r i .zero = true := by
    rw [h.testFlag_zero hi h32, hg]
    exact fun hc => nomatch hc
  refine ⟨(if_pos hpage).trans (if_neg hflag), ⟨?_, fun k => ?_, id, SameConfig.refl r,
    fun _ hp => hp, fun _ hp => hp⟩⟩
  · rwa [← hg, Function.update_eq_self]
  · rw [hg, Slot.weight_absent]
    exact Nat.ModEq.refl _

theorem freePage_zero (h : Rep A n r g) (hi : i < n) (h32 : i < 2 ^ 32) (hg : g i = .zero) :
    ∃ r', ramzswapFreePage A i r = some r' ∧ Freed A n i r g r' := by
  have hpage : (r.table i).pagenum = 0 := (h.pagenum_eq_zero hi).mpr (Or.inr hg)
  have hflag : testFlag r i .zero = true := (h.testFlag_zero hi h32).mpr hg
  have hentry : r.table i = ⟨0, 0, 2⟩ := (h.table i hi).trans (congrArg Slot.entry hg)
  have hrep : Rep A n (clearFlag r i .zero) (Function.update g i .absent) := by
    rw [clearFlag_eq h32]
    refine h.update hi h.pool ?_ (h.objects.keep (congrArg Slot.obj hg))
      (h.pages.keep (congrArg Slot.page hg)) h.apart trivial (fun j hj _ => h.data j hj)
    rw [modifyEntry, hentry]
    rfl
  refine ⟨_, (if_pos hpage).trans (if_pos hflag), ⟨hrep.stats _, fun k => ?_,
    fun hr => InRange.statSub A _ _ _ hr, SameConfig.refl r, fun _ hp => hp, fun _ hp => hp⟩⟩
  rw [hg]
  cases k <;> simp only [statDec, statSub_apply, Counter.field, Counter.mod, reduceCtorEq, if_true,
    if_false]
  case pagesZero => exact sub_modEq _ Nat.one_le_two_pow
  all_goals exact Nat.ModEq.refl _

theorem freePage_whole (h : Rep A n r g) (hi : i < n) (h32 : i < 2 ^ 32) {p : Nat}
    {d : List UInt8} (hg : g i = .whole p d) :
    ∃ r', ramzswapFreePage A i r = some r' ∧ Freed A n i r g r' := by
  have hpage : ¬ (r.table i).pagenum = 0 := by
    rw [h.pagenum_eq_zero hi, hg]
    exact fun hc => hc.elim (fun hc => nomatch hc) (fun hc => nomatch hc)
  have hflag : testFlag r i .uncompressed = true := (h.testFlag_uncompressed hi h32).mpr ⟨p, d, hg⟩
  have hentry : r.table i = ⟨p, 0, 1⟩ := (h.table i hi).trans (congrArg Slot.entry hg)
  have hpn : (r.table i).pagenum = p := by rw [hentry]
  refine ⟨_, (if_neg hpage).trans (if_pos hflag), ⟨?_, ?_, ?_, ?_, ?_, ?_⟩⟩
  · rw [hpn, clearFlag_eq h32]
    refine h.update hi h.pool ?_ (h.objects.keep (congrArg Slot.obj hg))
      (h.pages.take hi (congrArg Slot.page hg))
      (fun q hq => h.apart q (List.mem_of_mem_erase hq)) trivial (fun j hj _ => h.data j hj)
    rw [freeOut_table]
    simp only [statDec, statSub, modifyEntry, Function.update_idem, Function.update_self, hentry]
    rfl
  · rw [hg]
    exact freed_whole_stats A _ p d
  · exact fun hr => InRange.statSub A _ _ _ (InRange.statSub A _ _ _ (InRange.statSub A _ _ _ hr))
  · refine SameConfig.trans ?_ (freeOut_config _ _ _ _)
    exact ⟨rfl, rfl, rfl, rfl⟩
  · rw [freeOut_memPool]
    exact fun _ hp => hp
  · rw [freeOut_store, hpn]
    exact fun _ hp => List.mem_of_mem_erase hp

/-- The path through `ramzswap_free_page` for an object. -/
theorem freePage_of_packed {a : Loc} {size : Nat} {pool : XvState}
    (hpage : (r.table i).pagenum ≠ 0) (hflag : ¬ testFlag r i .uncompressed = true)
    (hloc : (⟨(r.table i).pagenum, (r.table i).offset⟩ : Loc) = a)
    (hsize : xvGetObjectSize r.memPool.mem a = size)
    (hfree : xvFree A a.pagenum a.offset r.memPool = some pool) :
    ramzswapFreePage A i r = some (freeOut A i size
      (statDecIfLess A .goodCompress size (pageSize / 2 + 1)
        { r with memPool := pool, objects := r.objects.erase ⟨a, size⟩ })) := by
  subst hloc
  refine (if_neg hpage).trans ((if_neg hflag).trans ?_)
  rw [hfree, hsize]

theorem freePage_packed (h : Rep A n r g) (hi : i < n) (h32 : i < 2 ^ 32) {a : Loc}
    {c : List UInt8} (hg : g i = .packed a c) :
    ∃ r', ramzswapFreePage A i r = some r' ∧ Freed A n i r g r' := by
  have hentry : r.table i = ⟨a.pagenum, a.offset, 0⟩ := (h.table i hi).trans (congrArg Slot.entry hg)
  have hobj : (g i).obj = some ⟨a, c.length⟩ := congrArg Slot.obj hg
  have hb : (⟨a, c.length⟩ : Obj) ∈ r.objects := h.objects.mem hi hobj
  have hpage : ¬ (r.table i).pagenum = 0 := by
    rw [h.pagenum_eq_zero hi, hg]
    exact fun hc => hc.elim (fun hc => nomatch hc) (fun hc => nomatch hc)
  have hflag : ¬ testFlag r i .uncompressed = true := by
    rw [h.testFlag_uncompressed hi h32, hg]
    rintro ⟨_, _, hc⟩
    exact nomatch hc
  have hloc : (⟨(r.table i).pagenum, (r.table i).offset⟩ : Loc) = a := by rw [hentry]
  obtain ⟨pool, hfree, hok⟩ := h.pool.free hb
  obtain ⟨hpages, hag⟩ := h.pool.free_frame hb hfree
  refine ⟨_, freePage_of_packed hpage hflag hloc (live_loc h.pool hb).2.2.2.2 hfree,
    ⟨?_, ?_, ?_, ?_, ?_, ?_⟩⟩
  · refine h.update hi hok ?_ (h.objects.take hi hobj) (h.pages.keep (congrArg Slot.page hg)) ?_ trivial
      (h.data_of_ne ?_)
    · rw [freeOut_table]
      simp only [statDecIfLess, statSub, hentry]
      rfl
    · exact fun p hp => ⟨(h.apart p hp).1, (h.apart p hp).2.1,
        fun hc => (h.apart p hp).2.2 (hpages p hc)⟩
    · intro j hj hji q k hk
      rcases h.area_page hj hk with ⟨_, b, hbl, hbj, hbytes⟩ | ⟨hq, _⟩
      · -- another object of the pool
        obtain ⟨lay, L, hInv, hlive⟩ := h.pool
        refine step_bytes hInv hlive hbl (Step.free hb hfree) ?_ (fun _ hc => nomatch hc) hbytes
        intro hc
        obtain rfl := Call.free.inj hc
        exact hji (h.objects.inj j hj i hi _ hbj hobj)
      · -- a storage page
        exact hag q k ((h.apart q hq).2.2)
  · have hlen := (live_loc h.pool hb).2.2.1
    rw [hg]
    exact freed_packed_stats A _ a (Nat.le_of_add_left_le hlen)
  · exact fun hr => InRange.statSub A _ _ _ (InRange.statSub A _ _ _ (InRange.statSub A _ _ _ hr))
  · refine SameConfig.trans ?_ (freeOut_config _ _ _ _)
    exact ⟨rfl, rfl, rfl, rfl⟩
  · rw [freeOut_memPool]
    exact hpages
  · rw [freeOut_store]
    exact fun _ hp => hp

/-- **`ramzswap_free_page`** makes the slot absent, whatever it was. -/
theorem freePage_spec (h : Rep A n r g) (hi : i < n) (h32 : i < 2 ^ 32) :
    ∃ r', ramzswapFreePage A i r = some r' ∧ Freed A n i r g r' := by
  rcases hg : g i with _ | _ | ⟨p, d⟩ | ⟨a, c⟩
  · exact ⟨r, freePage_absent h hi h32 hg⟩
  · obtain ⟨r', hr'⟩ := freePage_zero h hi h32 hg
    exact ⟨r', hr'⟩
  · obtain ⟨r', hr'⟩ := freePage_whole h hi h32 hg
    exact ⟨r', hr'⟩
  · exact freePage_packed h hi h32 hg

/-! ## Filling a slot -/

section Memstore

variable (A : Arch) (bio : Bio) (i offset : Nat) (src : List UInt8) (r : Rzs)

theorem memstore_config : SameConfig r (memstore A bio i offset src r).2 := ⟨rfl, rfl, rfl, rfl⟩

theorem memstore_objects : (memstore A bio i offset src r).2.objects = r.objects := rfl

theorem memstore_store : (memstore A bio i offset src r).2.store = r.store := rfl

theorem memstore_table : (memstore A bio i offset src r).2.table =
    Function.update r.table i { r.table i with offset := offset % 2 ^ 16 } := rfl

theorem memstore_memPool : (memstore A bio i offset src r).2.memPool =
    { r.memPool with
      mem := r.memPool.mem.copyIn (r.table i).pagenum (offset % 2 ^ 16) src } := by
  simp only [memstore, statIncIfLess, statInc, statAdd, modifyEntry, Function.update_self]

theorem memstore_stats : (memstore A bio i offset src r).2.stats =
    (statIncIfLess A .goodCompress src.length (pageSize / 2 + 1)
      (statAdd A .pagesStored 1 (statAdd A .comprSize src.length r))).stats := rfl

theorem memstore_range (h : InRange A r.stats) :
    InRange A (memstore A bio i offset src r).2.stats := by
  rw [memstore_stats]
  exact InRange.statAdd A _ _ _ (InRange.statAdd A _ _ _ (InRange.statAdd A _ _ _ h))

end Memstore

/-- The page is none of the device's. -/
def FreshPage (r : Rzs) (p : Nat) : Prop :=
  p ≠ 0 ∧ p < 2 ^ 32 ∧ p ∉ r.memPool.pages ∧ p ∉ r.store

/-- What the slot is once `ramzswap_write` has filled it, and how the request ends. -/
inductive Written (A : Arch) (bio : Bio) (compressed : Option (List UInt8)) (r : Rzs) :
    Slot → IoResult → Prop
  | zero (hzero : pageZeroFilled bio.data = true) :
      Written A bio compressed r .zero (.endio bio.data)
  | whole {p : Nat} (hback : r.backingSwap = false) :
      Written A bio compressed r (.whole p bio.data) (.endio bio.data)
  | packed {a : Loc} {c : List UInt8} (hc : compressed = some c) (hlen : c.length ≤ r.maxCpageSize)
      (hlimit : r.backingSwap = true → r.stats .comprSize ≤ sub A.bitsPerLong r.memlimit pageSize) :
      Written A bio compressed r (.packed a c) (.endio bio.data)
  | forwarded (hback : r.backingSwap = true) : Written A bio compressed r .absent .forward
  | failed : Written A bio compressed r .absent .ioError

/-- What filling slot `i` of `r` does. -/
structure Filled (A : Arch) (n i : Nat) (bio : Bio) (compressed : Option (List UInt8)) (r : Rzs)
    (g : Nat → Slot) (s : Slot) (res : IoResult × Rzs) : Prop where
  rep : Rep A n res.2 (Function.update g i s)
  stats : ∀ k : Counter, res.2.stats k.field ≡ r.stats k.field + s.weight k [MOD k.mod A]
  range : InRange A r.stats → InRange A res.2.stats
  config : SameConfig r res.2
  written : Written A bio compressed r s res.1

section Fill

variable {bio : Bio} {compressed : Option (List UInt8)} {page : Option Nat}

/-- A page of zeros becomes a flag. -/
theorem fill_zero (h : Rep A n r g) (hi : i < n) (h32 : i < 2 ^ 32) (hg : g i = .absent)
    (hzero : pageZeroFilled bio.data = true) :
    Filled A n i bio compressed r g .zero
      (.endio bio.data, setFlag (statInc A .pagesZero r) i .zero) := by
  have hentry : r.table i = ⟨0, 0, 0⟩ := (h.table i hi).trans (congrArg Slot.entry hg)
  have hstats : (setFlag (statInc A .pagesZero r) i .zero).stats = (statAdd A .pagesZero 1 r).stats :=
    rfl
  refine ⟨?_, fun k => ?_, fun hr => hstats ▸ InRange.statAdd A _ _ r hr, SameConfig.refl r, .zero hzero⟩
  · rw [setFlag_eq h32]
    refine h.update hi h.pool ?_ (h.objects.keep (congrArg Slot.obj hg))
      (h.pages.keep (congrArg Slot.page hg)) h.apart trivial (fun j hj _ => h.data j hj)
    simp only [modifyEntry, statInc, statAdd, hentry]
    rfl
  · cases k <;> simp only [hstats, statAdd_apply, Counter.field, Counter.mod, reduceCtorEq, if_true,
      if_false]
    case pagesZero => exact Nat.mod_modEq _ _
    all_goals exact Nat.ModEq.refl _

/-- Nothing is stored. -/
theorem fill_absent (h : Rep A n r g) (hg : g i = .absent) {res : IoResult} {st : RamzswapStats}
    (hst : SameStored r { r with stats := st }) (hw : Written A bio compressed r .absent res) :
    Filled A n i bio compressed r g .absent (res, { r with stats := st }) := by
  refine ⟨?_, fun k => ?_, fun hr k => (hst k).symm ▸ hr k, SameConfig.refl r, hw⟩
  · rw [← hg, Function.update_eq_self]
    exact h.stats st
  · rw [Slot.weight_absent, hst k]
    exact Nat.ModEq.refl _

/-- A page is stored as it is. -/
theorem fill_whole (h : Rep A n r g) (hi : i < n) (h32 : i < 2 ^ 32) (hg : g i = .absent)
    {p : Nat} (hp : FreshPage r p) (hback : r.backingSwap = false) :
    Filled A n i bio compressed r g (.whole p bio.data) (storeUncompressed A bio i p r) := by
  obtain ⟨h0, hlt, hpool, hstore⟩ := hp
  obtain ⟨r1, hr1, hstep⟩ : ∃ r1, r1 = modifyEntry (statInc A .pagesExpand
      (setFlag { r with store := p :: r.store } i .uncompressed)) i (fun e => { e with pagenum := p }) ∧
      storeUncompressed A bio i p r = memstore A bio i 0 bio.data r1 := ⟨_, rfl, rfl⟩
  rw [hstep]
  have hentry : r.table i = ⟨0, 0, 0⟩ := (h.table i hi).trans (congrArg Slot.entry hg)
  have htable1 : r1.table = Function.update r.table i ⟨p, 0, 1⟩ := by
    rw [hr1, setFlag_eq h32]
    simp only [modifyEntry, statInc, statAdd, Function.update_idem, Function.update_self, hentry]
    rfl
  have hpool1 : r1.memPool = r.memPool := by rw [hr1]; rfl
  have hobjects1 : r1.objects = r.objects := by rw [hr1]; rfl
  have hstore1 : r1.store = p :: r.store := by rw [hr1]; rfl
  have hstats1 : r1.stats = (statAdd A .pagesExpand 1 r).stats := by
    rw [hr1]
    rfl
  have hconfig1 : SameConfig r r1 := by
    rw [hr1]
    exact ⟨rfl, rfl, rfl, rfl⟩
  have hag : AgreeOff (fun q _ => q = p) r.memPool.mem (r.memPool.mem.copyIn p 0 bio.data) :=
    AgreeOff.copyIn (fun _ _ _ => rfl)
  have hcell : r1.table i = ⟨p, 0, 1⟩ := by rw [htable1, Function.update_self]
  refine ⟨h.update hi ?_ ?_ ?_ ?_ ?_ ⟨bio.data_length, ?_⟩ (h.data_of_ne ?_), ?_, ?_, hconfig1.trans (memstore_config A bio i 0 bio.data r1), .whole hback⟩
  · rw [memstore_memPool, memstore_objects, hpool1, hobjects1, hcell]
    exact h.pool.write (hag.mono (fun q _ hq => Or.inl (hq ▸ hpool)))
  · rw [memstore_table, hcell, htable1, Function.update_idem]
    rfl
  · rw [memstore_objects, hobjects1]
    exact h.objects.keep (congrArg Slot.obj hg)
  · rw [memstore_store, hstore1]
    exact h.pages.put hi (congrArg Slot.page hg) hstore
  · rw [memstore_store, memstore_memPool, hstore1, hpool1]
    intro q hq
    rcases List.mem_cons.mp hq with rfl | hq
    · exact ⟨h0, hlt, hpool⟩
    · exact h.apart q hq
  · rw [memstore_memPool, hpool1, hcell]
    have hcopy := copyOut_copyIn r.memPool.mem p 0 bio.data
    rwa [bio.data_length] at hcopy
  · intro j hj _ q k hk
    rw [memstore_memPool, hpool1, hcell]
    refine hag q k ?_
    rintro rfl
    rcases h.area_page hj hk with ⟨hq, _⟩ | ⟨hq, _⟩
    · exact hpool hq
    · exact hstore hq
  · have hbig : ¬ pageSize < pageSize / 2 + 1 := by decide
    intro k
    rw [memstore_stats]
    cases k <;> simp only [statIncIfLess, statAdd_apply, hstats1, Counter.field, Counter.mod,
      reduceCtorEq, if_true, if_false, bio.data_length, if_neg hbig]
    case goodCompress => exact Nat.mod_modEq _ _
    case pagesZero => exact Nat.ModEq.refl _
    all_goals exact Nat.mod_modEq _ _
  · intro hr
    refine memstore_range A bio i 0 bio.data r1 ?_
    rw [hstats1]
    exact InRange.statAdd A .pagesExpand 1 r hr

/-- A page is stored in an object of the pool. -/
theorem fill_packed (h : Rep A n r g) (hi : i < n) (hg : g i = .absent) {a : Loc}
    {c : List UInt8} {pool : XvState} (hpage : ∀ p, page = some p → FreshPage r p)
    (hmalloc : xvMalloc A c.length false page r.memPool = (0, a, pool))
    (hok : Ok A ⟨pool, ⟨a, c.length⟩ :: r.objects⟩)
    (hpages : ∀ p ∈ pool.pages, p ∈ r.memPool.pages ∨ page = some p)
    (hag : AgreeOff (fun q _ => q ∈ r.memPool.pages ∨ page = some q) r.memPool.mem pool.mem)
    (hw : Written A bio compressed r (.packed a c) (.endio bio.data)) {r1 : Rzs}
    (hr1 : r1 = modifyEntry { r with memPool := pool, objects := ⟨a, c.length⟩ :: r.objects } i
      fun e => { e with pagenum := a.pagenum }) :
    Filled A n i bio compressed r g (.packed a c)
      (memstore A bio i a.offset c r1) := by
  have hentry : r.table i = ⟨0, 0, 0⟩ := (h.table i hi).trans (congrArg Slot.entry hg)
  have htable1 : r1.table = Function.update r.table i ⟨a.pagenum, 0, 0⟩ := by
    rw [hr1]
    simp only [modifyEntry, hentry]
  have hpool1 : r1.memPool = pool := by rw [hr1]; rfl
  have hobjects1 : r1.objects = ⟨a, c.length⟩ :: r.objects := by rw [hr1]; rfl
  have hstore1 : r1.store = r.store := by rw [hr1]; rfl
  have hstats1 : r1.stats = r.stats := by rw [hr1]; rfl
  have hconfig1 : SameConfig r r1 := by
    rw [hr1]
    exact ⟨rfl, rfl, rfl, rfl⟩
  have hcell : r1.table i = ⟨a.pagenum, 0, 0⟩ := by rw [htable1, Function.update_self]
  obtain ⟨_, _, hoff, hapage, _⟩ := live_loc hok List.mem_cons_self
  have hoffset : a.offset % 2 ^ 16 = a.offset := by
    have hle : a.offset ≤ pageSize := Nat.le_of_add_right_le hoff
    exact Nat.mod_eq_of_lt (Nat.lt_of_le_of_lt hle (by decide))
  have hnew : (⟨a, c.length⟩ : Obj) ∉ r.objects := by
    obtain ⟨_, _, _, hlive⟩ := hok
    exact (List.nodup_cons.mp hlive.nodup).1
  have hown : AgreeOff (Obj.mk a c.length).Bytes pool.mem
      (pool.mem.copyIn a.pagenum a.offset c) :=
    AgreeOff.copyIn (fun _ h1 h2 => ⟨rfl, h1, h2⟩)
  have hstep : Step A ⟨r.memPool, r.objects⟩ (.malloc c.length false page)
      ⟨pool, ⟨a, c.length⟩ :: r.objects⟩ := by
    have hfresh : ∀ p, page = some p → Fresh r.memPool p :=
      fun p hp => ⟨(hpage p hp).1, (hpage p hp).2.1, (hpage p hp).2.2.1⟩
    have hs : Step A ⟨r.memPool, r.objects⟩ (.malloc c.length false page) _ := .malloc hfresh
    simpa only [Client.malloc, hmalloc, if_true] using hs
  refine ⟨h.update hi ?_ ?_ ?_ (hstore1 ▸ h.pages.keep (congrArg Slot.page hg)) ?_ ?_
    (h.data_of_ne ?_), ?_, ?_, hconfig1.trans (memstore_config A bio i a.offset c r1), hw⟩
  · rw [memstore_memPool, memstore_objects, hpool1, hobjects1, hcell, hoffset]
    exact hok.write (hown.mono (fun q k hk => Or.inr ⟨_, List.mem_cons_self, hk⟩))
  · rw [memstore_table, hcell, htable1, Function.update_idem, hoffset]
    rfl
  · rw [memstore_objects, hobjects1]
    exact h.objects.put hi (congrArg Slot.obj hg) hnew
  · rw [memstore_store, memstore_memPool, hstore1, hpool1]
    intro q hq
    refine ⟨(h.apart q hq).1, (h.apart q hq).2.1, fun hc => ?_⟩
    rcases hpages q hc with hc | hc
    · exact (h.apart q hq).2.2 hc
    · exact (hpage q hc).2.2.2 hq
  · rw [memstore_memPool, hpool1, hcell, hoffset]
    exact copyOut_copyIn pool.mem a.pagenum a.offset c
  · intro j hj hji q k hk
    rw [memstore_memPool, hpool1, hcell, hoffset]
    rcases h.area_page hj hk with ⟨_, b, hb, _, hbytes⟩ | ⟨hq, _⟩
    · -- another object: neither `xv_malloc` nor the copy touches it
      obtain ⟨lay', L', hInv', hlive'⟩ := hok
      have hsafe := safe_of_live (b := ⟨a, c.length⟩) hInv' hlive' List.mem_cons_self
      have hne : b ≠ ⟨a, c.length⟩ := fun he => hnew (he ▸ hb)
      have hcopy := hown q k (hsafe.others b (List.mem_cons_of_mem _ hb) hne q k hbytes)
      obtain ⟨lay, L, hInv, hlive⟩ := h.pool
      exact hcopy.trans (step_bytes hInv hlive hb hstep (fun hc => by cases hc)
        (fun _ hc => by cases hc) hbytes)
    · -- a storage page
      have hqpool : ¬ (q ∈ r.memPool.pages ∨ page = some q) := by
        rintro (hc | hc)
        · exact (h.apart q hq).2.2 hc
        · exact (hpage q hc).2.2.2 hq
      refine (hown q k ?_).trans (hag q k hqpool)
      rintro ⟨hc, _⟩
      exact hqpool (hpages q (hc ▸ hapage))
  · intro k
    rw [memstore_stats]
    cases k <;> simp only [statIncIfLess, statAdd_apply, hstats1, Counter.field, Counter.mod,
      reduceCtorEq, if_true, if_false]
    case pagesZero => exact Nat.ModEq.refl _
    case pagesExpand => exact Nat.ModEq.refl _
    all_goals exact Nat.mod_modEq _ _
  · exact fun hr => memstore_range A bio i a.offset c r1 (hstats1.symm ▸ hr)

/-- The page is compressed into an object of the pool, or the pool cannot hold it. -/
theorem storeCompressed_spec (h : Rep A n r g) (hi : i < n) (hg : g i = .absent) {c : List UInt8}
    (hpage : ∀ p, page = some p → FreshPage r p) (hmax : r.maxCpageSize ≤ 4088)
    (hc : compressed = some c) (hlen : c.length ≤ r.maxCpageSize)
    (hlimit : r.backingSwap = true → r.stats .comprSize ≤ sub A.bitsPerLong r.memlimit pageSize) :
    ∃ s, Filled A n i bio compressed r g s (storeCompressed A bio i c page r) := by
  have hfresh : ∀ p, page = some p → Fresh r.memPool p :=
    fun p hp => ⟨(hpage p hp).1, (hpage p hp).2.1, (hpage p hp).2.2.1⟩
  rcases h.pool.malloc_small false (hlen.trans hmax) hfresh with
    hm | ⟨a, pool, hm, hok, hpages, hag⟩
  · -- the entry's page number is overwritten with the zero it already holds
    have hsame : modifyEntry { r with memPool := r.memPool, objects := r.objects } i
        (fun e => { e with pagenum := Loc.null.pagenum }) = r := by
      have hzero : ({ r.table i with pagenum := Loc.null.pagenum } : TableEntry) = r.table i := by
        rw [h.table i hi, hg]
        rfl
      exact congrArg (fun t => { r with table := t })
        ((congrArg (Function.update r.table i) hzero).trans (Function.update_eq_self _ _))
    have hstep : storeCompressed A bio i c page r =
        if r.backingSwap then forwardWrite A (statInc A .failedWrites r)
        else (.ioError, statInc A .failedWrites r) := by
      unfold storeCompressed
      rw [hm]
      simp only [if_neg negENOMEM_ne_zero, hsame]
      exact if_pos negENOMEM_ne_zero
    have hfailed : SameStored r (statInc A .failedWrites r) := sameStored_stats (by decide)
    rw [hstep]
    by_cases hback : r.backingSwap = true
    · rw [if_pos hback]
      exact ⟨.absent, fill_absent h hg (hfailed.trans (sameStored_stats (by decide))) (.forwarded hback)⟩
    · rw [if_neg hback]
      exact ⟨.absent, fill_absent h hg hfailed .failed⟩
  · have hstep : storeCompressed A bio i c page r = memstore A bio i a.offset c
        (modifyEntry { r with memPool := pool, objects := ⟨a, c.length⟩ :: r.objects } i
          fun e => { e with pagenum := a.pagenum }) := by
      unfold storeCompressed
      rw [hm]
      exact if_neg (fun hc => hc rfl)
    rw [hstep]
    exact ⟨_, fill_packed h hi hg hpage hm hok hpages hag (.packed hc hlen hlimit) rfl⟩

/-- **`ramzswap_write`** fills an absent slot, or leaves it absent. -/
theorem storePage_spec (bio : Bio) (compressed : Option (List UInt8)) (h : Rep A n r g) (hi : i < n)
    (h32 : i < 2 ^ 32) (hg : g i = .absent)
    (hpage : ∀ p, page = some p → FreshPage r p) (hmax : r.maxCpageSize ≤ 4088) :
    ∃ s, Filled A n i bio compressed r g s (storePage A bio i compressed page r) := by
  have hforward (hback : r.backingSwap = true) :
      Filled A n i bio compressed r g .absent (forwardWrite A r) :=
    fill_absent h hg (sameStored_stats (by decide)) (.forwarded hback)
  have hfail : Filled A n i bio compressed r g .absent (.ioError, statInc A .failedWrites r) :=
    fill_absent h hg (sameStored_stats (by decide)) .failed
  unfold storePage
  by_cases hzero : pageZeroFilled bio.data = true
  · rw [if_pos hzero]
    exact ⟨.zero, fill_zero h hi h32 hg hzero⟩
  rw [if_neg hzero]
  by_cases hlimit : r.backingSwap = true ∧
      r.stats .comprSize > sub A.bitsPerLong r.memlimit pageSize
  · rw [if_pos hlimit]
    exact ⟨.absent, hforward hlimit.1⟩
  rw [if_neg hlimit]
  rcases compressed with _ | c
  · exact ⟨.absent, hfail⟩
  by_cases hlen : c.length > r.maxCpageSize
  · simp only [if_pos hlen]
    by_cases hback : r.backingSwap = true
    · rw [if_pos hback]
      exact ⟨.absent, hforward hback⟩
    rw [if_neg hback]
    rcases page with _ | p
    · exact ⟨.absent, hfail⟩
    · exact ⟨_, fill_whole h hi h32 hg (hpage p rfl) (Bool.eq_false_iff.mpr hback)⟩
  · simp only [if_neg hlen]
    exact storeCompressed_spec h hi hg hpage hmax rfl (Nat.le_of_not_lt hlen)
      (fun hback => Nat.le_of_not_lt fun hgt => hlimit ⟨hback, hgt⟩)

end Fill

end Rep

end KernelPatches.Ramzswap
