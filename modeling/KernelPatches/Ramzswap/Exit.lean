/-
  `ramzswap_exit`: what it gives back, and by which routine.

  Exit frees the page of entry 0 first, without a look at the entry: init put the swap header there.  The other
  entries it reads: nothing for an entry without a page, `__free_page` for a whole page, `xv_free` for an
  object.  But entry 0 is an entry like the others to `ramzswap_write` and to the notification, and once the
  header is overwritten its page number is that of no whole page any more.

  * `ramzswapExit`        — the code, with the list of its calls;
  * `Leaving`             — what is left to free when the loop comes to entry `i`;
  * `exitLoop_spec`       — what the loop frees and what is left are what there was;
  * `exit_releases_iff`   — exit frees exactly what is in use if and only if entry 0 is a whole page still.
-/
import KernelPatches.Ramzswap.Device

namespace KernelPatches.Ramzswap

open KernelPatches.Lib KernelPatches.Xvmalloc

/-! ## The code -/

/-- A call that frees storage. -/
inductive Release where
  | freePage (pagenum : Nat)
  | xvFree (loc : Loc)
  deriving DecidableEq, Repr

/-- `ramzswap_exit`, the body of its loop. -/
def exitEntry (A : Arch) (index : Nat) (r : Rzs) : Option (List Release × Rzs) :=
  let pagenum := (r.table index).pagenum
  let offset := (r.table index).offset
  if pagenum = 0 then some ([], r)
  else if testFlag r index .uncompressed then
    some ([.freePage pagenum], { r with store := r.store.erase pagenum })
  else
    match xvFree A pagenum offset r.memPool with
    | none => none
    | some pool =>
      let clen := xvGetObjectSize r.memPool.mem ⟨pagenum, offset⟩
      some ([.xvFree ⟨pagenum, offset⟩],
        { r with memPool := pool, objects := r.objects.erase ⟨⟨pagenum, offset⟩, clen⟩ })

/-- `ramzswap_exit`, its loop over `count` entries from `index` on. -/
def exitLoop (A : Arch) : Nat → Nat → Rzs → Option (List Release × Rzs)
  | 0, _, r => some ([], r)
  | count + 1, index, r =>
    match exitEntry A index r with
    | none => none
    | some (rel, r) =>
      match exitLoop A count (index + 1) r with
      | none => none
      | some (rels, r) => some (rel ++ rels, r)

/-- `ramzswap_exit`, as to storage: its calls in order, and what it leaves. -/
def ramzswapExit (A : Arch) (r : Rzs) : Option (List Release × Rzs) :=
  let pagenum := (r.table 0).pagenum
  match exitLoop A (numPages r.disksize - 1) 1 { r with store := r.store.erase pagenum } with
  | none => none
  | some (rels, r) => some (.freePage pagenum :: rels, r)

/-- What has to be freed: each whole page by `__free_page`, each object by `xv_free`. -/
def owned (r : Rzs) : List Release :=
  r.store.map .freePage ++ r.objects.map fun b => .xvFree b.loc

/-- Exit frees all that is in use, each thing once and by its routine, and leaves nothing. -/
def Released (A : Arch) (r : Rzs) : Prop :=
  ∃ rels r', ramzswapExit A r = some (rels, r') ∧ rels.Perm (owned r) ∧ r'.store = [] ∧ r'.objects = []

/-! ## The loop -/

/-- Exit has come to entry `i`: what is in use is what the slots `g` from there on own. -/
structure Leaving (A : Arch) (n i : Nat) (r : Rzs) (g : Nat → Slot) : Prop where
  pool : Ok A ⟨r.memPool, r.objects⟩
  table : ∀ j, i ≤ j → j < n → r.table j = (g j).entry
  objects : Ledger n (fun j => (g j).obj) r.objects
  pages : Ledger n (fun j => (g j).page) r.store
  valid : ∀ p ∈ r.store, p ≠ 0
  done : ∀ j < i, g j = .absent
  far : ∀ j, 2 ^ 32 ≤ j → g j = .absent

section Loop

variable {A : Arch} {n i : Nat} {r : Rzs} {g : Nat → Slot}

/-- Entry `i` is done with. -/
theorem Leaving.next {r' : Rzs} (h : Leaving A n i r g) (hpool : Ok A ⟨r'.memPool, r'.objects⟩)
    (htable : r'.table = r.table)
    (hobjects : Ledger n (Function.update (fun j => (g j).obj) i none) r'.objects)
    (hpages : Ledger n (Function.update (fun j => (g j).page) i none) r'.store)
    (hstore : ∀ p ∈ r'.store, p ∈ r.store) :
    Leaving A n (i + 1) r' (Function.update g i .absent) where
  pool := hpool
  table := by
    intro j hij hj
    rw [htable, Function.update_of_ne (by omega)]
    exact h.table j (by omega) hj
  objects := by
    rw [slot_update]
    exact hobjects
  pages := by
    rw [slot_update]
    exact hpages
  valid := fun p hp => h.valid p (hstore p hp)
  done := by
    intro j hj
    rcases Nat.eq_or_lt_of_le (Nat.le_of_lt_succ hj) with rfl | hlt
    · exact Function.update_self _ _ _
    · rw [Function.update_of_ne (Nat.ne_of_lt hlt)]
      exact h.done j hlt
  far := by
    intro j hj
    rcases eq_or_ne j i with rfl | hji
    · exact Function.update_self _ _ _
    · rw [Function.update_of_ne hji]
      exact h.far j hj

/-- A page freed is one less in use. -/
theorem owned_erase_page {p : Nat} (hp : p ∈ r.store) :
    (owned r).Perm (.freePage p :: owned { r with store := r.store.erase p }) :=
  ((List.perm_cons_erase hp).map Release.freePage).append_right _

/-- An object freed is one less in use. -/
theorem owned_erase_object {b : Obj} {pool : XvState} (hb : b ∈ r.objects) :
    (owned r).Perm (.xvFree b.loc :: owned { r with memPool := pool, objects := r.objects.erase b }) :=
  (((List.perm_cons_erase hb).map fun b => Release.xvFree b.loc).append_left _).trans List.perm_middle

/-- **One entry**: what is freed and what is left are what there was. -/
theorem exitEntry_spec (h : Leaving A n i r g) (hi : i < n) : ∃ rel r',
    exitEntry A i r = some (rel, r') ∧ Leaving A n (i + 1) r' (Function.update g i .absent) ∧
      (owned r).Perm (rel ++ owned r') := by
  have hentry := h.table i (Nat.le_refl i) hi
  have hnone : (g i).obj = none → (g i).page = none → (r.table i).pagenum = 0 → ∃ rel r',
      exitEntry A i r = some (rel, r') ∧ Leaving A n (i + 1) r' (Function.update g i .absent) ∧
        (owned r).Perm (rel ++ owned r') := by
    intro hobj hpage h0
    refine ⟨[], r, ?_, h.next h.pool rfl (h.objects.keep hobj) (h.pages.keep hpage) fun _ hp => hp,
      List.Perm.refl _⟩
    rw [exitEntry, if_pos h0]
  rcases hg : g i with _ | _ | ⟨p, d⟩ | ⟨a, c⟩
  · rw [hg] at hnone hentry
    exact hnone rfl rfl (congrArg TableEntry.pagenum hentry)
  · rw [hg] at hnone hentry
    exact hnone rfl rfl (congrArg TableEntry.pagenum hentry)
  · -- a whole page
    have h32 : i < 2 ^ 32 := by
      by_contra hlt
      rw [h.far i (Nat.le_of_not_lt hlt)] at hg
      cases hg
    have hpage : (g i).page = some p := congrArg Slot.page hg
    have hp : p ∈ r.store := h.pages.mem hi hpage
    rw [hg] at hentry
    have hflag : testFlag r i .uncompressed = true := by
      rw [testFlag_eq h32, hentry]
      exact (Slot.entry_uncompressed_iff _).mpr ⟨p, d, rfl⟩
    refine ⟨[.freePage p], { r with store := r.store.erase p }, ?_, h.next h.pool rfl
      (h.objects.keep (congrArg Slot.obj hg)) (h.pages.take hi hpage) fun _ => List.mem_of_mem_erase,
      owned_erase_page hp⟩
    rw [exitEntry, hentry]
    exact (if_neg (h.valid p hp)).trans (if_pos hflag)
  · -- an object
    have h32 : i < 2 ^ 32 := by
      by_contra hlt
      rw [h.far i (Nat.le_of_not_lt hlt)] at hg
      cases hg
    have hobj : (g i).obj = some ⟨a, c.length⟩ := congrArg Slot.obj hg
    have hb : (⟨a, c.length⟩ : Obj) ∈ r.objects := h.objects.mem hi hobj
    rw [hg] at hentry
    have hflag : ¬ testFlag r i .uncompressed = true := by
      rw [testFlag_eq h32, hentry, Slot.entry_uncompressed_iff]
      rintro ⟨_, _, hc⟩
      cases hc
    have hlive := live_loc h.pool hb
    obtain ⟨pool, hfree, hok⟩ := h.pool.free hb
    refine ⟨[.xvFree a], { r with memPool := pool, objects := r.objects.erase ⟨a, c.length⟩ }, ?_,
      h.next hok rfl (h.objects.take hi hobj) (h.pages.keep (congrArg Slot.page hg)) fun _ hp => hp,
      owned_erase_object hb⟩
    have hsize : xvGetObjectSize r.memPool.mem ⟨a.pagenum, a.offset⟩ = c.length := hlive.2.2.2.2
    have hfree' : xvFree A a.pagenum a.offset r.memPool = some pool := hfree
    rw [exitEntry, hentry]
    refine (if_neg hlive.1).trans ((if_neg hflag).trans ?_)
    dsimp only [Slot.entry]
    rw [hfree', hsize]

/-- **The loop**: what it frees and what is left are what there was. -/
theorem exitLoop_spec : ∀ {count i : Nat} {r : Rzs} {g : Nat → Slot}, Leaving A n i r g →
    i + count = n → ∃ rels r' g', exitLoop A count i r = some (rels, r') ∧ Leaving A n n r' g' ∧
      (owned r).Perm (rels ++ owned r')
  | 0, i, r, g, h, hn => ⟨[], r, g, rfl, hn ▸ h, List.Perm.refl _⟩
  | count + 1, i, r, g, h, hn => by
    obtain ⟨rel, r₁, hentry, h₁, hperm₁⟩ := exitEntry_spec h (by omega)
    obtain ⟨rels, r', g', hloop, h', hperm⟩ := exitLoop_spec h₁ (show i + 1 + count = n by omega)
    refine ⟨rel ++ rels, r', g', ?_, h', ?_⟩
    · rw [exitLoop, hentry]
      dsimp only
      rw [hloop]
    · rw [List.append_assoc]
      exact hperm₁.trans (hperm.append_left rel)

/-- At the end nothing is in use. -/
theorem Leaving.nothing (h : Leaving A n n r g) : r.store = [] ∧ r.objects = [] := by
  constructor
  · rw [List.eq_nil_iff_forall_not_mem]
    intro p hp
    obtain ⟨j, hj, hpage⟩ := (h.pages.mem_iff p).mp hp
    rw [h.done j hj] at hpage
    cases hpage
  · rw [List.eq_nil_iff_forall_not_mem]
    intro b hb
    obtain ⟨j, hj, hobj⟩ := (h.objects.mem_iff b).mp hb
    rw [h.done j hj] at hobj
    cases hobj

end Loop

/-! ## Exit -/

section Exit

variable {A : Arch} {n : Nat} {r : Rzs} {g : Nat → Slot}

/-- With a whole page in entry 0, exit frees what is in use. -/
theorem released_of_whole (h : Rep A (numPages r.disksize) r g) (hfar : ∀ j, 2 ^ 32 ≤ j → g j = .absent)
    (hn : 0 < numPages r.disksize) {p : Nat} {d : List UInt8} (hg : g 0 = .whole p d) : Released A r := by
  have hpage : (g 0).page = some p := congrArg Slot.page hg
  have hp : p ∈ r.store := h.pages.mem hn hpage
  have hentry : (r.table 0).pagenum = p := by
    rw [h.table 0 hn, hg]
    rfl
  have hstart : Leaving A (numPages r.disksize) 0 r g :=
    ⟨h.pool, fun j _ hj => h.table j hj, h.objects, h.pages, fun q hq => (h.apart q hq).1,
      fun j hj => absurd hj (Nat.not_lt_zero j), hfar⟩
  have hnext : Leaving A (numPages r.disksize) 1 { r with store := r.store.erase p }
      (Function.update g 0 .absent) :=
    hstart.next h.pool rfl (h.objects.keep (congrArg Slot.obj hg)) (h.pages.take hn hpage)
      fun _ => List.mem_of_mem_erase
  obtain ⟨rels, r', g', hloop, hleft, hperm⟩ := exitLoop_spec hnext
    (show 1 + (numPages r.disksize - 1) = numPages r.disksize by omega)
  obtain ⟨hstore, hobjects⟩ := hleft.nothing
  refine ⟨.freePage p :: rels, r', ?_, ?_, hstore, hobjects⟩
  · rw [ramzswapExit, hentry, hloop]
  · have hnil : owned r' = [] := by
      rw [owned, hstore, hobjects]
      rfl
    rw [hnil, List.append_nil] at hperm
    exact ((owned_erase_page hp).trans (hperm.cons _)).symm

/-- Exit frees, by `__free_page`, the page number of entry 0; so it has to be a page in use. -/
theorem Released.header (h : Released A r) : (r.table 0).pagenum ∈ r.store := by
  obtain ⟨rels, r', hexit, hperm, -⟩ := h
  rw [ramzswapExit] at hexit
  split at hexit
  · cases hexit
  · obtain ⟨rfl, -⟩ := Prod.mk.inj (Option.some.inj hexit)
    rcases List.mem_append.mp (hperm.mem_iff.mp List.mem_cons_self) with hmem | hmem
    · obtain ⟨p, hp, heq⟩ := List.mem_map.mp hmem
      rw [← Release.freePage.inj heq]
      exact hp
    · obtain ⟨b, -, heq⟩ := List.mem_map.mp hmem
      cases heq

/-- A page number in use is that of a whole page. -/
theorem Rep.whole_of_store (h : Rep A n r g) {i : Nat} (hi : i < n) (hp : (r.table i).pagenum ∈ r.store) :
    ∃ p d, g i = .whole p d := by
  have hapart := h.apart _ hp
  rcases hg : g i with _ | _ | ⟨p, d⟩ | ⟨a, c⟩
  · exact absurd ((h.pagenum_eq_zero hi).mpr (Or.inl hg)) hapart.1
  · exact absurd ((h.pagenum_eq_zero hi).mpr (Or.inr hg)) hapart.1
  · exact ⟨p, d, rfl⟩
  · have hb := live_loc h.pool (h.objects.mem hi (congrArg Slot.obj hg))
    rw [h.table i hi, hg] at hapart
    exact absurd hb.2.2.2.1 hapart.2.2

/-- Slots a `u32` cannot index stay as they are. -/
theorem Effect.far {decompress : List UInt8 → Option (List UInt8)} {d d' : Dev} {e : Event}
    {g' : Nat → Slot} (h : Effect A decompress n d g e d' g') (hin : ∀ i, e.index = some i → i < 2 ^ 32)
    {j : Nat} (hj : 2 ^ 32 ≤ j) : g' j = g j := by
  have hne : ∀ i, e.index = some i → j ≠ i := fun i hi => Nat.ne_of_gt (Nat.lt_of_lt_of_le (hin i hi) hj)
  cases h with
  | read hq => rfl
  | write _ _ _ => exact Function.update_of_ne (hne _ rfl) _ _
  | invalid hq => rfl
  | notify _ => exact Function.update_of_ne (hne _ rfl) _ _
  | other _ _ => rfl

end Exit

section Run

variable {A : Arch} {decompress : List UInt8 → Option (List UInt8)} {params : ModuleParams} {r : Rzs}
  {bdev : Nat → List UInt8} {es : List Event} {d : Dev}

/-- **When exit frees what it should**: after a run inside the table, exactly if entry 0 still has a whole
    page, the header's or one written over it. -/
theorem exit_releases_iff (hstart : Started A params r)
    (hrun : Run (Guarded (Step A decompress) InTable) ⟨r, bdev⟩ es d) :
    Released A d.rzs ↔ (d.rzs.table 0).pagenum ≠ 0 ∧ testFlag d.rzs 0 .uncompressed = true := by
  obtain ⟨p, mem, hp0, hp, hs⟩ := hstart.start
  obtain ⟨hconfig, g, hrep, hfar⟩ := run_slots (I := fun _ _ g => ∀ j, 2 ^ 32 ≤ j → g j = .absent) hs hp0 hp
    (fun _ _ h => h)
    (fun j hj => Function.update_of_ne (by omega) _ _)
    (fun _ _ _ _ _ _ _ _ hin heffect hfar j hj =>
      (heffect.far (fun i hi => (hin i hi).2) hj).trans (hfar j hj)) hrun
  have hdisk : d.rzs.disksize = r.disksize := hconfig.2.1
  rw [← hdisk] at hrep
  have hn : 0 < numPages d.rzs.disksize := Nat.pos_of_ne_zero (hdisk ▸ hs.size)
  rw [hrep.testFlag_uncompressed hn (by decide)]
  constructor
  · intro hrel
    exact ⟨(hrep.apart _ hrel.header).1, hrep.whole_of_store hn hrel.header⟩
  · rintro ⟨-, q, data, hg⟩
    exact released_of_whole hrep hfar hn hg

/-- The device of two pages after a write to the second. -/
theorem exit_releases_iff_write : ∃ d, Run (Guarded (Step .lp64 onesLzo) InTable) (smallDev 8192 .empty)
    [onesWrite] d ∧ (Released .lp64 d.rzs ↔
      (d.rzs.table 0).pagenum ≠ 0 ∧ testFlag d.rzs 0 .uncompressed = true) := by
  obtain ⟨d, hs, -⟩ := even_write
  have hrun := Run.nil.snoc hs
  exact ⟨d, hrun, exit_releases_iff even_started hrun⟩

/-- A page of zeros. -/
def zeros : List UInt8 := List.replicate pageSize 0

theorem length_zeros : zeros.length = pageSize := by
  rw [zeros, List.length_replicate]

/-- A request for page 0, and the page of zeros for it. -/
def zerosBio : Bio := ⟨0, 1, pageSize, 0, zeros, length_zeros⟩

theorem zeros_zeroFilled : pageZeroFilled zeros = true := by
  rw [pageZeroFilled, List.all_eq_true]
  intro pos _
  rw [List.all_eq_true]
  intro x hx
  have hx' : x ∈ zeros := List.mem_of_mem_drop (List.mem_of_mem_take hx)
  rw [List.eq_of_mem_replicate hx']
  rfl

/-- A write of zeros leaves a flag in the entry that was emptied. -/
theorem zeros_step {d : Dev} {r₁ : Rzs} (hvalid : validSwapRequest d.rzs zerosBio = true)
    (h : beginWrite .lp64 zerosBio d.rzs = some r₁) :
    Step .lp64 onesLzo d (.write zerosBio none none (.endio zeros))
      ⟨setFlag (statInc .lp64 .pagesZero r₁) 0 .zero, d.bdev⟩ := by
  refine Step.write hvalid (fun _ hc => by cases hc) (fun _ _ _ hp => by cases hp) ((if_pos hvalid).trans ?_)
  have hstore : storePage .lp64 zerosBio 0 none none r₁ =
      (.endio zeros, setFlag (statInc .lp64 .pagesZero r₁) 0 .zero) := if_pos zeros_zeroFilled
  dsimp only
  rw [ramzswapWrite, h, ← hstore]
  rfl

/-- Zeros written over the header of the device of two pages. -/
theorem zeros_write : ∃ e d, Guarded (Step .lp64 onesLzo) InTable (smallDev 8192 .empty) e d ∧
    (d.rzs.table 0).pagenum = 0 := by
  have hres : (beginWrite .lp64 zerosBio (smallDev 8192 .empty).rzs).map
      (fun r => (r.table 0).pagenum) = some 0 := by decide +kernel
  obtain ⟨r₁, hbegin, hpagenum⟩ := Option.map_eq_some_iff.mp hres
  refine ⟨_, _, ⟨fun i hi => ?_, zeros_step (by decide) hbegin⟩, ?_⟩
  · obtain rfl := Option.some.inj hi
    decide
  · exact hpagenum

/-- Not always: with zeros written over the header, exit frees page number 0 by `__free_page`. -/
theorem header_overwritten : ¬ ∀ (A : Arch) (decompress : List UInt8 → Option (List UInt8))
    (params : ModuleParams) (r : Rzs) (bdev : Nat → List UInt8) (es : List Event) (d : Dev),
    Started A params r → Run (Guarded (Step A decompress) InTable) ⟨r, bdev⟩ es d → Released A d.rzs := by
  intro hall
  obtain ⟨e, d, hs, hpagenum⟩ := zeros_write
  have hrun := Run.nil.snoc hs
  have hrel := hall _ _ _ _ _ _ _ even_started hrun
  exact ((exit_releases_iff even_started hrun).mp hrel).1 hpagenum

end Run

end KernelPatches.Ramzswap
