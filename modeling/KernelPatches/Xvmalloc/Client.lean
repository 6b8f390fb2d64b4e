/-
  A pool in use: any sequence of calls, with the owners of the objects writing as they like.

  `Client` is a pool together with the LIVE objects, those `xv_malloc` returned and `xv_free` has not
  taken back.  Between two calls an owner may store anything into its objects, and the rest of the
  kernel anything outside the pool's pages; `Call.write` is any such change of memory.  A run of such
  calls from a fresh pool is what the allocator has to survive.

  * `Ok A c`     — the pool satisfies its invariant and its used blocks are the live objects;
  * `Ok.malloc`, `Ok.free`, `Ok.write` — each call keeps it;
  * `Run.ok`     — so it holds after every run.
-/
import KernelPatches.Lib.Runs
import KernelPatches.Xvmalloc.Free

namespace KernelPatches.Xvmalloc

open KernelPatches.Lib KernelPatches.Lib.Mem

/-! ## Calls -/

/-- An object: what `xv_malloc` returned, and the size asked for. -/
structure Obj where
  loc : Loc
  size : Nat
  deriving DecidableEq, Repr

/-- The object's bytes. -/
def Obj.Bytes (b : Obj) (q k : Nat) : Prop :=
  q = b.loc.pagenum ∧ b.loc.offset ≤ k ∧ k < b.loc.offset + b.size

/-- A pool and its live objects. -/
structure Client where
  st : XvState
  live : List Obj

/-- The bytes a client or the rest of the kernel may write. -/
def Client.Owned (c : Client) (q k : Nat) : Prop := q ∉ c.st.pages ∨ ∃ b ∈ c.live, b.Bytes q k

/-- A call, with what the page allocator answers if it is asked. -/
inductive Call where
  | malloc (size : Nat) (nowait : Bool) (page : Option Nat)
  | free (obj : Obj)
  | write (mem : Mem)

/-- `xv_malloc` as the client sees it: the object is live if the call succeeded. -/
def Client.malloc (A : Arch) (c : Client) (size : Nat) (nowait : Bool) (page : Option Nat) : Client :=
  let (err, loc, st) := xvMalloc A size nowait page c.st
  ⟨st, if err = 0 then ⟨loc, size⟩ :: c.live else c.live⟩

/-- One call. -/
inductive Step (A : Arch) (c : Client) : Call → Client → Prop
  | malloc {size : Nat} {nowait : Bool} {page : Option Nat}
      (hpage : ∀ p, page = some p → Fresh c.st p) :
      Step A c (.malloc size nowait page) (c.malloc A size nowait page)
  | free {b : Obj} {st : XvState} (hlive : b ∈ c.live)
      (hfree : xvFree A b.loc.pagenum b.loc.offset c.st = some st) :
      Step A c (.free b) ⟨st, c.live.erase b⟩
  | write {mem : Mem} (hmem : AgreeOff c.Owned c.st.mem mem) :
      Step A c (.write mem) ⟨{ c.st with mem := mem }, c.live⟩

/-- The pool `xv_create_pool` returns, over any memory. -/
def Client.fresh (mem : Mem) : Client := ⟨xvCreatePool mem, []⟩

/-! ## The invariant -/

/-- The used blocks are the live objects. -/
structure Live (lay : Nat → List Blk) (live : List Obj) : Prop where
  nodup : live.Nodup
  iff : ∀ b, b ∈ live ↔
    ∃ o, b.loc.offset = o + xvAlign ∧ At (lay b.loc.pagenum) o ⟨b.size, false⟩

/-- A pool in use satisfies the invariant. -/
def Ok (A : Arch) (c : Client) : Prop :=
  ∃ lay L, Inv A c.st lay L ∧ Live lay c.live

variable {A : Arch} {c : Client} {lay : Nat → List Blk} {L : Nat → List Loc}

/-- A fresh pool has no page and nothing on its lists. -/
theorem Ok.fresh (A : Arch) (mem : Mem) : Ok A (Client.fresh mem) := by
  refine ⟨fun _ => [], fun _ => [], ⟨?_, ?_, ?_⟩, List.nodup_nil, fun b => ?_⟩
  · exact ⟨List.nodup_nil, fun p hp => absurd hp List.not_mem_nil,
      fun p hp => absurd hp List.not_mem_nil, fun p hp => absurd hp List.not_mem_nil,
      fun _ _ => rfl, rfl⟩
  · refine ⟨fun _ => rfl, fun _ => null_fits, fun _ => trivial, fun _ => List.nodup_nil, ?_, ?_, ?_, ?_,
      (TwoLevel.empty _).congr (fun _ => iff_of_false id (fun h => h rfl))⟩
    · exact fun _ a ha => absurd ha List.not_mem_nil
    · exact fun _ _ a ha => absurd ha List.not_mem_nil
    · exact fun _ _ a _ ha => absurd ha List.not_mem_nil
    · exact fun _ h => absurd rfl h
  · refine fun i a => iff_of_false List.not_mem_nil ?_
    rintro ⟨b, hb, _⟩
    exact not_at_nil _ _ hb
  · refine iff_of_false List.not_mem_nil ?_
    rintro ⟨o, _, hb⟩
    exact not_at_nil _ _ hb

/-! ## Each call keeps it -/

section Malloc

variable {n : Nat} {nowait : Bool} {page : Option Nat} {s : XvState} {res : Int × Loc × XvState}
  {lay' : Nat → List Blk}

/-- The used blocks after one is cut from a free block. -/
theorem used_carve {p sz : Nat} {l r : List Blk} (hlay : lay p = l ++ ([Blk.mk sz true] ++ r))
    (hspan : span Blk.len (carve n sz) = span Blk.len [Blk.mk sz true]) {q k m : Nat} :
    At (Function.update lay p (l ++ (carve n sz ++ r)) q) k ⟨m, false⟩ ↔
      At (lay q) k ⟨m, false⟩ ∨ (q = p ∧ k = span Blk.len l ∧ m = n) := by
  have hin : (k, Blk.mk m false) ∈ place Blk.len (span Blk.len l) (carve n sz) ↔
      k = span Blk.len l ∧ m = n := by
    rw [carve, place_cons, List.mem_cons, Prod.mk.injEq, Blk.mk.injEq, and_iff_left rfl,
      or_iff_left]
    intro hc
    split at hc
    · exact List.not_mem_nil hc
    · exact Bool.noConfusion (Blk.mk.inj (Prod.mk.inj (List.mem_singleton.mp hc)).2).2
  rw [at_update_iff hlay hspan, hin, and_iff_left]
  rintro ⟨_, hc⟩
  exact Bool.noConfusion (Blk.mk.inj (Prod.mk.inj (List.mem_singleton.mp hc)).2).2

/-- The used blocks do not change when a fresh page enters. -/
theorem used_freshPage {p : Nat} (hp : lay p = []) {q k m : Nat} :
    At (Function.update lay p freshPage q) k ⟨m, false⟩ ↔ At (lay q) k ⟨m, false⟩ := by
  by_cases hq : q = p
  · rw [hq, Function.update_self, hp]
    refine iff_of_false ?_ (not_at_nil _ _)
    intro hc
    exact Bool.noConfusion (Blk.mk.inj (Prod.mk.inj (List.mem_singleton.mp hc)).2).2
  · rw [Function.update_of_ne hq]

/-- **The used blocks after `xv_malloc`**: those before, and the new one if the call succeeded. -/
theorem MallocOutcome.used (h : Inv A s lay L) (hout : MallocOutcome n nowait page s lay res lay')
    (hpage : ∀ p, page = some p → Fresh s p) :
    (res.1 ≠ 0 ∧ ∀ q k m, At (lay' q) k ⟨m, false⟩ ↔ At (lay q) k ⟨m, false⟩) ∨
      (res.1 = 0 ∧ ∃ p o, res.2.1 = ⟨p, o + xvAlign⟩ ∧ (∀ m, ¬ At (lay p) o ⟨m, false⟩) ∧
        ∀ q k m, At (lay' q) k ⟨m, false⟩ ↔
          At (lay q) k ⟨m, false⟩ ∨ (q = p ∧ k = o ∧ m = n)) := by
  cases hout with
  | refused => exact Or.inl ⟨negENOMEM_ne_zero, fun _ _ _ => Iff.rfl⟩
  | wasted _ _ hpg =>
    exact Or.inl ⟨negENOMEM_ne_zero, fun _ _ _ => used_freshPage (h.shape.outside _ (hpage _ hpg).2.2)⟩
  | @served p sz l r s' _ hlay hle =>
    have hat : At (lay p) (span Blk.len l) ⟨sz, true⟩ := hlay ▸ at_append_cons l r ⟨sz, true⟩
    refine Or.inr ⟨rfl, p, span Blk.len l, rfl, fun m hm => ?_, fun _ _ _ => ?_⟩
    · exact Bool.noConfusion (Blk.mk.inj (hm.unique hat)).2
    · exact used_carve hlay (span_carve hle (h.shape.free_len hat rfl).1)
  | @servedFresh p s' hn _ hpg =>
    have hnil : lay p = [] := h.shape.outside p (hpage p hpg).2.2
    refine Or.inr ⟨rfl, p, 0, rfl, fun m hm => not_at_nil _ _ (hnil ▸ hm), fun q k m => ?_⟩
    have hle : align n xvAlign ≤ 4092 := by
      rw [align_four]
      omega
    have hlay : Function.update lay p freshPage p = [] ++ ([Blk.mk 4092 true] ++ []) :=
      Function.update_self _ _ _
    have hcut := used_carve (n := n) hlay (span_carve hle rfl) (q := q) (k := k) (m := m)
    rw [Function.update_idem, List.nil_append, List.append_nil, used_freshPage hnil] at hcut
    exact hcut

end Malloc

/-- A live object is a used block. -/
theorem Live.at (h : Live lay c.live) {b : Obj} (hb : b ∈ c.live) :
    xvAlign ≤ b.loc.offset ∧ At (lay b.loc.pagenum) (b.loc.offset - xvAlign) ⟨b.size, false⟩ := by
  obtain ⟨o, ho, hat⟩ := (h.iff b).mp hb
  rw [ho, Nat.add_sub_cancel]
  exact ⟨Nat.le_add_left _ _, hat⟩

/-- The bytes of the live objects are the data of the used blocks. -/
theorem Live.payload_iff (h : Live lay c.live) {q k : Nat} :
    (∃ b ∈ c.live, b.Bytes q k) ↔ Payload lay q k := by
  constructor
  · rintro ⟨b, hb, rfl, h1, h2⟩
    obtain ⟨o, ho, hat⟩ := (h.iff b).mp hb
    rw [ho, xvAlign_eq] at h1 h2
    exact ⟨o, _, hat, rfl, h1, h2⟩
  · rintro ⟨o, ⟨n, fr⟩, hat, rfl, h1, h2⟩
    exact ⟨⟨⟨q, o + xvAlign⟩, n⟩, (h.iff _).mpr ⟨o, rfl, hat⟩, rfl, h1, h2⟩

/-- The live objects after one of them is freed. -/
theorem Live.free (h : Live lay c.live) {b : Obj} {o : Nat} {lay' : Nat → List Blk}
    (ho : b.loc.offset = o + xvAlign) (hat : At (lay b.loc.pagenum) o ⟨b.size, false⟩)
    (hused : ∀ q k m, At (lay' q) k ⟨m, false⟩ ↔
      At (lay q) k ⟨m, false⟩ ∧ ¬ (q = b.loc.pagenum ∧ k = o)) : Live lay' (c.live.erase b) where
  nodup := h.nodup.erase b
  iff := by
    intro d
    rw [h.nodup.mem_erase_iff, h.iff]
    simp only [hused]
    constructor
    · rintro ⟨hne, o', ho', hat'⟩
      refine ⟨o', ho', hat', ?_⟩
      rintro ⟨hp, rfl⟩
      refine hne ?_
      rw [hp] at hat'
      obtain ⟨hsize, _⟩ := Blk.mk.inj (hat'.unique hat)
      obtain ⟨⟨q, k⟩, m⟩ := b
      obtain ⟨⟨q', k'⟩, m'⟩ := d
      simp_all
    · rintro ⟨o', ho', hat', hne⟩
      refine ⟨?_, o', ho', hat'⟩
      rintro rfl
      exact hne ⟨rfl, Nat.add_right_cancel (ho'.symm.trans ho)⟩

/-- Data of used blocks and memory outside the pool may change. -/
theorem Inv.write (h : Inv A c.st lay L) {m : Mem}
    (hag : AgreeOff (fun q k => ¬ Internal c.st lay q k) c.st.mem m) :
    Inv A { c.st with mem := m } lay L where
  shape := h.shape.frame hag (fun _ _ _ hb _ _ hk hn => hn (h.shape.hdr_internal hb _ _ hk)) rfl rfl
  lists := h.lists.frame hag (fun _ _ hk hn => hn (h.shape.linkArea_internal h.sub hk)) rfl rfl rfl
  member := h.member

namespace Ok

theorem malloc (h : Ok A c) {n : Nat} {nowait : Bool} {page : Option Nat}
    (hpage : ∀ p, page = some p → Fresh c.st p) : Ok A (c.malloc A n nowait page) := by
  obtain ⟨lay, L, hInv, hlive⟩ := h
  obtain ⟨lay', L', hout, hInv', _⟩ := xvMalloc_spec hInv n nowait hpage
  have hused := hout.used hInv hpage
  rcases hres : xvMalloc A n nowait page c.st with ⟨err, a, st⟩
  rw [hres] at hused hInv'
  simp only [Client.malloc, hres]
  rcases hused with ⟨herr, hused⟩ | ⟨herr, p, o, rfl, hnew, hused⟩
  · refine ⟨lay', L', hInv', ?_⟩
    simp only [if_neg herr]
    exact ⟨hlive.nodup, fun b => by simp only [hused, hlive.iff]⟩
  · simp only [if_pos herr]
    refine ⟨lay', L', hInv', List.nodup_cons.mpr ⟨fun hb => ?_, hlive.nodup⟩, fun b => ?_⟩
    · exact hnew n (hlive.at hb).2
    · rw [List.mem_cons, hlive.iff]
      simp only [hused]
      constructor
      · rintro (rfl | ⟨o', ho, hat⟩)
        · exact ⟨o, rfl, Or.inr ⟨rfl, rfl, rfl⟩⟩
        · exact ⟨o', ho, Or.inl hat⟩
      · rintro ⟨o', ho, hat | ⟨hp, rfl, hn⟩⟩
        · exact Or.inr ⟨o', ho, hat⟩
        · left
          obtain ⟨⟨q, k⟩, m⟩ := b
          simp only at ho hp hn
          rw [ho, hp, hn]

theorem free (h : Ok A c) {b : Obj} (hb : b ∈ c.live) :
    ∃ st, xvFree A b.loc.pagenum b.loc.offset c.st = some st ∧ Ok A ⟨st, c.live.erase b⟩ := by
  obtain ⟨lay, L, hInv, hlive⟩ := h
  obtain ⟨o, ho, hat⟩ := (hlive.iff b).mp hb
  obtain ⟨st, lay', L', hfree, hInv', hused, _, _⟩ := xvFree_spec hInv hat
  rw [ho]
  exact ⟨st, hfree, lay', L', hInv', hlive.free ho hat hused⟩

theorem write (h : Ok A c) {m : Mem} (hm : AgreeOff c.Owned c.st.mem m) :
    Ok A ⟨{ c.st with mem := m }, c.live⟩ := by
  obtain ⟨lay, L, hInv, hlive⟩ := h
  refine ⟨lay, L, hInv.write (hm.mono ?_), hlive⟩
  rintro q k (hq | hk) ⟨hp, hn⟩
  · exact hq hp
  · exact hn (hlive.payload_iff.mp hk)

/-- A request of at most 4088 bytes does nothing, or returns a new object and writes only in the
    pool's pages and in the page it took. -/
theorem malloc_small (h : Ok A c) (nowait : Bool) {n : Nat} (hn : n ≤ 4088) {page : Option Nat}
    (hpage : ∀ p, page = some p → Fresh c.st p) :
    xvMalloc A n nowait page c.st = (negENOMEM, Loc.null, c.st) ∨
      ∃ a st, xvMalloc A n nowait page c.st = (0, a, st) ∧ Ok A ⟨st, ⟨a, n⟩ :: c.live⟩ ∧
        (∀ p ∈ st.pages, p ∈ c.st.pages ∨ page = some p) ∧
        AgreeOff (fun q _ => q ∈ c.st.pages ∨ page = some q) c.st.mem st.mem := by
  have hok := @Ok.malloc _ _ h n nowait _ hpage
  obtain ⟨lay, L, hInv, hlive⟩ := h
  obtain ⟨_, _, hout, _, hag⟩ := xvMalloc_spec hInv n nowait hpage
  have hag' : AgreeOff (fun q _ => q ∈ c.st.pages ∨ page = some q) c.st.mem
      (xvMalloc A n nowait page c.st).2.2.mem := hag.mono (fun _ _ hk => hk.imp_left And.left)
  rcases hres : xvMalloc A n nowait page c.st with ⟨err, a, st⟩
  rw [hres] at hout hag'
  simp only [Client.malloc, hres] at hok
  cases hout with
  | refused => exact Or.inl rfl
  | wasted hbig => exact absurd hn (Nat.not_le_of_lt hbig.1)
  | served _ _ _ hpages =>
    refine Or.inr ⟨_, st, rfl, hok, fun p hp => Or.inl ?_, hag'⟩
    rwa [hpages] at hp
  | servedFresh _ _ hpg hpages =>
    refine Or.inr ⟨_, st, rfl, hok, fun p hp => ?_, hag'⟩
    rw [hpages] at hp
    rcases List.mem_cons.mp hp with rfl | hp
    · exact Or.inr hpg
    · exact Or.inl hp

/-- Freeing an object writes in the pool's pages only, and takes no page. -/
theorem free_frame (h : Ok A c) {b : Obj} (hb : b ∈ c.live) {st : XvState}
    (hst : xvFree A b.loc.pagenum b.loc.offset c.st = some st) :
    (∀ p ∈ st.pages, p ∈ c.st.pages) ∧ AgreeOff (fun q _ => q ∈ c.st.pages) c.st.mem st.mem := by
  obtain ⟨lay, L, hInv, hlive⟩ := h
  obtain ⟨o, ho, hat⟩ := (hlive.iff b).mp hb
  obtain ⟨st', _, _, hfree, _, _, hpages, hag⟩ := xvFree_spec hInv hat
  rw [← ho] at hfree
  obtain rfl := Option.some.inj (hfree.symm.trans hst)
  refine ⟨fun p hp => ?_, hag.mono ?_⟩
  · rcases hpages with ⟨hpages, _⟩ | hpages
    · rwa [hpages] at hp
    · rw [hpages] at hp
      exact List.mem_of_mem_erase hp
  · rintro q k (hk | ⟨rfl, _⟩)
    · exact hk.1
    · exact hInv.shape.mem_pages hat

/-- Every call keeps the invariant. -/
theorem step (h : Ok A c) {call : Call} {c' : Client} (hs : Step A c call c') : Ok A c' := by
  cases hs with
  | malloc hpage => exact h.malloc hpage
  | free hlive hfree =>
    obtain ⟨st, hst, hok⟩ := h.free hlive
    obtain rfl := Option.some.inj (hst.symm.trans hfree)
    exact hok
  | write hmem => exact h.write hmem

end Ok

/-- **The invariant holds after every run of a fresh pool.** -/
theorem run_ok {mem : Mem} {calls : List Call} (h : Run (Step A) (Client.fresh mem) calls c) : Ok A c :=
  h.inv (Ok.fresh A mem) (fun _ _ _ hok hs => hok.step hs)

end KernelPatches.Xvmalloc
