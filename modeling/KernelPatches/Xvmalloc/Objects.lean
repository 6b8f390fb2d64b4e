/-
  What the allocator promises its clients.

  * `malloc_safe`  — an object just returned lies inside one page of the pool, aligned, apart from every
    header and every other live object; its size can be read back; and nothing the allocator does
    until it is freed writes a byte of it.
  * `malloc_succeeds_iff` — a request that may grow the pool, with a page to be had, succeeds exactly
    up to 4088 bytes: the lookup index of the four sizes above is past the last list.
  * `run_pagesUsed` — the page counter is the number of pages with a live object, as long as no such
    request is made; each one that gets a page keeps it for nothing.
-/
import KernelPatches.Xvmalloc.Pages

namespace KernelPatches.Xvmalloc

open KernelPatches.Lib KernelPatches.Lib.Mem

variable {A : Arch} {c c' : Client} {lay : Nat → List Blk} {L : Nat → List Loc} {b : Obj}

/-! ## Objects are apart -/

/-- The walk of a page is determined by its bytes. -/
theorem Walk.unique {m : Mem} {p : Nat} : ∀ {os : List Nat} {o : Nat} {os' : List Nat},
    Walk m p o os → Walk m p o os' → os = os' := by
  intro os o os' h
  induction h generalizing os' with
  | done =>
    intro h'
    cases h' with
    | done => rfl
    | block ho _ => exact absurd ho (Nat.lt_irrefl _)
  | block ho _ ih =>
    intro h'
    cases h' with
    | done => exact absurd ho (Nat.lt_irrefl _)
    | block _ hrest => rw [ih hrest]

/-- The object `b` of the pool is in order. -/
structure Safe (c : Client) (b : Obj) : Prop where
  page : b.loc.pagenum ∈ c.st.pages
  aligned : b.loc.offset % xvAlign = 0
  inside : b.loc.offset + b.size ≤ pageSize
  headers : ∀ os, Walk c.st.mem b.loc.pagenum 0 os →
    ∀ o ∈ os, ∀ q k, InHdr ⟨b.loc.pagenum, o⟩ q k → ¬ b.Bytes q k
  others : ∀ d ∈ c.live, d ≠ b → ∀ q k, d.Bytes q k → ¬ b.Bytes q k
  size : xvGetObjectSize c.st.mem b.loc = b.size

/-- Two live objects in the same block are the same object. -/
theorem Live.eq_of_offset (h : Live lay c.live) {d : Obj} (hb : b ∈ c.live) (hd : d ∈ c.live)
    (hp : d.loc.pagenum = b.loc.pagenum) (ho : d.loc.offset = b.loc.offset) : d = b := by
  have hdat := (h.at hd).2
  rw [hp, ho] at hdat
  obtain ⟨hsize, _⟩ := Blk.mk.inj (hdat.unique (h.at hb).2)
  obtain ⟨⟨q, k⟩, m⟩ := b
  obtain ⟨⟨q', k'⟩, m'⟩ := d
  simp_all

/-- Every live object is in order. -/
theorem safe_of_live (h : Inv A c.st lay L) (hlive : Live lay c.live) (hb : b ∈ c.live) : Safe c b := by
  obtain ⟨hoff, hat⟩ := hlive.at hb
  have hp := h.shape.mem_pages hat
  have hbnd := h.shape.at_bound hat
  have hlen := Blk.len_eq ⟨b.size, false⟩
  have hmod := hat.mod_four
  rw [xvAlign_eq] at hoff hat hbnd hmod
  simp only at hlen
  refine ⟨hp, by rw [xvAlign_eq]; omega, by rw [pageSize_eq]; omega, ?_, ?_, ?_⟩
  · rintro os hwalk o ho q k ⟨_, h1, h2⟩ ⟨_, h3, h4⟩
    rw [hwalk.unique ((h.shape.headers _ hp).walk (by rw [(h.shape.tiled _ hp).total]))] at ho
    obtain ⟨d, hd⟩ := mem_offsets.mp ho
    have hdl := d.len_eq
    simp only at h1 h2
    rcases Nat.lt_trichotomy o (b.loc.offset - 4) with hlt | heq | hgt
    · have := At.disjoint hd hat hlt
      omega
    · omega
    · have := At.disjoint hat hd hgt
      omega
  · rintro d hd hne q k ⟨hqd, h1, h2⟩ ⟨hqb, h3, h4⟩
    obtain ⟨hdoff, hdat⟩ := hlive.at hd
    have hdlen := Blk.len_eq ⟨d.size, false⟩
    rw [xvAlign_eq] at hdoff hdat
    simp only at hdlen
    rw [← hqd, hqb] at hdat
    rcases Nat.lt_trichotomy (d.loc.offset - 4) (b.loc.offset - 4) with hlt | heq | hgt
    · have := hdat.disjoint hat hlt
      omega
    · exact hne (hlive.eq_of_offset hb hd (hqd.symm.trans hqb) (by omega))
    · have := hat.disjoint hdat hgt
      omega
  · exact (h.shape.hdr hat).1

/-- A call of the allocator about something else writes no byte of a live object. -/
theorem step_bytes (h : Inv A c.st lay L) (hlive : Live lay c.live) (hb : b ∈ c.live) {call : Call}
    (hs : Step A c call c') (hfree : call ≠ .free b) (hwrite : ∀ mem, call ≠ .write mem) {q k : Nat}
    (hk : b.Bytes q k) : c'.st.mem q k = c.st.mem q k := by
  have hpay : Payload lay q k := hlive.payload_iff.mp ⟨b, hb, hk⟩
  have hpage : b.loc.pagenum ∈ c.st.pages := h.shape.mem_pages (hlive.at hb).2
  cases hs with
  | @malloc n nowait page hpg =>
    obtain ⟨_, _, _, _, hag⟩ := xvMalloc_spec h n nowait hpg
    refine hag q k ?_
    rintro (hint | hq)
    · exact hint.2 hpay
    · exact (hpg q hq).2.2 (hk.1 ▸ hpage)
  | @free d st hd hst =>
    obtain ⟨o, ho, hat⟩ := (hlive.iff d).mp hd
    obtain ⟨st', _, _, hfree', _, _, _, hag⟩ := xvFree_spec h hat
    rw [← ho] at hfree'
    obtain rfl := Option.some.inj (hfree'.symm.trans hst)
    refine hag q k ?_
    rintro (hint | ⟨hq, h1, h2⟩)
    · exact hint.2 hpay
    · have hne : d ≠ b := fun he => hfree (congrArg Call.free he)
      refine (safe_of_live h hlive hb).others d hd hne q k ⟨hq, ?_, ?_⟩ hk
      · rw [ho]
        exact h1
      · rw [ho]
        exact h2
  | write _ => exact absurd rfl (hwrite _)

/-- An object stays live until it is freed. -/
theorem step_live {call : Call} (hb : b ∈ c.live) (hs : Step A c call c') (hfree : call ≠ .free b) :
    b ∈ c'.live := by
  cases hs with
  | malloc _ =>
    simp only [Client.malloc]
    split
    · exact List.mem_cons_of_mem _ hb
    · exact hb
  | @free d st _ _ =>
    have hne : b ≠ d := fun he => hfree (congrArg Call.free he.symm)
    exact (List.mem_erase_of_ne hne).mpr hb
  | write _ => exact hb

/-- **Objects.**  From the moment `xv_malloc` returns it until it is freed, whatever is called and
    stored in between: the object is in order, and no `xv_malloc` and no `xv_free` of another object
    writes a byte of it. -/
theorem malloc_safe {mem : Mem} {calls calls' : List Call} {n : Nat} {nowait : Bool}
    {page : Option Nat} {a : Loc} {st : XvState} (h : Run (Step A) (Client.fresh mem) calls c)
    (hpage : ∀ p, page = some p → Fresh c.st p) (hok : xvMalloc A n nowait page c.st = (0, a, st))
    (hrun : Run (Step A) (c.malloc A n nowait page) calls' c')
    (hfree : ∀ call ∈ calls', call ≠ .free ⟨a, n⟩) :
    Safe c' ⟨a, n⟩ ∧ ∀ call c'', Step A c' call c'' → call ≠ .free ⟨a, n⟩ →
      (∀ mem, call ≠ .write mem) → ∀ q k, (Obj.mk a n).Bytes q k →
      c''.st.mem q k = c'.st.mem q k := by
  have hstart : ⟨a, n⟩ ∈ (c.malloc A n nowait page).live := by
    simp only [Client.malloc, hok, if_true]
    exact List.mem_cons_self
  have hlive : ⟨a, n⟩ ∈ c'.live :=
    hrun.inv_of (I := fun c => ⟨a, n⟩ ∈ c.live) hfree hstart
      (fun _ _ _ hcall hb hs => step_live hb hs hcall)
  obtain ⟨lay, L, hInv, hl⟩ := run_ok ((h.snoc (.malloc hpage)).append hrun)
  exact ⟨safe_of_live hInv hl hlive,
    fun _ _ hs hfree hwrite _ _ hk => step_bytes hInv hl hlive hs hfree hwrite hk⟩

/-- An object of 100 bytes, right after it was returned. -/
theorem malloc_safe_first : Safe ((Client.fresh (fun _ _ => 0)).malloc .lp64 100 false (some 7))
    ⟨⟨7, 4⟩, 100⟩ := by
  have hrun : Run (Step .lp64) (Client.fresh (fun _ _ => 0)) [] (Client.fresh (fun _ _ => 0)) := Run.nil
  have hok : xvMalloc .lp64 100 false (some 7) (Client.fresh (fun _ _ => 0)).st =
      (0, ⟨7, 4⟩, (xvMalloc .lp64 100 false (some 7) (Client.fresh (fun _ _ => 0)).st).2.2) :=
    Prod.ext (by decide +kernel) (Prod.ext (by decide +kernel) rfl)
  exact (malloc_safe hrun (by simp [Fresh, Client.fresh, xvCreatePool]) hok Run.nil
    (fun _ h => absurd h List.not_mem_nil)).1

/-! ## Which requests succeed -/

/-- A request of a size in range that may grow the pool, with a page to be had, does something. -/
theorem malloc_outcome (h : Inv A c.st lay L) {n p : Nat} (hn : 1 ≤ n ∧ n ≤ xvMaxAllocSize)
    (hp : Fresh c.st p) : ((xvMalloc A n false (some p) c.st).1 = 0 ∧ n ≤ 4088) ∨
      ((xvMalloc A n false (some p) c.st).1 = negENOMEM ∧ 4088 < n ∧
        (xvMalloc A n false (some p) c.st).2.2.pages = p :: c.st.pages) := by
  have hpage : ∀ q, some p = some q → Fresh c.st q := fun q hq => Option.some.inj hq ▸ hp
  obtain ⟨_, _, hout, _⟩ := xvMalloc_spec h n false hpage
  rw [xvMaxAllocSize_eq] at hn
  rcases hres : xvMalloc A n false (some p) c.st with ⟨err, a, st⟩
  rw [hres] at hout
  cases hout with
  | refused hwhy =>
    rcases hwhy with rfl | hbig | hwait | hnone
    · exact absurd hn.1 (Nat.lt_irrefl 0)
    · exact absurd hn.2 (Nat.not_le_of_lt hbig)
    · exact Bool.noConfusion hwait
    · exact nomatch hnone
  | wasted hbig _ hpg hpages =>
    obtain rfl := Option.some.inj hpg
    exact Or.inr ⟨rfl, hbig.1, hpages⟩
  | served hsmall => exact Or.inl ⟨rfl, hsmall.2⟩
  | servedFresh hsmall => exact Or.inl ⟨rfl, hsmall.2⟩

/-- **Which requests succeed**, in any pool, when the pool may grow and there is a page to be had:
    those of up to 4088 bytes, not all those up to XV_MAX_ALLOC_SIZE. -/
theorem malloc_succeeds_iff {mem : Mem} {calls : List Call}
    (h : Run (Step A) (Client.fresh mem) calls c) {n p : Nat} (hn : 1 ≤ n ∧ n ≤ xvMaxAllocSize)
    (hp : Fresh c.st p) : (xvMalloc A n false (some p) c.st).1 = 0 ↔ n ≤ 4088 := by
  obtain ⟨lay, L, hInv, _⟩ := run_ok h
  rcases malloc_outcome hInv hn hp with ⟨herr, hle⟩ | ⟨herr, hgt, _⟩
  · exact iff_of_true herr hle
  · exact iff_of_false (herr ▸ negENOMEM_ne_zero) (Nat.not_le_of_lt hgt)

/-- A fresh pool, 4088 bytes. -/
theorem malloc_succeeds_iff_fresh :
    (xvMalloc .lp64 4088 false (some 7) (xvCreatePool (fun _ _ => 0))).1 = 0 ↔ 4088 ≤ 4088 :=
  malloc_succeeds_iff (A := .lp64) (c := Client.fresh (fun _ _ => 0)) Run.nil (by decide)
    (by simp [Fresh, Client.fresh, xvCreatePool])

/-- Not every size up to XV_MAX_ALLOC_SIZE is served: a fresh pool, 4092 bytes. -/
theorem malloc_max_fails : ¬ ∀ (mem : Mem) (calls : List Call) (c : Client),
    Run (Step .lp64) (Client.fresh mem) calls c → ∀ n p, 1 ≤ n ∧ n ≤ xvMaxAllocSize → Fresh c.st p →
      (xvMalloc .lp64 n false (some p) c.st).1 = 0 := by
  intro hall
  have h := hall (fun _ _ => 0) [] _ Run.nil 4092 7 (by decide)
    (by simp [Fresh, Client.fresh, xvCreatePool])
  have hne : (xvMalloc .lp64 4092 false (some 7) (xvCreatePool (fun _ _ => 0))).1 ≠ 0 := by
    decide +kernel
  exact hne h

/-! ## The page counter -/

/-- The pages of the pool that hold a live object. -/
def usedPages (c : Client) : List Nat :=
  c.st.pages.filter fun p => c.live.any fun b => b.loc.pagenum == p

/-- The page counter is the number of pages in use, and a pool nobody uses has no page. -/
structure PagesUsed (c : Client) : Prop where
  nodup : c.st.pages.Nodup
  total : c.st.pool.totalPages = (usedPages c).length
  empty : c.live = [] → c.st.pages = []

/-- A request that makes the pool grow for nothing. -/
def Wasteful : Call → Prop
  | .malloc size nowait page => 4088 < size ∧ size ≤ 4092 ∧ nowait = false ∧ page ≠ none
  | _ => False

/-- The invariant behind `PagesUsed`: every page holds a live object. -/
def Tight (A : Arch) (c : Client) : Prop :=
  Ok A c ∧ ∀ p ∈ c.st.pages, ∃ b ∈ c.live, b.loc.pagenum = p

theorem mem_usedPages {p : Nat} : p ∈ usedPages c ↔ p ∈ c.st.pages ∧ ∃ b ∈ c.live, b.loc.pagenum = p := by
  simp [usedPages]

theorem Tight.pagesUsed (h : Tight A c) : PagesUsed c := by
  obtain ⟨⟨lay, L, hInv, hlive⟩, hused⟩ := h
  refine ⟨hInv.shape.nodup, ?_, fun hnil => ?_⟩
  · have hall : usedPages c = c.st.pages := by
      refine List.filter_eq_self.mpr (fun p hp => ?_)
      obtain ⟨b, hb, hbp⟩ := hused p hp
      exact List.any_eq_true.mpr ⟨b, hb, beq_iff_eq.mpr hbp⟩
    rw [hall, hInv.shape.total]
  · refine List.eq_nil_iff_forall_not_mem.mpr (fun p hp => ?_)
    obtain ⟨b, hb, _⟩ := hused p hp
    rw [hnil] at hb
    exact List.not_mem_nil hb

theorem Tight.fresh (A : Arch) (mem : Mem) : Tight A (Client.fresh mem) :=
  ⟨Ok.fresh A mem, fun _ hp => absurd hp List.not_mem_nil⟩

/-- A call of `xv_malloc` that is not wasteful changes nothing if it fails, and takes at most the page
    of its object if it succeeds. -/
theorem MallocOutcome.careful {n : Nat} {nowait : Bool} {page : Option Nat} {s : XvState}
    {res : Int × Loc × XvState} {lay' : Nat → List Blk}
    (hout : MallocOutcome n nowait page s lay res lay') (hcare : ¬ Wasteful (.malloc n nowait page)) :
    (res.1 ≠ 0 ∧ res.2.2 = s) ∨
      (res.1 = 0 ∧ ∀ p ∈ res.2.2.pages, p ∈ s.pages ∨ res.2.1.pagenum = p) := by
  cases hout with
  | refused => exact Or.inl ⟨negENOMEM_ne_zero, rfl⟩
  | wasted hn hwait hpg =>
    refine absurd ⟨hn.1, hn.2, hwait, ?_⟩ hcare
    rw [hpg]
    exact Option.some_ne_none _
  | served _ _ _ hpages =>
    refine Or.inr ⟨rfl, fun p hp => Or.inl ?_⟩
    rw [← hpages]
    exact hp
  | servedFresh _ _ _ hpages =>
    refine Or.inr ⟨rfl, fun p hp => ?_⟩
    dsimp only at hp
    rw [hpages] at hp
    rcases List.mem_cons.mp hp with rfl | hp
    · exact Or.inr rfl
    · exact Or.inl hp

/-- A call that is not wasteful keeps every page in use. -/
theorem Tight.step (h : Tight A c) {call : Call} (hs : Step A c call c') (hcare : ¬ Wasteful call) :
    Tight A c' := by
  obtain ⟨hok, hused⟩ := h
  refine ⟨hok.step hs, fun p hp => ?_⟩
  obtain ⟨lay, L, hInv, hlive⟩ := hok
  cases hs with
  | @malloc n nowait page hpage =>
    obtain ⟨_, _, hout, _⟩ := xvMalloc_spec hInv n nowait hpage
    have hcases := hout.careful hcare
    rcases hres : xvMalloc A n nowait page c.st with ⟨err, a, st⟩
    simp only [Client.malloc, hres] at hp hcases ⊢
    rcases hcases with ⟨herr, rfl⟩ | ⟨herr, hpages⟩
    · rw [if_neg herr]
      exact hused p hp
    · rw [if_pos herr]
      rcases hpages p hp with hp | hp
      · obtain ⟨b, hb, hbp⟩ := hused p hp
        exact ⟨b, List.mem_cons_of_mem _ hb, hbp⟩
      · exact ⟨⟨a, n⟩, List.mem_cons_self, hp⟩
  | @free b st hb hst =>
    obtain ⟨o, ho, hat⟩ := (hlive.iff b).mp hb
    obtain ⟨st', lay', _, hfree, _, hiff, hpages, _⟩ := xvFree_spec hInv hat
    rw [← ho] at hfree
    obtain rfl := Option.some.inj (hfree.symm.trans hst)
    by_cases hpb : p = b.loc.pagenum
    · rcases hpages with ⟨_, k, m, hk⟩ | hpages
      · -- another object of the page is left
        refine ⟨⟨⟨p, k + xvAlign⟩, m⟩, ((hlive.free ho hat hiff).iff _).mpr ⟨k, rfl, ?_⟩, rfl⟩
        rw [hpb]
        exact hk
      · -- the page is gone
        dsimp only at hp
        rw [hpages, hInv.shape.nodup.mem_erase_iff] at hp
        exact absurd hpb hp.1
    · have hpold : p ∈ c.st.pages := by
        dsimp only at hp
        rcases hpages with ⟨hpages, _⟩ | hpages
        · rwa [hpages] at hp
        · rw [hpages] at hp
          exact List.mem_of_mem_erase hp
      obtain ⟨d, hd, hdp⟩ := hused p hpold
      refine ⟨d, (List.mem_erase_of_ne ?_).mpr hd, hdp⟩
      rintro rfl
      exact hpb hdp.symm
  | write _ => exact hused p hp

/-- A wasteful call leaves a page that nobody uses. -/
theorem not_pagesUsed_of_wasteful (h : Ok A c) {call : Call} (hs : Step A c call c')
    (hwaste : Wasteful call) : ¬ PagesUsed c' := by
  intro hbad
  have hok' := h.step hs
  obtain ⟨lay, L, hInv, hlive⟩ := h
  cases hs with
  | @malloc n nowait page hpage =>
    obtain ⟨h1, h2, rfl, hne⟩ := hwaste
    obtain ⟨p, rfl⟩ := Option.ne_none_iff_exists'.mp hne
    have hp := hpage p rfl
    rcases malloc_outcome hInv (n := n) ⟨by omega, h2⟩ hp with ⟨_, hle⟩ | ⟨herr, _, hpages⟩
    · omega
    · -- the counter counts the new page, which holds no object
      have herr0 : (xvMalloc A n false (some p) c.st).1 ≠ 0 := herr ▸ negENOMEM_ne_zero
      have hlive' : (c.malloc A n false (some p)).live = c.live := if_neg herr0
      have hpages' : (c.malloc A n false (some p)).st.pages = p :: c.st.pages := hpages
      obtain ⟨_, _, hInv', _⟩ := hok'
      have htotal := hbad.total
      rw [hInv'.shape.total] at htotal
      have hmem : p ∈ usedPages (c.malloc A n false (some p)) := by
        rw [usedPages, List.length_filter_eq_length_iff.mp htotal.symm |> List.filter_eq_self.mpr,
          hpages']
        exact List.mem_cons_self
      obtain ⟨_, b, hb, hbp⟩ := mem_usedPages.mp hmem
      rw [hlive'] at hb
      exact hp.2.2 (hbp ▸ hInv.shape.mem_pages (hlive.at hb).2)
  | free => exact hwaste
  | write => exact hwaste

/-- **The page counter** is the number of pages with a live object, a pool nobody uses has no page, and
    a failed `xv_malloc` changes neither, in every run without a wasteful call; and the first wasteful
    call ends that. -/
theorem run_pagesUsed {mem : Mem} {calls : List Call}
    (h : Run (Guarded (Step A) fun _ call => ¬ Wasteful call) (Client.fresh mem) calls c) :
    PagesUsed c ∧
      (∀ n nowait page, (∀ p, page = some p → Fresh c.st p) → ¬ Wasteful (.malloc n nowait page) →
        (xvMalloc A n nowait page c.st).1 ≠ 0 →
        (xvMalloc A n nowait page c.st).2.2.pages = c.st.pages ∧
        (xvMalloc A n nowait page c.st).2.2.pool.totalPages = c.st.pool.totalPages) ∧
      ∀ call c', Step A c call c' → (PagesUsed c' ↔ ¬ Wasteful call) := by
  have htight : Tight A c := h.inv (Tight.fresh A mem) (fun _ _ _ ht hs => ht.step hs.2 hs.1)
  obtain ⟨lay, L, hInv, _⟩ := htight.1
  refine ⟨htight.pagesUsed, fun n nowait page hpage hcare herr => ?_, fun call c' hs => ⟨?_, ?_⟩⟩
  · obtain ⟨_, _, hout, _⟩ := xvMalloc_spec hInv n nowait hpage
    rcases hout.careful hcare with ⟨_, heq⟩ | ⟨h0, _⟩
    · rw [heq]
      exact ⟨rfl, rfl⟩
    · exact absurd h0 herr
  · exact fun hused hwaste => not_pagesUsed_of_wasteful htight.1 hs hwaste hused
  · exact fun hcare => (htight.step hs hcare).pagesUsed

/-- A pool that was asked for 100 bytes. -/
theorem run_pagesUsed_malloc :
    PagesUsed ((Client.fresh (fun _ _ => 0)).malloc .lp64 100 false (some 7)) :=
  (run_pagesUsed (Run.nil.snoc ⟨by simp [Wasteful],
    Step.malloc (by simp [Fresh, Client.fresh, xvCreatePool])⟩)).1

/-- A pool that was asked for 4092 bytes has a page, and no object. -/
theorem malloc_max_keeps_page : ¬ ∀ (mem : Mem) (calls : List Call) (c : Client),
    Run (Step .lp64) (Client.fresh mem) calls c → PagesUsed c := by
  intro hall
  have hstep : Step .lp64 (Client.fresh (fun _ _ => 0)) (.malloc 4092 false (some 7))
      ((Client.fresh (fun _ _ => 0)).malloc .lp64 4092 false (some 7)) :=
    .malloc (by simp [Fresh, Client.fresh, xvCreatePool])
  have h := hall (fun _ _ => 0) _ _ (Run.nil.snoc hstep)
  have hempty : ((Client.fresh (fun _ _ => 0)).malloc .lp64 4092 false (some 7)).live = [] := by
    decide +kernel
  have hpages : ((Client.fresh (fun _ _ => 0)).malloc .lp64 4092 false (some 7)).st.pages = [7] := by
    decide +kernel
  exact List.cons_ne_nil _ _ (hpages.symm.trans (h.empty hempty))

end KernelPatches.Xvmalloc
