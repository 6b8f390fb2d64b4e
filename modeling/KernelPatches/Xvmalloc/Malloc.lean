/-
  `xv_malloc`: what it returns and what it does to the pool.

  The three parts of the function, each with its spec:

  * `findBlock_spec`  — the bitmap search returns the head of the first non-empty list at or after the
    lookup index, or nothing if all of them are empty;
  * `growPool_spec`   — a new page enters the pool as one free block;
  * `splitBlock_spec` — the free block found, already off its list, becomes a used block of the
    requested size and, unless the fit is exact, a free block of the rest (`carve`).

  `xvMalloc_spec` puts them together: every outcome keeps the invariant, and a success turns the
  block found into a used block without writing any byte of the blocks in use.
-/
import KernelPatches.Xvmalloc.Chain

namespace KernelPatches.Xvmalloc

open KernelPatches.Lib KernelPatches.Lib.Mem

variable {A : Arch} {s : XvState} {lay : Nat → List Blk} {L : Nat → List Loc}

/-! ## The search -/

/-- **`find_block`** finds the head of the first non-empty list at or after the lookup index. -/
theorem findBlock_spec (h : FreeLists A s L) (size : Nat) (out : Loc) :
    (findBlock A s.pool size out = (0, out) ∧ ∀ k, getIndex size ≤ k → L k = []) ∨
      ∃ i a t, findBlock A s.pool size out = (i, a) ∧ L i = a :: t ∧ getIndex size ≤ i ∧
        ∀ k, getIndex size ≤ k → k < i → L k = [] := by
  have hfound : ∀ i, TwoLevel.Least (fun i => L i ≠ []) (getIndex size) i →
      findBlock A s.pool size out = (i, s.pool.freelist i) →
      ∃ i a t, findBlock A s.pool size out = (i, a) ∧ L i = a :: t ∧ getIndex size ≤ i ∧
        ∀ k, getIndex size ≤ k → k < i → L k = [] := by
    rintro i ⟨hle, hne, hleast⟩ heq
    obtain ⟨a, t, hL⟩ := List.exists_cons_of_ne_nil hne
    refine ⟨i, a, t, ?_, hL, hle, fun k h1 h2 => by_contra (hleast k h1 h2)⟩
    rw [heq, h.freelist_eq hL]
  unfold findBlock
  by_cases h0 : s.pool.flbitmap = 0
  · -- no list has a member
    left
    rw [if_pos h0]
    refine ⟨rfl, fun k _ => by_contra (fun hk => ?_)⟩
    exact h.bits.top_ne_zero_iff.mpr ⟨k, hk⟩ h0
  · rw [if_neg h0]
    unfold findBlock at hfound
    rw [if_neg h0] at hfound
    dsimp only at hfound ⊢
    generalize hg : getIndex size = g at hfound ⊢
    rcases hb : (s.pool.slbitmap (g / A.bitsPerLong)).testBit (g % A.bitsPerLong) with _ | _
    · rw [hb] at hfound
      rw [if_neg Bool.false_ne_true] at hfound ⊢
      have hmod : g % A.bitsPerLong < A.bitsPerLong := Nat.mod_lt g A.bitsPerLong_pos
      by_cases hc : g % A.bitsPerLong + 1 ≠ A.bitsPerLong ∧
          s.pool.slbitmap (g / A.bitsPerLong) >>> (g % A.bitsPerLong + 1) ≠ 0
      · -- a later list of the same chunk
        right
        rw [if_pos hc] at hfound ⊢
        exact hfound _ (h.bits.least_chunk hb hc.2) rfl
      · have hz : s.pool.slbitmap (g / A.bitsPerLong) >>> (g % A.bitsPerLong + 1) = 0 := by
          by_contra hne
          have heq : g % A.bitsPerLong + 1 = A.bitsPerLong := by
            by_contra hn
            exact hc ⟨hn, hne⟩
          rw [heq, Nat.shiftRight_eq_zero _ _ (h.bits.word _)] at hne
          exact hne rfl
        rw [if_neg hc] at hfound ⊢
        by_cases hf : s.pool.flbitmap >>> (g / A.bitsPerLong + 1) = 0
        · left
          rw [if_pos hf]
          exact ⟨rfl, fun k hk => by_contra (h.bits.least_none hb hz hf k hk)⟩
        · right
          rw [if_neg hf] at hfound ⊢
          exact hfound _ (h.bits.least_far A.bitsPerLong_pos hb hz hf) rfl
    · -- the list of the size itself
      right
      rw [hb] at hfound
      rw [if_pos rfl] at hfound ⊢
      exact hfound g (h.bits.least_same hb) rfl

/-! ## Cutting a block -/

/-- A free block of size `sz` after `n` bytes were taken from it. -/
def carve (n sz : Nat) : List Blk :=
  ⟨n, false⟩ :: (if sz = align n xvAlign then [] else [⟨sz - align n xvAlign - 4, true⟩])

theorem align_four (n : Nat) : align n xvAlign = (n + 3) / 4 * 4 := rfl

theorem span_carve {n sz : Nat} (hle : align n xvAlign ≤ sz) (h4 : sz % 4 = 0) :
    span Blk.len (carve n sz) = span Blk.len [Blk.mk sz true] := by
  rw [align_four] at hle
  unfold carve
  rw [align_four]
  split
  · simp only [span_cons, span_nil, Blk.len_eq]
    omega
  · simp only [span_cons, span_nil, Blk.len_eq]
    omega

theorem carve_merged {n sz : Nat} {l r : List Blk}
    (h : (l ++ ([Blk.mk sz true] ++ r)).IsChain NotBothFree) :
    (l ++ (carve n sz ++ r)).IsChain NotBothFree := by
  obtain ⟨hl, hr, _, _, hmr⟩ := merged_split h (List.cons_ne_nil _ _)
  have hused : ∀ x, NotBothFree x ⟨n, false⟩ := fun x hx => Bool.noConfusion hx.2
  have hused' : ∀ y, NotBothFree ⟨n, false⟩ y := fun y hy => Bool.noConfusion hy.1
  refine List.isChain_append.mpr ⟨hl, List.isChain_append.mpr ⟨?_, hr, ?_⟩, ?_⟩
  · unfold carve
    split
    · exact List.isChain_singleton _
    · exact List.isChain_cons_cons.mpr ⟨hused' _, List.isChain_singleton _⟩
  · intro x hx y hy
    unfold carve at hx
    split at hx
    · obtain rfl := Option.some.inj hx
      exact hused' y
    · obtain rfl := Option.some.inj hx
      exact fun hc => hmr (Blk.mk sz true) rfl y hy ⟨rfl, hc.2⟩
  · intro x _ y hy
    have hhead : (carve n sz ++ r).head? = some (Blk.mk n false) := rfl
    rw [hhead] at hy
    obtain rfl := Option.some.inj hy
    exact hused x

/-- `splitBlock`, line 423 to 426: tell the block behind `t` where `t` is. -/
def tellNext (t : Loc) (s : XvState) : XvState :=
  if t.offset + xvAlign + blockSize s.mem t ≠ pageSize then
    { s with mem := setBlockprev s.mem (blockNext s.mem t) t.offset }
  else s

/-- `splitBlock`, lines 433 and 434: mark `a` as used. -/
def markUsed (a : Loc) (n : Nat) (s : XvState) : XvState :=
  { s with mem := clearFlag (setSize s.mem a n) a .blockFree }

/-- The split in terms of the common pieces. -/
theorem splitBlock_of_lt {a : Loc} {size n : Nat} (h : blockSize s.mem a - size ≠ 0) :
    splitBlock A a size n s = markUsed a n (tellNext (a.plus (size + xvAlign))
      (chain A (a.plus (size + xvAlign))
        { s with
          mem := freshHdr s.mem (a.plus (size + xvAlign)) (blockSize s.mem a - size - xvAlign)
            a.offset })) := by
  have hoff : a.offset + size + xvAlign = (a.plus (size + xvAlign)).offset := Nat.add_assoc _ _ _
  simp only [splitBlock, if_pos h, hoff]
  rfl

theorem splitBlock_of_eq {a : Loc} {size n : Nat} (h : blockSize s.mem a - size = 0) :
    splitBlock A a size n s = markUsed a n
      (if a.offset + size + xvAlign ≠ pageSize then
        { s with mem := clearFlag s.mem (a.plus (size + xvAlign)) .prevFree } else s) := by
  have hn : ¬ blockSize s.mem a - size ≠ 0 := fun hc => hc h
  simp only [splitBlock, if_neg hn]
  rfl

theorem markUsed_hdr {a : Loc} {n sz po : Nat} {pf fr : Bool} (h : Hdr s.mem a sz po pf fr)
    (hn : n < 2 ^ 16) : Hdr (markUsed a n s).mem a n po pf false :=
  (h.setSize hn).clearFree

theorem markUsed_agreeOff (a : Loc) (n : Nat) (s : XvState) :
    AgreeOff (InHdr a) s.mem (markUsed a n s).mem :=
  (agreeOff_setSize s.mem a n).trans (agreeOff_setPrev _ a _)

theorem tellNext_of_ne {t : Loc} {v : Nat} (hv : blockSize s.mem t = v)
    (h : t.offset + 4 + v ≠ 4096) : tellNext t s =
      { s with mem := setBlockprev s.mem ⟨t.pagenum, t.offset + (v + 4)⟩ t.offset } := by
  have hc : t.offset + xvAlign + blockSize s.mem t ≠ pageSize := by rwa [hv]
  rw [tellNext, if_pos hc, blockNext, hv]
  rfl

theorem tellNext_of_eq {t : Loc} {v : Nat} (hv : blockSize s.mem t = v)
    (h : t.offset + 4 + v = 4096) : tellNext t s = s := by
  have hc : ¬ t.offset + xvAlign + blockSize s.mem t ≠ pageSize := by
    rw [hv]
    exact fun hc => hc h
  rw [tellNext, if_neg hc]

/-- The lists once a free block is cut: without the block, and with the rest if that is large
    enough. -/
theorem onList_carve {p n sz : Nat} {l r : List Blk} (hlay : lay p = l ++ ([Blk.mk sz true] ++ r))
    (hle : align n xvAlign ≤ sz) (h4 : sz % 4 = 0) {i : Nat} {b : Loc} :
    OnList (Function.update lay p (l ++ (carve n sz ++ r))) i b ↔
      (OnList lay i b ∧ b ≠ ⟨p, span Blk.len l⟩) ∨
      (sz ≠ align n xvAlign ∧ b = ⟨p, span Blk.len l + (align n xvAlign + 4)⟩ ∧
        32 ≤ sz - align n xvAlign - 4 ∧ i = getIndexForInsert (sz - align n xvAlign - 4)) := by
  have hlen : Blk.len ⟨n, false⟩ = align n xvAlign + 4 := Nat.add_comm _ _
  rw [onList_replace hlay (span_carve hle h4)]
  refine or_congr (and_congr_right (fun _ => not_congr ?_)) ?_
  · constructor
    · rintro ⟨hp, c, hc⟩
      obtain ⟨ho, _⟩ := Prod.mk.inj (List.mem_singleton.mp hc)
      cases b
      simp_all
    · rintro rfl
      exact ⟨rfl, _, List.mem_cons_self⟩
  · constructor
    · rintro ⟨hp, c, hc, hcf, h32, hi⟩
      rw [carve, place_cons] at hc
      rcases List.mem_cons.mp hc with he | hc
      · obtain ⟨_, rfl⟩ := Prod.mk.inj he
        exact Bool.noConfusion hcf
      · split at hc
        · exact absurd hc List.not_mem_nil
        · obtain ⟨ho, rfl⟩ := Prod.mk.inj (List.mem_singleton.mp hc)
          rw [hlen] at ho
          refine ⟨‹_›, ?_, h32, hi.symm⟩
          cases b
          simp_all
    · rintro ⟨hne, rfl, h32, rfl⟩
      refine ⟨rfl, ⟨sz - align n xvAlign - 4, true⟩, ?_, rfl, h32, rfl⟩
      rw [carve, if_neg hne, place_cons, hlen]
      exact List.mem_cons_of_mem _ List.mem_cons_self

section Split

variable {p n sz : Nat} {l r : List Blk}

/-- What cutting the free block at the end of `l` may write: link records, the block, and the header
    behind it. -/
theorem zone_internal (h : Shape s lay) (hsub : Sub lay L)
    (hat : At (lay p) (span Blk.len l) ⟨sz, true⟩) :
    ∀ q k, Zone L p (span Blk.len l) (span Blk.len l + span Blk.len [Blk.mk sz true] + 4) q k →
      Internal s lay q k := by
  rintro q k (hk | ⟨rfl, h1, h2⟩)
  · exact h.linkArea_internal hsub hk
  · exact h.extent_internal hat rfl h1 h2

/-- The blocks of a page after a free block of it is cut. -/
theorem tiled_carve (ht : Tiled (l ++ ([Blk.mk sz true] ++ r))) (hle : align n xvAlign ≤ sz)
    (h4 : sz % 4 = 0) : Tiled (l ++ (carve n sz ++ r)) := by
  refine ht.replace (span_carve hle h4) (fun b hb hf => ?_) (carve_merged ht.merged)
  rw [align_four] at hle
  rcases List.mem_cons.mp hb with rfl | hb
  · exact Bool.noConfusion hf
  · split at hb
    · exact absurd hb List.not_mem_nil
    · rw [List.mem_singleton.mp hb, align_four]
      show (sz - (n + 3) / 4 * 4 - 4) % 4 = 0
      omega

/-- The split, when the fit is exact: the block behind is told that its predecessor is used. -/
theorem splitBlock_exact (h : Shape s lay) (hL : FreeLists A s L)
    (hlay : lay p = l ++ ([Blk.mk sz true] ++ r))
    (hmem : ∀ i b, b ∈ L i ↔ OnList lay i b ∧ b ≠ ⟨p, span Blk.len l⟩)
    (heq : sz = align n xvAlign) :
    ∃ L', Inv A (splitBlock A ⟨p, span Blk.len l⟩ (align n xvAlign) n s)
        (Function.update lay p (l ++ (carve n sz ++ r))) L' ∧
      AgreeOff (Internal s lay) s.mem
        (splitBlock A ⟨p, span Blk.len l⟩ (align n xvAlign) n s).mem ∧
      (splitBlock A ⟨p, span Blk.len l⟩ (align n xvAlign) n s).pages = s.pages := by
  have hat : At (lay p) (span Blk.len l) ⟨sz, true⟩ := hlay ▸ at_append_cons l r ⟨sz, true⟩
  have hp : p ∈ s.pages := h.mem_pages hat
  have hsub : Sub lay L := fun i b hb => ((hmem i b).mp hb).1
  have hnot : ∀ i, ⟨p, span Blk.len l⟩ ∉ L i := fun i hi => ((hmem i _).mp hi).2 rfl
  have h4 : sz % 4 = 0 := (h.free_len hat rfl).1
  have hlen : Blk.len ⟨sz, true⟩ = 4 + sz := (h.free_len hat rfl).2
  have hbnd := h.at_bound hat
  rw [hlen] at hbnd
  have hold := h.headers p hp
  rw [hlay, headers_append, headers_append, Nat.zero_add] at hold
  obtain ⟨_, ⟨hhdr, _⟩, hrold⟩ := hold
  have hspan1 : span Blk.len [Blk.mk sz true] = 4 + sz := by
    rw [span_cons, span_nil, hlen, Nat.add_zero]
  have hz : blockSize s.mem ⟨p, span Blk.len l⟩ - align n xvAlign = 0 := by
    rw [hhdr.size, heq, Nat.sub_self]
  rw [splitBlock_of_eq hz]
  -- the state before the block is marked used
  obtain ⟨s3, hs3⟩ : ∃ s3, s3 = (if (⟨p, span Blk.len l⟩ : Loc).offset + align n xvAlign + xvAlign
      ≠ pageSize then { s with mem := clearFlag s.mem ((⟨p, span Blk.len l⟩ : Loc).plus
        (align n xvAlign + xvAlign)) .prevFree } else s) := ⟨_, rfl⟩
  rw [← hs3]
  have hpages : s3.pages = s.pages := by rw [hs3]; split <;> rfl
  have hpool : s3.pool = s.pool := by rw [hs3]; split <;> rfl
  have hag3 : AgreeOff (InHdr ⟨p, span Blk.len l + (sz + 4)⟩) s.mem s3.mem := by
    rw [hs3, ← heq]
    split
    · exact agreeOff_setPrev _ _ _
    · exact AgreeOff.refl _ _
  have hag4 := markUsed_agreeOff ⟨p, span Blk.len l⟩ n s3
  -- every write so far is in the block or in the header behind it
  have hstretch : AgreeOff (fun q k => q = p ∧ span Blk.len l ≤ k ∧
      k < span Blk.len l + (4 + sz) + 4) s.mem (markUsed ⟨p, span Blk.len l⟩ n s3).mem := by
    refine (hag3.mono ?_).trans (hag4.mono ?_)
    · rintro q k ⟨rfl, h1, h2⟩
      refine ⟨rfl, ?_, ?_⟩ <;> simp only at h1 h2 <;> omega
    · rintro q k ⟨rfl, h1, h2⟩
      refine ⟨rfl, ?_, ?_⟩ <;> simp only at h1 h2 <;> omega
  have hlists : FreeLists A (markUsed ⟨p, span Blk.len l⟩ n s3) L := by
    refine hL.frame hstretch ?_ (congrArg XvPool.freelist hpool) (congrArg XvPool.slbitmap hpool)
      (congrArg XvPool.flbitmap hpool)
    rintro q k hk ⟨rfl, h1, h2⟩
    exact h.extent_not_linkArea hsub hat hnot h1 (by rwa [hlen]) hk
  have hzone : AgreeOff (Zone L p (span Blk.len l)
      (span Blk.len l + span Blk.len [Blk.mk sz true] + 4)) s.mem
      (markUsed ⟨p, span Blk.len l⟩ n s3).mem :=
    hstretch.mono (fun _ _ hk => Or.inr (by rwa [hspan1]))
  have hcarve : carve n sz = [⟨n, false⟩] := by rw [carve, if_pos heq]
  have hn : n < 2 ^ 16 := by
    rw [align_four] at heq
    omega
  refine ⟨L, ⟨h.rebuild hsub hp hlay (span_carve (Nat.le_of_eq heq.symm) h4) hzone hpages
    (congrArg XvPool.totalPages hpool) (tiled_carve (hlay ▸ h.tiled p hp)
      (Nat.le_of_eq heq.symm) h4) ?_ ?_, hlists, ?_⟩, hzone.mono (zone_internal h hsub hat), hpages⟩
  · -- the header of the block
    rw [hcarve]
    refine ⟨markUsed_hdr (hhdr.frame hag3 ?_) hn, trivial⟩
    rintro q k ⟨_, _, h2⟩ ⟨_, h3, _⟩
    simp only at h2 h3
    omega
  · -- the header behind it
    rintro c r' rfl
    rw [hcarve]
    have htotal := (h.tiled p hp).total
    rw [hlay, span_append, span_append, hspan1, span_cons] at htotal
    have hcl := c.len_eq
    have hc : (⟨p, span Blk.len l⟩ : Loc).offset + align n xvAlign + xvAlign ≠ pageSize := by
      rw [← heq]
      show span Blk.len l + sz + 4 ≠ 4096
      omega
    have hs3m : s3.mem = clearFlag s.mem ⟨p, span Blk.len l + span Blk.len [Blk.mk sz true]⟩
        .prevFree := by
      rw [hs3, if_pos hc, hspan1, Nat.add_comm 4 sz, heq]
      rfl
    have hhdr3 := hrold.1.clearPrevFree
    rw [← hs3m] at hhdr3
    refine hhdr3.frame hag4 ?_
    rintro q k ⟨_, h1, _⟩ ⟨_, _, h2⟩
    rw [hspan1] at h1
    simp only at h1 h2
    omega
  · intro i b
    rw [hmem, onList_carve hlay (Nat.le_of_eq heq.symm) h4]
    exact ⟨Or.inl, fun hc => hc.resolve_right (fun hc => hc.1 heq)⟩

/-- The link records once a block is chained. -/
theorem linkArea_chainList {v : Nat} {t : Loc} {q k : Nat} (hk : LinkArea (chainList L v t) q k) :
    ChainArea L v t q k := by
  obtain ⟨i, b, hb, hbk⟩ := hk
  rcases mem_chainList.mp hb with hb | ⟨h32, rfl, _⟩
  · exact Or.inl ⟨i, b, hb, hbk⟩
  · exact Or.inr ⟨h32, hbk⟩

/-- **Cutting a free block.**  The memory side of the split: `a` is a free block of size `sz` off the
    lists, `t` the place `an + 4` bytes into it where the rest, of size `v`, starts.  Nothing but link
    records, the block and the header behind it is written. -/
theorem cut_spec {a t : Loc} {an v po : Nat} {pf : Bool} (hL : FreeLists A s L)
    (hclear : ∀ k, a.offset ≤ k → k < a.offset + (4 + sz) + 4 → ¬ LinkArea L a.pagenum k)
    (hhdr : Hdr s.mem a sz po pf true) (hsep : 32 ≤ v → ∀ j, ∀ b ∈ L j, Sep b t)
    (h0 : a.pagenum ≠ 0) (hfits : t.Fits) (ht : t = ⟨a.pagenum, a.offset + (an + 4)⟩)
    (hsz : sz = an + 4 + v) (hn : n ≤ an) (hbnd : a.offset + (4 + sz) ≤ 4096)
    (h4a : a.offset % 4 = 0) (h4 : an % 4 = 0) {s' : XvState}
    (hs' : s' = markUsed a n (tellNext t (chain A t
      { s with mem := freshHdr s.mem t v a.offset }))) :
    FreeLists A s' (chainList L v t) ∧
      AgreeOff (Zone L a.pagenum a.offset (a.offset + (4 + sz) + 4)) s.mem s'.mem ∧
      Hdr s'.mem a n po pf false ∧ Hdr s'.mem t v a.offset false true ∧
      ∀ size fr, a.offset + (4 + sz) ≠ 4096 →
        Hdr s.mem ⟨a.pagenum, a.offset + (4 + sz)⟩ size a.offset true fr →
        Hdr s'.mem ⟨a.pagenum, a.offset + (4 + sz)⟩ size t.offset true fr := by
  subst ht
  obtain ⟨p, o⟩ := a
  simp only at *
  -- the new header
  obtain ⟨s1, hs1⟩ : ∃ s1, s1 = { s with mem := freshHdr s.mem ⟨p, o + (an + 4)⟩ v o } := ⟨_, rfl⟩
  have hag1 : AgreeOff (InHdr ⟨p, o + (an + 4)⟩) s.mem s1.mem := by
    rw [hs1]
    exact freshHdr_agreeOff _ _ _ _
  have ht1 : Hdr s1.mem ⟨p, o + (an + 4)⟩ v o false true := by
    rw [hs1]
    exact freshHdr_hdr _ _ (by omega) (by omega) (by omega)
  have hL1 : FreeLists A s1 L := by
    refine hL.frame hag1 ?_ (by rw [hs1]) (by rw [hs1]) (by rw [hs1])
    rintro q k hk ⟨rfl, h1, h2⟩
    refine hclear k ?_ ?_ hk <;> simp only at h1 h2 <;> omega
  -- the chaining
  obtain ⟨hL2, hag2⟩ := chain_spec hL1 ht1.size (by omega) h0 hfits hsep
  rw [← hs1] at hs'
  obtain ⟨s2, hs2⟩ : ∃ s2, s2 = chain A ⟨p, o + (an + 4)⟩ s1 := ⟨_, rfl⟩
  rw [← hs2] at hs' hL2 hag2
  -- chaining leaves the headers of the stretch alone
  have hkeep : ∀ k, o ≤ k → k < o + (4 + sz) + 4 → ¬ (o + (an + 4) + 4 ≤ k ∧
      k < o + (an + 4) + 16 ∧ 32 ≤ v) → ¬ ChainArea L v ⟨p, o + (an + 4)⟩ p k := by
    rintro k h1 h2 h3 (hk | ⟨h32, _, h4, h5⟩)
    · exact hclear k h1 h2 hk
    · exact h3 ⟨h4, h5, h32⟩
  have ht2 : Hdr s2.mem ⟨p, o + (an + 4)⟩ v o false true := by
    refine ht1.frame hag2 ?_
    rintro q k ⟨rfl, h1, h2⟩
    simp only at h1 h2
    exact hkeep k (by omega) (by omega) (by omega)
  have ha2 : Hdr s2.mem ⟨p, o⟩ sz po pf true := by
    refine (hhdr.frame hag1 ?_).frame hag2 ?_
    · rintro q k ⟨_, _, h2⟩ ⟨_, h3, _⟩
      simp only at h2 h3
      omega
    · rintro q k ⟨rfl, h1, h2⟩
      simp only at h1 h2
      exact hkeep k (by omega) (by omega) (by omega)
  -- the header behind the block
  have hnext : ⟨p, (⟨p, o + (an + 4)⟩ : Loc).offset + (v + 4)⟩ = (⟨p, o + (4 + sz)⟩ : Loc) := by
    rw [Loc.mk.injEq]
    exact ⟨rfl, by show o + (an + 4) + (v + 4) = o + (4 + sz); omega⟩
  obtain ⟨s3, hs3⟩ : ∃ s3, s3 = tellNext ⟨p, o + (an + 4)⟩ s2 := ⟨_, rfl⟩
  rw [← hs3] at hs'
  have hpool3 : s3.pool = s2.pool := by
    rw [hs3, tellNext]
    split <;> rfl
  have hag3 : AgreeOff (InHdr ⟨p, o + (4 + sz)⟩) s2.mem s3.mem := by
    by_cases hend : o + (an + 4) + 4 + v = 4096
    · rw [hs3, tellNext_of_eq ht2.size hend]
      exact AgreeOff.refl _ _
    · rw [hs3, tellNext_of_ne ht2.size hend, hnext]
      exact agreeOff_setPrev _ _ _
  have hag4 := markUsed_agreeOff ⟨p, o⟩ n s3
  rw [← hs'] at hag4
  have hag34 : AgreeOff (fun q k => InHdr ⟨p, o + (4 + sz)⟩ q k ∨ InHdr ⟨p, o⟩ q k) s2.mem s'.mem :=
    (hag3.mono (fun _ _ => Or.inl)).trans (hag4.mono (fun _ _ => Or.inr))
  refine ⟨?_, ?_, ?_, ?_, ?_⟩
  · refine hL2.frame hag34 ?_ (by rw [hs']; exact congrArg XvPool.freelist hpool3)
      (by rw [hs']; exact congrArg XvPool.slbitmap hpool3)
      (by rw [hs']; exact congrArg XvPool.flbitmap hpool3)
    rintro q k hk (⟨rfl, h1, h2⟩ | ⟨rfl, h1, h2⟩)
    · simp only at h1 h2
      exact hkeep k (by omega) (by omega) (by omega) (linkArea_chainList hk)
    · simp only at h1 h2
      exact hkeep k (by omega) (by omega) (by omega) (linkArea_chainList hk)
  · refine (hag1.mono ?_).trans ((hag2.mono ?_).trans (hag34.mono ?_))
    · rintro q k ⟨rfl, h1, h2⟩
      simp only at h1 h2
      exact Or.inr ⟨rfl, by omega, by omega⟩
    · rintro q k (hk | ⟨h32, rfl, h1, h2⟩)
      · exact Or.inl hk
      · simp only at h1 h2
        exact Or.inr ⟨rfl, by omega, by omega⟩
    · rintro q k (⟨rfl, h1, h2⟩ | ⟨rfl, h1, h2⟩)
      · simp only at h1 h2
        exact Or.inr ⟨rfl, by omega, by omega⟩
      · simp only at h1 h2
        exact Or.inr ⟨rfl, by omega, by omega⟩
  · rw [hs']
    refine markUsed_hdr (ha2.frame hag3 ?_) (by omega)
    rintro q k ⟨_, _, h2⟩ ⟨_, h3, _⟩
    simp only at h2 h3
    omega
  · refine ht2.frame hag34 ?_
    rintro q k ⟨_, h1, h2⟩ (⟨_, h3, _⟩ | ⟨_, _, h4⟩)
    · simp only at h2 h3
      omega
    · simp only at h1 h4
      omega
  · intro size fr hend hc
    have hend' : o + (an + 4) + 4 + v ≠ 4096 := by omega
    have hc2 : Hdr s2.mem ⟨p, o + (4 + sz)⟩ size o true fr := by
      refine (hc.frame hag1 ?_).frame hag2 ?_
      · rintro q k ⟨_, h1, _⟩ ⟨_, _, h4⟩
        simp only at h1 h4
        omega
      · rintro q k ⟨rfl, h1, h2⟩
        simp only at h1 h2
        exact hkeep k (by omega) (by omega) (by omega)
    have hc3 : Hdr s3.mem ⟨p, o + (4 + sz)⟩ size (o + (an + 4)) true fr := by
      rw [hs3, tellNext_of_ne ht2.size hend', hnext]
      exact hc2.setBlockprev (o := o + (an + 4)) (by omega) (by omega)
    refine hc3.frame hag4 ?_
    rintro q k ⟨_, h1, _⟩ ⟨_, _, h2⟩
    simp only at h1 h2
    omega

/-- The split, when something is left: the rest becomes a free block, is chained if it is large
    enough, and the block behind it learns where its predecessor is now. -/
theorem splitBlock_rest (h : Shape s lay) (hL : FreeLists A s L)
    (hlay : lay p = l ++ ([Blk.mk sz true] ++ r))
    (hmem : ∀ i b, b ∈ L i ↔ OnList lay i b ∧ b ≠ ⟨p, span Blk.len l⟩)
    (hlt : align n xvAlign < sz) :
    ∃ L', Inv A (splitBlock A ⟨p, span Blk.len l⟩ (align n xvAlign) n s)
        (Function.update lay p (l ++ (carve n sz ++ r))) L' ∧
      AgreeOff (Internal s lay) s.mem
        (splitBlock A ⟨p, span Blk.len l⟩ (align n xvAlign) n s).mem ∧
      (splitBlock A ⟨p, span Blk.len l⟩ (align n xvAlign) n s).pages = s.pages := by
  have hat : At (lay p) (span Blk.len l) ⟨sz, true⟩ := hlay ▸ at_append_cons l r ⟨sz, true⟩
  have hp : p ∈ s.pages := h.mem_pages hat
  have hsub : Sub lay L := fun i b hb => ((hmem i b).mp hb).1
  have hnot : ∀ i, ⟨p, span Blk.len l⟩ ∉ L i := fun i hi => ((hmem i _).mp hi).2 rfl
  have h4 : sz % 4 = 0 := (h.free_len hat rfl).1
  have hlen : Blk.len ⟨sz, true⟩ = 4 + sz := (h.free_len hat rfl).2
  have hbnd := h.at_bound hat
  rw [hlen] at hbnd
  have hold := h.headers p hp
  rw [hlay, headers_append, headers_append, Nat.zero_add] at hold
  obtain ⟨_, ⟨hhdr', _⟩, hrold⟩ := hold
  have hhdr : Hdr s.mem ⟨p, span Blk.len l⟩ sz (lastOff 0 0 l) (lastFree false l) true := hhdr'
  have hspan1 : span Blk.len [Blk.mk sz true] = 4 + sz := by
    rw [span_cons, span_nil, hlen, Nat.add_zero]
  have htotal := (h.tiled p hp).total
  rw [hlay, span_append, span_append, hspan1] at htotal
  have hspanr := span_mod_four l
  have han : align n xvAlign % 4 = 0 := by
    rw [align_four]
    omega
  have hnan : n ≤ align n xvAlign := by
    rw [align_four]
    omega
  have hne : blockSize s.mem ⟨p, span Blk.len l⟩ - align n xvAlign ≠ 0 := by
    rw [hhdr.size]
    exact Nat.sub_ne_zero_of_lt hlt
  have hrest : blockSize s.mem ⟨p, span Blk.len l⟩ - align n xvAlign - xvAlign =
      sz - align n xvAlign - 4 := by
    rw [hhdr.size]
    rfl
  have hcarve : carve n sz = [⟨n, false⟩, ⟨sz - align n xvAlign - 4, true⟩] := by
    rw [carve, if_neg (Nat.ne_of_gt hlt)]
  have hlenn : Blk.len ⟨n, false⟩ = align n xvAlign + 4 := Nat.add_comm _ _
  have hpage := h.pageOk p hp
  have hclear : ∀ k, span Blk.len l ≤ k → k < span Blk.len l + (4 + sz) + 4 → ¬ LinkArea L p k :=
    fun k h1 h2 => h.extent_not_linkArea hsub hat hnot h1 (by rwa [hlen])
  have hsep : 32 ≤ sz - align n xvAlign - 4 → ∀ j, ∀ b ∈ L j,
      Sep b ⟨p, span Blk.len l + (align n xvAlign + 4)⟩ := by
    intro h32 j b hb
    have hs := h.sep_of_at hsub (b := ⟨p, span Blk.len l⟩) hb hat
      (fun he => hnot j (he ▸ hb))
    rw [hlen] at hs
    simp only [Sep]
    simp only at hs
    omega
  rw [splitBlock_of_lt hne, hrest]
  obtain ⟨hL', hag, ha', ht', hnext⟩ := cut_spec (n := n) hL hclear hhdr hsep hpage.1
    ⟨hpage.2, by show span Blk.len l + (align n xvAlign + 4) < 2 ^ 16; omega⟩ rfl (by omega) hnan
    hbnd hspanr han rfl
  have hzone : AgreeOff (Zone L p (span Blk.len l)
      (span Blk.len l + span Blk.len [Blk.mk sz true] + 4)) s.mem _ :=
    hag.mono (fun _ _ hk => by rwa [hspan1])
  have hpages : ∀ t m, (markUsed ⟨p, span Blk.len l⟩ n (tellNext t (chain A t
      { s with mem := m }))).pages = s.pages := by
    intro t m
    rw [markUsed, tellNext]
    split <;> exact chain_pages t _
  have htotal' : ∀ t m, (markUsed ⟨p, span Blk.len l⟩ n (tellNext t (chain A t
      { s with mem := m }))).pool.totalPages = s.pool.totalPages := by
    intro t m
    rw [markUsed, tellNext]
    split <;> exact chain_totalPages t _
  refine ⟨_, ⟨h.rebuild hsub hp hlay (span_carve hlt.le h4) hzone (hpages _ _) (htotal' _ _)
    (tiled_carve (hlay ▸ h.tiled p hp) hlt.le h4) ?_ ?_, hL', ?_⟩,
    hzone.mono (zone_internal h hsub hat), hpages _ _⟩
  · rw [hcarve]
    refine ⟨ha', ?_, trivial⟩
    rw [hlenn]
    exact ht'
  · rintro c r' rfl
    have hcl := c.len_eq
    rw [span_cons] at htotal
    rw [hcarve, hspan1]
    rw [hspan1] at hrold
    show Hdr _ _ c.size (span Blk.len l + Blk.len ⟨n, false⟩) true c.free
    rw [hlenn]
    refine hnext c.size c.free ?_ hrold.1
    show span Blk.len l + (4 + sz) ≠ 4096
    omega
  · intro i b
    rw [mem_chainList, hmem, onList_carve hlay hlt.le h4]
    exact or_congr_right ⟨fun ⟨h32, hb, hi⟩ => ⟨Nat.ne_of_gt hlt, hb, h32, hi⟩,
      fun ⟨_, hb, h32, hi⟩ => ⟨h32, hb, hi⟩⟩

/-- **The split.**  The free block `a`, off its list, becomes a used block of the requested size and
    what `carve` leaves of it. -/
theorem splitBlock_spec (h : Shape s lay) (hL : FreeLists A s L)
    (hlay : lay p = l ++ ([Blk.mk sz true] ++ r))
    (hmem : ∀ i b, b ∈ L i ↔ OnList lay i b ∧ b ≠ ⟨p, span Blk.len l⟩)
    (hle : align n xvAlign ≤ sz) :
    ∃ L', Inv A (splitBlock A ⟨p, span Blk.len l⟩ (align n xvAlign) n s)
        (Function.update lay p (l ++ (carve n sz ++ r))) L' ∧
      AgreeOff (Internal s lay) s.mem
        (splitBlock A ⟨p, span Blk.len l⟩ (align n xvAlign) n s).mem ∧
      (splitBlock A ⟨p, span Blk.len l⟩ (align n xvAlign) n s).pages = s.pages := by
  rcases Nat.eq_or_lt_of_le hle with heq | hlt
  · exact splitBlock_exact h hL hlay hmem heq.symm
  · exact splitBlock_rest h hL hlay hmem hlt

end Split

/-- **Taking a block.**  The first block of a list, large enough for the request, comes off the list
    and is cut. -/
theorem take_spec (h : Inv A s lay L) {i : Nat} {a : Loc} {t : List Loc} (hL : L i = a :: t) {n : Nat}
    (hle : ∀ b, At (lay a.pagenum) a.offset b → align n xvAlign ≤ b.size) :
    ∃ l sz r L', lay a.pagenum = l ++ ([Blk.mk sz true] ++ r) ∧ a.offset = span Blk.len l ∧
      align n xvAlign ≤ sz ∧
      Inv A (splitBlock A a (align n xvAlign) n (removeBlockHead A a i s))
        (Function.update lay a.pagenum (l ++ (carve n sz ++ r))) L' ∧
      AgreeOff (Internal s lay) s.mem
        (splitBlock A a (align n xvAlign) n (removeBlockHead A a i s)).mem ∧
      (splitBlock A a (align n xvAlign) n (removeBlockHead A a i s)).pages = s.pages := by
  have ha : a ∈ L i := hL ▸ List.mem_cons_self
  obtain ⟨⟨sz, fr⟩, hb, hf, _⟩ := h.sub i a ha
  obtain rfl : fr = true := hf
  obtain ⟨l, r, hlay, hoff⟩ := at_iff.mp hb
  have haeq : a = ⟨a.pagenum, span Blk.len l⟩ := by rw [← hoff]
  obtain ⟨hL1, hag1⟩ := removeBlockHead_spec h.lists hL
  have hpages1 : (removeBlockHead A a i s).pages = s.pages := by
    unfold removeBlockHead
    dsimp only
    split <;> rfl
  have htotal1 : (removeBlockHead A a i s).pool.totalPages = s.pool.totalPages := by
    unfold removeBlockHead
    dsimp only
    split <;> rfl
  have hshape1 : Shape (removeBlockHead A a i s) lay :=
    h.shape.frame hag1 (fun p o c hc => h.shape.hdr_not_linkArea h.sub hc) hpages1 htotal1
  have hmem1 : ∀ j b, b ∈ dropList L i a j ↔ OnList lay j b ∧ b ≠ ⟨a.pagenum, span Blk.len l⟩ := by
    intro j b
    rw [h.lists.mem_dropList ha, h.member, and_comm, ← haeq]
  obtain ⟨L', hInv, hag2, hpages2⟩ := splitBlock_spec hshape1 hL1 hlay hmem1 (hle _ hb)
  rw [← haeq] at hInv hag2 hpages2
  refine ⟨l, sz, r, L', hlay, hoff, hle _ hb, hInv, ?_, hpages2.trans hpages1⟩
  refine (hag1.mono fun q k hk => h.shape.linkArea_internal h.sub hk).trans (hag2.mono ?_)
  exact fun q k hk => ⟨hpages1 ▸ hk.1, hk.2⟩

/-! ## Growing the pool -/

/-- A page just taken from the page allocator is one free block. -/
def freshPage : List Blk := [⟨4092, true⟩]

theorem freshPage_tiled : Tiled freshPage where
  total := rfl
  aligned := by decide
  merged := List.isChain_singleton _

/-- What `alloc_page` promises: the page is none of the pool's, and its number fits a `u32`. -/
def Fresh (s : XvState) (p : Nat) : Prop := p ≠ 0 ∧ p < 2 ^ 32 ∧ p ∉ s.pages

/-- The lists of a pool that got a fresh page. -/
theorem onList_freshPage {p : Nat} (hp : lay p = []) {i : Nat} {a : Loc} :
    OnList (Function.update lay p freshPage) i a ↔ OnList lay i a ∨ (i = 507 ∧ a = ⟨p, 0⟩) := by
  unfold OnList
  by_cases hap : a.pagenum = p
  · rw [hap, Function.update_self, hp]
    constructor
    · rintro ⟨b, hb, _, _, hi⟩
      obtain ⟨ho, rfl⟩ := Prod.mk.inj (List.mem_singleton.mp hb)
      refine Or.inr ⟨hi.symm, ?_⟩
      rw [← hap, ← ho]
    · rintro (⟨b, hb, _⟩ | ⟨rfl, rfl⟩)
      · exact absurd hb (not_at_nil _ _)
      · exact ⟨⟨4092, true⟩, List.mem_singleton.mpr rfl, rfl, by decide, by decide⟩
  · rw [Function.update_of_ne hap]
    refine ⟨Or.inl, fun hc => hc.resolve_right ?_⟩
    rintro ⟨_, rfl⟩
    exact hap rfl

/-- **`grow_pool`**, given a page: the page enters the pool as one free block on the last list. -/
theorem growPool_spec (h : Inv A s lay L) {p : Nat} (hp : Fresh s p) :
    ∃ s', growPool A (some p) s = (0, s') ∧
      Inv A s' (Function.update lay p freshPage) (pushList L 507 ⟨p, 0⟩) ∧
      AgreeOff (fun q k => Internal s lay q k ∨ q = p) s.mem s'.mem ∧ s'.pages = p :: s.pages := by
  obtain ⟨h0, hlt, hnew⟩ := hp
  obtain ⟨s1, hs1⟩ : ∃ s1 : XvState, s1 =
      { pool := { s.pool with totalPages := statInc s.pool.totalPages },
        mem := freshHdr s.mem ⟨p, 0⟩ 4092 0,
        pages := p :: s.pages } := ⟨_, rfl⟩
  have hgrow : growPool A (some p) s = (0, insertBlock A p 0 ⟨p, 0⟩ s1) := by
    rw [hs1]
    exact if_neg h0
  have hag1 : AgreeOff (InHdr ⟨p, 0⟩) s.mem s1.mem := by
    rw [hs1]
    exact freshHdr_agreeOff _ _ _ _
  have hhdr1 : Hdr s1.mem ⟨p, 0⟩ 4092 0 false true := by
    rw [hs1]
    exact freshHdr_hdr _ _ (by decide) (by decide) (by decide)
  -- no list member is in the new page
  have hout : ∀ i, ∀ b ∈ L i, b.pagenum ≠ p := by
    intro i b hb he
    obtain ⟨c, hc, _⟩ := h.sub i b hb
    exact hnew (he ▸ h.shape.mem_pages hc)
  have hL1 : FreeLists A s1 L := by
    refine h.lists.frame hag1 ?_ (by rw [hs1]) (by rw [hs1]) (by rw [hs1])
    rintro q k ⟨i, b, hb, hq, _⟩ ⟨hq', _⟩
    exact hout i b hb (hq.symm.trans hq')
  obtain ⟨hL2, hag2⟩ := insertBlock_spec (a := ⟨p, 0⟩) (i := 507) hL1
    (by rw [hhdr1.size]; rfl) (by decide) h0 ⟨hlt, Nat.two_pow_pos 16⟩
    (fun j b hb => Or.inl (hout j b hb))
  have hag2' : AgreeOff (fun q k => LinkArea L q k ∨ InLink ⟨p, 0⟩ q k) s1.mem
      (insertBlock A p 0 ⟨p, 0⟩ s1).mem := by
    refine hag2.mono ?_
    rintro q k ⟨j, b, hb, hk⟩
    rcases mem_pushList.mp hb with ⟨_, rfl⟩ | hb
    · exact Or.inr hk
    · exact Or.inl ⟨j, b, hb, hk⟩
  have hag : AgreeOff (fun q k => LinkArea L q k ∨ q = p) s.mem
      (insertBlock A p 0 ⟨p, 0⟩ s1).mem :=
    (hag1.mono (fun _ _ hk => Or.inr hk.1)).trans
      (hag2'.mono (fun _ _ hk => hk.imp_right (fun hk => hk.1)))
  have htotal : (insertBlock A p 0 ⟨p, 0⟩ s1).pool.totalPages = s.pool.totalPages + 1 := by
    have hle := h.shape.length_le
    rw [← h.shape.total] at hle
    have hmod : statInc s.pool.totalPages = s.pool.totalPages + 1 := Nat.mod_eq_of_lt (by omega)
    rw [← hmod, hs1]
    rfl
  refine ⟨_, hgrow, ⟨h.shape.grow h0 hlt hnew hag ?_ ?_ htotal freshPage_tiled ⟨?_, trivial⟩, hL2, ?_⟩,
    hag.mono (fun q k hk => hk.imp_left (h.shape.linkArea_internal h.sub)), ?_⟩
  · rintro q o c hc j k hj (hk | rfl)
    · exact h.shape.hdr_not_linkArea h.sub hc j k hj hk
    · exact hnew (hj.1 ▸ h.shape.mem_pages hc)
  · rw [hs1]
    rfl
  · refine hhdr1.frame hag2' ?_
    rintro q k ⟨rfl, h1, h2⟩ (⟨i, b, hb, hq, _⟩ | ⟨_, h3, _⟩)
    · exact hout i b hb hq.symm
    · simp only at h2 h3
      omega
  · intro i a
    rw [mem_pushList, h.member, onList_freshPage (h.shape.outside p hnew), or_comm]
  · rw [hs1]
    rfl

/-! ## `xv_malloc` -/

/-- What a call `xv_malloc(n)` did to a pool `s` whose pages are `lay`: the result, and the pages
    after it. -/
inductive MallocOutcome (n : Nat) (nowait : Bool) (page : Option Nat) (s : XvState)
    (lay : Nat → List Blk) : Int × Loc × XvState → (Nat → List Blk) → Prop
  /-- Nothing happened: a bad size, or no block fits and no page may or can be had. -/
  | refused (hwhy : n = 0 ∨ 4092 < n ∨ nowait = true ∨ page = none) :
      MallocOutcome n nowait page s lay (negENOMEM, Loc.null, s) lay
  /-- A page was taken, and yet the request failed. -/
  | wasted {p : Nat} {s' : XvState} (hn : 4088 < n ∧ n ≤ 4092) (hwait : nowait = false)
      (hpage : page = some p) (hpages : s'.pages = p :: s.pages) :
      MallocOutcome n nowait page s lay (negENOMEM, Loc.null, s') (Function.update lay p freshPage)
  /-- A free block of the pool was cut. -/
  | served {p sz : Nat} {l r : List Blk} {s' : XvState} (hn : 0 < n ∧ n ≤ 4088)
      (hlay : lay p = l ++ ([Blk.mk sz true] ++ r)) (hle : align n xvAlign ≤ sz)
      (hpages : s'.pages = s.pages) :
      MallocOutcome n nowait page s lay (0, ⟨p, span Blk.len l + xvAlign⟩, s')
        (Function.update lay p (l ++ (carve n sz ++ r)))
  /-- A page was taken and its one block was cut. -/
  | servedFresh {p : Nat} {s' : XvState} (hn : 0 < n ∧ n ≤ 4088) (hwait : nowait = false)
      (hpage : page = some p) (hpages : s'.pages = p :: s.pages) :
      MallocOutcome n nowait page s lay (0, ⟨p, xvAlign⟩, s') (Function.update lay p (carve n 4092))

/-- The lookup index of a request reaches past the last list exactly for the four largest sizes. -/
theorem getIndex_align_lt_iff {n : Nat} :
    getIndex (align n xvAlign) < numFreeLists ↔ n ≤ 4088 := by
  rw [getIndex_eq, align_four, numFreeLists_eq]
  omega

/-- A block on a list the search may return is large enough. -/
theorem fits_of_found (h : Inv A s lay L) {n i : Nat} {a : Loc} (ha : a ∈ L i)
    (hi : getIndex (align n xvAlign) ≤ i) {b : Blk} (hb : At (lay a.pagenum) a.offset b) :
    align n xvAlign ≤ b.size := by
  obtain ⟨c, hc, _, h32, hle, _, hci⟩ := h.shape.member_at h.sub ha
  rw [hb.unique hc]
  exact le_of_getIndex_le hle h32 (hci ▸ hi)

section Paths

variable {n i : Nat} {nowait : Bool} {page : Option Nat} {a : Loc} {s1 : XvState}

/-- The path through `xv_malloc` when the first search finds a block. -/
theorem xvMalloc_of_found (hgood : ¬ (n = 0 ∨ n > xvMaxAllocSize))
    (hfind : findBlock A s.pool (align n xvAlign) Loc.null = (i, a)) (h0 : a.pagenum ≠ 0) :
    xvMalloc A n nowait page s =
      (0, a.plus xvAlign, splitBlock A a (align n xvAlign) n (removeBlockHead A a i s)) := by
  have hw : ¬ (a.pagenum = 0 ∧ nowait = true) := fun hc => h0 hc.1
  unfold xvMalloc
  rw [if_neg hgood]
  simp only [hfind, if_neg hw, if_neg h0]
  rfl

/-- The path when there is none and the caller does not let the pool grow. -/
theorem xvMalloc_of_nowait (hgood : ¬ (n = 0 ∨ n > xvMaxAllocSize))
    (hfind : findBlock A s.pool (align n xvAlign) Loc.null = (0, Loc.null)) (hw : nowait = true) :
    xvMalloc A n nowait page s = (negENOMEM, Loc.null, s) := by
  have hc : Loc.null.pagenum = 0 ∧ nowait = true := ⟨rfl, hw⟩
  unfold xvMalloc
  rw [if_neg hgood]
  simp only [hfind, if_pos hc]

/-- The path when there is none and there is no page to be had. -/
theorem xvMalloc_of_none (hgood : ¬ (n = 0 ∨ n > xvMaxAllocSize))
    (hfind : findBlock A s.pool (align n xvAlign) Loc.null = (0, Loc.null)) (hw : nowait = false) :
    xvMalloc A n nowait none s = (negENOMEM, Loc.null, s) := by
  have hc : ¬ (Loc.null.pagenum = 0 ∧ nowait = true) := fun hc => Bool.noConfusion (hw ▸ hc.2)
  unfold xvMalloc
  rw [if_neg hgood]
  simp only [hfind, if_neg hc]
  rfl

/-- The paths when the pool grows. -/
theorem xvMalloc_of_grown (hgood : ¬ (n = 0 ∨ n > xvMaxAllocSize))
    (hfind : findBlock A s.pool (align n xvAlign) Loc.null = (0, Loc.null)) (hw : nowait = false)
    (hgrow : growPool A page s = (0, s1))
    (hfind1 : findBlock A s1.pool (align n xvAlign) Loc.null = (i, a)) :
    xvMalloc A n nowait page s = if a.pagenum = 0 then (negENOMEM, a, s1)
      else (0, a.plus xvAlign, splitBlock A a (align n xvAlign) n (removeBlockHead A a i s1)) := by
  have hc : ¬ (Loc.null.pagenum = 0 ∧ nowait = true) := fun hc => Bool.noConfusion (hw ▸ hc.2)
  have hnull : Loc.null.pagenum = 0 := rfl
  unfold xvMalloc
  rw [if_neg hgood]
  simp only [hfind, if_neg hc, if_pos hnull, hgrow, hfind1]
  rfl

end Paths

/-- A page with one block is that block. -/
theorem singleton_split {b c : Blk} {l r : List Blk} (h : [b] = l ++ ([c] ++ r)) :
    l = [] ∧ b = c ∧ r = [] := by
  cases l with
  | nil =>
    obtain ⟨hb, hr⟩ := List.cons.inj h
    exact ⟨rfl, hb, hr.symm⟩
  | cons d l =>
    obtain ⟨_, hnil⟩ := List.cons.inj h
    simp at hnil

/-- **`xv_malloc`.**  Every call keeps the invariant, writes no data of a used block, and has one of
    the four outcomes. -/
theorem xvMalloc_spec (h : Inv A s lay L) (n : Nat) (nowait : Bool) {page : Option Nat}
    (hpage : ∀ p, page = some p → Fresh s p) :
    ∃ lay' L', MallocOutcome n nowait page s lay (xvMalloc A n nowait page s) lay' ∧
      Inv A (xvMalloc A n nowait page s).2.2 lay' L' ∧
      AgreeOff (fun q k => Internal s lay q k ∨ page = some q) s.mem
        (xvMalloc A n nowait page s).2.2.mem := by
  have hsame : ∀ (hwhy : n = 0 ∨ 4092 < n ∨ nowait = true ∨ page = none),
      xvMalloc A n nowait page s = (negENOMEM, Loc.null, s) →
      ∃ lay' L', MallocOutcome n nowait page s lay (xvMalloc A n nowait page s) lay' ∧
        Inv A (xvMalloc A n nowait page s).2.2 lay' L' ∧
        AgreeOff (fun q k => Internal s lay q k ∨ page = some q) s.mem
          (xvMalloc A n nowait page s).2.2.mem := by
    intro hwhy heq
    rw [heq]
    exact ⟨lay, L, .refused hwhy, h, AgreeOff.refl _ _⟩
  by_cases hbad : n = 0 ∨ n > xvMaxAllocSize
  · -- the size is out of range
    exact hsame (hbad.imp_right Or.inl) (if_pos hbad)
  have hn0 : 0 < n := Nat.pos_of_ne_zero (fun hc => hbad (Or.inl hc))
  have hn : n ≤ 4092 := Nat.le_of_not_lt (fun hc => hbad (Or.inr hc))
  rcases findBlock_spec h.lists (align n xvAlign) Loc.null with
    ⟨hfind, hempty⟩ | ⟨i, a, t, hfind, hL, hi, _⟩
  · -- no block of the pool is large enough
    rcases hw : nowait with _ | _
    · rw [← hw]
      rcases hpg : page with _ | p
      · rw [← hpg]
        refine hsame (Or.inr (Or.inr (Or.inr hpg))) ?_
        rw [hpg]
        exact xvMalloc_of_none hbad hfind hw
      · rw [← hpg]
        obtain ⟨s1, hgrow, hInv1, hag1, hpages1⟩ := growPool_spec (p := p) h (hpage p hpg)
        rw [← hpg] at hgrow
        have hto : ∀ q k, Internal s lay q k ∨ q = p → Internal s lay q k ∨ page = some q :=
          fun q k hk => hk.imp_right (fun hq => hpg.trans (congrArg some hq.symm))
        rcases findBlock_spec hInv1.lists (align n xvAlign) Loc.null with
          ⟨hfind1, hempty1⟩ | ⟨i, a, t, hfind1, hL1, hi, _⟩
        · -- the new page is not looked at: the index is past its list
          have hbig : ¬ n ≤ 4088 := by
            intro hle
            have hidx := getIndex_align_lt_iff.mpr hle
            rw [numFreeLists_eq] at hidx
            have hnil := hempty1 507 (by omega)
            rw [pushList_self] at hnil
            exact List.cons_ne_nil _ _ hnil
          rw [xvMalloc_of_grown hbad hfind hw hgrow hfind1, if_pos (show Loc.null.pagenum = 0 by rfl)]
          refine ⟨_, _, .wasted ⟨by omega, hn⟩ hw hpg hpages1, hInv1, hag1.mono ?_⟩
          exact hto
        · -- the new page it is
          have hi507 : i = 507 := by
            by_contra hne
            rw [pushList_of_ne hne, hempty i hi] at hL1
            exact List.cons_ne_nil _ _ hL1.symm
          subst hi507
          rw [pushList_self] at hL1
          obtain ⟨ha, hL1'⟩ := List.cons.inj hL1
          have ha' : a ∈ pushList L 507 ⟨p, 0⟩ 507 := by
            rw [pushList_self, ← ha]
            exact List.mem_cons_self
          have hn' : n ≤ 4088 :=
            getIndex_align_lt_iff.mp (Nat.lt_of_le_of_lt hi (hInv1.lists.index_lt ha'))
          have h0 : a.pagenum ≠ 0 := (hInv1.lists.fits 507 a ha').1
          obtain ⟨l, sz, r, L', hlay, hoff, hle, hInv2, hag2, hpages2⟩ :=
            take_spec hInv1 (pushList_self.trans (ha ▸ rfl : _ = a :: L 507)) (n := n)
              (fun b hb => fits_of_found hInv1 ha' hi hb)
          subst ha
          rw [Function.update_self] at hlay
          obtain ⟨rfl, hsz, rfl⟩ := singleton_split hlay
          obtain ⟨rfl, _⟩ := Blk.mk.inj hsz
          rw [xvMalloc_of_grown hbad hfind hw hgrow hfind1, if_neg h0]
          rw [Function.update_idem, List.nil_append, List.append_nil] at hInv2
          refine ⟨_, _, .servedFresh ⟨hn0, hn'⟩ hw hpg (hpages2.trans hpages1), hInv2,
            (hag1.mono ?_).trans (hag2.mono ?_)⟩
          · exact hto
          · rintro q k ⟨hq, hnot⟩
            rw [hpages1] at hq
            rcases List.mem_cons.mp hq with rfl | hqs
            · exact Or.inr hpg
            · refine Or.inl ⟨hqs, ?_⟩
              rintro ⟨o, b, hb, hrest⟩
              refine hnot ⟨o, b, ?_, hrest⟩
              rw [Function.update_of_ne]
              · exact hb
              · rintro rfl
                exact (hpage _ hpg).2.2 hqs
    · rw [← hw]
      exact hsame (Or.inr (Or.inr (Or.inl hw))) (xvMalloc_of_nowait hbad hfind hw)
  · -- a free block of the pool
    have ha : a ∈ L i := hL ▸ List.mem_cons_self
    have hn' : n ≤ 4088 := getIndex_align_lt_iff.mp (Nat.lt_of_le_of_lt hi (h.lists.index_lt ha))
    obtain ⟨l, sz, r, L', hlay, hoff, hle, hInv, hag, hpages⟩ := take_spec h hL (n := n)
      (fun b hb => fits_of_found h ha hi hb)
    have hplus : a.plus xvAlign = ⟨a.pagenum, span Blk.len l + xvAlign⟩ := by
      rw [← hoff]
      rfl
    rw [xvMalloc_of_found hbad hfind (h.lists.fits i a ha).1, hplus]
    exact ⟨_, L', .served ⟨hn0, hn'⟩ hlay hle hpages, hInv, hag.mono (fun _ _ => Or.inl)⟩

end KernelPatches.Xvmalloc
