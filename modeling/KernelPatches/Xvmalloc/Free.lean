/-
  `xv_free`: what it does to the pool.

  Freeing a used block goes in three steps, each with its spec:

  * `mergeNext_spec`    — the size is rounded up, and a free block behind it is swallowed;
  * `mergePrev_spec`    — a free block before it swallows the result;
  * `releaseBlock_spec` — the merged block becomes one free block, or the page goes back to the page
    allocator if that block is all of it.

  Between the steps the page is in no valid state: the swallowed blocks are off their lists and their
  headers are stale.  `Merging` says what holds there — the stretch `mid` of the page is becoming one
  block of `v` bytes, of which only the header is written yet.

  `xvFree_spec` puts the steps together: a used block of the pool is freed, the `BUG_ON` does not
  fire, the invariant is kept, and the data of the other used blocks is not written.
-/
import KernelPatches.Xvmalloc.Malloc

namespace KernelPatches.Xvmalloc

open KernelPatches.Lib KernelPatches.Lib.Mem

variable {A : Arch} {s0 s : XvState} {lay : Nat → List Blk} {L0 L : Nat → List Loc} {p : Nat}
  {l r : List Blk}

/-! ## A page in the middle of a merge -/

/-- `b` starts one of the blocks `mid`, laid behind `l` in page `p`. -/
def StartsIn (p : Nat) (l mid : List Blk) (b : Loc) : Prop :=
  b.pagenum = p ∧ ∃ c, (b.offset, c) ∈ place Blk.len (span Blk.len l) mid

theorem startsIn_singleton {c : Blk} {b : Loc} : StartsIn p l [c] b ↔ b = ⟨p, span Blk.len l⟩ := by
  constructor
  · rintro ⟨hp, d, hd⟩
    obtain ⟨ho, _⟩ := Prod.mk.inj (List.mem_singleton.mp hd)
    rw [← hp, ← ho]
  · rintro rfl
    exact ⟨rfl, c, List.mem_cons_self⟩

theorem startsIn_append {m1 m2 : List Blk} {b : Loc} :
    StartsIn p l (m1 ++ m2) b ↔ StartsIn p l m1 b ∨ StartsIn p (l ++ m1) m2 b := by
  unfold StartsIn
  rw [place_append, span_append, ← and_or_left, ← exists_or]
  simp only [List.mem_append]

/-- The stretch `mid` behind `l` in page `p` is becoming one block of `v` bytes: its blocks are off
    the lists, the header of the new block has its size, and what the header says of the block
    before is still right.  Nothing but link records and the stretch was written since `s0`. -/
structure Merging (A : Arch) (s0 : XvState) (lay : Nat → List Blk) (L0 : Nat → List Loc) (p : Nat)
    (l mid : List Blk) (v : Nat) (s : XvState) (L : Nat → List Loc) : Prop where
  size : 4 + v = span Blk.len mid
  lists : FreeLists A s L
  off : ∀ i b, b ∈ L i ↔ OnList lay i b ∧ ¬ StartsIn p l mid b
  hdr : ∃ fr, Hdr s.mem ⟨p, span Blk.len l⟩ v (lastOff 0 0 l) (lastFree false l) fr
  agree : AgreeOff (Zone L0 p (span Blk.len l) (span Blk.len l + span Blk.len mid)) s0.mem s.mem
  pages : s.pages = s0.pages
  total : s.pool.totalPages = s0.pool.totalPages

namespace Merging

variable {mid : List Blk} {v : Nat}

theorem sub (h : Merging A s0 lay L0 p l mid v s L) : Sub lay L :=
  fun i b hb => ((h.off i b).mp hb).1

/-- Link records of members are still where they were. -/
theorem linkArea (h : Merging A s0 lay L0 p l mid v s L) (h0 : ∀ i b, OnList lay i b → b ∈ L0 i)
    {q k : Nat} (hk : LinkArea L q k) : LinkArea L0 q k := by
  obtain ⟨i, b, hb, hbk⟩ := hk
  exact ⟨i, b, h0 i b (h.sub i b hb), hbk⟩

/-- The new block takes the room of the old ones. -/
theorem span_eq (h : Merging A s0 lay L0 p l mid v s L) :
    v % 4 = 0 ∧ span Blk.len [Blk.mk v true] = span Blk.len mid := by
  have hmod := span_mod_four mid
  rw [← h.size] at hmod
  rw [← h.size]
  simp only [span_cons, span_nil, Blk.len_eq]
  omega

/-- A header outside the stretch is as it was. -/
theorem frame_hdr (h : Merging A s0 lay L0 p l mid v s L) (hs : Shape s0 lay) (hsub : Sub lay L0)
    {o : Nat} {c : Blk} (hc : At (lay p) o c)
    (hout : o + 4 ≤ span Blk.len l ∨ span Blk.len l + span Blk.len mid ≤ o) {size prev : Nat}
    {pf fr : Bool} (hh : Hdr s0.mem ⟨p, o⟩ size prev pf fr) : Hdr s.mem ⟨p, o⟩ size prev pf fr := by
  refine hh.frame h.agree ?_
  rintro q k hk (hlk | ⟨_, h1, h2⟩)
  · exact hs.hdr_not_linkArea hsub hc q k hk hlk
  · obtain ⟨_, h3, h4⟩ := hk
    simp only at h3 h4
    omega

end Merging

/-- The block at `a` leaves its list for the merge. -/
theorem unchain_off (hL : FreeLists A s L) {l' mid : List Blk}
    (hoff : ∀ i b, b ∈ L i ↔ OnList lay i b ∧ ¬ StartsIn p l mid b) {a : Loc} {v : Nat}
    (ha : At (lay a.pagenum) a.offset ⟨v, true⟩) (hout : ¬ StartsIn p l mid a)
    (hsize : blockSize s.mem a = v) {mid' : List Blk}
    (hmid : ∀ b, StartsIn p l' mid' b ↔ b = a ∨ StartsIn p l mid b) :
    ∃ L', FreeLists A (unchain A a.pagenum a.offset a s) L' ∧
      (∀ i b, b ∈ L' i ↔ OnList lay i b ∧ ¬ StartsIn p l' mid' b) ∧
      AgreeOff (LinkArea L) s.mem (unchain A a.pagenum a.offset a s).mem := by
  have hmem : ∀ j, a ∈ L j ↔ 32 ≤ v ∧ j = getIndexForInsert v := by
    intro j
    rw [hoff]
    constructor
    · rintro ⟨⟨b, hb, _, h32, hi⟩, _⟩
      obtain rfl := hb.unique ha
      exact ⟨h32, hi.symm⟩
    · rintro ⟨h32, rfl⟩
      exact ⟨⟨_, ha, rfl, h32, rfl⟩, hout⟩
  obtain ⟨h1, h2⟩ := unchain_spec hL hsize hmem
  refine ⟨_, h1, fun i b => ?_, h2⟩
  rw [hL.mem_unchainList hmem, hoff, hmid, not_or]
  exact ⟨fun ⟨x, y, z⟩ => ⟨y, x, z⟩, fun ⟨x, y, z⟩ => ⟨y, x, z⟩⟩

/-! ## The block behind -/

section Next

variable {n : Nat}

/-- `xv_free`, line 464: the size is rounded up. -/
def roundSize (b : Loc) (s : XvState) : XvState :=
  { s with mem := setSize s.mem b (align (blockSize s.mem b) xvAlign) }

/-- The paths through the first part of `xv_free`. -/
theorem mergeNext_of_end {o an : Nat} {s1 : XvState}
    (hs1 : s1 = roundSize ⟨p, o⟩ s)
    (hsize : blockSize s1.mem ⟨p, o⟩ = an) (hend : o + an + 4 = 4096) :
    mergeNext A p o ⟨p, o⟩ s = s1 := by
  have hc : o + blockSize s1.mem ⟨p, o⟩ + xvAlign = pageSize := by
    rw [hsize]
    exact hend
  rw [roundSize] at hs1
  rw [mergeNext, ← hs1]
  exact if_pos hc

theorem mergeNext_of_used {o an : Nat} {s1 : XvState}
    (hs1 : s1 = roundSize ⟨p, o⟩ s)
    (hsize : blockSize s1.mem ⟨p, o⟩ = an) (hend : o + an + 4 ≠ 4096)
    (hused : testFlag s1.mem ⟨p, o + (an + 4)⟩ .blockFree = false) :
    mergeNext A p o ⟨p, o⟩ s = s1 := by
  have hc : ¬ o + blockSize s1.mem ⟨p, o⟩ + xvAlign = pageSize := by
    rw [hsize]
    exact hend
  have hf : ¬ testFlag s1.mem (blockNext s1.mem ⟨p, o⟩) .blockFree = true := by
    rw [blockNext, hsize]
    exact Bool.not_eq_true _ ▸ hused
  rw [roundSize] at hs1
  rw [mergeNext, ← hs1]
  exact (if_neg hc).trans (if_neg hf)

theorem mergeNext_of_free {o an : Nat} {s1 s2 : XvState}
    (hs1 : s1 = roundSize ⟨p, o⟩ s)
    (hsize : blockSize s1.mem ⟨p, o⟩ = an) (hend : o + an + 4 ≠ 4096)
    (hfree : testFlag s1.mem ⟨p, o + (an + 4)⟩ .blockFree = true)
    (hs2 : s2 = unchain A p (o + (an + 4)) ⟨p, o + (an + 4)⟩ s1) :
    mergeNext A p o ⟨p, o⟩ s = { s2 with
      mem := setSize s2.mem ⟨p, o⟩ (blockSize s2.mem ⟨p, o⟩ +
        (blockSize s2.mem ⟨p, o + (an + 4)⟩ + 4)) } := by
  have hc : ¬ o + blockSize s1.mem ⟨p, o⟩ + xvAlign = pageSize := by
    rw [hsize]
    exact hend
  have hnext : blockNext s1.mem ⟨p, o⟩ = ⟨p, o + (an + 4)⟩ := by
    rw [blockNext, hsize]
    rfl
  have hf : testFlag s1.mem (blockNext s1.mem ⟨p, o⟩) .blockFree = true := by
    rw [hnext]
    exact hfree
  rw [roundSize] at hs1
  rw [mergeNext, ← hs1]
  refine (if_neg hc).trans ((if_pos hf).trans ?_)
  rw [hnext, hsize, hs2]
  rfl

/-- The size of the block freed is rounded up; no other block is involved yet. -/
theorem merging_self (h : Inv A s lay L) (hlay : lay p = l ++ ([Blk.mk n false] ++ r)) {s1 : XvState}
    (hs1 : s1 = roundSize ⟨p, span Blk.len l⟩ s) :
    Merging A s lay L p l [Blk.mk n false] (align n xvAlign) s1 L ∧
      Hdr s1.mem ⟨p, span Blk.len l⟩ (align n xvAlign) (lastOff 0 0 l) (lastFree false l) false := by
  have hat : At (lay p) (span Blk.len l) ⟨n, false⟩ := hlay ▸ at_append_cons l r ⟨n, false⟩
  have hlen : Blk.len ⟨n, false⟩ = 4 + align n xvAlign := rfl
  have hspan : span Blk.len [Blk.mk n false] = 4 + align n xvAlign := by
    rw [span_cons, span_nil, hlen, Nat.add_zero]
  have hbnd := h.shape.at_bound hat
  rw [hlen] at hbnd
  have hold := h.shape.headers p (h.shape.mem_pages hat)
  rw [hlay, headers_append, Nat.zero_add] at hold
  have hhdr : Hdr s.mem ⟨p, span Blk.len l⟩ n (lastOff 0 0 l) (lastFree false l) false := hold.2.1
  have hag : AgreeOff (InHdr ⟨p, span Blk.len l⟩) s.mem s1.mem := by
    rw [hs1, roundSize]
    exact agreeOff_setSize _ _ _
  have hhdr1 : Hdr s1.mem ⟨p, span Blk.len l⟩ (align n xvAlign) (lastOff 0 0 l) (lastFree false l)
      false := by
    rw [hs1, roundSize, hhdr.size]
    exact hhdr.setSize (by omega)
  have hpool : s1.pool = s.pool := by rw [hs1, roundSize]
  have hpages : s1.pages = s.pages := by rw [hs1, roundSize]
  refine ⟨⟨hspan.symm, ?_, ?_, ⟨false, hhdr1⟩, hag.mono ?_, hpages, by rw [hpool]⟩, hhdr1⟩
  · exact h.lists.frame hag (fun q k hk hq => h.shape.hdr_not_linkArea h.sub hat q k hq hk)
      (by rw [hpool]) (by rw [hpool]) (by rw [hpool])
  · intro i b
    rw [h.member]
    refine ⟨fun hb => ⟨hb, ?_⟩, And.left⟩
    -- a used block is on no list
    intro hst
    rw [startsIn_singleton] at hst
    obtain ⟨d, hd, hdf, _⟩ := hb
    rw [hst] at hd
    rw [hd.unique hat] at hdf
    exact Bool.noConfusion hdf
  · rintro q k ⟨hq, h1, h2⟩
    refine Or.inr ⟨hq, h1, ?_⟩
    rw [hspan]
    simp only at h2
    omega

/-- **The block behind** is swallowed if it is free. -/
theorem mergeNext_spec (h : Inv A s lay L) (hlay : lay p = l ++ ([Blk.mk n false] ++ r)) :
    ∃ v rf r0 L', r = rf ++ r0 ∧ (∀ b ∈ rf, b.free = true) ∧ (∀ y ∈ r0.head?, y.free = false) ∧
      Merging A s lay L p l (Blk.mk n false :: rf) v
        (mergeNext A p (span Blk.len l) ⟨p, span Blk.len l⟩ s) L' := by
  have hat : At (lay p) (span Blk.len l) ⟨n, false⟩ := hlay ▸ at_append_cons l r ⟨n, false⟩
  have hp := h.shape.mem_pages hat
  obtain ⟨s1, hs1⟩ : ∃ s1, s1 = roundSize ⟨p, span Blk.len l⟩ s := ⟨_, rfl⟩
  obtain ⟨hM, hhdr1⟩ := merging_self h hlay hs1
  have htotal := (h.shape.tiled p hp).total
  have hmerged := (h.shape.tiled p hp).merged
  have hheaders := h.shape.headers p hp
  rw [hlay] at hmerged hheaders
  rw [hlay, span_append, span_append, ← hM.size] at htotal
  cases r with
  | nil =>
    have hend : span Blk.len l + align n xvAlign + 4 = 4096 := by
      rw [span_nil] at htotal
      omega
    rw [mergeNext_of_end hs1 hhdr1.size hend]
    exact ⟨_, [], [], _, rfl, fun b hb => absurd hb List.not_mem_nil, (fun y hy => nomatch hy), hM⟩
  | cons c r' =>
    have hcl := c.len_eq
    rw [span_cons] at htotal
    have hend : span Blk.len l + align n xvAlign + 4 ≠ 4096 := by omega
    have hcat : At (lay p) (span Blk.len l + (align n xvAlign + 4)) c := by
      rw [hlay, at_append, place_append, ← hM.size, Nat.add_comm 4]
      exact Or.inr (List.mem_append_right _ List.mem_cons_self)
    have hchdr1 : ∃ po pf, Hdr s1.mem ⟨p, span Blk.len l + (align n xvAlign + 4)⟩ c.size po pf
        c.free := by
      obtain ⟨po, pf, hc⟩ := hheaders.hdr (hlay ▸ hcat)
      refine ⟨po, pf, hM.frame_hdr h.shape h.sub hcat (Or.inr ?_) hc⟩
      rw [← hM.size]
      omega
    obtain ⟨po, pf, hc1⟩ := hchdr1
    rcases hcf : c.free with _ | _
    · -- it is used
      rw [mergeNext_of_used hs1 hhdr1.size hend (hc1.free.trans hcf)]
      refine ⟨_, [], c :: r', _, rfl, fun b hb => absurd hb List.not_mem_nil, fun y hy => ?_, hM⟩
      obtain rfl := Option.some.inj hy
      exact hcf
    · -- it is free: off its list, and its bytes are ours
      obtain ⟨m, cf⟩ := c
      obtain rfl : cf = true := hcf
      obtain ⟨s2, hs2⟩ : ∃ s2, s2 = unchain A p (span Blk.len l + (align n xvAlign + 4))
          ⟨p, span Blk.len l + (align n xvAlign + 4)⟩ s1 := ⟨_, rfl⟩
      rw [mergeNext_of_free hs1 hhdr1.size hend hc1.free hs2]
      have hnext : (⟨p, span Blk.len (l ++ [Blk.mk n false])⟩ : Loc) =
          ⟨p, span Blk.len l + (align n xvAlign + 4)⟩ := by
        rw [span_append, ← hM.size, Nat.add_comm 4]
      have hout : ¬ StartsIn p l [Blk.mk n false]
          ⟨p, span Blk.len l + (align n xvAlign + 4)⟩ := by
        rw [startsIn_singleton, Loc.mk.injEq]
        omega
      have hstarts : ∀ b, StartsIn p l ([Blk.mk n false] ++ [Blk.mk m true]) b ↔
          b = ⟨p, span Blk.len l + (align n xvAlign + 4)⟩ ∨ StartsIn p l [Blk.mk n false] b := by
        intro b
        rw [startsIn_append, startsIn_singleton (l := l ++ [Blk.mk n false]), hnext, or_comm]
      obtain ⟨L2, hL2, hoff2, hag2⟩ := unchain_off hM.lists hM.off hcat hout hc1.size hstarts
      rw [← hs2] at hL2 hag2
      have hsub2 : Sub lay L2 := fun i b hb => ((hoff2 i b).mp hb).1
      have hb2 : Hdr s2.mem ⟨p, span Blk.len l⟩ (align n xvAlign) (lastOff 0 0 l) (lastFree false l)
          false := hhdr1.frame hag2 (h.shape.hdr_not_linkArea h.sub hat)
      have hc2 := hc1.frame hag2 (h.shape.hdr_not_linkArea h.sub hcat)
      rw [hb2.size, hc2.size]
      have hcbnd := h.shape.at_bound hcat
      have h4 : m % 4 = 0 := (h.shape.free_len hcat rfl).1
      have hlen : Blk.len ⟨m, true⟩ = 4 + m := (h.shape.free_len hcat rfl).2
      rw [hlen] at hcbnd
      have hsize : 4 + (align n xvAlign + (m + 4)) =
          span Blk.len ([Blk.mk n false] ++ [Blk.mk m true]) := by
        rw [span_append, ← hM.size, span_cons, span_nil, hlen]
        omega
      have hag3 := agreeOff_setSize s2.mem ⟨p, span Blk.len l⟩ (align n xvAlign + (m + 4))
      refine ⟨_, [Blk.mk m true], r', L2, rfl, fun b hb => ?_, fun y hy => ?_, ⟨hsize, ?_, hoff2,
        ⟨false, hb2.setSize (by omega)⟩, hM.agree.mono ?_ |>.trans ((hag2.mono ?_).trans
          (hag3.mono ?_)), ?_, ?_⟩⟩
      · rw [List.mem_singleton.mp hb]
      · rcases hyf : y.free with _ | _
        · rfl
        · have hm : (l ++ ([Blk.mk n false, Blk.mk m true] ++ r')).IsChain NotBothFree := hmerged
          obtain ⟨_, _, _, _, hnb⟩ := merged_split hm (List.cons_ne_nil _ _)
          exact absurd ⟨rfl, hyf⟩ (hnb (Blk.mk m true) rfl y hy)
      · exact hL2.frame hag3 (fun q k hk hq => h.shape.hdr_not_linkArea hsub2 hat q k hq hk) rfl rfl
          rfl
      · rintro q k (hk | ⟨rfl, h1, h2⟩)
        · exact Or.inl hk
        · rw [← hM.size] at h2
          rw [← List.singleton_append, ← hsize]
          exact Or.inr ⟨rfl, h1, by omega⟩
      · exact fun q k hk => Or.inl hk
      · rintro q k ⟨rfl, h1, h2⟩
        simp only at h2
        rw [← List.singleton_append, ← hsize]
        exact Or.inr ⟨rfl, h1, by omega⟩
      · show s2.pages = s.pages
        rw [hs2, unchain_pages, hM.pages]
      · show s2.pool.totalPages = s.pool.totalPages
        rw [hs2, unchain_totalPages, hM.total]

end Next

/-! ## The block before -/

section Prev

variable {mid : List Blk} {v : Nat}

/-- The paths through the second part of `xv_free`. -/
theorem mergePrev_of_used {o : Nat} {b : Loc} (h : testFlag s.mem b .prevFree = false) :
    mergePrev A p o b s = (o, b, s) := by
  have hc : ¬ testFlag s.mem b .prevFree = true := by
    rw [h]
    exact Bool.false_ne_true
  exact if_neg hc

theorem mergePrev_of_free {o po sp : Nat} {b : Loc} {s2 : XvState}
    (h : testFlag s.mem b .prevFree = true) (hprev : getBlockprev s.mem b = po)
    (hsize : blockSize s.mem ⟨p, po⟩ = sp) (ho : o = po + (4 + sp))
    (hs2 : s2 = unchain A p po ⟨p, po⟩ s) :
    mergePrev A p o b s = (po, ⟨p, po⟩, { s2 with
      mem := setSize s2.mem ⟨p, po⟩ (blockSize s2.mem ⟨p, po⟩ + (blockSize s2.mem b + 4)) }) := by
  have hoff : o - sp - xvAlign = po := by
    rw [ho, xvAlign_eq]
    omega
  refine (if_pos h).trans ?_
  dsimp only
  rw [hprev, hsize, hoff, hs2, unchain, hsize]
  rfl

/-- The last block of a page's beginning, if it is free. -/
theorem exists_last_free {l : List Blk} (h : lastFree false l = true) :
    ∃ l0 sp, l = l0 ++ [Blk.mk sp true] := by
  rcases List.eq_nil_or_concat l with rfl | ⟨l0, ⟨sp, fr⟩, rfl⟩
  · exact absurd h Bool.false_ne_true
  · rw [List.concat_eq_append] at h ⊢
    rw [lastFree_concat] at h
    obtain rfl : fr = true := h
    exact ⟨l0, sp, rfl⟩

/-- **The block before** swallows what is being freed, if it is free itself. -/
theorem mergePrev_spec (h : Inv A s0 lay L0) (hlay : lay p = l ++ (mid ++ r)) (hp : p ∈ s0.pages)
    (hM : Merging A s0 lay L0 p l mid v s L) :
    ∃ l0 lf v' s' L', l = l0 ++ lf ∧ (∀ b ∈ lf, b.free = true) ∧ lastFree false l0 = false ∧
      mergePrev A p (span Blk.len l) ⟨p, span Blk.len l⟩ s =
        (span Blk.len l0, ⟨p, span Blk.len l0⟩, s') ∧
      Merging A s0 lay L0 p l0 (lf ++ mid) v' s' L' := by
  obtain ⟨fr, hhdr⟩ := hM.hdr
  rcases hpf : lastFree false l with _ | _
  · -- it is used, or there is none
    exact ⟨l, [], v, s, L, (List.append_nil l).symm, fun b hb => absurd hb List.not_mem_nil, hpf,
      mergePrev_of_used (hhdr.prevFree.trans hpf), hM⟩
  · obtain ⟨l0, sp, rfl⟩ := exists_last_free hpf
    have hcat : At (lay p) (span Blk.len l0) ⟨sp, true⟩ := by
      rw [hlay, List.append_assoc]
      exact at_append_cons l0 (mid ++ r) ⟨sp, true⟩
    have h4 : sp % 4 = 0 := (h.shape.free_len hcat rfl).1
    have hlen : Blk.len ⟨sp, true⟩ = 4 + sp := (h.shape.free_len hcat rfl).2
    have hspan : span Blk.len (l0 ++ [Blk.mk sp true]) = span Blk.len l0 + (4 + sp) := by
      rw [span_append, span_cons, span_nil, hlen, Nat.add_zero]
    have htotal := (h.shape.tiled p hp).total
    have hmerged := (h.shape.tiled p hp).merged
    have hheaders := h.shape.headers p hp
    rw [hlay, span_append, hspan, span_append, ← hM.size] at htotal
    rw [hlay, List.append_assoc] at hmerged hheaders
    rw [headers_append, Nat.zero_add] at hheaders
    have hchdr : Hdr s0.mem ⟨p, span Blk.len l0⟩ sp (lastOff 0 0 l0) (lastFree false l0) true :=
      hheaders.2.1
    have hc1 := hM.frame_hdr h.shape h.sub hcat (Or.inl (by rw [hspan]; omega)) hchdr
    rw [lastOff_concat, Nat.zero_add] at hhdr
    obtain ⟨s2, hs2⟩ : ∃ s2, s2 = unchain A p (span Blk.len l0) ⟨p, span Blk.len l0⟩ s := ⟨_, rfl⟩
    have hout : ¬ StartsIn p (l0 ++ [Blk.mk sp true]) mid ⟨p, span Blk.len l0⟩ := by
      rintro ⟨_, d, hd⟩
      have hlow := (mem_place_bounds hd).1
      rw [hspan] at hlow
      simp only at hlow
      omega
    have hstarts : ∀ b, StartsIn p l0 ([Blk.mk sp true] ++ mid) b ↔
        b = ⟨p, span Blk.len l0⟩ ∨ StartsIn p (l0 ++ [Blk.mk sp true]) mid b := by
      intro b
      rw [startsIn_append, startsIn_singleton]
    obtain ⟨L2, hL2, hoff2, hag2⟩ := unchain_off hM.lists hM.off hcat hout hc1.size hstarts
    rw [← hs2] at hL2 hag2
    have hsub2 : Sub lay L2 := fun i b hb => ((hoff2 i b).mp hb).1
    have hbat : ∃ c, At (lay p) (span Blk.len (l0 ++ [Blk.mk sp true])) c := by
      cases mid with
      | nil =>
        have hsz := hM.size
        rw [span_nil] at hsz
        omega
      | cons c mid =>
        rw [hlay]
        exact ⟨c, at_append_cons _ (mid ++ r) c⟩
    obtain ⟨c, hbat⟩ := hbat
    have hb2 := hhdr.frame hag2 (h.shape.hdr_not_linkArea hM.sub hbat)
    have hc2 := hc1.frame hag2 (h.shape.hdr_not_linkArea hM.sub hcat)
    have hag3 := agreeOff_setSize s2.mem ⟨p, span Blk.len l0⟩ (sp + (v + 4))
    have hsize : 4 + (sp + (v + 4)) = span Blk.len ([Blk.mk sp true] ++ mid) := by
      rw [span_append, ← hM.size, span_cons, span_nil, hlen]
      omega
    refine ⟨l0, [Blk.mk sp true], sp + (v + 4), _, L2, rfl, fun b hb => ?_, ?_,
      mergePrev_of_free (hhdr.prevFree.trans hpf) hhdr.prev hc1.size hspan hs2, ?_⟩
    · rw [List.mem_singleton.mp hb]
    · -- the block before that one is used
      rcases hpf0 : lastFree false l0 with _ | _
      · rfl
      · obtain ⟨l1, sq, rfl⟩ := exists_last_free hpf0
        obtain ⟨_, _, _, hnb, _⟩ := merged_split hmerged (List.cons_ne_nil _ _)
        exact absurd ⟨rfl, rfl⟩ (hnb (Blk.mk sq true) (by simp) (Blk.mk sp true) rfl)
    · rw [hb2.size, hc2.size]
      refine ⟨hsize, ?_, hoff2, ⟨true, hc2.setSize (by omega)⟩, hM.agree.mono ?_ |>.trans
        ((hag2.mono ?_).trans (hag3.mono ?_)), ?_, ?_⟩
      · exact hL2.frame hag3 (fun q k hk hq => h.shape.hdr_not_linkArea hsub2 hcat q k hq hk) rfl rfl
          rfl
      · rintro q k (hk | ⟨rfl, h1, h2⟩)
        · exact Or.inl hk
        · rw [hspan] at h1 h2
          rw [← hM.size] at h2
          rw [← hsize]
          exact Or.inr ⟨rfl, by omega, by omega⟩
      · exact fun q k hk => Or.inl (hM.linkArea (fun i b hb => (h.member i b).mpr hb) hk)
      · rintro q k ⟨rfl, h1, h2⟩
        simp only at h2
        rw [← hsize]
        exact Or.inr ⟨rfl, h1, by omega⟩
      · show s2.pages = s0.pages
        rw [hs2, unchain_pages, hM.pages]
      · show s2.pool.totalPages = s0.pool.totalPages
        rw [hs2, unchain_totalPages, hM.total]

end Prev

/-! ## The merged block -/

section Release

variable {mid : List Blk} {v : Nat}

/-- The paths through the last part of `xv_free`. -/
theorem releaseBlock_of_whole {o : Nat} (hsize : blockSize s.mem ⟨p, o⟩ = 4092) :
    releaseBlock A p o ⟨p, o⟩ s =
      { s with
        pages := s.pages.erase p,
        pool := { s.pool with totalPages := statDec s.pool.totalPages } } := by
  have hc : blockSize s.mem ⟨p, o⟩ = pageSize - xvAlign := hsize
  exact if_pos hc

theorem releaseBlock_of_part {o : Nat} {s2 : XvState} (hsize : blockSize s.mem ⟨p, o⟩ ≠ 4092)
    (hs2 : s2 = chain A ⟨p, o⟩ { s with mem := setFlag s.mem ⟨p, o⟩ .blockFree })
    (hsize2 : blockSize s2.mem ⟨p, o⟩ = v) :
    releaseBlock A p o ⟨p, o⟩ s = if o + v + xvAlign ≠ pageSize then
      { s2 with
        mem := setBlockprev (setFlag s2.mem ⟨p, o + (v + 4)⟩ .prevFree) ⟨p, o + (v + 4)⟩ o }
      else s2 := by
  have hc : ¬ blockSize s.mem ⟨p, o⟩ = pageSize - xvAlign := hsize
  have hnext : blockNext s2.mem ⟨p, o⟩ = ⟨p, o + (v + 4)⟩ := by
    rw [blockNext, hsize2]
    rfl
  rw [chain] at hs2
  refine (if_neg hc).trans ?_
  dsimp only
  rw [← hs2, hnext, hsize2]

theorem span_eq_zero {bs : List Blk} (h : span Blk.len bs = 0) : bs = [] := by
  cases bs with
  | nil => rfl
  | cons b bs =>
    have hb := b.len_pos
    rw [span_cons] at h
    omega

/-- **The whole page is free**: it goes back to the page allocator. -/
theorem releaseBlock_whole (h : Inv A s0 lay L0) (hlay : lay p = mid) (hp : p ∈ s0.pages)
    (hM : Merging A s0 lay L0 p [] mid v s L) :
    Inv A (releaseBlock A p 0 ⟨p, 0⟩ s) (Function.update lay p []) L ∧
      (releaseBlock A p 0 ⟨p, 0⟩ s).mem = s.mem ∧
      (releaseBlock A p 0 ⟨p, 0⟩ s).pages = s0.pages.erase p := by
  obtain ⟨fr, hhdr'⟩ := hM.hdr
  have hhdr : Hdr s.mem ⟨p, 0⟩ v 0 false fr := hhdr'
  have hv : v = 4092 := by
    have htotal := (h.shape.tiled p hp).total
    rw [hlay, ← hM.size] at htotal
    omega
  have htotal : statDec s.pool.totalPages = s0.pool.totalPages - 1 := by
    have hle := h.shape.length_le
    have hpos := List.length_pos_of_mem hp
    rw [← h.shape.total] at hle hpos
    rw [statDec, hM.total]
    omega
  rw [releaseBlock_of_whole (hhdr.size.trans hv)]
  refine ⟨⟨h.shape.drop hp hM.agree ?_ (by rw [hM.pages]) htotal, ?_, ?_⟩, rfl, by rw [hM.pages]⟩
  · rintro q o c hqp hc j k hj (hk | ⟨rfl, _, _⟩)
    · exact h.shape.hdr_not_linkArea h.sub hc j k hj hk
    · exact hqp hj.1.symm
  · exact hM.lists.setPages _ _
  · intro i b
    rw [hM.off]
    unfold OnList
    by_cases hbp : b.pagenum = p
    · rw [hbp, Function.update_self]
      refine iff_of_false ?_ ?_
      · rintro ⟨⟨c, hc, _⟩, hn⟩
        exact hn ⟨hbp, c, hlay ▸ hc⟩
      · rintro ⟨c, hc, _⟩
        exact not_at_nil _ _ hc
    · rw [Function.update_of_ne hbp]
      exact and_iff_left (fun hc => hbp hc.1)

/-- Blocks that are not free on either side of a free block. -/
theorem merged_free {b : Blk} (h : (l ++ (mid ++ r)).IsChain NotBothFree) (hmid : mid ≠ [])
    (hl : lastFree false l = false) (hr : ∀ y ∈ r.head?, y.free = false) :
    (l ++ ([b] ++ r)).IsChain NotBothFree := by
  obtain ⟨hlc, hrc, _, _, _⟩ := merged_split h hmid
  have hlast : ∀ x ∈ l.getLast?, x.free = false := by
    intro x hx
    rcases List.eq_nil_or_concat l with rfl | ⟨l0, c, rfl⟩
    · exact nomatch hx
    · rw [List.concat_eq_append] at hl hx
      rw [lastFree_concat] at hl
      rw [List.getLast?_concat] at hx
      obtain rfl := Option.some.inj hx
      exact hl
  refine List.isChain_append.mpr ⟨hlc, List.isChain_append.mpr ⟨List.isChain_singleton _, hrc, ?_⟩, ?_⟩
  · exact fun _ _ y hy hc => Bool.noConfusion (hc.2.symm.trans (hr y hy))
  · exact fun x hx _ _ hc => Bool.noConfusion (hc.1.symm.trans (hlast x hx))

/-- The lists once the merged block is on its list. -/
theorem onList_merged (hlay : lay p = l ++ (mid ++ r))
    (hspan : span Blk.len [Blk.mk v true] = span Blk.len mid) {i : Nat} {b : Loc} :
    OnList (Function.update lay p (l ++ ([Blk.mk v true] ++ r))) i b ↔
      (OnList lay i b ∧ ¬ StartsIn p l mid b) ∨
        (32 ≤ v ∧ b = ⟨p, span Blk.len l⟩ ∧ i = getIndexForInsert v) := by
  rw [onList_replace hlay hspan]
  refine or_congr_right ⟨?_, ?_⟩
  · rintro ⟨hbp, c, hc, _, h32, hi⟩
    obtain ⟨ho, rfl⟩ := Prod.mk.inj (List.mem_singleton.mp hc)
    refine ⟨h32, ?_, hi.symm⟩
    rw [← hbp, ← ho]
  · rintro ⟨h32, rfl, rfl⟩
    exact ⟨rfl, _, List.mem_cons_self, rfl, h32, rfl⟩

/-- **Part of the page is still used**: the merged block becomes a free block. -/
theorem releaseBlock_part (h : Inv A s0 lay L0) (hlay : lay p = l ++ (mid ++ r)) (hp : p ∈ s0.pages)
    (hM : Merging A s0 lay L0 p l mid v s L) (hl : lastFree false l = false)
    (hr : ∀ y ∈ r.head?, y.free = false) (hrest : l ≠ [] ∨ r ≠ []) :
    ∃ L', Inv A (releaseBlock A p (span Blk.len l) ⟨p, span Blk.len l⟩ s)
        (Function.update lay p (l ++ ([Blk.mk v true] ++ r))) L' ∧
      AgreeOff (Zone L0 p (span Blk.len l) (span Blk.len l + span Blk.len mid + 4)) s0.mem
        (releaseBlock A p (span Blk.len l) ⟨p, span Blk.len l⟩ s).mem ∧
      (releaseBlock A p (span Blk.len l) ⟨p, span Blk.len l⟩ s).pages = s0.pages := by
  obtain ⟨fr, hhdr⟩ := hM.hdr
  have hmid : mid ≠ [] := by
    rintro rfl
    have hsz := hM.size
    rw [span_nil] at hsz
    omega
  have htiled := h.shape.tiled p hp
  have htotal := htiled.total
  rw [hlay] at htiled
  rw [hlay, span_append, span_append, ← hM.size] at htotal
  obtain ⟨hv4, hspan⟩ := hM.span_eq
  have hl4 := span_mod_four l
  have hbat : ∃ c, At (lay p) (span Blk.len l) c := by
    obtain ⟨c, mid', rfl⟩ := List.exists_cons_of_ne_nil hmid
    rw [hlay]
    exact ⟨c, at_append_cons l (mid' ++ r) c⟩
  obtain ⟨c, hbat⟩ := hbat
  have hne : v ≠ 4092 := by
    rintro rfl
    rcases hrest with hrest | hrest
    · exact hrest (span_eq_zero (by omega))
    · exact hrest (span_eq_zero (by omega))
  have hpage := h.shape.pageOk p hp
  have hnot : ∀ i o c, (o, c) ∈ place Blk.len (span Blk.len l) mid → ⟨p, o⟩ ∉ L i :=
    fun i o c hc hi => ((hM.off i _).mp hi).2 ⟨rfl, c, hc⟩
  have hclear : ∀ k, span Blk.len l ≤ k → k < span Blk.len l + (4 + v) + 4 → ¬ LinkArea L p k :=
    fun k h1 h2 => h.shape.stretch_not_linkArea hM.sub hlay hnot h1 (by rwa [← hM.size])
  have hsep : 32 ≤ v → ∀ j, ∀ b ∈ L j, Sep b ⟨p, span Blk.len l⟩ := by
    intro h32 j b hb
    obtain ⟨d, hd, _, hd32, _, hdl, _⟩ := h.shape.member_at hM.sub hb
    by_cases hbp : b.pagenum = p
    · rw [hbp, hlay] at hd
      rcases at_stretch hd with hin | hlow | hhigh
      · exact absurd ⟨hbp, d, hin⟩ ((hM.off j b).mp hb).2
      · exact Or.inr (Or.inl (by show b.offset + 16 ≤ span Blk.len l; omega))
      · rw [← hM.size] at hhigh
        exact Or.inr (Or.inr (by show span Blk.len l + 16 ≤ b.offset; omega))
    · exact Or.inl hbp
  -- marked free
  obtain ⟨s1, hs1⟩ : ∃ s1 : XvState, s1 =
      { s with mem := setFlag s.mem ⟨p, span Blk.len l⟩ .blockFree } := ⟨_, rfl⟩
  have hag1 : AgreeOff (InHdr ⟨p, span Blk.len l⟩) s.mem s1.mem := by
    rw [hs1]
    exact agreeOff_setPrev _ _ _
  have hb1 : Hdr s1.mem ⟨p, span Blk.len l⟩ v (lastOff 0 0 l) (lastFree false l) true := by
    rw [hs1]
    exact hhdr.setFree
  have hL1 : FreeLists A s1 L :=
    hM.lists.frame hag1 (fun q k hk hq => h.shape.hdr_not_linkArea hM.sub hbat q k hq hk)
      (by rw [hs1]) (by rw [hs1]) (by rw [hs1])
  -- chained
  obtain ⟨hL2, hag2⟩ := chain_spec hL1 hb1.size (by omega) hpage.1
    ⟨hpage.2, by show span Blk.len l < 2 ^ 16; omega⟩ hsep
  obtain ⟨s2, hs2⟩ : ∃ s2, s2 = chain A ⟨p, span Blk.len l⟩ s1 := ⟨_, rfl⟩
  rw [← hs2] at hL2 hag2
  rw [hs1] at hs2
  have hkeep : ∀ k, span Blk.len l ≤ k → k < span Blk.len l + (4 + v) + 4 →
      ¬ (span Blk.len l + 4 ≤ k ∧ k < span Blk.len l + 16 ∧ 32 ≤ v) →
      ¬ ChainArea L v ⟨p, span Blk.len l⟩ p k := by
    rintro k h1 h2 h3 (hk | ⟨h32, _, h4, h5⟩)
    · exact hclear k h1 h2 hk
    · exact h3 ⟨h4, h5, h32⟩
  have hb2 : Hdr s2.mem ⟨p, span Blk.len l⟩ v (lastOff 0 0 l) (lastFree false l) true := by
    refine hb1.frame hag2 ?_
    rintro q k ⟨rfl, h1, h2⟩
    simp only at h1 h2
    exact hkeep k (by omega) (by omega) (by omega)
  have hpages2 : s2.pages = s0.pages := by
    rw [hs2, chain_pages]
    exact hM.pages
  have htotal2 : s2.pool.totalPages = s0.pool.totalPages := by
    rw [hs2, chain_totalPages]
    exact hM.total
  have hzone2 : AgreeOff (Zone L0 p (span Blk.len l) (span Blk.len l + span Blk.len mid + 4)) s0.mem
      s2.mem := by
    refine hM.agree.mono ?_ |>.trans ((hag1.mono ?_).trans (hag2.mono ?_))
    · exact fun q k hk => hk.imp_right (fun hk => ⟨hk.1, hk.2.1, Nat.lt_add_right 4 hk.2.2⟩)
    · rintro q k ⟨rfl, h1, h2⟩
      simp only at h1 h2
      exact Or.inr ⟨rfl, h1, by omega⟩
    · rintro q k (hk | ⟨h32, rfl, h1, h2⟩)
      · exact Or.inl (hM.linkArea (fun i b hb => (h.member i b).mpr hb) hk)
      · simp only at h1 h2
        rw [← hM.size]
        exact Or.inr ⟨rfl, by omega, by omega⟩
  rw [releaseBlock_of_part (fun hc => hne (hhdr.size.symm.trans hc)) hs2 hb2.size]
  have htiles : Tiled (l ++ ([Blk.mk v true] ++ r)) := by
    refine htiled.replace (hspan) (fun b hb _ => ?_) (merged_free htiled.merged hmid hl hr)
    rw [List.mem_singleton.mp hb]
    exact hv4
  have hmember : ∀ i b, b ∈ chainList L v ⟨p, span Blk.len l⟩ i ↔
      OnList (Function.update lay p (l ++ ([Blk.mk v true] ++ r))) i b := by
    intro i b
    rw [mem_chainList, hM.off, onList_merged hlay hspan]
  cases r with
  | nil =>
    have hend : ¬ span Blk.len l + v + xvAlign ≠ pageSize := by
      rw [span_nil] at htotal
      intro hc
      refine hc ?_
      show span Blk.len l + v + 4 = 4096
      omega
    rw [if_neg hend]
    refine ⟨_, ⟨h.shape.rebuild h.sub hp hlay (hspan) hzone2 hpages2 htotal2 htiles
      ⟨hb2, trivial⟩ (fun c r' hc => nomatch hc), hL2, hmember⟩, hzone2, hpages2⟩
  | cons d r' =>
    have hdl := d.len_eq
    rw [span_cons] at htotal
    have hend : span Blk.len l + v + xvAlign ≠ pageSize := by
      show span Blk.len l + v + 4 ≠ 4096
      omega
    rw [if_pos hend]
    -- the block behind is told
    have hoffn : span Blk.len l + span Blk.len mid = span Blk.len l + (v + 4) := by
      rw [← hM.size, Nat.add_comm 4]
    have hag3 : AgreeOff (InHdr ⟨p, span Blk.len l + (v + 4)⟩) s2.mem
        (setBlockprev (setFlag s2.mem ⟨p, span Blk.len l + (v + 4)⟩ .prevFree)
          ⟨p, span Blk.len l + (v + 4)⟩ (span Blk.len l)) :=
      (agreeOff_setPrev _ _ _).trans (agreeOff_setPrev _ _ _)
    have hdat : At (lay p) (span Blk.len l + (v + 4)) d := by
      rw [← hoffn, hlay, at_append, place_append]
      exact Or.inr (List.mem_append_right _ List.mem_cons_self)
    have hd : ∃ po pf, Hdr s2.mem ⟨p, span Blk.len l + (v + 4)⟩ d.size po pf d.free := by
      obtain ⟨po, pf, hd⟩ := (h.shape.headers p hp).hdr hdat
      refine ⟨po, pf, ((hM.frame_hdr h.shape h.sub hdat (Or.inr (Nat.le_of_eq hoffn)) hd).frame
        hag1 ?_).frame hag2 ?_⟩
      · rintro q k ⟨_, h1, _⟩ ⟨_, _, h4⟩
        simp only at h1 h4
        omega
      · rintro q k ⟨rfl, h1, h2⟩
        simp only at h1 h2
        exact hkeep k (by omega) (by omega) (by omega)
    obtain ⟨po, pf, hd⟩ := hd
    have hd3 := hd.setPrevFree.setBlockprev hl4 (by omega)
    have hzone3 := hzone2.trans (hag3.mono (fun q k hk => Or.inr (⟨hk.1, by
      have h1 := hk.2.1
      simp only at h1
      omega, by
      have h2 := hk.2.2
      simp only at h2
      omega⟩ : q = p ∧ span Blk.len l ≤ k ∧ k < span Blk.len l + span Blk.len mid + 4)))
    refine ⟨_, ⟨h.shape.rebuild h.sub hp hlay (hspan) hzone3 hpages2 htotal2 htiles
      ⟨hb2.frame hag3 ?_, trivial⟩ ?_, hL2.frame hag3 ?_ rfl rfl rfl, hmember⟩, hzone3, hpages2⟩
    · rintro q k ⟨_, _, h2⟩ ⟨_, h3, _⟩
      simp only at h2 h3
      omega
    · intro c r'' hc
      obtain ⟨rfl, _⟩ := List.cons.inj hc
      rw [hoffn]
      exact hd3
    · rintro q k hk ⟨rfl, h1, h2⟩
      simp only at h1 h2
      exact hkeep k (by omega) (by omega) (by omega) (linkArea_chainList hk)

end Release

/-! ## `xv_free` -/

/-- The one used block of what is merged. -/
theorem used_in_stretch {l0 lf rf : List Blk} {n k : Nat} {c : Blk} (hlf : ∀ b ∈ lf, b.free = true)
    (hrf : ∀ b ∈ rf, b.free = true)
    (hc : (k, c) ∈ place Blk.len (span Blk.len l0) (lf ++ (Blk.mk n false :: rf)))
    (hcf : c.free = false) : k = span Blk.len (l0 ++ lf) ∧ c = ⟨n, false⟩ := by
  rw [place_append, place_cons, ← span_append] at hc
  rcases List.mem_append.mp hc with hc | hc
  · exact Bool.noConfusion ((hlf c (mem_of_mem_place hc)).symm.trans hcf)
  · rcases List.mem_cons.mp hc with hc | hc
    · exact Prod.mk.inj hc
    · exact Bool.noConfusion ((hrf c (mem_of_mem_place hc)).symm.trans hcf)

/-- The last block of a page's beginning, if there is one and it is not free. -/
theorem exists_last_used {l : List Blk} (hne : l ≠ []) (h : lastFree false l = false) :
    ∃ l0 n, l = l0 ++ [Blk.mk n false] := by
  rcases List.eq_nil_or_concat l with rfl | ⟨l0, ⟨n, fr⟩, rfl⟩
  · exact absurd rfl hne
  · rw [List.concat_eq_append] at h ⊢
    rw [lastFree_concat] at h
    obtain rfl : fr = false := h
    exact ⟨l0, n, rfl⟩

/-- The result of `xv_free` in terms of its three steps. -/
theorem xvFree_eq {o o' : Nat} {b' : Loc} {s' : XvState}
    (hused : testFlag s.mem ⟨p, o⟩ .blockFree = false)
    (hprev : mergePrev A p o ⟨p, o⟩ (mergeNext A p o ⟨p, o⟩ s) = (o', b', s')) :
    xvFree A p (o + xvAlign) s = some (releaseBlock A p o' b' s') := by
  have hoff : o + xvAlign - xvAlign = o := Nat.add_sub_cancel o xvAlign
  have hc : ¬ testFlag s.mem ⟨p, o⟩ .blockFree = true := by
    rw [hused]
    exact Bool.false_ne_true
  rw [xvFree, hoff]
  refine (if_neg hc).trans ?_
  dsimp only
  rw [hprev]

/-- **`xv_free`** of a used block: the `BUG_ON` does not fire, the invariant is kept, that block and no
    other one stops being used, the page is kept exactly as long as it has a used block, and nothing
    of the other used blocks' data is written. -/
theorem xvFree_spec (h : Inv A s lay L) {o n : Nat} (hat : At (lay p) o ⟨n, false⟩) :
    ∃ s' lay' L', xvFree A p (o + xvAlign) s = some s' ∧ Inv A s' lay' L' ∧
      (∀ q k m, At (lay' q) k ⟨m, false⟩ ↔ At (lay q) k ⟨m, false⟩ ∧ ¬ (q = p ∧ k = o)) ∧
      ((s'.pages = s.pages ∧ ∃ k m, At (lay' p) k ⟨m, false⟩) ∨ s'.pages = s.pages.erase p) ∧
      AgreeOff (fun q k => Internal s lay q k ∨ (q = p ∧ o + 4 ≤ k ∧ k < o + 4 + n)) s.mem s'.mem := by
  have hp := h.shape.mem_pages hat
  obtain ⟨l, r, hlay, rfl⟩ := at_iff.mp hat
  have hheaders := h.shape.headers p hp
  rw [hlay, headers_append, Nat.zero_add] at hheaders
  have hhdr : Hdr s.mem ⟨p, span Blk.len l⟩ n (lastOff 0 0 l) (lastFree false l) false := hheaders.2.1
  obtain ⟨v1, rf, r0, L1, rfl, hrf, hr0, hM1⟩ := mergeNext_spec h hlay
  have hlay1 : lay p = l ++ ((Blk.mk n false :: rf) ++ r0) := hlay
  obtain ⟨l0, lf, v, s2, L2, rfl, hlf, hl0, hprev, hM⟩ := mergePrev_spec h hlay1 hp hM1
  have hlay2 : lay p = l0 ++ ((lf ++ (Blk.mk n false :: rf)) ++ r0) := by
    rw [hlay1, List.append_assoc, List.append_assoc]
  -- what is written
  have hwrite : ∀ q k, Zone L p (span Blk.len l0)
      (span Blk.len l0 + span Blk.len (lf ++ (Blk.mk n false :: rf)) + 4) q k →
      Internal s lay q k ∨ (q = p ∧ span Blk.len (l0 ++ lf) + 4 ≤ k ∧
        k < span Blk.len (l0 ++ lf) + 4 + n) := by
    rintro q k (hk | ⟨rfl, h1, h2⟩)
    · exact Or.inl (h.shape.linkArea_internal h.sub hk)
    · by_cases hpay : Payload lay q k
      · obtain ⟨o, c, hc, hcf, h3, h4⟩ := hpay
        have hcl := c.len_eq
        rw [hlay2] at hc
        rcases at_stretch hc with hin | hlow | hhigh
        · obtain ⟨rfl, rfl⟩ := used_in_stretch hlf hrf hin hcf
          exact Or.inr ⟨rfl, h3, h4⟩
        · omega
        · omega
      · exact Or.inl ⟨hp, hpay⟩
  have hself : ∀ k m, (k, Blk.mk m false) ∈ place Blk.len (span Blk.len l0)
      (lf ++ (Blk.mk n false :: rf)) → k = span Blk.len (l0 ++ lf) :=
    fun k m hk => (used_in_stretch hlf hrf hk rfl).1
  by_cases hrest : l0 ≠ [] ∨ r0 ≠ []
  · -- something else in the page is used
    obtain ⟨L', hInv, hag, hpages⟩ := releaseBlock_part h hlay2 hp hM hl0 hr0 hrest
    refine ⟨_, _, L', xvFree_eq hhdr.free hprev, hInv, ?_, Or.inl ⟨hpages, ?_⟩, hag.mono hwrite⟩
    · intro q k m
      rw [at_update_iff hlay2 hM.span_eq.2, or_iff_left]
      · refine and_congr_right (fun hk => not_congr (and_congr_right ?_))
        rintro rfl
        refine ⟨hself k m, ?_⟩
        rintro rfl
        rw [hk.unique hat, span_append, place_append]
        exact List.mem_append_right _ List.mem_cons_self
      · rintro ⟨_, hk⟩
        exact Bool.noConfusion (Blk.mk.inj (Prod.mk.inj (List.mem_singleton.mp hk)).2).2
    · rw [Function.update_self]
      rcases hrest with hrest | hrest
      · obtain ⟨l1, m, rfl⟩ := exists_last_used hrest hl0
        rw [List.append_assoc]
        exact ⟨_, m, at_append_cons _ _ _⟩
      · obtain ⟨⟨m, fr⟩, r', rfl⟩ := List.exists_cons_of_ne_nil hrest
        obtain rfl : fr = false := hr0 _ rfl
        rw [← List.append_assoc]
        exact ⟨_, m, at_append_cons _ _ _⟩
  · -- the page is free
    rw [not_or, not_not, not_not] at hrest
    obtain ⟨rfl, rfl⟩ := hrest
    have hlay3 : lay p = lf ++ (Blk.mk n false :: rf) := by
      rw [hlay2, List.nil_append, List.append_nil]
    obtain ⟨hInv, hmem, hpages⟩ := releaseBlock_whole h hlay3 hp hM
    refine ⟨_, _, L2, xvFree_eq hhdr.free hprev, hInv, ?_, Or.inr hpages, ?_⟩
    · intro q k m
      by_cases hq : q = p
      · subst hq
        rw [Function.update_self]
        refine iff_of_false (not_at_nil _ _) ?_
        rintro ⟨hk, hne⟩
        refine hne ⟨rfl, hself k m ?_⟩
        rw [hlay3] at hk
        exact hk
      · rw [Function.update_of_ne hq]
        exact (and_iff_left (fun hc => hq hc.1)).symm
    · rw [show (releaseBlock A p (span Blk.len []) ⟨p, span Blk.len []⟩ s2).mem = s2.mem from hmem]
      refine hM.agree.mono (fun q k hk => hwrite q k ?_)
      exact hk.imp_right (fun hk => ⟨hk.1, hk.2.1, Nat.lt_add_right 4 hk.2.2⟩)

end KernelPatches.Xvmalloc
