/-
  The free lists: well linked, indexed by the bitmaps, and what the three edits do to them.

  `FreeLists A s L` says that the free lists of the state `s` ARE the lists `L i`: the table entry of
  list `i` is its first node, its nodes are well linked both ways (`Lib.Links`), no node is twice on a
  list or on two lists, the link records of different nodes do not overlap, and the two-level bitmap
  (`Lib.Bits`) represents the set of non-empty lists.

  The edits, each with its footprint — which bytes of memory it may have changed:

  * `insertBlock_spec`     — puts a block at the front of the list of its size;
  * `removeBlockHead_spec` — takes the first node off a list;
  * `removeBlock_spec`     — takes any node off its list.

  All three touch link records only, of the block itself and of members of the lists (`LinkArea`).
-/
import KernelPatches.Lib.Links
import KernelPatches.Xvmalloc.Fields

namespace KernelPatches.Xvmalloc

open KernelPatches.Lib KernelPatches.Lib.Mem

/-- The link records of all list members. -/
def LinkArea (L : Nat → List Loc) (q k : Nat) : Prop := ∃ i, ∃ b ∈ L i, InLink b q k

/-- The free lists of `s` are `L`. -/
structure FreeLists (A : Arch) (s : XvState) (L : Nat → List Loc) : Prop where
  head : ∀ i, (s.pool.freelist i).toOption = (L i).head?
  headFits : ∀ i, (s.pool.freelist i).Fits
  linked : ∀ i, Linked (nextOf s.mem) (prevOf s.mem) none (L i)
  nodup : ∀ i, (L i).Nodup
  fits : ∀ i, ∀ a ∈ L i, a.pagenum ≠ 0 ∧ a.Fits
  one : ∀ i j a, a ∈ L i → a ∈ L j → i = j
  sep : ∀ i j a b, a ∈ L i → b ∈ L j → Apart a b
  range : ∀ i, L i ≠ [] → i < numFreeLists
  bits : TwoLevel A.bitsPerLong s.pool.flbitmap s.pool.slbitmap (fun i => L i ≠ [])

namespace FreeLists

variable {A : Arch} {s : XvState} {L : Nat → List Loc}

/-- Memory may change outside the link records, and the pool outside its lists. -/
theorem frame (h : FreeLists A s L) {s' : XvState} {F : Nat → Nat → Prop}
    (hag : AgreeOff F s.mem s'.mem) (hF : ∀ q k, LinkArea L q k → ¬ F q k)
    (hfree : s'.pool.freelist = s.pool.freelist) (hsl : s'.pool.slbitmap = s.pool.slbitmap)
    (hfl : s'.pool.flbitmap = s.pool.flbitmap) : FreeLists A s' L where
  head := fun i => by rw [hfree]; exact h.head i
  headFits := fun i => by rw [hfree]; exact h.headFits i
  linked := fun i => by
    refine (h.linked i).congr (fun a ha => ?_)
    obtain ⟨h1, h2⟩ := link_frame hag (b := a) (fun q k hk => hF q k ⟨i, a, ha, hk⟩)
    exact ⟨by rw [nextOf, nextOf, h1], by rw [prevOf, prevOf, h2]⟩
  nodup := h.nodup
  fits := h.fits
  one := h.one
  sep := h.sep
  range := h.range
  bits := by rw [hsl, hfl]; exact h.bits

/-- The free lists do not depend on the page accounting. -/
theorem setPages (h : FreeLists A s L) (ps : List Nat) (t : Nat) :
    FreeLists A { s with pages := ps, pool := { s.pool with totalPages := t } } L :=
  h.frame (AgreeOff.refl (fun _ _ => False) _) (fun _ _ _ => id) rfl rfl rfl

/-- A list's table entry is null exactly when the list is empty. -/
theorem head_pagenum_eq_zero_iff (h : FreeLists A s L) (i : Nat) :
    (s.pool.freelist i).pagenum = 0 ↔ L i = [] := by
  rw [← toOption_eq_none_iff, h.head i, List.head?_eq_none_iff]

/-- A table entry that is not null is on its list. -/
theorem freelist_mem (h : FreeLists A s L) {i : Nat} (h0 : (s.pool.freelist i).pagenum ≠ 0) :
    s.pool.freelist i ∈ L i := by
  have hh := h.head i
  rw [toOption_of_ne h0] at hh
  exact List.mem_of_mem_head? hh.symm

/-- The table entry of a non-empty list is its first node. -/
theorem freelist_eq (h : FreeLists A s L) {i : Nat} {a : Loc} {t : List Loc} (hL : L i = a :: t) :
    s.pool.freelist i = a := by
  have hh := h.head i
  rw [hL] at hh
  exact toOption_eq_some hh

/-- A link of a member that is not null leads to a member. -/
theorem linkNext_mem (h : FreeLists A s L) {i : Nat} {a : Loc} (ha : a ∈ L i)
    (h0 : (linkNext s.mem a).pagenum ≠ 0) : linkNext s.mem a ∈ L i :=
  (h.linked i).next_mem a ha _ (toOption_of_ne h0)

theorem linkPrev_mem (h : FreeLists A s L) {i : Nat} {a : Loc} (ha : a ∈ L i)
    (h0 : (linkPrev s.mem a).pagenum ≠ 0) : linkPrev s.mem a ∈ L i :=
  ((h.linked i).prev_mem a ha _ (toOption_of_ne h0)).resolve_left (fun hc => nomatch hc)

/-- Forward and backward links agree. -/
theorem next_iff_prev (h : FreeLists A s L) {i : Nat} {a b : Loc} (ha : a ∈ L i) (hb : b ∈ L i) :
    nextOf s.mem a = some b ↔ prevOf s.mem b = some a :=
  (h.linked i).next_iff_prev (h.nodup i) (fun _ hq => nomatch hq) a ha b hb

/-- The one block that points back to `a` is the one `a` points forward to. -/
theorem prevOf_eq_iff (h : FreeLists A s L) {i j : Nat} {a b : Loc} (ha : a ∈ L i) (hb : b ∈ L j) :
    prevOf s.mem b = some a ↔ (linkNext s.mem a).pagenum ≠ 0 ∧ b = linkNext s.mem a := by
  constructor
  · intro hc
    have hji : j = i := h.one j i a
      (((h.linked j).prev_mem b hb a hc).resolve_left (fun hc => nomatch hc)) ha
    have he := toOption_eq_some ((h.next_iff_prev ha (hji ▸ hb)).mpr hc)
    exact ⟨he ▸ (h.fits j b hb).1, he.symm⟩
  · rintro ⟨h0, rfl⟩
    exact (h.next_iff_prev ha (h.linkNext_mem ha h0)).mp (toOption_of_ne h0)

/-- The one block that points forward to `a` is the one `a` points back to. -/
theorem nextOf_eq_iff (h : FreeLists A s L) {i j : Nat} {a b : Loc} (ha : a ∈ L i) (hb : b ∈ L j) :
    nextOf s.mem b = some a ↔ (linkPrev s.mem a).pagenum ≠ 0 ∧ b = linkPrev s.mem a := by
  constructor
  · intro hc
    have hji : j = i := h.one j i a ((h.linked j).next_mem b hb a hc) ha
    have he := toOption_eq_some ((h.next_iff_prev (hji ▸ hb) ha).mp hc)
    exact ⟨he ▸ (h.fits j b hb).1, he.symm⟩
  · rintro ⟨h0, rfl⟩
    exact (h.next_iff_prev (h.linkPrev_mem ha h0) ha).mpr (toOption_of_ne h0)

theorem index_lt (h : FreeLists A s L) {i : Nat} {a : Loc} (ha : a ∈ L i) : i < numFreeLists :=
  h.range i (List.ne_nil_of_mem ha)

/-- The summary word has room for every list. -/
theorem index_div_lt {A : Arch} {i : Nat} (hi : i < numFreeLists) :
    i / A.bitsPerLong < A.bitsPerLong := by
  rw [numFreeLists_eq] at hi
  rcases A.bitsPerLong_eq with hW | hW <;> rw [hW] <;> omega

end FreeLists

/-! ## `insert_block` -/

section Insert

variable {A : Arch} {s : XvState} {L : Nat → List Loc} {a head : Loc} {i : Nat}

/-- The lists after `a` is put at the front of list `i`. -/
def pushList (L : Nat → List Loc) (i : Nat) (a : Loc) : Nat → List Loc :=
  Function.update L i (a :: L i)

@[simp] theorem pushList_self : pushList L i a i = a :: L i := Function.update_self _ _ _

theorem pushList_of_ne {j : Nat} (hj : j ≠ i) : pushList L i a j = L j :=
  Function.update_of_ne hj _ _

theorem mem_pushList {j : Nat} {b : Loc} :
    b ∈ pushList L i a j ↔ (j = i ∧ b = a) ∨ b ∈ L j := by
  rcases eq_or_ne j i with rfl | hj
  · simp
  · rw [pushList_of_ne hj]
    simp [hj]

theorem insertBlock_mem (hi : getIndexForInsert (blockSize s.mem a) = i)
    (hhead : s.pool.freelist i = head) (hfit : head.Fits) :
    (insertBlock A a.pagenum a.offset a s).mem =
      if head.pagenum ≠ 0 then
        setLinkPrev (setLinkNext (setLinkPrev s.mem a Loc.null) a head) head a
      else setLinkNext (setLinkPrev s.mem a Loc.null) a head := by
  simp only [insertBlock, hi, hhead, linkNext_setLinkNext_self hfit]

/-- What `insert_block` leaves in the links of a block that is apart from `a` and the old head. -/
theorem insertBlock_links (hi : getIndexForInsert (blockSize s.mem a) = i)
    (hhead : s.pool.freelist i = head) (hfit : head.Fits) (ha : a.Fits) {b : Loc}
    (hba : Apart b a) (hbn : head.pagenum ≠ 0 → Apart b head) :
    linkNext (insertBlock A a.pagenum a.offset a s).mem b =
        (if b = a then head else linkNext s.mem b) ∧
      linkPrev (insertBlock A a.pagenum a.offset a s).mem b =
        (if head.pagenum ≠ 0 ∧ b = head then a
          else if b = a then Loc.null else linkPrev s.mem b) := by
  have hn : linkNext (setLinkNext (setLinkPrev s.mem a Loc.null) a head) b =
      if b = a then head else linkNext s.mem b := by
    rw [linkNext_setLinkNext hba hfit, linkNext_setLinkPrev hba]
  have hp : linkPrev (setLinkNext (setLinkPrev s.mem a Loc.null) a head) b =
      if b = a then Loc.null else linkPrev s.mem b := by
    rw [linkPrev_setLinkNext hba, linkPrev_setLinkPrev hba null_fits]
  rw [insertBlock_mem hi hhead hfit]
  by_cases h0 : head.pagenum ≠ 0
  · rw [if_pos h0, linkNext_setLinkPrev (hbn h0), hn, linkPrev_setLinkPrev (hbn h0) ha, hp]
    refine ⟨rfl, ?_⟩
    by_cases hbh : b = head
    · have hc : head.pagenum ≠ 0 ∧ b = head := ⟨h0, hbh⟩
      rw [if_pos hbh, if_pos hc]
    · have hc : ¬ (head.pagenum ≠ 0 ∧ b = head) := fun hc => hbh hc.2
      rw [if_neg hbh, if_neg hc]
  · have hc : ¬ (head.pagenum ≠ 0 ∧ b = head) := fun hc => h0 hc.1
    rw [if_neg h0, hn, hp, if_neg hc]
    exact ⟨rfl, rfl⟩

theorem insertBlock_agreeOff (hi : getIndexForInsert (blockSize s.mem a) = i)
    (hhead : s.pool.freelist i = head) (hfit : head.Fits) {F : Nat → Nat → Prop}
    (hFa : ∀ q k, InLink a q k → F q k)
    (hFh : head.pagenum ≠ 0 → ∀ q k, InLink head q k → F q k) :
    AgreeOff F s.mem (insertBlock A a.pagenum a.offset a s).mem := by
  have h1 : AgreeOff F s.mem (setLinkNext (setLinkPrev s.mem a Loc.null) a head) :=
    ((agreeOff_setLinkPrev s.mem a Loc.null).trans (agreeOff_setLinkNext _ a head)).mono hFa
  rw [insertBlock_mem hi hhead hfit]
  split
  · exact h1.trans ((agreeOff_setLinkPrev _ head a).mono (hFh ‹_›))
  · exact h1

/-- **`insert_block`** puts the block at the front of the list of its size. -/
theorem insertBlock_spec (h : FreeLists A s L)
    (hi : getIndexForInsert (blockSize s.mem a) = i) (hlt : i < numFreeLists)
    (h0 : a.pagenum ≠ 0) (ha : a.Fits) (hsep : ∀ j, ∀ b ∈ L j, Sep b a) :
    FreeLists A (insertBlock A a.pagenum a.offset a s) (pushList L i a) ∧
      AgreeOff (LinkArea (pushList L i a)) s.mem (insertBlock A a.pagenum a.offset a s).mem := by
  have hnew : ∀ j, a ∉ L j := by
    intro j haj
    have := hsep j a haj
    unfold Sep at this
    omega
  obtain ⟨head, hhead⟩ : ∃ l, s.pool.freelist i = l := ⟨_, rfl⟩
  have hfit : head.Fits := hhead ▸ h.headFits i
  have hmem : head.pagenum ≠ 0 → head ∈ L i := fun hne => hhead ▸ h.freelist_mem (hhead ▸ hne)
  have hlinks : ∀ j, ∀ b ∈ L j,
      linkNext (insertBlock A a.pagenum a.offset a s).mem b = linkNext s.mem b ∧
      linkPrev (insertBlock A a.pagenum a.offset a s).mem b =
        (if head.pagenum ≠ 0 ∧ b = head then a else linkPrev s.mem b) := by
    intro j b hb
    have hne : b ≠ a := fun he => hnew j (he ▸ hb)
    obtain ⟨h1, h2⟩ := insertBlock_links (A := A) hi hhead hfit ha (b := b) (Or.inr (hsep j b hb))
      (fun hne => h.sep j i b head hb (hmem hne))
    rw [if_neg hne] at h1 h2
    exact ⟨h1, h2⟩
  have hself := insertBlock_links (A := A) hi hhead hfit ha (b := a) (Or.inl rfl)
    (fun hne => Or.inr (hsep i head (hmem hne)).symm)
  have hfl : (insertBlock A a.pagenum a.offset a s).pool.freelist =
      Function.update s.pool.freelist i a := by
    simp only [insertBlock, hi]
  refine ⟨⟨fun j => ?_, fun j => ?_, fun j => ?_, fun j => ?_, ?_, ?_, ?_, fun j hj => ?_, ?_⟩, ?_⟩
  · -- the table entries
    rw [hfl]
    rcases eq_or_ne j i with rfl | hj
    · rw [Function.update_self, pushList_self, toOption_of_ne h0]
      rfl
    · rw [Function.update_of_ne hj, pushList_of_ne hj]
      exact h.head j
  · rw [hfl]
    rcases eq_or_ne j i with rfl | hj
    · rw [Function.update_self]
      exact ha
    · rw [Function.update_of_ne hj]
      exact h.headFits j
  · -- the links
    rcases eq_or_ne j i with rfl | hj
    · rw [pushList_self]
      refine (h.linked j).push ?_ ?_ (fun b hb => ?_) (fun b hb => ?_)
      · rw [nextOf, hself.1, if_pos rfl, ← hhead]
        exact h.head j
      · have hah : ¬ (head.pagenum ≠ 0 ∧ a = head) := fun hc => hnew j (hc.2 ▸ hmem hc.1)
        rw [prevOf, hself.2, if_neg hah, if_pos rfl]
        rfl
      · rw [nextOf, (hlinks j b hb).1, nextOf]
      · -- the old head is the one node without a predecessor
        rw [prevOf, (hlinks j b hb).2]
        by_cases hbh : head.pagenum ≠ 0 ∧ b = head
        · have hpb : prevOf s.mem b = none := by
            have hh := h.head j
            rw [hhead, toOption_of_ne hbh.1] at hh
            rcases hL : L j with _ | ⟨x, t⟩
            · rw [hL] at hh
              cases hh
            · have hlink := h.linked j
              rw [hL] at hh hlink
              rw [hbh.2, Option.some.inj hh]
              exact hlink.1
          rw [if_pos hbh, if_pos hpb, toOption_of_ne h0]
        · have hpb : prevOf s.mem b ≠ none := by
            have hlink := h.linked j
            have hh := h.head j
            rcases hL : L j with _ | ⟨x, t⟩
            · rw [hL] at hb
              exact absurd hb List.not_mem_nil
            · rw [hL] at hb hlink hh
              rcases List.mem_cons.mp hb with rfl | hbt
              · rw [hhead] at hh
                have heq : head = b := toOption_eq_some hh
                exact absurd ⟨heq ▸ (h.fits j b (hL ▸ List.mem_cons_self)).1, heq.symm⟩ hbh
              · exact hlink.2.2.prev_ne_none b hbt
          rw [if_neg hbh, if_neg hpb, prevOf]
    · rw [pushList_of_ne hj]
      refine (h.linked j).congr (fun b hb => ?_)
      have hbh : ¬ (head.pagenum ≠ 0 ∧ b = head) :=
        fun hc => hj (h.one j i b hb (hc.2 ▸ hmem hc.1))
      obtain ⟨h1, h2⟩ := hlinks j b hb
      rw [if_neg hbh] at h2
      exact ⟨by rw [nextOf, nextOf, h1], by rw [prevOf, prevOf, h2]⟩
  · rcases eq_or_ne j i with rfl | hj
    · rw [pushList_self]
      exact List.nodup_cons.mpr ⟨hnew j, h.nodup j⟩
    · rw [pushList_of_ne hj]
      exact h.nodup j
  · intro j b hb
    rcases mem_pushList.mp hb with ⟨_, rfl⟩ | hb
    · exact ⟨h0, ha⟩
    · exact h.fits j b hb
  · intro j k b hj hk
    rcases mem_pushList.mp hj with ⟨rfl, rfl⟩ | hj' <;>
      rcases mem_pushList.mp hk with ⟨rfl, he⟩ | hk'
    · rfl
    · exact absurd hk' (hnew k)
    · exact absurd (he ▸ hj') (hnew j)
    · exact h.one j k b hj' hk'
  · intro j k b c hj hk
    rcases mem_pushList.mp hj with ⟨rfl, rfl⟩ | hj' <;>
      rcases mem_pushList.mp hk with ⟨rfl, rfl⟩ | hk'
    · exact Or.inl rfl
    · exact Or.inr (hsep k c hk').symm
    · exact Or.inr (hsep j b hj')
    · exact h.sep j k b c hj' hk'
  · rcases eq_or_ne j i with rfl | hji
    · exact hlt
    · rw [pushList_of_ne hji] at hj
      exact h.range j hj
  · -- the bitmaps
    have hb := h.bits.insert A.bitsPerLong_pos (FreeLists.index_div_lt hlt)
    have hpool : (insertBlock A a.pagenum a.offset a s).pool.flbitmap =
        setBit s.pool.flbitmap (i / A.bitsPerLong) ∧
        (insertBlock A a.pagenum a.offset a s).pool.slbitmap =
          Function.update s.pool.slbitmap (i / A.bitsPerLong)
            (setBit (s.pool.slbitmap (i / A.bitsPerLong)) (i % A.bitsPerLong)) := by
      simp only [insertBlock, hi, and_self]
    rw [hpool.1, hpool.2]
    refine hb.congr (fun j => ?_)
    rcases eq_or_ne j i with rfl | hj
    · simp
    · rw [pushList_of_ne hj]
      simp [hj]
  · refine insertBlock_agreeOff hi hhead hfit (fun q k hk => ⟨i, a, ?_, hk⟩)
      (fun hne q k hk => ⟨i, head, mem_pushList.mpr (Or.inr (hmem hne)), hk⟩)
    rw [pushList_self]
    exact List.mem_cons_self

end Insert

/-! ## Taking a block off its list -/

section Remove

variable {A : Arch} {s s' : XvState} {L : Nat → List Loc} {a : Loc} {i : Nat}

/-- The lists after `a` is taken off list `i`. -/
def dropList (L : Nat → List Loc) (i : Nat) (a : Loc) : Nat → List Loc :=
  Function.update L i ((L i).erase a)

@[simp] theorem dropList_self : dropList L i a i = (L i).erase a := Function.update_self _ _ _

theorem dropList_of_ne {j : Nat} (hj : j ≠ i) : dropList L i a j = L j :=
  Function.update_of_ne hj _ _

theorem mem_of_mem_dropList {j : Nat} {b : Loc} (h : b ∈ dropList L i a j) : b ∈ L j := by
  rcases eq_or_ne j i with rfl | hj
  · rw [dropList_self] at h
    exact List.mem_of_mem_erase h
  · rwa [dropList_of_ne hj] at h

theorem FreeLists.mem_dropList (h : FreeLists A s L) (ha : a ∈ L i) {j : Nat} {b : Loc} :
    b ∈ dropList L i a j ↔ b ≠ a ∧ b ∈ L j := by
  rcases eq_or_ne j i with rfl | hj
  · rw [dropList_self, (h.nodup j).mem_erase_iff]
  · rw [dropList_of_ne hj]
    exact ⟨fun hb => ⟨fun he => hj (h.one j i b hb (he ▸ ha)), hb⟩, And.right⟩

/-- A block is off its list once whoever pointed to it points where it pointed: its neighbours, or
    the table entry if it was the first. -/
theorem FreeLists.dropped (h : FreeLists A s L) (ha : a ∈ L i)
    (hlinks : ∀ j, ∀ b ∈ L j, b ≠ a →
      nextOf s'.mem b = (if nextOf s.mem b = some a then nextOf s.mem a else nextOf s.mem b) ∧
      prevOf s'.mem b = (if prevOf s.mem b = some a then prevOf s.mem a else prevOf s.mem b))
    (hfree : ∀ j, s'.pool.freelist j =
      if (s.pool.freelist j).toOption = some a then linkNext s.mem a else s.pool.freelist j)
    (hbits : TwoLevel A.bitsPerLong s'.pool.flbitmap s'.pool.slbitmap
      (fun j => dropList L i a j ≠ [])) : FreeLists A s' (dropList L i a) := by
  obtain ⟨l, r, hL⟩ := List.append_of_mem ha
  have hnd : (l ++ a :: r).Nodup := hL ▸ h.nodup i
  have hal : a ∉ l := fun hal => (List.nodup_append.mp hnd).2.2 a hal a List.mem_cons_self rfl
  have herase : dropList L i a i = l ++ r := by
    rw [dropList_self, hL, List.erase_append_right _ hal, List.erase_cons_head]
  have hother : ∀ j, j ≠ i → ∀ b ∈ L j, b ≠ a := fun j hj b hb he => hj (h.one j i b hb (he ▸ ha))
  refine ⟨fun j => ?_, fun j => ?_, fun j => ?_, fun j => ?_, ?_, ?_, ?_, fun j hj => ?_, hbits⟩
  · -- the table entries
    rw [hfree]
    rcases eq_or_ne j i with rfl | hj
    · rw [herase, h.head j, hL]
      cases l with
      | nil =>
        have hlink := h.linked j
        rw [hL] at hlink
        rw [List.nil_append, List.head?_cons, if_pos rfl]
        exact hlink.2.1
      | cons x l =>
        have hxa : x ≠ a := fun he => hal (he ▸ List.mem_cons_self)
        have hhead := h.head j
        rw [hL] at hhead
        have hne : (x :: l ++ a :: r).head? ≠ some a := fun hc => hxa (Option.some.inj hc)
        rw [if_neg hne, hhead]
        rfl
    · have hne : (s.pool.freelist j).toOption ≠ some a := by
        rw [h.head j]
        intro hc
        exact hother j hj a (List.mem_of_mem_head? hc) rfl
      rw [if_neg hne, dropList_of_ne hj]
      exact h.head j
  · rw [hfree]
    split
    · exact linkNext_fits _ _
    · exact h.headFits j
  · -- the links
    rcases eq_or_ne j i with rfl | hj
    · rw [herase]
      have hmem : ∀ b ∈ l ++ r, b ∈ L j ∧ b ≠ a := by
        intro b hb
        rw [← herase] at hb
        have := (h.mem_dropList ha).mp hb
        exact ⟨this.2, this.1⟩
      refine Linked.unlink (hL ▸ h.linked j) hnd (fun hc => nomatch hc)
        (fun b hb => (hlinks j b (hmem b hb).1 (hmem b hb).2).1)
        (fun b hb => (hlinks j b (hmem b hb).1 (hmem b hb).2).2)
    · rw [dropList_of_ne hj]
      refine (h.linked j).congr (fun b hb => ?_)
      obtain ⟨h1, h2⟩ := hlinks j b hb (hother j hj b hb)
      have hnx : nextOf s.mem b ≠ some a := fun hc =>
        hother j hj a ((h.linked j).next_mem b hb a hc) rfl
      have hpv : prevOf s.mem b ≠ some a := fun hc =>
        hother j hj a (((h.linked j).prev_mem b hb a hc).resolve_left (fun hc => nomatch hc)) rfl
      rw [if_neg hnx] at h1
      rw [if_neg hpv] at h2
      exact ⟨h1, h2⟩
  · rcases eq_or_ne j i with rfl | hj
    · rw [dropList_self]
      exact (h.nodup j).erase a
    · rw [dropList_of_ne hj]
      exact h.nodup j
  · exact fun j b hb => h.fits j b (mem_of_mem_dropList hb)
  · exact fun j k b hj hk => h.one j k b (mem_of_mem_dropList hj) (mem_of_mem_dropList hk)
  · exact fun j k b c hj hk => h.sep j k b c (mem_of_mem_dropList hj) (mem_of_mem_dropList hk)
  · obtain ⟨b, hb⟩ := List.exists_mem_of_ne_nil _ hj
    exact h.index_lt (mem_of_mem_dropList hb)

/-- The bitmaps stay right when a list that keeps members loses one. -/
theorem FreeLists.bits_of_tail (h : FreeLists A s L) (hne : dropList L i a i ≠ []) :
    TwoLevel A.bitsPerLong s.pool.flbitmap s.pool.slbitmap (fun j => dropList L i a j ≠ []) := by
  refine h.bits.congr (fun j => ?_)
  rcases eq_or_ne j i with rfl | hj
  · refine ⟨fun _ => hne, fun _ hc => hne ?_⟩
    rw [dropList_self, hc, List.erase_nil]
  · rw [dropList_of_ne hj]

/-- **`remove_block_head`** takes the first block off its list. -/
theorem removeBlockHead_spec (h : FreeLists A s L) {t : List Loc} (hL : L i = a :: t) :
    FreeLists A (removeBlockHead A a i s) (dropList L i a) ∧
      AgreeOff (LinkArea L) s.mem (removeBlockHead A a i s).mem := by
  have ha : a ∈ L i := hL ▸ List.mem_cons_self
  have hdrop : dropList L i a i = t := by rw [dropList_self, hL, List.erase_cons_head]
  have hlink : Linked (nextOf s.mem) (prevOf s.mem) none (a :: t) := hL ▸ h.linked i
  obtain ⟨head, hhead⟩ : ∃ l, linkNext s.mem a = l := ⟨_, rfl⟩
  have hnext : head.toOption = t.head? := by
    rw [← hhead]
    exact hlink.2.1
  have hmem : head.pagenum ≠ 0 → head ∈ L i := fun hne => hhead ▸ h.linkNext_mem ha (hhead ▸ hne)
  -- the memory after the call
  have hm' : (removeBlockHead A a i s).mem = if head.pagenum = 0 then setLinkPrev s.mem a Loc.null
      else setLinkPrev (setLinkPrev s.mem a Loc.null) head Loc.null := by
    simp only [removeBlockHead, hhead]
    split <;> rfl
  have hagree : AgreeOff (LinkArea L) s.mem (removeBlockHead A a i s).mem := by
    have h1 : AgreeOff (LinkArea L) s.mem (setLinkPrev s.mem a Loc.null) :=
      (agreeOff_setLinkPrev _ _ _).mono (fun q k hk => ⟨i, a, ha, hk⟩)
    rw [hm']
    split
    · exact h1
    · exact h1.trans ((agreeOff_setLinkPrev _ _ _).mono (fun q k hk => ⟨i, head, hmem ‹_›, hk⟩))
  have hfree : (removeBlockHead A a i s).pool.freelist =
      Function.update s.pool.freelist i head := by
    simp only [removeBlockHead, hhead]
    split <;> rfl
  refine ⟨h.dropped ha (fun j b hb hne => ?_) (fun j => ?_) ?_, hagree⟩
  · have hba : Apart b a := h.sep j i b a hb ha
    have hlinks : linkNext (removeBlockHead A a i s).mem b = linkNext s.mem b ∧
        linkPrev (removeBlockHead A a i s).mem b =
          (if head.pagenum ≠ 0 ∧ b = head then Loc.null else linkPrev s.mem b) := by
      rw [hm']
      by_cases h0 : head.pagenum = 0
      · have hc : ¬ (head.pagenum ≠ 0 ∧ b = head) := fun hc => hc.1 h0
        rw [if_pos h0, if_neg hc, linkNext_setLinkPrev hba, linkPrev_setLinkPrev hba null_fits,
          if_neg hne]
        exact ⟨rfl, rfl⟩
      · have hbh : Apart b head := h.sep j i b head hb (hmem h0)
        rw [if_neg h0, linkNext_setLinkPrev hbh, linkNext_setLinkPrev hba,
          linkPrev_setLinkPrev hbh null_fits, linkPrev_setLinkPrev hba null_fits, if_neg hne]
        refine ⟨rfl, ?_⟩
        by_cases hbhe : b = head
        · have hc : head.pagenum ≠ 0 ∧ b = head := ⟨h0, hbhe⟩
          rw [if_pos hbhe, if_pos hc]
        · have hc : ¬ (head.pagenum ≠ 0 ∧ b = head) := fun hc => hbhe hc.2
          rw [if_neg hbhe, if_neg hc]
    -- nobody points forward to the first block
    have hnx : nextOf s.mem b ≠ some a := by
      rw [Ne, h.nextOf_eq_iff ha hb]
      exact fun hc => hc.1 (toOption_eq_none_iff.mp hlink.1)
    have hpv : prevOf s.mem b = some a ↔ head.pagenum ≠ 0 ∧ b = head := hhead ▸ h.prevOf_eq_iff ha hb
    rw [nextOf, hlinks.1, if_neg hnx, nextOf, prevOf, hlinks.2]
    refine ⟨rfl, ?_⟩
    by_cases hc : head.pagenum ≠ 0 ∧ b = head
    · rw [if_pos hc, if_pos (hpv.mpr hc), hlink.1]
      rfl
    · rw [if_neg hc, if_neg (fun hc' => hc (hpv.mp hc')), prevOf]
  · rw [hfree, h.head j, hhead]
    rcases eq_or_ne j i with rfl | hj
    · rw [Function.update_self, hL, List.head?_cons, if_pos rfl]
    · have hne : (L j).head? ≠ some a := fun hc => hj (h.one j i a (List.mem_of_mem_head? hc) ha)
      rw [Function.update_of_ne hj, if_neg hne]
  · by_cases h0 : head.pagenum = 0
    · -- the list becomes empty
      have ht : t = [] := by
        rw [toOption_eq_none_iff.mpr h0] at hnext
        exact List.head?_eq_none_iff.mp hnext.symm
      have hb := h.bits.erase (i := i) A.bitsPerLong_pos
      simp only [removeBlockHead, hhead, if_pos h0]
      refine hb.congr (fun j => ?_)
      rcases eq_or_ne j i with rfl | hj
      · rw [hdrop, ht]
        simp
      · rw [dropList_of_ne hj]
        simp [hj]
    · have hne : dropList L i a i ≠ [] := by
        rw [hdrop]
        rintro rfl
        rw [toOption_of_ne h0] at hnext
        cases hnext
      simp only [removeBlockHead, hhead, if_neg h0]
      exact h.bits_of_tail hne

/-- **`remove_block`** takes a block off its list, wherever it is on it. -/
theorem removeBlock_spec (h : FreeLists A s L) (ha : a ∈ L i) :
    FreeLists A (removeBlock A a.pagenum a.offset a i s) (dropList L i a) ∧
      AgreeOff (LinkArea L) s.mem (removeBlock A a.pagenum a.offset a i s).mem := by
  by_cases hc : (s.pool.freelist i).pagenum = a.pagenum ∧ (s.pool.freelist i).offset = a.offset
  · -- `a` is the first block of its list
    have hfa : s.pool.freelist i = a := by
      obtain ⟨h1, h2⟩ := hc
      cases hf : s.pool.freelist i
      rw [hf] at h1 h2
      cases a
      simp_all
    obtain ⟨x, t, hL⟩ := List.exists_cons_of_ne_nil (List.ne_nil_of_mem ha)
    have hxa : x = a := (h.freelist_eq hL).symm.trans hfa
    rw [removeBlock, if_pos hc]
    exact removeBlockHead_spec h (hxa ▸ hL)
  · have hfa : (s.pool.freelist i).toOption ≠ some a := by
      intro he
      rw [toOption_eq_some he] at hc
      exact hc ⟨rfl, rfl⟩
    obtain ⟨prev, hprev⟩ : ∃ l, linkPrev s.mem a = l := ⟨_, rfl⟩
    obtain ⟨next, hnext⟩ : ∃ l, linkNext s.mem a = l := ⟨_, rfl⟩
    have hpfit : prev.Fits := hprev ▸ linkPrev_fits _ _
    have hnfit : next.Fits := hnext ▸ linkNext_fits _ _
    -- `a` is not the first block, so it has a predecessor
    have hp0 : prev.pagenum ≠ 0 := by
      intro h0
      obtain ⟨x, t, hL⟩ := List.exists_cons_of_ne_nil (List.ne_nil_of_mem ha)
      have hlink := h.linked i
      rw [hL] at hlink
      have hat : a ∈ t := by
        rcases List.mem_cons.mp (hL ▸ ha) with rfl | hat
        · exact absurd (by rw [h.head i, hL]; rfl) hfa
        · exact hat
      refine hlink.2.2.prev_ne_none a hat ?_
      rw [prevOf, hprev, toOption_eq_none_iff]
      exact h0
    have hpmem : prev ∈ L i := hprev ▸ h.linkPrev_mem ha (hprev ▸ hp0)
    have hnmem : next.pagenum ≠ 0 → next ∈ L i := fun h0 => hnext ▸ h.linkNext_mem ha (hnext ▸ h0)
    have hap : a ≠ prev := by
      intro he
      have hpa : prevOf s.mem a = some a := by
        rw [prevOf, hprev, ← he]
        exact toOption_of_ne (h.fits i a ha).1
      exact (h.linked i).next_ne_self (h.nodup i) a ha ((h.next_iff_prev ha ha).mpr hpa)
    have hapart : Apart a prev := h.sep i i a prev ha hpmem
    -- the two writes
    have hm' : (removeBlock A a.pagenum a.offset a i s).mem = if next.pagenum ≠ 0 then
        setLinkPrev (setLinkNext s.mem prev next) next prev else setLinkNext s.mem prev next := by
      have hn1 : linkNext (setLinkNext s.mem prev next) a = next := by
        rw [linkNext_setLinkNext hapart hnfit, if_neg hap, hnext]
      have hp1 : linkPrev (setLinkNext s.mem prev next) a = prev := by
        rw [linkPrev_setLinkNext hapart, hprev]
      rw [removeBlock, if_neg hc]
      simp only [hprev, hnext, if_pos hp0, hn1, hp1]
    have hpool : (removeBlock A a.pagenum a.offset a i s).pool = s.pool := by
      rw [removeBlock, if_neg hc]
    have hagree : AgreeOff (LinkArea L) s.mem (removeBlock A a.pagenum a.offset a i s).mem := by
      have h1 : AgreeOff (LinkArea L) s.mem (setLinkNext s.mem prev next) :=
        (agreeOff_setLinkNext _ _ _).mono (fun q k hk => ⟨i, prev, hpmem, hk⟩)
      rw [hm']
      split
      · exact h1.trans
          ((agreeOff_setLinkPrev _ _ _).mono (fun q k hk => ⟨i, next, hnmem ‹_›, hk⟩))
      · exact h1
    refine ⟨h.dropped ha (fun j b hb hne => ?_) (fun j => ?_) ?_, hagree⟩
    · have hbp : Apart b prev := h.sep j i b prev hb hpmem
      have hlinks : linkNext (removeBlock A a.pagenum a.offset a i s).mem b =
            (if b = prev then next else linkNext s.mem b) ∧
          linkPrev (removeBlock A a.pagenum a.offset a i s).mem b =
            (if next.pagenum ≠ 0 ∧ b = next then prev else linkPrev s.mem b) := by
        rw [hm']
        by_cases h0 : next.pagenum ≠ 0
        · have hbn : Apart b next := h.sep j i b next hb (hnmem h0)
          rw [if_pos h0, linkNext_setLinkPrev hbn, linkNext_setLinkNext hbp hnfit,
            linkPrev_setLinkPrev hbn hpfit, linkPrev_setLinkNext hbp]
          refine ⟨rfl, ?_⟩
          by_cases hbe : b = next
          · have hc : next.pagenum ≠ 0 ∧ b = next := ⟨h0, hbe⟩
            rw [if_pos hbe, if_pos hc]
          · have hc : ¬ (next.pagenum ≠ 0 ∧ b = next) := fun hc => hbe hc.2
            rw [if_neg hbe, if_neg hc]
        · have hc : ¬ (next.pagenum ≠ 0 ∧ b = next) := fun hc => h0 hc.1
          rw [if_neg h0, linkNext_setLinkNext hbp hnfit, linkPrev_setLinkNext hbp, if_neg hc]
          exact ⟨rfl, rfl⟩
      have hnx : nextOf s.mem b = some a ↔ prev.pagenum ≠ 0 ∧ b = prev :=
        hprev ▸ h.nextOf_eq_iff ha hb
      have hpv : prevOf s.mem b = some a ↔ next.pagenum ≠ 0 ∧ b = next :=
        hnext ▸ h.prevOf_eq_iff ha hb
      constructor
      · rw [nextOf, hlinks.1]
        by_cases hbe : b = prev
        · rw [if_pos hbe, if_pos (hnx.mpr ⟨hp0, hbe⟩), nextOf, hnext]
        · rw [if_neg hbe, if_neg (fun hc' => hbe (hnx.mp hc').2), nextOf]
      · rw [prevOf, hlinks.2]
        by_cases hbe : next.pagenum ≠ 0 ∧ b = next
        · rw [if_pos hbe, if_pos (hpv.mpr hbe), prevOf, hprev]
        · rw [if_neg hbe, if_neg (fun hc' => hbe (hpv.mp hc')), prevOf]
    · have hne : (s.pool.freelist j).toOption ≠ some a := by
        rw [h.head j]
        intro hc'
        have hji := h.one j i a (List.mem_of_mem_head? hc') ha
        rw [hji, ← h.head i] at hc'
        exact hfa hc'
      rw [hpool, if_neg hne]
    · rw [hpool]
      refine h.bits_of_tail ?_
      have hpd : prev ∈ dropList L i a i := (h.mem_dropList ha).mpr ⟨fun he => hap he.symm, hpmem⟩
      exact List.ne_nil_of_mem hpd

end Remove

end KernelPatches.Xvmalloc
