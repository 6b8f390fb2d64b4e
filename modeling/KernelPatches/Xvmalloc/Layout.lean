/-
  Pages as lists of blocks: the allocator's state, abstractly, and how memory represents it.

  A page of the pool is a list of blocks `bs : List Blk`, laid end to end (`Lib.Tiles`), each with the
  size in its header and whether it is free.  `Tiled bs` is the discipline the allocator keeps:

  * the blocks fill the page exactly;
  * a free block's size is a multiple of the alignment (so the rounded size is the size);
  * no two neighbours are both free.

  `Headers m p o po pf bs` ties such a list to memory: the headers found by walking page `p` from
  offset `o` are those of `bs`, each with the offset of the block before it and that block's
  BLOCK_FREE bit as its own PREV_FREE bit (`po`, `pf` for the first one).

  `Inv A s lay L` is the whole invariant of a pool: `lay p` is the page `p` as blocks, the free lists
  are `L`, and a block is on list `i` exactly when it is free, large enough for a list, and of index
  `i` (`OnList`).
-/
import Mathlib.Data.List.Chain
import Mathlib.Data.List.Perm.Subperm
import KernelPatches.Lib.Tiles
import KernelPatches.Xvmalloc.FreeLists

namespace KernelPatches.Xvmalloc

open KernelPatches.Lib KernelPatches.Lib.Mem

/-! ## Blocks and pages -/

/-- A block: the size its header stores, and whether it is free. -/
structure Blk where
  size : Nat
  free : Bool
  deriving DecidableEq, Repr

/-- The bytes a block takes: its header and its size rounded up. -/
def Blk.len (b : Blk) : Nat := xvAlign + align b.size xvAlign

theorem Blk.len_eq (b : Blk) : b.len = 4 + (b.size + 3) / 4 * 4 := rfl

theorem Blk.len_pos (b : Blk) : 0 < b.len := by
  rw [b.len_eq]
  omega

/-- Not both blocks are free. -/
def NotBothFree (b c : Blk) : Prop := ¬ (b.free = true ∧ c.free = true)

/-- The discipline of a page. -/
structure Tiled (bs : List Blk) : Prop where
  total : span Blk.len bs = 4096
  aligned : ∀ b ∈ bs, b.free = true → b.size % 4 = 0
  merged : bs.IsChain NotBothFree

/-- The block `b` starts at offset `o` in a page of blocks `bs`. -/
def At (bs : List Blk) (o : Nat) (b : Blk) : Prop := (o, b) ∈ place Blk.len 0 bs

theorem at_iff {bs : List Blk} {o : Nat} {b : Blk} :
    At bs o b ↔ ∃ l r, bs = l ++ b :: r ∧ o = span Blk.len l := by
  rw [At, mem_place_iff]
  simp only [Nat.zero_add]

theorem at_append_cons (l r : List Blk) (b : Blk) : At (l ++ b :: r) (span Blk.len l) b :=
  at_iff.mpr ⟨l, r, rfl, rfl⟩

theorem not_at_nil (o : Nat) (b : Blk) : ¬ At [] o b := List.not_mem_nil

theorem At.unique {bs : List Blk} {o : Nat} {b c : Blk} (hb : At bs o b) (hc : At bs o c) : b = c :=
  place_unique Blk.len_pos hb hc

theorem At.disjoint {bs : List Blk} {o o' : Nat} {b c : Blk} (hb : At bs o b) (hc : At bs o' c)
    (h : o < o') : o + b.len ≤ o' :=
  place_disjoint hb hc h

theorem span_mod_four : ∀ bs : List Blk, span Blk.len bs % 4 = 0
  | [] => rfl
  | b :: bs => by
    have ih := span_mod_four bs
    have hb := b.len_eq
    rw [span_cons]
    omega

theorem At.mod_four {bs : List Blk} {o : Nat} {b : Blk} (h : At bs o b) : o % 4 = 0 := by
  obtain ⟨l, r, _, rfl⟩ := at_iff.mp h
  exact span_mod_four l

theorem At.bound {bs : List Blk} {o : Nat} {b : Blk} (ht : Tiled bs) (h : At bs o b) :
    o + b.len ≤ 4096 := by
  have hb := (mem_place_bounds h).2
  rw [ht.total] at hb
  omega

theorem At.mem {bs : List Blk} {o : Nat} {b : Blk} (h : At bs o b) : b ∈ bs := mem_of_mem_place h

/-- The blocks of `l ++ m ++ r`: those of `l`, then those of `m`, then those of `r`. -/
theorem at_append {l r : List Blk} {o : Nat} {b : Blk} :
    At (l ++ r) o b ↔ At l o b ∨ (o, b) ∈ place Blk.len (span Blk.len l) r := by
  rw [At, place_append, List.mem_append, Nat.zero_add]
  exact Iff.rfl

/-- A block of a page is in a given stretch of it, before it or behind it. -/
theorem at_stretch {l mid r : List Blk} {o : Nat} {b : Blk} (h : At (l ++ (mid ++ r)) o b) :
    (o, b) ∈ place Blk.len (span Blk.len l) mid ∨ o + b.len ≤ span Blk.len l ∨
      span Blk.len l + span Blk.len mid ≤ o := by
  rw [at_append, place_append, List.mem_append] at h
  rcases h with h | h | h
  · have hb := (mem_place_bounds h).2
    rw [Nat.zero_add] at hb
    exact Or.inr (Or.inl hb)
  · exact Or.inl h
  · exact Or.inr (Or.inr (mem_place_bounds h).1)

/-! ## Headers of a page -/

/-- The headers met by walking page `p` from offset `o` are those of the blocks `bs`; the block
    before them is at `po` and is free iff `pf`. -/
def Headers (m : Mem) (p : Nat) : Nat → Nat → Bool → List Blk → Prop
  | _, _, _, [] => True
  | o, po, pf, b :: bs => Hdr m ⟨p, o⟩ b.size po pf b.free ∧ Headers m p (o + b.len) o b.free bs

/-- The offset of the last block of `bs` laid from `o`, or `po` if there is none. -/
def lastOff : Nat → Nat → List Blk → Nat
  | _, po, [] => po
  | o, _, b :: bs => lastOff (o + b.len) o bs

/-- Whether the last block of `bs` is free, or `pf` if there is none. -/
def lastFree : Bool → List Blk → Bool
  | pf, [] => pf
  | _, b :: bs => lastFree b.free bs

@[simp] theorem lastOff_concat (l : List Blk) (b : Blk) : ∀ o po,
    lastOff o po (l ++ [b]) = o + span Blk.len l := by
  induction l with
  | nil => intro o po; simp [lastOff]
  | cons c l ih => intro o po; simp only [List.cons_append, lastOff, ih, span_cons, Nat.add_assoc]

@[simp] theorem lastFree_concat (l : List Blk) (b : Blk) : ∀ pf, lastFree pf (l ++ [b]) = b.free := by
  induction l with
  | nil => intro pf; rfl
  | cons c l ih => intro pf; exact ih c.free

section Headers

variable {m m' : Mem} {p : Nat}

@[simp] theorem headers_nil (o po : Nat) (pf : Bool) : Headers m p o po pf [] := trivial

theorem headers_cons {o po : Nat} {pf : Bool} {b : Blk} {bs : List Blk} :
    Headers m p o po pf (b :: bs) ↔
      Hdr m ⟨p, o⟩ b.size po pf b.free ∧ Headers m p (o + b.len) o b.free bs :=
  Iff.rfl

theorem headers_append {l r : List Blk} : ∀ {o po : Nat} {pf : Bool},
    Headers m p o po pf (l ++ r) ↔ Headers m p o po pf l ∧
      Headers m p (o + span Blk.len l) (lastOff o po l) (lastFree pf l) r := by
  induction l with
  | nil => intro o po pf; simp [lastOff, lastFree]
  | cons b l ih =>
    intro o po pf
    rw [List.cons_append, headers_cons, headers_cons, ih, and_assoc, span_cons, ← Nat.add_assoc]
    exact Iff.rfl

/-- The headers depend on the header bytes of the blocks only. -/
theorem Headers.frame {F : Nat → Nat → Prop} (hag : AgreeOff F m m') : ∀ {bs : List Blk} {o po : Nat}
    {pf : Bool}, Headers m p o po pf bs →
    (∀ k b, (k, b) ∈ place Blk.len o bs → ∀ q j, InHdr ⟨p, k⟩ q j → ¬ F q j) →
    Headers m' p o po pf bs := by
  intro bs
  induction bs with
  | nil => intro o po pf _ _; trivial
  | cons b bs ih =>
    intro o po pf h hF
    refine ⟨h.1.frame hag (hF o b List.mem_cons_self), ih h.2 (fun k c hk => ?_)⟩
    exact hF k c (List.mem_cons_of_mem _ hk)

/-- The header of a block of the page. -/
theorem Headers.hdr {bs : List Blk} {o po : Nat} {pf : Bool} (h : Headers m p o po pf bs) {k : Nat}
    {b : Blk} (hk : (k, b) ∈ place Blk.len o bs) :
    ∃ po' pf', Hdr m ⟨p, k⟩ b.size po' pf' b.free := by
  obtain ⟨l, r, rfl, rfl⟩ := mem_place_iff.mp hk
  exact ⟨_, _, (headers_append.mp h).2.1⟩

end Headers

/-! ## List indices -/

/-- The index rounds the size down to a multiple of 8. -/
theorem getIndexForInsert_eq {size : Nat} (h : size ≤ 4092) :
    getIndexForInsert size = (size / 8 * 8 - 32) / 8 := by
  have hmask : andNot 32 size flDeltaMask = size / 8 * 8 := andNot_low (k := 3) (by omega)
  have hle : ¬ size > xvMaxAllocSize := by
    rw [xvMaxAllocSize_eq]
    omega
  simp only [getIndexForInsert, if_neg hle, hmask, Nat.shiftRight_eq_div_pow, xvMinAllocSize_eq]
  rfl

theorem getIndexForInsert_lt {size : Nat} (h : size ≤ 4092) :
    getIndexForInsert size < numFreeLists := by
  rw [getIndexForInsert_eq h, numFreeLists_eq]
  omega

/-- The lookup index rounds the size, at least 32, up to a multiple of 8. -/
theorem getIndex_eq (size : Nat) :
    getIndex size = (max size 32 + 7) / 8 - 4 := by
  have hmin : (if size < xvMinAllocSize then xvMinAllocSize else size) = max size 32 := by
    by_cases h : size < xvMinAllocSize
    · rw [if_pos h]
      rw [xvMinAllocSize_eq] at h ⊢
      omega
    · rw [if_neg h]
      rw [xvMinAllocSize_eq] at h
      omega
  have hdef : getIndex size = (align (if size < xvMinAllocSize then xvMinAllocSize else size) flDelta
      - xvMinAllocSize) >>> flDeltaShift := rfl
  have hshift : (2 : Nat) ^ flDeltaShift = 8 := rfl
  rw [hdef, hmin, align, Nat.shiftRight_eq_div_pow, hshift, xvMinAllocSize_eq, flDelta_eq]
  omega

/-- **Round up against round down.**  A block on a list at or after the lookup index is large
    enough. -/
theorem le_of_getIndex_le {size bsize : Nat} (hb : bsize ≤ 4092) (h32 : 32 ≤ bsize)
    (h : getIndex size ≤ getIndexForInsert bsize) : size ≤ bsize := by
  rw [getIndex_eq, getIndexForInsert_eq hb] at h
  omega

/-! ## The invariant of a pool -/

/-- The block at `a` belongs on list `i`: free, large enough for a list, and of that index. -/
def OnList (lay : Nat → List Blk) (i : Nat) (a : Loc) : Prop :=
  ∃ b, At (lay a.pagenum) a.offset b ∧ b.free = true ∧ 32 ≤ b.size ∧ getIndexForInsert b.size = i

/-- The pool `s` holds the pages `lay`: their blocks tile them and their headers say so. -/
structure Shape (s : XvState) (lay : Nat → List Blk) : Prop where
  nodup : s.pages.Nodup
  pageOk : ∀ p ∈ s.pages, p ≠ 0 ∧ p < 2 ^ 32
  tiled : ∀ p ∈ s.pages, Tiled (lay p)
  headers : ∀ p ∈ s.pages, Headers s.mem p 0 0 false (lay p)
  outside : ∀ p, p ∉ s.pages → lay p = []
  total : s.pool.totalPages = s.pages.length

/-- The pool `s` holds the pages `lay`, and its free lists are `L`: exactly the free blocks large
    enough for a list, each on the list of its size. -/
structure Inv (A : Arch) (s : XvState) (lay : Nat → List Blk) (L : Nat → List Loc) : Prop where
  shape : Shape s lay
  lists : FreeLists A s L
  member : ∀ i a, a ∈ L i ↔ OnList lay i a

/-- The lists hold such blocks only (some may be missing, in the middle of an operation). -/
def Sub (lay : Nat → List Blk) (L : Nat → List Loc) : Prop := ∀ i a, a ∈ L i → OnList lay i a

theorem Inv.sub {A : Arch} {s : XvState} {lay : Nat → List Blk} {L : Nat → List Loc}
    (h : Inv A s lay L) : Sub lay L :=
  fun i a => (h.member i a).mp

/-- Bytes of used blocks' data. -/
def Payload (lay : Nat → List Blk) (q k : Nat) : Prop :=
  ∃ o b, At (lay q) o b ∧ b.free = false ∧ o + 4 ≤ k ∧ k < o + 4 + b.size

/-- What an operation may write: pages of the pool, but no data of used blocks. -/
def Internal (s : XvState) (lay : Nat → List Blk) (q k : Nat) : Prop :=
  q ∈ s.pages ∧ ¬ Payload lay q k

namespace Shape

variable {s : XvState} {lay : Nat → List Blk} {L : Nat → List Loc}

theorem mem_pages (h : Shape s lay) {p o : Nat} {b : Blk} (hb : At (lay p) o b) : p ∈ s.pages := by
  by_contra hp
  rw [h.outside p hp] at hb
  exact not_at_nil o b hb

theorem at_bound (h : Shape s lay) {p o : Nat} {b : Blk} (hb : At (lay p) o b) :
    o + b.len ≤ 4096 :=
  hb.bound (h.tiled p (h.mem_pages hb))

/-- The size of a free block is its rounded size. -/
theorem free_len (h : Shape s lay) {p o : Nat} {b : Blk} (hb : At (lay p) o b)
    (hfree : b.free = true) : b.size % 4 = 0 ∧ b.len = 4 + b.size := by
  have h4 := (h.tiled p (h.mem_pages hb)).aligned b hb.mem hfree
  have hl := b.len_eq
  exact ⟨h4, by omega⟩

/-- The link record of a list member lies in the data of its block. -/
theorem member_at (h : Shape s lay) (hsub : Sub lay L) {i : Nat} {a : Loc} (ha : a ∈ L i) :
    ∃ b, At (lay a.pagenum) a.offset b ∧ b.free = true ∧ 32 ≤ b.size ∧ b.size ≤ 4092 ∧
      b.len = 4 + b.size ∧ getIndexForInsert b.size = i := by
  obtain ⟨b, hb, hf, h32, hi⟩ := hsub i a ha
  have hbd := h.at_bound hb
  have hl := (h.free_len hb hf).2
  exact ⟨b, hb, hf, h32, by omega, hl, hi⟩

theorem linkArea_pages (h : Shape s lay) (hsub : Sub lay L) {q k : Nat} (hk : LinkArea L q k) :
    q ∈ s.pages := by
  obtain ⟨i, a, ha, hq, _, _⟩ := hk
  obtain ⟨b, hb, _⟩ := hsub i a ha
  rw [hq]
  exact h.mem_pages hb

/-- A header never shares a byte with a link record of a list member. -/
theorem hdr_not_linkArea (h : Shape s lay) (hsub : Sub lay L) {p o : Nat} {c : Blk}
    (hc : At (lay p) o c) : ∀ q k, InHdr ⟨p, o⟩ q k → ¬ LinkArea L q k := by
  rintro q k ⟨rfl, h1, h2⟩ ⟨i, a, ha, hq, h3, h4⟩
  obtain ⟨b, hb, _, h32, _, hl, _⟩ := h.member_at hsub ha
  simp only at hq h1 h2
  rw [← hq] at hb
  have hcl := c.len_eq
  rcases Nat.lt_trichotomy o a.offset with hlt | heq | hgt
  · have := hc.disjoint hb hlt
    omega
  · omega
  · have := hb.disjoint hc hgt
    omega

/-- A block that is on no list, and the header behind it, share no byte with a link record of a list
    member. -/
theorem extent_not_linkArea (h : Shape s lay) (hsub : Sub lay L) {p o k : Nat} {c : Blk}
    (hc : At (lay p) o c) (hnot : ∀ i, ⟨p, o⟩ ∉ L i) (h1 : o ≤ k) (h2 : k < o + c.len + 4) :
    ¬ LinkArea L p k := by
  rintro ⟨i, a, ha, hq, h3, h4⟩
  obtain ⟨b, hb, _, h32, _, hl, _⟩ := h.member_at hsub ha
  rw [← hq] at hb
  rcases Nat.lt_trichotomy o a.offset with hlt | heq | hgt
  · have := hc.disjoint hb hlt
    omega
  · refine hnot i ?_
    have he : (⟨p, o⟩ : Loc) = a := by
      rw [hq, heq]
    rw [he]
    exact ha
  · have := hb.disjoint hc hgt
    omega

/-- A stretch none of whose blocks is on a list, and the header behind it, share no byte with a link
    record of a list member. -/
theorem stretch_not_linkArea (h : Shape s lay) (hsub : Sub lay L) {p k : Nat} {l mid r : List Blk}
    (hlay : lay p = l ++ (mid ++ r))
    (hnot : ∀ i o c, (o, c) ∈ place Blk.len (span Blk.len l) mid → ⟨p, o⟩ ∉ L i)
    (h1 : span Blk.len l ≤ k) (h2 : k < span Blk.len l + span Blk.len mid + 4) :
    ¬ LinkArea L p k := by
  rintro ⟨i, a, ha, hq, h3, h4⟩
  obtain ⟨b, hb, _, h32, _, hl, _⟩ := h.member_at hsub ha
  rw [← hq, hlay] at hb
  rcases at_stretch hb with hin | hlow | hhigh
  · exact hnot i _ _ hin (hq ▸ ha)
  · omega
  · omega

/-- The link record of a list member is apart from any other block. -/
theorem sep_of_at (h : Shape s lay) (hsub : Sub lay L) {i : Nat} {a b : Loc} {c : Blk} (ha : a ∈ L i)
    (hc : At (lay b.pagenum) b.offset c) (hne : a ≠ b) :
    a.pagenum ≠ b.pagenum ∨ a.offset + 16 ≤ b.offset ∨ b.offset + c.len ≤ a.offset := by
  obtain ⟨e, he, _, h32, _, hl, _⟩ := h.member_at hsub ha
  by_cases hp : a.pagenum = b.pagenum
  · right
    rw [hp] at he
    rcases Nat.lt_trichotomy a.offset b.offset with hlt | heq | hgt
    · have := he.disjoint hc hlt
      omega
    · refine absurd ?_ hne
      cases a
      cases b
      simp_all
    · have := hc.disjoint he hgt
      omega
  · exact Or.inl hp

/-- Data of a used block never shares a byte with a link record of a list member. -/
theorem payload_not_linkArea (h : Shape s lay) (hsub : Sub lay L) {q k : Nat}
    (hp : Payload lay q k) : ¬ LinkArea L q k := by
  rintro ⟨i, a, ha, hq, h3, h4⟩
  obtain ⟨o, c, hc, hcf, h1, h2⟩ := hp
  obtain ⟨b, hb, hbf, h32, _, hl, _⟩ := h.member_at hsub ha
  rw [← hq] at hb
  have hcl := c.len_eq
  rcases Nat.lt_trichotomy o a.offset with hlt | heq | hgt
  · have := hc.disjoint hb hlt
    omega
  · rw [heq] at hc
    rw [hc.unique hb, hbf] at hcf
    exact Bool.noConfusion hcf
  · have := hb.disjoint hc hgt
    omega

theorem linkArea_internal (h : Shape s lay) (hsub : Sub lay L) {q k : Nat} (hk : LinkArea L q k) :
    Internal s lay q k :=
  ⟨h.linkArea_pages hsub hk, fun hp => h.payload_not_linkArea hsub hp hk⟩

/-- A header is no used data. -/
theorem hdr_internal (h : Shape s lay) {p o : Nat} {c : Blk} (hc : At (lay p) o c) :
    ∀ q k, InHdr ⟨p, o⟩ q k → Internal s lay q k := by
  rintro q k ⟨rfl, h3, h4⟩
  refine ⟨h.mem_pages hc, ?_⟩
  rintro ⟨o', b, hb, _, h1, h2⟩
  have hcl := c.len_eq
  have hbl := b.len_eq
  simp only at h3 h4
  rcases Nat.lt_trichotomy o o' with hlt | heq | hgt
  · have := hc.disjoint hb hlt
    omega
  · omega
  · have := hb.disjoint hc hgt
    omega

/-- A free block and the header behind it hold no used data. -/
theorem extent_internal (h : Shape s lay) {p o k : Nat} {c : Blk} (hc : At (lay p) o c)
    (hf : c.free = true) (h1 : o ≤ k) (h2 : k < o + c.len + 4) : Internal s lay p k := by
  refine ⟨h.mem_pages hc, ?_⟩
  rintro ⟨o', b, hb, hbf, h3, h4⟩
  have hcl := c.len_eq
  have hbl := b.len_eq
  rcases Nat.lt_trichotomy o o' with hlt | heq | hgt
  · have := hc.disjoint hb hlt
    omega
  · rw [heq] at hc
    rw [← hc.unique hb, hf] at hbf
    exact Bool.noConfusion hbf
  · have := hb.disjoint hc hgt
    omega

/-- The headers survive a change of memory that touches no header. -/
theorem frame (h : Shape s lay) {s' : XvState} {F : Nat → Nat → Prop}
    (hag : AgreeOff F s.mem s'.mem)
    (hF : ∀ p o c, At (lay p) o c → ∀ q k, InHdr ⟨p, o⟩ q k → ¬ F q k)
    (hpages : s'.pages = s.pages) (htotal : s'.pool.totalPages = s.pool.totalPages) :
    Shape s' lay where
  nodup := by rw [hpages]; exact h.nodup
  pageOk := by rw [hpages]; exact h.pageOk
  tiled := by rw [hpages]; exact h.tiled
  headers := fun p hp => (h.headers p (hpages ▸ hp)).frame hag (fun k b hk => hF p k b hk)
  outside := by rw [hpages]; exact h.outside
  total := by rw [hpages, htotal]; exact h.total

/-- One page gets another list of blocks. -/
theorem replace (h : Shape s lay) {s' : XvState} {p : Nat} {bs : List Blk} {F : Nat → Nat → Prop}
    (hp : p ∈ s.pages) (hag : AgreeOff F s.mem s'.mem)
    (hF : ∀ q o c, q ≠ p → At (lay q) o c → ∀ j k, InHdr ⟨q, o⟩ j k → ¬ F j k)
    (hpages : s'.pages = s.pages) (htotal : s'.pool.totalPages = s.pool.totalPages)
    (ht : Tiled bs) (hh : Headers s'.mem p 0 0 false bs) :
    Shape s' (Function.update lay p bs) where
  nodup := by rw [hpages]; exact h.nodup
  pageOk := by rw [hpages]; exact h.pageOk
  tiled := by
    intro q hq
    rcases eq_or_ne q p with rfl | hqp
    · rw [Function.update_self]
      exact ht
    · rw [Function.update_of_ne hqp]
      exact h.tiled q (hpages ▸ hq)
  headers := by
    intro q hq
    rcases eq_or_ne q p with rfl | hqp
    · rw [Function.update_self]
      exact hh
    · rw [Function.update_of_ne hqp]
      exact (h.headers q (hpages ▸ hq)).frame hag (fun k b hk => hF q k b hqp hk)
  outside := by
    intro q hq
    have hqp : q ≠ p := fun he => hq (he ▸ hpages ▸ hp)
    rw [Function.update_of_ne hqp]
    exact h.outside q (hpages ▸ hq)
  total := by rw [hpages, htotal]; exact h.total

/-- Page numbers are 32-bit and pages are distinct, so the page counter is far from wrapping. -/
theorem length_le (h : Shape s lay) : s.pages.length ≤ 2 ^ 32 := by
  have hsub : s.pages ⊆ List.range (2 ^ 32) := fun p hp => List.mem_range.mpr (h.pageOk p hp).2
  have hle := (List.subperm_of_subset h.nodup hsub).length_le
  rwa [List.length_range] at hle

/-- A page leaves. -/
theorem drop (h : Shape s lay) {s' : XvState} {p : Nat} {F : Nat → Nat → Prop} (hp : p ∈ s.pages)
    (hag : AgreeOff F s.mem s'.mem)
    (hF : ∀ q o c, q ≠ p → At (lay q) o c → ∀ j k, InHdr ⟨q, o⟩ j k → ¬ F j k)
    (hpages : s'.pages = s.pages.erase p) (htotal : s'.pool.totalPages = s.pool.totalPages - 1) :
    Shape s' (Function.update lay p []) where
  nodup := by rw [hpages]; exact h.nodup.erase p
  pageOk := by rw [hpages]; exact fun q hq => h.pageOk q (List.mem_of_mem_erase hq)
  tiled := by
    rw [hpages]
    intro q hq
    obtain ⟨hqp, hq⟩ := h.nodup.mem_erase_iff.mp hq
    rw [Function.update_of_ne hqp]
    exact h.tiled q hq
  headers := by
    rw [hpages]
    intro q hq
    obtain ⟨hqp, hq⟩ := h.nodup.mem_erase_iff.mp hq
    rw [Function.update_of_ne hqp]
    exact (h.headers q hq).frame hag (fun k b hk => hF q k b hqp hk)
  outside := by
    rw [hpages]
    intro q hq
    rcases eq_or_ne q p with rfl | hqp
    · exact Function.update_self _ _ _
    · rw [Function.update_of_ne hqp]
      exact h.outside q (fun hc => hq (h.nodup.mem_erase_iff.mpr ⟨hqp, hc⟩))
  total := by rw [hpages, htotal, h.total, List.length_erase_of_mem hp]

/-- A new page enters. -/
theorem grow (h : Shape s lay) {s' : XvState} {p : Nat} {bs : List Blk} {F : Nat → Nat → Prop}
    (h0 : p ≠ 0) (hlt : p < 2 ^ 32) (hnew : p ∉ s.pages) (hag : AgreeOff F s.mem s'.mem)
    (hF : ∀ q o c, At (lay q) o c → ∀ j k, InHdr ⟨q, o⟩ j k → ¬ F j k)
    (hpages : s'.pages = p :: s.pages) (htotal : s'.pool.totalPages = s.pool.totalPages + 1)
    (ht : Tiled bs) (hh : Headers s'.mem p 0 0 false bs) :
    Shape s' (Function.update lay p bs) where
  nodup := by rw [hpages]; exact List.nodup_cons.mpr ⟨hnew, h.nodup⟩
  pageOk := by
    rw [hpages]
    intro q hq
    rcases List.mem_cons.mp hq with rfl | hq
    · exact ⟨h0, hlt⟩
    · exact h.pageOk q hq
  tiled := by
    rw [hpages]
    intro q hq
    rcases eq_or_ne q p with rfl | hqp
    · rw [Function.update_self]
      exact ht
    · rw [Function.update_of_ne hqp]
      exact h.tiled q (List.mem_of_ne_of_mem hqp hq)
  headers := by
    rw [hpages]
    intro q hq
    rcases eq_or_ne q p with rfl | hqp
    · rw [Function.update_self]
      exact hh
    · rw [Function.update_of_ne hqp]
      exact (h.headers q (List.mem_of_ne_of_mem hqp hq)).frame hag (fun k b hk => hF q k b hk)
  outside := by
    rw [hpages]
    intro q hq
    rw [Function.update_of_ne (List.ne_of_not_mem_cons hq)]
    exact h.outside q (List.not_mem_of_not_mem_cons hq)
  total := by rw [hpages, htotal, h.total, List.length_cons]

end Shape

/-! ## Replacing a stretch of blocks -/

/-- A stretch `mid` of a page replaced by blocks `xs` of the same length: the blocks are those of the
    page outside the stretch, and `xs` in its place. -/
theorem at_replace {l mid xs r : List Blk} (hspan : span Blk.len xs = span Blk.len mid) {o : Nat}
    {b : Blk} : At (l ++ (xs ++ r)) o b ↔
      (At (l ++ (mid ++ r)) o b ∧ (o, b) ∉ place Blk.len (span Blk.len l) mid) ∨
        (o, b) ∈ place Blk.len (span Blk.len l) xs := by
  have hb := b.len_pos
  rw [at_append, at_append, place_append, place_append, List.mem_append, List.mem_append, hspan]
  constructor
  · rintro (h | h | h)
    · refine Or.inl ⟨Or.inl h, fun hm => ?_⟩
      have h1 := (mem_place_bounds h).2
      have h2 := (mem_place_bounds hm).1
      omega
    · exact Or.inr h
    · refine Or.inl ⟨Or.inr (Or.inr h), fun hm => ?_⟩
      have h1 := (mem_place_bounds h).1
      have h2 := (mem_place_bounds hm).2
      omega
  · rintro (⟨h | h | h, hn⟩ | h)
    · exact Or.inl h
    · exact absurd h hn
    · exact Or.inr (Or.inr h)
    · exact Or.inr (Or.inl h)

/-- The blocks next to a stretch `mid`, and the blocks on either side of it among themselves. -/
theorem merged_split {l mid r : List Blk} (h : (l ++ (mid ++ r)).IsChain NotBothFree)
    (hmid : mid ≠ []) : l.IsChain NotBothFree ∧ r.IsChain NotBothFree ∧
      mid.IsChain NotBothFree ∧
      (∀ x ∈ l.getLast?, ∀ y ∈ mid.head?, NotBothFree x y) ∧
      (∀ x ∈ mid.getLast?, ∀ y ∈ r.head?, NotBothFree x y) := by
  rw [List.isChain_append, List.isChain_append] at h
  obtain ⟨hl, ⟨hm, hr, hmr⟩, hlm⟩ := h
  refine ⟨hl, hr, hm, fun x hx y hy => hlm x hx y ?_, hmr⟩
  cases mid with
  | nil => exact absurd rfl hmid
  | cons c mid => exact hy

/-- A stretch of a tiled page replaced by another one of the same length. -/
theorem Tiled.replace {l mid xs r : List Blk} (h : Tiled (l ++ (mid ++ r)))
    (hspan : span Blk.len xs = span Blk.len mid)
    (haligned : ∀ b ∈ xs, b.free = true → b.size % 4 = 0)
    (hmerged : (l ++ (xs ++ r)).IsChain NotBothFree) : Tiled (l ++ (xs ++ r)) where
  total := by
    have := h.total
    rw [span_append, span_append] at this ⊢
    omega
  aligned := by
    intro b hb
    rcases List.mem_append.mp hb with hb | hb
    · exact h.aligned b (List.mem_append_left _ hb)
    · rcases List.mem_append.mp hb with hb | hb
      · exact haligned b hb
      · exact h.aligned b (List.mem_append_right _ (List.mem_append_right _ hb))
  merged := hmerged

/-- List membership after a stretch of page `p` is replaced. -/
theorem onList_replace {lay : Nat → List Blk} {p : Nat} {l mid xs r : List Blk}
    (hlay : lay p = l ++ (mid ++ r)) (hspan : span Blk.len xs = span Blk.len mid) {i : Nat} {a : Loc} :
    OnList (Function.update lay p (l ++ (xs ++ r))) i a ↔
      (OnList lay i a ∧
        ¬ (a.pagenum = p ∧ ∃ b, (a.offset, b) ∈ place Blk.len (span Blk.len l) mid)) ∨
      (a.pagenum = p ∧ ∃ b, (a.offset, b) ∈ place Blk.len (span Blk.len l) xs ∧ b.free = true ∧
        32 ≤ b.size ∧ getIndexForInsert b.size = i) := by
  unfold OnList
  by_cases hp : a.pagenum = p
  · rw [hp, Function.update_self, hlay]
    simp only [at_replace hspan, true_and]
    constructor
    · rintro ⟨b, ⟨hb, hn⟩ | hb, hrest⟩
      · refine Or.inl ⟨⟨b, hb, hrest⟩, ?_⟩
        rintro ⟨c, hc⟩
        have hcm : At (l ++ (mid ++ r)) a.offset c := by
          rw [at_append, place_append]
          exact Or.inr (List.mem_append_left _ hc)
        exact hn (hb.unique hcm ▸ hc)
      · exact Or.inr ⟨b, hb, hrest⟩
    · rintro (⟨⟨b, hb, hrest⟩, hn⟩ | ⟨b, hb, hrest⟩)
      · exact ⟨b, Or.inl ⟨hb, fun hc => hn ⟨b, hc⟩⟩, hrest⟩
      · exact ⟨b, Or.inr hb, hrest⟩
  · rw [Function.update_of_ne hp]
    simp [hp]

/-- The blocks of all pages after a stretch of page `p` is replaced. -/
theorem at_update_iff {lay : Nat → List Blk} {p : Nat} {l mid xs r : List Blk}
    (hlay : lay p = l ++ (mid ++ r)) (hspan : span Blk.len xs = span Blk.len mid) {o : Nat} {b : Blk}
    {q : Nat} : At (Function.update lay p (l ++ (xs ++ r)) q) o b ↔
      (At (lay q) o b ∧ ¬ (q = p ∧ (o, b) ∈ place Blk.len (span Blk.len l) mid)) ∨
      (q = p ∧ (o, b) ∈ place Blk.len (span Blk.len l) xs) := by
  by_cases hq : q = p
  · rw [hq, Function.update_self, hlay, at_replace hspan]
    simp
  · rw [Function.update_of_ne hq]
    simp [hq]

/-- What an operation on a stretch of page `p` writes: link records of list members, and bytes of the
    page from the start of the stretch up to the header behind it. -/
def Zone (L : Nat → List Loc) (p lo hi : Nat) (q k : Nat) : Prop :=
  LinkArea L q k ∨ (q = p ∧ lo ≤ k ∧ k < hi)

/-- **Rebuilding a page.**  A stretch `mid` of page `p` was rewritten to `xs`, with writes inside the
    zone of the stretch only.  If the new headers of the stretch and the header behind it are right,
    the pool holds the new page. -/
theorem Shape.rebuild {s s' : XvState} {lay : Nat → List Blk} {L : Nat → List Loc} {p : Nat}
    {l mid xs r : List Blk} (h : Shape s lay) (hsub : Sub lay L) (hp : p ∈ s.pages)
    (hlay : lay p = l ++ (mid ++ r)) (hspan : span Blk.len xs = span Blk.len mid)
    (hag : AgreeOff (Zone L p (span Blk.len l) (span Blk.len l + span Blk.len mid + 4)) s.mem s'.mem)
    (hpages : s'.pages = s.pages) (htotal : s'.pool.totalPages = s.pool.totalPages)
    (ht : Tiled (l ++ (xs ++ r)))
    (hxs : Headers s'.mem p (span Blk.len l) (lastOff 0 0 l) (lastFree false l) xs)
    (hr : ∀ c r', r = c :: r' → Hdr s'.mem ⟨p, span Blk.len l + span Blk.len mid⟩ c.size
      (lastOff (span Blk.len l) (lastOff 0 0 l) xs) (lastFree (lastFree false l) xs) c.free) :
    Shape s' (Function.update lay p (l ++ (xs ++ r))) := by
  have hold := h.headers p hp
  rw [hlay, headers_append, headers_append] at hold
  obtain ⟨hl, _, hrold⟩ := hold
  have hat : ∀ k b, (k, b) ∈ place Blk.len 0 (l ++ (mid ++ r)) → At (lay p) k b := by
    intro k b hk
    rw [hlay]
    exact hk
  refine h.replace hp hag ?_ hpages htotal ht (headers_append.mpr ⟨?_, headers_append.mpr ⟨?_, ?_⟩⟩)
  · -- other pages
    rintro q o c hqp hc j k hj (hk | ⟨rfl, _, _⟩)
    · exact h.hdr_not_linkArea hsub hc j k hj hk
    · exact hqp hj.1.symm
  · -- the blocks before the stretch
    refine hl.frame hag (fun k b hk q j hj => ?_)
    rintro (hlk | ⟨_, h1, _⟩)
    · exact h.hdr_not_linkArea hsub (hat k b (by rw [place_append]; exact List.mem_append_left _ hk))
        q j hj hlk
    · have hbd := (mem_place_bounds hk).2
      have hb := b.len_eq
      have h2 := hj.2.2
      simp only at h2
      omega
  · rw [Nat.zero_add]
    exact hxs
  · -- the blocks behind it
    rw [Nat.zero_add, hspan]
    cases r with
    | nil => trivial
    | cons c r =>
      refine ⟨hr c r rfl, ?_⟩
      rw [Nat.zero_add] at hrold
      refine hrold.2.frame hag (fun k b hk q j hj => ?_)
      rintro (hlk | ⟨_, _, h2⟩)
      · refine h.hdr_not_linkArea hsub (hat k b ?_) q j hj hlk
        rw [place_append, place_append, place_cons, Nat.zero_add]
        exact List.mem_append_right _ (List.mem_append_right _ (List.mem_cons_of_mem _ hk))
      · have hbd := (mem_place_bounds hk).1
        have hc := c.len_eq
        have h1 := hj.2.1
        simp only at h1
        omega

end KernelPatches.Xvmalloc
