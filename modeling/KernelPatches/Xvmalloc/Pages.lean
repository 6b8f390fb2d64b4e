/-
  What memory looks like between calls: the pool's invariant, read off the bytes.

  The invariant of `Layout` speaks of lists of blocks.  Here it is told again in terms of what a
  reader of the pages finds:

  * `Walk m p o os`     — walking page `p` from offset `o`, block by block, by header plus rounded size,
    meets the offsets `os` and ends exactly at the end of the page;
  * `Neighbours m p a b` — the header at `b` agrees with the one at `a` before it;
  * `WellFormed`        — all of it: the pages, the free lists and the bitmaps.

  `run_wellFormed` — so it is after every run of calls on a fresh pool.
-/
import KernelPatches.Xvmalloc.Client

namespace KernelPatches.Xvmalloc

open KernelPatches.Lib KernelPatches.Lib.Mem

/-- Walking page `p` from offset `o` meets the offsets `os` and ends exactly at the page's end. -/
inductive Walk (m : Mem) (p : Nat) : Nat → List Nat → Prop
  | done : Walk m p pageSize []
  | block {o : Nat} {os : List Nat} (ho : o < pageSize)
      (hrest : Walk m p (o + xvAlign + align (blockSize m ⟨p, o⟩) xvAlign) os) :
      Walk m p o (o :: os)

/-- What the headers of adjacent blocks, at `a` and at `b` behind it, say of each other. -/
structure Neighbours (m : Mem) (p a b : Nat) : Prop where
  prev : getBlockprev m ⟨p, b⟩ = a
  flag : testFlag m ⟨p, b⟩ .prevFree = testFlag m ⟨p, a⟩ .blockFree
  merged : ¬ (testFlag m ⟨p, a⟩ .blockFree = true ∧ testFlag m ⟨p, b⟩ .blockFree = true)

/-- A well-formed pool: `os p` are the offsets of the blocks of page `p`, `L i` is free list `i`. -/
structure WellFormed (A : Arch) (s : XvState) (os : Nat → List Nat) (L : Nat → List Loc) : Prop where
  /-- The blocks of every page tile it. -/
  tiles : ∀ p ∈ s.pages, Walk s.mem p 0 (os p)
  /-- Adjacent blocks know each other, and are not both free. -/
  adjacent : ∀ p ∈ s.pages, (os p).IsChain (Neighbours s.mem p)
  /-- List `i` starts at the table's entry, and its nodes are linked both ways. -/
  head : ∀ i < numFreeLists, (s.pool.freelist i).toOption = (L i).head?
  linked : ∀ i < numFreeLists, Linked (nextOf s.mem) (prevOf s.mem) none (L i)
  acyclic : ∀ i < numFreeLists, (L i).Nodup
  /-- On list `i`: exactly the free blocks large enough for a list whose index is `i`. -/
  member : ∀ i < numFreeLists, ∀ a, a ∈ L i ↔
    a.pagenum ∈ s.pages ∧ a.offset ∈ os a.pagenum ∧ testFlag s.mem a .blockFree = true ∧
      xvMinAllocSize ≤ blockSize s.mem a ∧ getIndexForInsert (blockSize s.mem a) = i
  /-- Such a block has a list to be on. -/
  index : ∀ p ∈ s.pages, ∀ o ∈ os p, testFlag s.mem ⟨p, o⟩ .blockFree = true →
    getIndexForInsert (blockSize s.mem ⟨p, o⟩) < numFreeLists
  /-- The bitmaps. -/
  slbit : ∀ i < numFreeLists,
    (s.pool.slbitmap (i / A.bitsPerLong)).testBit (i % A.bitsPerLong) = true ↔ L i ≠ []
  flbit : ∀ j < maxFli A, s.pool.flbitmap.testBit j = true ↔ s.pool.slbitmap j ≠ 0

/-! ## From blocks to bytes -/

/-- The offsets of blocks laid from `o`. -/
def offsets (o : Nat) (bs : List Blk) : List Nat := (place Blk.len o bs).map Prod.fst

theorem mem_offsets {o k : Nat} {bs : List Blk} :
    k ∈ offsets o bs ↔ ∃ b, (k, b) ∈ place Blk.len o bs := by
  simp [offsets]

theorem Headers.walk {m : Mem} {p : Nat} : ∀ {bs : List Blk} {o po : Nat} {pf : Bool},
    Headers m p o po pf bs → o + span Blk.len bs = 4096 → Walk m p o (offsets o bs) := by
  intro bs
  induction bs with
  | nil =>
    intro o po pf _ hend
    obtain rfl : o = 4096 := hend
    exact .done
  | cons b bs ih =>
    intro o po pf h hend
    have hb := b.len_pos
    rw [span_cons] at hend
    refine .block (show o < 4096 by omega) ?_
    rw [h.1.size, Nat.add_assoc]
    have hend' : o + b.len + span Blk.len bs = 4096 := by omega
    exact ih h.2 hend'

theorem Headers.adjacent {m : Mem} {p : Nat} : ∀ {bs : List Blk} {o po : Nat} {pf : Bool},
    Headers m p o po pf bs → bs.IsChain NotBothFree → (offsets o bs).IsChain (Neighbours m p) := by
  intro bs
  induction bs with
  | nil => exact fun _ _ => List.IsChain.nil
  | cons b bs ih =>
    intro o po pf h hmerged
    cases bs with
    | nil => exact List.isChain_singleton _
    | cons c bs =>
      obtain ⟨hb, hrest⟩ := h
      obtain ⟨hbc, hmerged⟩ := List.isChain_cons_cons.mp hmerged
      have hc := hrest.1
      refine List.isChain_cons_cons.mpr ⟨⟨hc.prev, ?_, ?_⟩, ih hrest hmerged⟩
      · rw [hc.prevFree, hb.free]
      · rw [hc.free, hb.free]
        exact hbc

variable {A : Arch} {s : XvState} {lay : Nat → List Blk} {L : Nat → List Loc}

/-- The header of a block of the pool, as the walk finds it. -/
theorem Shape.hdr (h : Shape s lay) {p o : Nat} {b : Blk} (hb : At (lay p) o b) :
    blockSize s.mem ⟨p, o⟩ = b.size ∧ testFlag s.mem ⟨p, o⟩ .blockFree = b.free := by
  obtain ⟨_, _, hh⟩ := (h.headers p (h.mem_pages hb)).hdr hb
  exact ⟨hh.size, hh.free⟩

/-- A block belongs on a list exactly when its header says so. -/
theorem Inv.member_iff (h : Inv A s lay L) {i : Nat} {a : Loc} : a ∈ L i ↔
    a.pagenum ∈ s.pages ∧ a.offset ∈ offsets 0 (lay a.pagenum) ∧
      testFlag s.mem a .blockFree = true ∧ xvMinAllocSize ≤ blockSize s.mem a ∧
      getIndexForInsert (blockSize s.mem a) = i := by
  rw [h.member, mem_offsets]
  constructor
  · rintro ⟨b, hb, hf, h32, hi⟩
    obtain ⟨hsize, hfree⟩ := h.shape.hdr hb
    exact ⟨h.shape.mem_pages hb, ⟨b, hb⟩, hfree.trans hf, hsize ▸ h32, hsize ▸ hi⟩
  · rintro ⟨_, ⟨b, hb⟩, hf, h32, hi⟩
    obtain ⟨hsize, hfree⟩ := h.shape.hdr hb
    exact ⟨b, hb, hfree.symm.trans hf, hsize ▸ h32, hsize ▸ hi⟩

/-- The invariant, read off the bytes. -/
theorem Inv.wellFormed (h : Inv A s lay L) : WellFormed A s (fun p => offsets 0 (lay p)) L where
  tiles := fun p hp => (h.shape.headers p hp).walk (by rw [(h.shape.tiled p hp).total])
  adjacent := fun p hp => (h.shape.headers p hp).adjacent (h.shape.tiled p hp).merged
  head := fun i _ => h.lists.head i
  linked := fun i _ => h.lists.linked i
  acyclic := fun i _ => h.lists.nodup i
  member := fun _ _ _ => h.member_iff
  index := by
    intro p hp o ho _
    obtain ⟨b, hb⟩ := mem_offsets.mp ho
    have hbnd := h.shape.at_bound hb
    have hl := b.len_eq
    rw [(h.shape.hdr hb).1]
    exact getIndexForInsert_lt (by omega)
  slbit := fun i _ => h.lists.bits.bit i
  flbit := fun j _ => h.lists.bits.top j

/-- **The pool is well formed after every run of calls**: `xv_malloc` of any size, with the page
    allocator answering or failing, `xv_free` of live objects, and the owners writing in between. -/
theorem run_wellFormed {mem : Mem} {calls : List Call} {c : Client}
    (h : Run (Step A) (Client.fresh mem) calls c) : ∃ os L, WellFormed A c.st os L := by
  obtain ⟨lay, L, hInv, _⟩ := run_ok h
  exact ⟨_, L, hInv.wellFormed⟩

/-- A pool that was asked for 100 bytes and got page 7 for it. -/
theorem run_wellFormed_malloc : ∃ os L, WellFormed .lp64
    ((Client.fresh (fun _ _ => 0)).malloc .lp64 100 false (some 7)).st os L :=
  run_wellFormed (Run.nil.snoc (Step.malloc (by simp [Fresh, Client.fresh, xvCreatePool])))

end KernelPatches.Xvmalloc
