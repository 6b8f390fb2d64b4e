/-
  aufs: `append_de`, entry by entry, and what the blocks hold afterwards.

  An entry takes a multiple of the size of an inode number, and a length of zero after the last entry of a
  block is its end; where there is no room for such a mark, a new block is begun at once.  So `vd_last` always
  has room for a mark, and the mark is there.

  * `appendAll`       — `append_de` for entries one after the other;
  * `appendDe_ok`     — it succeeds while memory lasts;
  * `LaidOut`         — what the blocks hold: each entry in a block, apart from the others and from the mark;
  * `append_decodes`  — after any entries this is so, and the walk of `au_vdir_fill_de` hands them out again.
-/
import KernelPatches.Aufs.VdirFill

namespace KernelPatches.Aufs

open KernelPatches.Lib

/-- `append_de` for each entry, up to an error. -/
def appendAll (A : Arch) (fullNameHash : Name → Nat) : List De → Vdir → Buckets Name → Kmem →
    Int × Vdir × Buckets Name × Kmem
  | [], v, delist, mem => (0, v, delist, mem)
  | e :: es, v, delist, mem =>
    let a := appendDe A fullNameHash v e delist mem
    if a.1 ≠ 0 then a else appendAll A fullNameHash es a.2.1 a.2.2.1 a.2.2.2

/-- No request for memory fails. -/
def Plenty (mem : Kmem) : Prop := ∀ r ∈ mem, r.isSome = true

section

variable {A : Arch} {fullNameHash : Name → Nat}

/-! ## Memory lasts -/

theorem Plenty.kmalloc {mem : Kmem} (h : Plenty mem) :
    (kmalloc mem).1.isSome = true ∧ Plenty (kmalloc mem).2 := by
  cases mem with
  | nil => exact ⟨rfl, h⟩
  | cons r mem => exact ⟨h r List.mem_cons_self, fun r' hr' => h r' (List.mem_cons_of_mem r hr')⟩

theorem appendDeblk_ok (v : Vdir) {mem : Kmem} (h : Plenty mem) :
    (appendDeblk A v mem).1 = 0 ∧ Plenty (appendDeblk A v mem).2.2 := by
  obtain ⟨ho, h₁⟩ := h.kmalloc
  obtain ⟨hdeblk, h₂⟩ := h₁.kmalloc
  obtain ⟨bytes, hbytes⟩ := Option.isSome_iff_exists.mp hdeblk
  have hroom : calcSize A 0 ≤ deblkSize - 0 := calcSize_le_deblkSize A (Nat.zero_le _)
  rw [appendDeblk]
  dsimp only
  rw [if_neg (by rw [Option.isNone_iff_eq_none]; rintro hn; rw [hn] at ho; cases ho), hbytes]
  dsimp only
  rw [setDeblkEnd_isSome hroom]
  exact ⟨rfl, h₂⟩

/-- **`append_de` succeeds** while memory lasts. -/
theorem appendDe_ok (v : Vdir) (e : De) (delist : Buckets Name) {mem : Kmem} (h : Plenty mem) :
    (appendDe A fullNameHash v e delist mem).1 = 0 ∧
      Plenty (appendDe A fullNameHash v e delist mem).2.2.2 := by
  obtain ⟨room, hroom⟩ : ∃ room, room = (if deblkSize - v.lastP < calcSize A e.name.length then
      appendDeblk A v mem else (0, v, mem)) := ⟨_, rfl⟩
  have hok : room.1 = 0 ∧ Plenty room.2.2 := by
    rw [hroom]
    split
    · exact appendDeblk_ok v h
    · exact ⟨rfl, h⟩
  obtain ⟨hdehstr, h₁⟩ := hok.2.kmalloc
  rw [appendDe]
  simp only [← hroom]
  rw [if_neg (not_not.mpr hok.1)]
  rw [if_neg (by rw [Option.isNone_iff_eq_none]; rintro hn; rw [hn] at hdehstr; cases hdehstr)]
  split
  · exact ⟨rfl, h₁⟩
  · exact appendDeblk_ok _ h₁

/-! ## The entries in their blocks -/

/-- Where the entries of a block lie. -/
theorem place_laid {m : Mem} {i : Nat} : ∀ {es : List De} {p : Nat}, Laid A m i p es →
    ∀ x ∈ place A (deblkSize * i + p) es, x.2 / deblkSize = i ∧
      readDe A m i (x.2 % deblkSize) = x.1 ∧ x.2 % deblkSize + calcSize A x.1.name.length ≤ deblkSize
  | e :: es, p, ⟨hread, _, hroom, hes⟩, x, hx => by
    rcases List.mem_cons.mp hx with rfl | hx
    · have hpos := calcSize_pos A e.name.length
      have hdiv : (deblkSize * i + p) / deblkSize = i := by
        rw [Nat.mul_add_div (by decide), Nat.div_eq_of_lt (by omega), Nat.add_zero]
      have hmod : (deblkSize * i + p) % deblkSize = p := by
        rw [Nat.mul_add_mod, Nat.mod_eq_of_lt (by omega)]
      dsimp only
      rw [hmod]
      exact ⟨hdiv, hread, hroom⟩
    · rw [Nat.add_assoc] at hx
      exact place_laid hes x hx

theorem placed_laid {m : Mem} : ∀ {bs : List (List De)} {i : Nat},
    (∀ k es, bs[k]? = some es → Laid A m (i + k) 0 es) → ∀ x ∈ placed A i bs,
      i ≤ x.2 / deblkSize ∧ x.2 / deblkSize < i + bs.length ∧
      readDe A m (x.2 / deblkSize) (x.2 % deblkSize) = x.1 ∧
      x.2 % deblkSize + calcSize A x.1.name.length ≤ deblkSize
  | es :: bs, i, hlaid, x, hx => by
    rw [List.length_cons]
    rcases List.mem_append.mp hx with hx | hx
    · obtain ⟨hdiv, hread, hroom⟩ := place_laid (hlaid 0 es rfl) x hx
      rw [Nat.add_zero] at hdiv hread
      rw [hdiv]
      exact ⟨Nat.le_refl i, by omega, hread, hroom⟩
    · have hrest := placed_laid (i := i + 1) (fun k es' hk => by
        have h := hlaid (k + 1) es' hk
        rwa [← Nat.add_assoc, Nat.add_right_comm] at h) x hx
      exact ⟨by omega, by omega, hrest.2.2⟩

/-- What the blocks of a listing hold: the entries lie each in one block, one behind the other, and the mark
    behind them all, in the last block, at `vd_last`. -/
structure LaidOut (A : Arch) (v : Vdir) (pos : List (De × Nat)) : Prop where
  inBlock : ∀ x ∈ pos, x.2 / deblkSize < v.vdNblk ∧
    x.2 % deblkSize + calcSize A x.1.name.length ≤ deblkSize
  stored : ∀ x ∈ pos, readDe A v.vdDeblk (x.2 / deblkSize) (x.2 % deblkSize) = x.1
  apart : pos.Pairwise fun x y => x.2 + calcSize A x.1.name.length ≤ y.2
  behind : ∀ x ∈ pos, x.2 + calcSize A x.1.name.length ≤ calcOffset v
  last : v.lastI + 1 = v.vdNblk
  room : calcSize A 0 ≤ deblkSize - v.lastP
  mark : v.vdDeblk v.lastI (v.lastP + inoSize A + 1) = 0

theorem placed_le_end : ∀ {bs : List (List De)} {i : Nat}, (∀ es ∈ bs, sizes A es ≤ deblkSize) →
    ∀ x ∈ placed A i bs, x.2 + calcSize A x.1.name.length ≤ endOffset A i bs
  | [es], i, _, x, hx => by
    rw [placed, placed, List.append_nil] at hx
    exact (place_end hx).2
  | es :: es' :: bs, i, hsz, x, hx => by
    rw [endOffset]
    rcases List.mem_append.mp hx with hx | hx
    · have hes := hsz es List.mem_cons_self
      have hx' := place_end hx
      have hend := endOffset_ge (A := A) (es' :: bs) (i + 1)
      rw [deblkSize] at *
      omega
    · exact placed_le_end (fun es'' h => hsz es'' (List.mem_cons_of_mem _ h)) x hx
    · intro h
      cases h

/-- A listing that can be added to is laid out so. -/
theorem IsOpen.laidOut {v : Vdir} {bs : List (List De)} {last : List De} (h : IsOpen A v bs last) :
    LaidOut A v (placed A 0 (bs ++ [last])) := by
  have hsz := h.built.sizes_le
  have hnblk : v.vdNblk = bs.length + 1 := by
    rw [h.built.nblk, List.length_append]
    rfl
  have hlast : (bs ++ [last])[bs.length]? = some last := List.getElem?_concat_length
  have hend : endOffset A 0 (bs ++ [last]) = calcOffset v := by
    have heq := endOffset_last (A := A) (j := 0) hlast (by rw [List.length_append]; rfl)
    rw [heq, calcOffset, h.lastI, h.lastP, Nat.zero_add, Nat.add_comm]
  have hplaces := placed_laid (A := A) (m := v.vdDeblk) (i := 0) (fun k es hk => by
    rw [Nat.zero_add]
    exact h.built.laid k es hk)
  have hroom : calcSize A 0 ≤ deblkSize - v.lastP := by
    have hroom := h.room
    have hlastP := h.lastP
    omega
  refine ⟨fun x hx => ?_, fun x hx => (hplaces x hx).2.2.1, placed_apart hsz, fun x hx => ?_, ?_, hroom, ?_⟩
  · have hx' := hplaces x hx
    rw [Nat.zero_add, List.length_append] at hx'
    rw [hnblk]
    exact ⟨hx'.2.1, hx'.2.2.2⟩
  · rw [← hend]
    exact placed_le_end hsz x hx
  · rw [h.lastI, hnblk]
  · -- the end of the last block is a mark, as there is room for one
    have hmark : isDeblkEnd A v.vdDeblk v.lastI v.lastP = true := by
      have hlaid := (h.built.laid bs.length last hlast)
      rw [← List.append_nil last] at hlaid
      have hdrop := hlaid.drop
      rw [Nat.zero_add, ← h.lastP, ← h.lastI] at hdrop
      exact hdrop
    rw [isDeblkEnd, if_pos hroom] at hmark
    exact of_decide_eq_true hmark

/-! ## Any entries -/

/-- `append_de` for entries one after the other. -/
theorem appendAll_spec : ∀ {es : List De} {v : Vdir} {bs : List (List De)} {last : List De}
    {delist : Buckets Name} {mem : Kmem}, IsOpen A v bs last → (∀ e ∈ es, e.Fits A) → Plenty mem →
    ∃ v' delist' mem' bs' last', appendAll A fullNameHash es v delist mem = (0, v', delist', mem') ∧
      IsOpen A v' bs' last' ∧ (bs' ++ [last']).flatten = (bs ++ [last]).flatten ++ es
  | [], v, bs, last, delist, mem, hopen, _, _ => ⟨v, delist, mem, bs, last, rfl, hopen, (List.append_nil _).symm⟩
  | e :: es, v, bs, last, delist, mem, hopen, hfits, hmem => by
    obtain ⟨hok, hmem'⟩ : (appendDe A fullNameHash v e delist mem).1 = 0 ∧ Plenty _ :=
      appendDe_ok v e delist hmem
    have happ : appendDe A fullNameHash v e delist mem =
        (0, (appendDe A fullNameHash v e delist mem).2) := Prod.ext hok rfl
    obtain ⟨⟨bs₁, last₁, hopen₁, hflat₁⟩, -⟩ := appendDe_spec hopen (hfits e List.mem_cons_self) happ
    obtain ⟨v', delist', mem', bs', last', heq, hopen', hflat'⟩ := appendAll_spec hopen₁
      (fun e' he' => hfits e' (List.mem_cons_of_mem e he')) hmem'
    refine ⟨v', delist', mem', bs', last', ?_, hopen', ?_⟩
    · rw [appendAll, if_neg (not_not.mpr hok)]
      exact heq
    · rw [hflat', hflat₁, List.append_assoc]
      rfl

/-- **What was appended is what is read.**  With memory enough, `append_de` succeeds for any entries on a new
    listing; they lie in its blocks, apart from each other and from the mark, and a call of `au_vdir_fill_de`
    from the start with a buffer for all of them hands them out in order, and comes to the end. -/
theorem append_decodes {v : Vdir} {es : List De} {delist : Buckets Name} {mem₀ mem : Kmem}
    (hv : allocVdir A mem₀ = (.ok v, mem)) (hes : ∀ e ∈ es, e.Fits A) (hmem : Plenty mem) :
    ∃ v' delist' mem', appendAll A fullNameHash es v delist mem = (0, v', delist', mem') ∧
      listing A v' = es ∧ (∃ pos, pos.map Prod.fst = es ∧ LaidOut A v' pos) ∧
      ∀ n, es.length ≤ n → ∃ out v'' fPos',
        auVdirFillDe A n { v' with lastI := 0, lastP := 0 } 0 = .ok (out, false, v'', fPos') ∧
        out.map Prod.fst = es := by
  obtain ⟨v', delist', mem', bs, last, heq, hopen, hflat⟩ :
      ∃ v' delist' mem' bs last, appendAll A fullNameHash es v delist mem = (0, v', delist', mem') ∧ _ :=
    appendAll_spec (allocVdir_spec hv).1 hes hmem
  have hflat' : (bs ++ [last]).flatten = es := hflat
  have hsz := hopen.built.sizes_le
  have hfirst := hopen.halts_start
  have hrest : (track A (bs ++ [last]) hsz).rest 0 = placed A 0 (bs ++ [last]) :=
    List.filter_eq_self.mpr fun x _ => decide_eq_true (Nat.zero_le _)
  have hlen : (placed A 0 (bs ++ [last])).length = es.length := by
    rw [← hflat', ← placed_fst (A := A) (bs ++ [last]) 0, List.length_map]
  refine ⟨v', delist', mem', heq, hopen.built.listing_eq.trans hflat',
    ⟨_, (placed_fst _ 0).trans hflat', hopen.laidOut⟩, fun n hn => ?_⟩
  obtain ⟨d, i₀, i, p, hfill, -, -⟩ := auVdirFillDe_spec hsz n (hopen.built.setLast 0 0) hfirst hfirst
    (Or.inl (by decide : 0 ≤ seekIndex 0))
  rw [hrest, decide_eq_false (by omega), List.take_of_length_le (by omega)] at hfill
  exact ⟨_, _, _, hfill, (short_fst _ _ _).trans ((placed_fst _ 0).trans hflat')⟩

/-- Two entries on a new listing. -/
theorem append_decodes_two :
    ∃ v' delist' mem', appendAll .lp64 (fun _ => 0) [⟨[97], 5, 4⟩, ⟨[98, 99], 6, 8⟩]
        (appendDeblk .lp64 ⟨fun _ _ => 0, 0, 0, 0, 0, 0⟩ []).2.1 .empty [] = (0, v', delist', mem') ∧
      listing .lp64 v' = [⟨[97], 5, 4⟩, ⟨[98, 99], 6, 8⟩] ∧
      (∃ pos, pos.map Prod.fst = [⟨[97], 5, 4⟩, ⟨[98, 99], 6, 8⟩] ∧ LaidOut .lp64 v' pos) ∧
      ∀ n, 2 ≤ n → ∃ out v'' fPos',
        auVdirFillDe .lp64 n { v' with lastI := 0, lastP := 0 } 0 = .ok (out, false, v'', fPos') ∧
        out.map Prod.fst = [⟨[97], 5, 4⟩, ⟨[98, 99], 6, 8⟩] := by
  have hv : allocVdir .lp64 [] = (.ok (appendDeblk .lp64 ⟨fun _ _ => 0, 0, 0, 0, 0, 0⟩ []).2.1, []) := rfl
  refine append_decodes hv (fun e he => ?_) (fun r hr => by cases hr)
  rcases List.mem_cons.mp he with rfl | he
  · exact ⟨by decide, by decide, by decide, by decide⟩
  · rw [List.mem_singleton.mp he]
    exact ⟨by decide, by decide, by decide, by decide⟩

end

end KernelPatches.Aufs
