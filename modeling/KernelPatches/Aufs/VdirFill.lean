/-
  aufs: handing out the entries of a listing, from any offset on.

  An open directory has a copy of the listing, and two notes of how far it has been read: `f_pos`, an
  offset that counts whole blocks, and `vd_last`, a block and a place in it.  Blocks end early, so the
  two are kept in step by a jump of `f_pos` at the end of each block, and `seek_vdir` walks a block from
  its start whenever they differ.

  * `placed`, `track`   — the entries with the offsets `filldir` is told;
  * `At`                — `vd_last` is at an entry or at an end, and these are the entries from there on;
  * `fillDe_spec`       — what a call hands out, and where it leaves the two notes;
  * `seekVdir_spec`     — where `seek_vdir` leaves `vd_last`;
  * `Appended`          — listings made by `append_de`;
  * `fillRun_delivers`  — over any calls and seeks, the entries handed out are the list from the entry
                          with the offset on, none lost and none twice.
-/
import KernelPatches.Aufs.VdirLayout

namespace KernelPatches.Aufs

open KernelPatches.Lib

variable {A : Arch}

/-! ## Offsets -/

/-- Entries one after the other, with their offsets. -/
def place (A : Arch) : Nat → List De → List (De × Nat)
  | _, [] => []
  | o, e :: es => (e, o) :: place A (o + calcSize A e.name.length) es

/-- The entries of the blocks from block `i` on. -/
def placed (A : Arch) : Nat → List (List De) → List (De × Nat)
  | _, [] => []
  | i, es :: bs => place A (deblkSize * i) es ++ placed A (i + 1) bs

/-- The end of the last block. -/
def endOffset (A : Arch) : Nat → List (List De) → Nat
  | i, [] => deblkSize * i
  | i, [es] => deblkSize * i + sizes A es
  | i, _ :: bs => endOffset A (i + 1) bs

theorem place_fst : ∀ (es : List De) (o : Nat), (place A o es).map Prod.fst = es
  | [], _ => rfl
  | e :: es, o => congrArg (e :: ·) (place_fst es (o + calcSize A e.name.length))

theorem placed_fst : ∀ (bs : List (List De)) (i : Nat), (placed A i bs).map Prod.fst = bs.flatten
  | [], _ => rfl
  | es :: bs, i => by
    rw [placed, List.map_append, place_fst, placed_fst bs, List.flatten_cons]

theorem place_append : ∀ (es es' : List De) (o : Nat),
    place A o (es ++ es') = place A o es ++ place A (o + sizes A es) es'
  | [], _, _ => rfl
  | e :: es, es', o => by
    rw [List.cons_append, place, place_append es es', place, sizes_cons, Nat.add_assoc, List.cons_append]

/-- An entry ends within the room of all. -/
theorem place_end : ∀ {es : List De} {o : Nat} {x : De × Nat}, x ∈ place A o es →
    o ≤ x.2 ∧ x.2 + calcSize A x.1.name.length ≤ o + sizes A es
  | e :: es, o, x, hx => by
    rw [sizes_cons]
    rcases List.mem_cons.mp hx with rfl | hx
    · exact ⟨Nat.le_refl _, by simp only; omega⟩
    · have hes := place_end hx
      omega

theorem place_bounds {es : List De} {o : Nat} {x : De × Nat} (hx : x ∈ place A o es) :
    o ≤ x.2 ∧ x.2 < o + sizes A es := by
  have hend := place_end hx
  have hpos := calcSize_pos A x.1.name.length
  omega

/-- An entry starts where the ones before it have ended. -/
theorem place_apart : ∀ (es : List De) (o : Nat),
    (place A o es).Pairwise fun x y => x.2 + calcSize A x.1.name.length ≤ y.2
  | [], _ => List.Pairwise.nil
  | _ :: es, _ => List.pairwise_cons.mpr ⟨fun _ hx => (place_end hx).1, place_apart es _⟩

theorem placed_ge : ∀ {bs : List (List De)} {i : Nat} {x : De × Nat}, x ∈ placed A i bs →
    deblkSize * i ≤ x.2
  | es :: bs, i, x, hx => by
    rcases List.mem_append.mp hx with hx | hx
    · exact (place_bounds hx).1
    · exact Nat.le_trans (Nat.mul_le_mul_left _ (Nat.le_succ i)) (placed_ge hx)

theorem endOffset_ge : ∀ (bs : List (List De)) (i : Nat), deblkSize * i ≤ endOffset A i bs
  | [], _ => Nat.le_refl _
  | [_], _ => Nat.le_add_right _ _
  | _ :: es :: bs, i =>
    Nat.le_trans (Nat.mul_le_mul_left _ (Nat.le_succ i)) (endOffset_ge (es :: bs) (i + 1))

theorem placed_apart : ∀ {bs : List (List De)} {i : Nat}, (∀ es ∈ bs, sizes A es ≤ deblkSize) →
    (placed A i bs).Pairwise fun x y => x.2 + calcSize A x.1.name.length ≤ y.2
  | [], _, _ => List.Pairwise.nil
  | es :: bs, i, hsz => by
    refine List.pairwise_append.mpr ⟨place_apart es _,
      placed_apart fun es' h => hsz es' (List.mem_cons_of_mem _ h), fun x hx y hy => ?_⟩
    have hes := hsz es List.mem_cons_self
    have hx' := place_end hx
    have hy' := placed_ge hy
    rw [deblkSize] at *
    omega

theorem placed_up {bs : List (List De)} {i : Nat} (hsz : ∀ es ∈ bs, sizes A es ≤ deblkSize) :
    (placed A i bs).Pairwise fun x y => x.2 < y.2 :=
  (placed_apart hsz).imp fun {x _} h => by
    have hpos := calcSize_pos A x.1.name.length
    omega

theorem placed_lt_end : ∀ {bs : List (List De)} {i : Nat}, (∀ es ∈ bs, sizes A es ≤ deblkSize) →
    ∀ x ∈ placed A i bs, x.2 < endOffset A i bs
  | [es], i, _, x, hx => by
    rw [placed, placed, List.append_nil] at hx
    exact (place_bounds hx).2
  | es :: es' :: bs, i, hsz, x, hx => by
    rw [endOffset]
    rcases List.mem_append.mp hx with hx | hx
    · have hes := hsz es List.mem_cons_self
      have hx' := place_bounds hx
      have hend := endOffset_ge (A := A) (es' :: bs) (i + 1)
      rw [deblkSize] at *
      omega
    · exact placed_lt_end (fun es'' h => hsz es'' (List.mem_cons_of_mem _ h)) x hx
    · intro h
      cases h

/-- The end of the last block. -/
theorem endOffset_last : ∀ {bs : List (List De)} {j i : Nat} {es : List De}, bs[i]? = some es →
    i + 1 = bs.length → endOffset A j bs = deblkSize * (j + i) + sizes A es
  | [es'], j, i, es, hes, hi => by
    obtain rfl : i = 0 := by simpa using hi
    obtain rfl : es' = es := Option.some.inj hes
    rfl
  | es₀ :: es' :: bs, j, i, es, hes, hi => by
    obtain ⟨i, rfl⟩ : ∃ k, i = k + 1 := ⟨i - 1, by simp only [List.length_cons] at hi; omega⟩
    have hrest := @endOffset_last (es' :: bs) (j + 1) i es (by simpa using hes) (by simpa using hi)
    rw [endOffset, hrest, show j + 1 + i = j + (i + 1) by omega]
    intro h
    cases h

theorem Built.sizes_le {v : Vdir} {bs : List (List De)} (h : Built A v bs) :
    ∀ es ∈ bs, sizes A es ≤ deblkSize := by
  intro es hes
  obtain ⟨i, hi⟩ := List.mem_iff_getElem?.mp hes
  have hle := (h.laid i es hi).sizes_le (Nat.zero_le _)
  omega

/-- The entries of the blocks, with the offsets `filldir` is told. -/
def track (A : Arch) (bs : List (List De)) (hsz : ∀ es ∈ bs, sizes A es ≤ deblkSize) : Track De where
  pos := placed A 0 bs
  fin := endOffset A 0 bs
  up := placed_up hsz
  lt_fin := placed_lt_end hsz

/-! ## Where `vd_last` is -/

/-- Offset `p` of block `i` is that of an entry of the block, or its end; `r` are the entries from
    there on. -/
def At (A : Arch) (bs : List (List De)) (i p : Nat) (r : List (De × Nat)) : Prop :=
  ∃ done es, bs[i]? = some (done ++ es) ∧ p = sizes A done ∧
    r = place A (deblkSize * i + p) es ++ placed A (i + 1) (bs.drop (i + 1))

theorem placed_append : ∀ (bs bs' : List (List De)) (i : Nat),
    placed A i (bs ++ bs') = placed A i bs ++ placed A (i + bs.length) bs'
  | [], _, _ => rfl
  | es :: bs, bs', i => by
    rw [List.cons_append, placed, placed, placed_append bs bs', List.length_cons, List.append_assoc,
      show i + 1 + bs.length = i + (bs.length + 1) by omega]

theorem placed_lt : ∀ {bs : List (List De)} {i : Nat}, (∀ es ∈ bs, sizes A es ≤ deblkSize) →
    ∀ x ∈ placed A i bs, x.2 < deblkSize * (i + bs.length)
  | es :: bs, i, hsz, x, hx => by
    rw [List.length_cons]
    rcases List.mem_append.mp hx with hx | hx
    · have hes := hsz es List.mem_cons_self
      have hx' := place_bounds hx
      rw [deblkSize] at *
      omega
    · have hlt := placed_lt (fun es' h => hsz es' (List.mem_cons_of_mem _ h)) x hx
      rw [show i + (bs.length + 1) = i + 1 + bs.length by omega]
      exact hlt

theorem drop_eq_cons {bs : List (List De)} {i : Nat} {es : List De} (h : bs[i]? = some es) :
    bs.drop i = es :: bs.drop (i + 1) := by
  obtain ⟨hi, hget⟩ := List.getElem?_eq_some_iff.mp h
  rw [List.drop_eq_getElem_cons hi, hget]

/-- The start of a block. -/
theorem at_block {bs : List (List De)} {i : Nat} {es : List De} (h : bs[i]? = some es) :
    At A bs i 0 (placed A i (bs.drop i)) := by
  refine ⟨[], es, h, rfl, ?_⟩
  rw [drop_eq_cons h]
  rfl

/-- The entries from there on, by the offset. -/
theorem At.rest {bs : List (List De)} (hsz : ∀ es ∈ bs, sizes A es ≤ deblkSize) {i p : Nat}
    {r : List (De × Nat)} (h : At A bs i p r) : (track A bs hsz).rest (deblkSize * i + p) = r := by
  obtain ⟨done, es, hes, rfl, rfl⟩ := h
  obtain ⟨hi, -⟩ := List.getElem?_eq_some_iff.mp hes
  have hdone : sizes A done ≤ deblkSize := by
    have hle := hsz (done ++ es) (List.mem_of_getElem? hes)
    rw [sizes_append] at hle
    omega
  have hsplit : placed A 0 bs = (placed A 0 (bs.take i) ++ place A (deblkSize * i) done) ++
      (place A (deblkSize * i + sizes A done) es ++ placed A (i + 1) (bs.drop (i + 1))) := by
    have htake := placed_append (A := A) (bs.take i) (bs.drop i) 0
    rw [List.take_append_drop, List.length_take, Nat.min_eq_left (Nat.le_of_lt hi), Nat.zero_add,
      drop_eq_cons hes, placed, place_append] at htake
    rw [htake, List.append_assoc, List.append_assoc]
  refine Track.rest_eq_of_split hsplit (fun x hx => ?_) fun x hx => ?_
  · rcases List.mem_append.mp hx with hx | hx
    · have hlt := placed_lt (fun es' h => hsz es' (List.mem_of_mem_take h)) x hx
      rw [List.length_take, Nat.min_eq_left (Nat.le_of_lt hi), Nat.zero_add] at hlt
      omega
    · exact (place_bounds hx).2
  · rcases List.mem_append.mp hx with hx | hx
    · exact (place_bounds hx).1
    · have hge := placed_ge hx
      rw [deblkSize] at *
      omega

/-- Offset `p` of block `i` is that of an entry, or it is the end of the last block. -/
def Halts (A : Arch) (bs : List (List De)) (i p : Nat) : Prop :=
  ∃ done es, bs[i]? = some (done ++ es) ∧ p = sizes A done ∧ (es = [] → i + 1 = bs.length)

/-- The block of an offset; the end belongs to the last one. -/
def blockOf (A : Arch) (bs : List (List De)) (o : Nat) : Nat :=
  if o = endOffset A 0 bs then bs.length - 1 else o / deblkSize

theorem Halts.at {bs : List (List De)} (hsz : ∀ es ∈ bs, sizes A es ≤ deblkSize) {i p : Nat}
    (h : Halts A bs i p) : At A bs i p ((track A bs hsz).rest (deblkSize * i + p)) := by
  obtain ⟨done, es, hes, hp, -⟩ := h
  have hat : At A bs i p _ := ⟨done, es, hes, hp, rfl⟩
  rw [hat.rest hsz]
  exact hat

/-- It is the offset of the first entry from there on. -/
theorem Halts.head {bs : List (List De)} (hsz : ∀ es ∈ bs, sizes A es ≤ deblkSize) {i p : Nat}
    (h : Halts A bs i p) :
    (track A bs hsz).headOffset ((track A bs hsz).rest (deblkSize * i + p)) = deblkSize * i + p := by
  obtain ⟨done, es, hes, hp, hlast⟩ := h
  have hat : At A bs i p _ := ⟨done, es, hes, hp, rfl⟩
  rw [hat.rest hsz]
  cases es with
  | cons e es => rfl
  | nil =>
    have hi := hlast rfl
    rw [List.drop_eq_nil_of_le (Nat.le_of_eq hi.symm)]
    have hfin := endOffset_last (A := A) (j := 0) hes hi
    rw [List.append_nil, Nat.zero_add, ← hp] at hfin
    exact hfin

theorem Halts.block {bs : List (List De)} (hsz : ∀ es ∈ bs, sizes A es ≤ deblkSize) {i p : Nat}
    (h : Halts A bs i p) : blockOf A bs (deblkSize * i + p) = i := by
  obtain ⟨done, es, hes, hp, hlast⟩ := h
  rw [blockOf]
  cases es with
  | cons e es =>
    have hat : At A bs i p _ := ⟨done, e :: es, hes, hp, rfl⟩
    have hmem : (e, deblkSize * i + p) ∈ (track A bs hsz).rest (deblkSize * i + p) := by
      rw [hat.rest hsz]
      exact List.mem_cons_self
    have hlt := (track A bs hsz).lt_fin _ (List.mem_filter.mp hmem).1
    have hle := hsz _ (List.mem_of_getElem? hes)
    have hpos := calcSize_pos A e.name.length
    rw [sizes_append, sizes_cons] at hle
    rw [if_neg (fun h => Nat.lt_irrefl _ (h ▸ hlt)), Nat.mul_add_div (by decide)]
    have hp' : p / deblkSize = 0 := Nat.div_eq_of_lt (by omega)
    omega
  | nil =>
    have hi := hlast rfl
    have hfin := endOffset_last (A := A) (j := 0) hes hi
    rw [List.append_nil, Nat.zero_add, ← hp] at hfin
    rw [if_pos hfin.symm]
    omega

/-! ## One call -/

/-- The fields of `vd_last`. -/
def Vdir.setLast (v : Vdir) (i p : Nat) : Vdir := { v with lastI := i, lastP := p }

theorem Built.setLast {v : Vdir} {bs : List (List De)} (h : Built A v bs) (i p : Nat) :
    Built A (v.setLast i p) bs := ⟨h.nblk, h.laid⟩

/-- An entry with the offset `filldir` is told, by a reader which is short of the entries of block `i`. -/
def short (d i : Nat) (x : De × Nat) : De × Nat := (x.1, if x.2 / deblkSize = i then x.2 - d else x.2)

theorem short_fst (d i : Nat) (l : List (De × Nat)) : (l.map (short d i)).map Prod.fst = l.map Prod.fst := by
  rw [List.map_map]
  rfl

theorem short_zero (i : Nat) (l : List (De × Nat)) : l.map (short 0 i) = l := by
  have hid : ∀ x ∈ l, short 0 i x = id x := by
    intro x _
    show (x.1, if x.2 / deblkSize = i then x.2 - 0 else x.2) = x
    rw [Nat.sub_zero, ite_self]
  rw [List.map_congr_left hid, List.map_id]

theorem short_of_ge {d i i' : Nat} {l : List (De × Nat)} (hi : i < i')
    (hge : ∀ x ∈ l, deblkSize * i' ≤ x.2) : l.map (short d i) = l.map (short 0 i') := by
  rw [short_zero]
  have hid : ∀ x ∈ l, short d i x = id x := by
    intro x hx
    have hx' := hge x hx
    show (x.1, if x.2 / deblkSize = i then x.2 - d else x.2) = x
    rw [if_neg]
    intro hdiv
    have hle : i' ≤ x.2 / deblkSize := (Nat.le_div_iff_mul_le (by decide)).mpr (by
      rw [Nat.mul_comm]
      exact hx')
    omega
  rw [List.map_congr_left hid, List.map_id]

/-- **What a call hands out**, from a place on: the next `n` entries.  It refuses an entry iff there are
    more, and leaves `vd_last` at the first entry not taken, or at the end.  An `f_pos` that is short of the
    place stays so up to the end of the block. -/
theorem fillDe_spec {bs : List (List De)} : ∀ {fuel n f d : Nat}
    {v : Vdir} {r : List (De × Nat)}, Built A v bs → At A bs v.lastI v.lastP r →
    f + d = deblkSize * v.lastI + v.lastP → r.length + (bs.length - v.lastI) < fuel →
    ∃ i p, fillDe A fuel n v f = ((r.take n).map (short d v.lastI), decide (n < r.length), v.setLast i p,
        deblkSize * i + p - if i = v.lastI then d else 0) ∧
      v.lastI ≤ i ∧ Halts A bs i p ∧ At A bs i p (r.drop n) := by
  intro fuel
  induction fuel with
  | zero => intro n f d v r _ _ _ hfuel; omega
  | succ fuel ih =>
    intro n f d v r hv hat hd hfuel
    obtain ⟨done, es, hes, hp, hr⟩ := hat
    obtain ⟨hi, -⟩ := List.getElem?_eq_some_iff.mp hes
    have hlaid : Laid A v.vdDeblk v.lastI v.lastP es := by
      have hdrop := (hv.laid v.lastI _ hes).drop
      rw [Nat.zero_add, ← hp] at hdrop
      exact hdrop
    have hstay : f = deblkSize * v.lastI + v.lastP - if v.lastI = v.lastI then d else 0 := by
      rw [if_pos rfl]
      omega
    cases es with
    | nil =>
      have hend : isDeblkEnd A v.vdDeblk v.lastI v.lastP = true := hlaid
      unfold fillDe
      rw [if_pos hend]
      by_cases hlast : v.lastI < v.vdNblk - 1
      · -- The end of a block: on to the next one, where `f_pos` is right again.
        have hi' : v.lastI + 1 < bs.length := by rw [hv.nblk] at hlast; omega
        have hr' : r = placed A (v.lastI + 1) (bs.drop (v.lastI + 1)) := hr
        have hnext : At A bs (v.lastI + 1) 0 r := by
          rw [hr']
          exact at_block (List.getElem?_eq_getElem hi')
        obtain ⟨i, p, heq, hle, hhalt, hat'⟩ := @ih n (deblkSize * (v.lastI + 1)) 0
          (v.setLast (v.lastI + 1) 0) r (hv.setLast _ _) hnext rfl
          (by show r.length + (bs.length - (v.lastI + 1)) < fuel; omega)
        have hle' : v.lastI + 1 ≤ i := hle
        have hge : ∀ x ∈ r.take n, deblkSize * (v.lastI + 1) ≤ x.2 := by
          intro x hx
          have hx' := List.mem_of_mem_take hx
          rw [hr'] at hx'
          exact placed_ge hx'
        rw [if_pos hlast]
        refine ⟨i, p, heq.trans ?_, Nat.le_of_succ_le hle', hhalt, hat'⟩
        rw [short_of_ge (Nat.lt_succ_self v.lastI) hge, ite_self, if_neg (by omega)]
        rfl
      · -- The end of the last one.
        have hi' : v.lastI + 1 = bs.length := by rw [hv.nblk] at hlast; omega
        have hnil : r = [] := by rw [hr, List.drop_eq_nil_of_le (Nat.le_of_eq hi'.symm)]; rfl
        rw [if_neg hlast, hnil]
        refine ⟨v.lastI, v.lastP, ?_, Nat.le_refl _, ⟨done, [], hes, hp, fun _ => hi'⟩, done, [], hes, hp, ?_⟩
        · rw [List.take_nil, ← hstay]
          rfl
        · rw [List.drop_nil, ← hnil, hr]
    | cons e es =>
      obtain ⟨hread, hfits, hroom, hrest⟩ := hlaid
      have hend := isDeblkEnd_of_entry hread hfits.name_pos hroom
      have hpos := calcSize_pos A e.name.length
      have hhead : r = (e, deblkSize * v.lastI + v.lastP) ::
          (place A (deblkSize * v.lastI + v.lastP + calcSize A e.name.length) es ++
            placed A (v.lastI + 1) (bs.drop (v.lastI + 1))) := hr
      have hshort : short d v.lastI (e, deblkSize * v.lastI + v.lastP) = (e, f) := by
        have hblk : (deblkSize * v.lastI + v.lastP) / deblkSize = v.lastI := by
          rw [Nat.mul_add_div (by decide), Nat.div_eq_of_lt (by omega), Nat.add_zero]
        rw [short, if_pos hblk, show deblkSize * v.lastI + v.lastP - d = f by omega]
      unfold fillDe
      rw [hend, if_neg Bool.false_ne_true]
      cases n with
      | zero =>
        refine ⟨v.lastI, v.lastP, ?_, Nat.le_refl _, ⟨done, e :: es, hes, hp, fun h => by cases h⟩,
          done, e :: es, hes, hp, hr⟩
        rw [List.take_zero, hhead, ← hstay]
        rfl
      | succ n =>
        have hnext : At A bs v.lastI (v.lastP + calcSize A e.name.length) r.tail := by
          refine ⟨done ++ [e], es, ?_, ?_, ?_⟩
          · rw [List.append_assoc]
            exact hes
          · rw [sizes_append, sizes_cons, sizes_nil, ← hp, Nat.add_zero]
          · rw [hhead, List.tail_cons, Nat.add_assoc]
        obtain ⟨i, p, heq, hle, hhalt, hat'⟩ := @ih n (f + calcSize A e.name.length) d
          (v.setLast v.lastI (v.lastP + calcSize A e.name.length))
          r.tail (hv.setLast _ _) hnext
          (by show f + calcSize A e.name.length + d =
                deblkSize * v.lastI + (v.lastP + calcSize A e.name.length)
              omega)
          (by show r.tail.length + (bs.length - v.lastI) < fuel; rw [hhead] at hfuel ⊢
              rw [List.length_cons] at hfuel; rw [List.tail_cons]; omega)
        have heq' : fillDe A fuel n { v with lastP := v.lastP + calcSize A e.name.length }
            (f + calcSize A e.name.length) =
            ((r.tail.take n).map (short d v.lastI), decide (n < r.tail.length), v.setLast i p,
              deblkSize * i + p - if i = v.lastI then d else 0) := heq
        refine ⟨i, p, ?_, hle, hhalt, ?_⟩
        · simp only [hread, heq']
          rw [hhead, List.tail_cons, List.take_succ_cons, List.length_cons, List.map_cons, hshort]
          simp only [Nat.add_lt_add_iff_right]
        · rw [hhead, List.drop_succ_cons]
          rw [hhead, List.tail_cons] at hat'
          exact hat'

/-! ## Seeking -/

/-- The walk through a block passes the entries below `f_pos`, and stops at the next one or at the end. -/
theorem seekBlock_spec {m : Mem} {i fPos : Nat} : ∀ {fuel : Nat} {es : List De} {p : Nat},
    Laid A m i p es → es.length ≤ fuel →
    ∃ es₁ es₂, es = es₁ ++ es₂ ∧ seekBlock A m i fPos fuel p = p + sizes A es₁ ∧
      (∀ x ∈ place A (deblkSize * i + p) es₁, x.2 < fPos) ∧
      (es₂ = [] ∨ fPos ≤ deblkSize * i + (p + sizes A es₁))
  | 0, [], p, _, _ => ⟨[], [], rfl, rfl, fun x hx => absurd hx List.not_mem_nil, Or.inl rfl⟩
  | fuel + 1, [], p, hend, _ => by
    have hend' : isDeblkEnd A m i p = true := hend
    refine ⟨[], [], rfl, ?_, fun x hx => absurd hx List.not_mem_nil, Or.inl rfl⟩
    rw [seekBlock, hend']
    rfl
  | fuel + 1, e :: es, p, ⟨hread, hfits, hroom, hes⟩, hfuel => by
    have hend := isDeblkEnd_of_entry hread hfits.name_pos hroom
    by_cases hpos : deblkSize * i + p < fPos
    · obtain ⟨es₁, es₂, rfl, hseek, hlt, hstop⟩ :=
        seekBlock_spec hes (Nat.le_of_succ_le_succ hfuel)
      refine ⟨e :: es₁, es₂, rfl, ?_, fun x hx => ?_, ?_⟩
      · rw [seekBlock, hend, hread, Nat.mul_comm i, if_pos (by simpa using hpos), hseek, sizes_cons,
          Nat.add_assoc]
      · rcases List.mem_cons.mp hx with rfl | hx
        · exact hpos
        · rw [Nat.add_assoc] at hx
          exact hlt x hx
      · rw [sizes_cons, ← Nat.add_assoc p]
        exact hstop
    · refine ⟨[], e :: es, rfl, ?_, fun x hx => absurd hx List.not_mem_nil, Or.inr (by
        rw [sizes_nil]
        omega)⟩
      rw [seekBlock, hend, Nat.mul_comm i, if_neg (by simpa using hpos)]
      rfl

/-- An index that was cut to 32 bits. -/
theorem wrap32_le {q : Nat} (h : 0 ≤ wrap32 q) : wrap32 q ≤ q := by
  rw [wrap32] at h ⊢
  omega

theorem wrap32_of_lt {q : Nat} (h : q < 2 ^ 31) : wrap32 q = q := by
  rw [wrap32]
  omega

/-- The walk through the blocks ends at the first entry from `f_pos` on, if there is one. -/
theorem seekBlocks_spec {bs : List (List De)} (hsz : ∀ es ∈ bs, sizes A es ≤ deblkSize) {fPos : Nat}
    {v : Vdir} (hv : Built A v bs) : ∀ {count i : Nat}, i + count = bs.length →
    (track A bs hsz).rest fPos = (placed A i (bs.drop i)).filter (fun x => fPos ≤ x.2) →
    (seekBlocks A fPos count i v = (false, v) ∧ (track A bs hsz).rest fPos = []) ∨
      ∃ i' p, seekBlocks A fPos count i v = (true, v.setLast i' p) ∧ Halts A bs i' p ∧
        (track A bs hsz).rest (deblkSize * i' + p) = (track A bs hsz).rest fPos ∧
        fPos ≤ deblkSize * i' + p := by
  intro count
  induction count with
  | zero =>
    intro i hcount hrest
    refine Or.inl ⟨rfl, ?_⟩
    rw [hrest, List.drop_eq_nil_of_le (by omega)]
    rfl
  | succ count ih =>
    intro i hcount hrest
    have hi : i < bs.length := by omega
    obtain ⟨es, hes⟩ : ∃ es, bs[i]? = some es := ⟨_, List.getElem?_eq_getElem hi⟩
    have hlaid := hv.laid i es hes
    obtain ⟨es₁, es₂, hsplit, hseek, hlt, hstop⟩ := @seekBlock_spec A _ i fPos _ _ _ hlaid
      (Nat.le_of_lt (length_lt_deblkSize hlaid))
    rw [Nat.zero_add] at hseek hstop
    have hpassed : (place A (deblkSize * i) es₁).filter (fun x => decide (fPos ≤ x.2)) = [] := by
      refine List.filter_eq_nil_iff.mpr (fun x hx => ?_)
      have hx' := hlt x hx
      rw [decide_eq_true_eq]
      omega
    have hlaid₂ : Laid A v.vdDeblk i (sizes A es₁) es₂ := by
      rw [hsplit] at hlaid
      have hdrop := hlaid.drop
      rw [Nat.zero_add] at hdrop
      exact hdrop
    rw [drop_eq_cons hes, placed, hsplit, place_append, List.append_assoc, List.filter_append, hpassed,
      List.nil_append] at hrest
    rw [seekBlocks, hseek]
    cases es₂ with
    | nil =>
      have hend : isDeblkEnd A v.vdDeblk i (sizes A es₁) = true := hlaid₂
      have hrec := ih (i := i + 1) (by omega) hrest
      rw [hend]
      exact hrec
    | cons e es₂ =>
      obtain ⟨hread, hfits, hroom, -⟩ := hlaid₂
      have hend := isDeblkEnd_of_entry hread hfits.name_pos hroom
      have hge : fPos ≤ deblkSize * i + sizes A es₁ := hstop.resolve_left (fun h => by cases h)
      have hall : (place A (deblkSize * i + sizes A es₁) (e :: es₂) ++
          placed A (i + 1) (bs.drop (i + 1))).filter (fun x => decide (fPos ≤ x.2)) =
          place A (deblkSize * i + sizes A es₁) (e :: es₂) ++ placed A (i + 1) (bs.drop (i + 1)) := by
        refine List.filter_eq_self.mpr (fun x hx => decide_eq_true ?_)
        rcases List.mem_append.mp hx with hx | hx
        · exact Nat.le_trans hge (place_bounds hx).1
        · have hge' := placed_ge hx
          rw [deblkSize] at *
          omega
      rw [hall] at hrest
      have hes' : bs[i]? = some (es₁ ++ e :: es₂) := by rw [hes, hsplit]
      have hat : At A bs i (sizes A es₁) ((track A bs hsz).rest fPos) := ⟨es₁, e :: es₂, hes', rfl, hrest⟩
      refine Or.inr ⟨i, sizes A es₁, ?_, ⟨es₁, e :: es₂, hes', rfl, fun h => by cases h⟩, hat.rest hsz, hge⟩
      rw [hend]
      rfl

/-- **Where `seek_vdir` goes**: to the first entry from `f_pos` on; it fails only if there is none. -/
theorem seekVdir_spec {bs : List (List De)} (hsz : ∀ es ∈ bs, sizes A es ≤ deblkSize) {fPos : Nat}
    {v : Vdir} (hv : Built A v bs) (hfirst : Halts A bs 0 0) (hlast : Halts A bs v.lastI v.lastP)
    (hok : 0 ≤ seekIndex fPos ∨ fPos = calcOffset v) :
    (seekVdir A fPos v = .ok (false, v.setLast 0 0) ∧ (track A bs hsz).rest fPos = []) ∨
      ∃ i p, seekVdir A fPos v = .ok (true, v.setLast i p) ∧ Halts A bs i p ∧
        (track A bs hsz).rest (deblkSize * i + p) = (track A bs hsz).rest fPos ∧
        fPos ≤ deblkSize * i + p := by
  by_cases hcalc : fPos = calcOffset v
  · have hoff : deblkSize * v.lastI + v.lastP = fPos := by rw [hcalc, calcOffset, Nat.add_comm]
    refine Or.inr ⟨v.lastI, v.lastP, if_pos hcalc, hlast, ?_, Nat.le_of_eq hoff.symm⟩
    rw [hoff]
  by_cases hzero : fPos = 0
  · refine Or.inr ⟨0, 0, ?_, hfirst, ?_, Nat.le_of_eq hzero⟩
    · rw [seekVdir, if_neg hcalc]
      exact if_pos hzero
    · rw [hzero]
      rfl
  have hpos : 0 ≤ seekIndex fPos := hok.resolve_right hcalc
  have hnat : ((seekIndex fPos).toNat : Int) = seekIndex fPos := Int.toNat_of_nonneg hpos
  -- an index that was cut to 32 bits is still not above the right one
  have hcut : (seekIndex fPos).toNat ≤ fPos / deblkSize := by
    have hle : seekIndex fPos ≤ (fPos / deblkSize : Nat) := wrap32_le hpos
    omega
  have hseek : seekVdir A fPos v = if v.vdNblk ≤ (seekIndex fPos).toNat then .ok (false, v.setLast 0 0)
      else .ok (seekBlocks A fPos (v.vdNblk - (seekIndex fPos).toNat) (seekIndex fPos).toNat
        (v.setLast 0 0)) := by
    rw [seekVdir, if_neg hcalc]
    dsimp only
    rw [if_neg hzero]
    by_cases hout : v.vdNblk ≤ (seekIndex fPos).toNat
    · rw [if_pos hout]
      exact if_pos (by omega)
    · rw [if_neg hout, if_neg (by omega), if_neg (by omega)]
      rfl
  have hdiv : deblkSize * (seekIndex fPos).toNat ≤ fPos :=
    Nat.le_trans (Nat.mul_le_mul_left _ hcut) (Nat.mul_div_le fPos deblkSize)
  have hbefore : ∀ {i : Nat}, deblkSize * i ≤ fPos → i ≤ bs.length →
      (track A bs hsz).rest fPos = (placed A i (bs.drop i)).filter (fun x => fPos ≤ x.2) := by
    intro i hle hi
    have htake := placed_append (A := A) (bs.take i) (bs.drop i) 0
    rw [List.take_append_drop, List.length_take, Nat.min_eq_left hi, Nat.zero_add] at htake
    have hnil : (placed A 0 (bs.take i)).filter (fun x => decide (fPos ≤ x.2)) = [] := by
      refine List.filter_eq_nil_iff.mpr (fun x hx => ?_)
      have hlt := placed_lt (fun es' h => hsz es' (List.mem_of_mem_take h)) x hx
      rw [List.length_take, Nat.min_eq_left hi, Nat.zero_add] at hlt
      rw [decide_eq_true_eq]
      omega
    show (placed A 0 bs).filter _ = _
    rw [htake, List.filter_append, hnil, List.nil_append]
  by_cases hout : v.vdNblk ≤ (seekIndex fPos).toNat
  · rw [hv.nblk] at hout
    refine Or.inl ⟨?_, ?_⟩
    · rw [hseek, hv.nblk, if_pos hout]
    · rw [hbefore (i := bs.length) (Nat.le_trans (Nat.mul_le_mul_left _ hout) hdiv) (Nat.le_refl _),
        List.drop_length]
      rfl
  · rw [hv.nblk] at hout
    have hle : (seekIndex fPos).toNat ≤ bs.length := Nat.le_of_lt (Nat.lt_of_not_le hout)
    have hrest := hbefore hdiv hle
    rw [hseek, hv.nblk, if_neg hout]
    rcases seekBlocks_spec hsz (hv.setLast 0 0) (Nat.add_sub_cancel' hle) hrest with
      ⟨heq, hnil⟩ | ⟨i, p, heq, hhalt, hsame, hge⟩
    · exact Or.inl ⟨congrArg Except.ok heq, hnil⟩
    · exact Or.inr ⟨i, p, congrArg Except.ok heq, hhalt, hsame, hge⟩

/-- A negative index is no block's. -/
theorem seekVdir_wild {fPos : Nat} {v : Vdir} (hcalc : fPos ≠ calcOffset v) (hneg : seekIndex fPos < 0) :
    seekVdir A fPos v = .error .wild := by
  have hzero : fPos ≠ 0 := by
    rintro rfl
    exact absurd hneg (by decide)
  rw [seekVdir, if_neg hcalc]
  dsimp only
  rw [if_neg hzero, if_neg (by omega), if_pos hneg]

/-! ## A call of `au_vdir_fill_de` -/

theorem length_flatten_le {v : Vdir} {bs : List (List De)} (h : Built A v bs) :
    bs.flatten.length + bs.length ≤ bs.length * deblkSize := by
  have hlen : ∀ es ∈ bs, es.length < deblkSize := by
    intro es hes
    obtain ⟨i, hi⟩ := List.mem_iff_getElem?.mp hes
    exact length_lt_deblkSize (h.laid i es hi)
  clear h
  induction bs with
  | nil => exact Nat.zero_le _
  | cons es bs ih =>
    have hes := hlen es List.mem_cons_self
    have hbs := ih fun es' h => hlen es' (List.mem_cons_of_mem _ h)
    rw [List.flatten_cons, List.length_append, List.length_cons, Nat.add_mul]
    omega

/-- **A call** hands out the next `n` entries from `f_pos` on.  It leaves `f_pos` as far short of the first one
    not taken as it was before of the first one taken, unless it gets to another block. -/
theorem auVdirFillDe_spec {bs : List (List De)} (hsz : ∀ es ∈ bs, sizes A es ≤ deblkSize) (n : Nat)
    {fPos : Nat} {v : Vdir} (hv : Built A v bs) (hfirst : Halts A bs 0 0)
    (hlast : Halts A bs v.lastI v.lastP) (hok : 0 ≤ seekIndex fPos ∨ fPos = calcOffset v) :
    ∃ d i₀ i p, auVdirFillDe A n v fPos = .ok ((((track A bs hsz).rest fPos).take n).map (short d i₀),
        decide (n < ((track A bs hsz).rest fPos).length), v.setLast i p,
        (track A bs hsz).slipped (blockOf A bs) n fPos) ∧
      ((track A bs hsz).Known fPos → d = 0) ∧ Halts A bs i p := by
  rcases seekVdir_spec hsz hv hfirst hlast hok with ⟨heq, hnil⟩ | ⟨i, p, heq, hhalt, hsame, hge⟩
  · refine ⟨0, 0, 0, 0, ?_, fun _ => rfl, hfirst⟩
    have hslip : (track A bs hsz).slipped (blockOf A bs) n fPos = fPos := by
      rw [Track.slipped, Track.after, hnil, List.drop_nil, if_pos rfl, Nat.add_sub_cancel_left]
    rw [auVdirFillDe, heq, hnil, List.take_nil, hslip]
    rfl
  · have hfuel : ((track A bs hsz).rest fPos).length + (bs.length - i) < v.vdNblk * (deblkSize + 1) := by
      have hlen : ((track A bs hsz).rest fPos).length ≤ bs.flatten.length := by
        rw [← placed_fst (A := A) bs 0, List.length_map]
        exact List.length_filter_le _ _
      have hflat := length_flatten_le hv
      obtain ⟨_, _, hes, -⟩ := hhalt
      obtain ⟨hi, -⟩ := List.getElem?_eq_some_iff.mp hes
      rw [hv.nblk, Nat.mul_add, Nat.mul_one]
      omega
    have hat := hhalt.at hsz
    have hhead := hhalt.head hsz
    have hblk := hhalt.block hsz
    rw [hsame] at hat hhead
    obtain ⟨i', p', hfill, -, hhalt', hat'⟩ := fillDe_spec (n := n) (d := deblkSize * i + p - fPos)
      (hv.setLast i p) hat (Nat.add_sub_cancel' hge) hfuel
    have hdrop := hat'.rest hsz
    have hafter : (track A bs hsz).after n fPos = deblkSize * i' + p' := by
      rw [Track.after, ← hdrop]
      exact hhalt'.head hsz
    have hle := (track A bs hsz).headOffset_le_drop fPos n
    rw [hhead, ← Track.after, hafter] at hle
    have hslip : (track A bs hsz).slipped (blockOf A bs) n fPos =
        deblkSize * i' + p' - if i' = i then deblkSize * i + p - fPos else 0 := by
      rw [Track.slipped, hafter, hhead, hblk, hhalt'.block hsz]
      split
      · omega
      · rfl
    refine ⟨deblkSize * i + p - fPos, i, i', p', ?_, fun hknown => ?_, hhalt'⟩
    · rw [auVdirFillDe, heq, hslip]
      exact congrArg Except.ok hfill
    · have hknown' := Track.headOffset_rest hknown
      rw [hhead] at hknown'
      rw [hknown', Nat.sub_self]

theorem auVdirFillDe_wild {n fPos : Nat} {v : Vdir} (hcalc : fPos ≠ calcOffset v)
    (hneg : seekIndex fPos < 0) : auVdirFillDe A n v fPos = .error .wild := by
  rw [auVdirFillDe, seekVdir_wild hcalc hneg]

/-- The offsets of a listing of fewer than 2^31 blocks have an index. -/
theorem seekIndex_nonneg {bs : List (List De)} (hsz : ∀ es ∈ bs, sizes A es ≤ deblkSize)
    (hbs : bs.length < 2 ^ 31) {o : Nat} (h : o ≤ (track A bs hsz).fin) : 0 ≤ seekIndex o := by
  have hfin : endOffset A 0 bs ≤ deblkSize * bs.length := by
    cases hlen : bs.length with
    | zero =>
      rw [List.eq_nil_of_length_eq_zero hlen]
      exact Nat.le_refl _
    | succ i =>
      have hi : i < bs.length := by omega
      have hes : bs[i]? = some bs[i] := List.getElem?_eq_getElem hi
      have hlast := endOffset_last (A := A) (j := 0) hes hlen.symm
      have hle := hsz _ (List.mem_of_getElem? hes)
      rw [hlast, Nat.zero_add, Nat.mul_succ]
      omega
  have ho : o / deblkSize ≤ bs.length := by
    have h' : o ≤ deblkSize * bs.length := Nat.le_trans h hfin
    exact Nat.div_le_of_le_mul h'
  rw [seekIndex, wrap32_of_lt (Nat.lt_of_le_of_lt ho hbs)]
  exact Int.natCast_nonneg _

/-! ## Copies -/

theorem copyDeblks_spec (src : Mem) : ∀ {count i : Nat} {tgt tgt' : Mem} {mem mem' : Kmem},
    copyDeblks src count i tgt mem = (true, tgt', mem') →
    ∀ j, tgt' j = if i ≤ j ∧ j < i + count then src j else tgt j := by
  intro count
  induction count with
  | zero =>
    intro i tgt tgt' mem mem' h j
    rw [copyDeblks] at h
    have htgt : tgt = tgt' := congrArg (fun r => r.2.1) h
    rw [if_neg (by omega), htgt]
  | succ count ih =>
    intro i tgt tgt' mem mem' h j
    rw [copyDeblks] at h
    by_cases hp : (kmalloc mem).1.isNone
    · rw [if_pos hp] at h
      cases congrArg Prod.fst h
    · rw [if_neg hp] at h
      rw [ih h j]
      by_cases hj : j = i
      · rw [hj, if_neg (by omega), if_pos (by omega), Function.update_self]
      · rw [Function.update_of_ne hj]
        by_cases hrange : i + 1 ≤ j ∧ j < i + 1 + count
        · rw [if_pos hrange, if_pos (by omega)]
        · rw [if_neg hrange, if_neg (by omega)]

/-- **A copy that succeeds is complete.** -/
theorem copyVdir_spec {tgt src tgt' : Vdir} {mem mem' : Kmem} {bs : List (List De)} (hv : Built A src bs)
    (h : copyVdir A tgt src mem = (0, tgt', mem')) :
    Built A tgt' bs ∧ tgt'.lastI = tgt.lastI ∧ tgt'.lastP = tgt.lastP ∧
      tgt'.vdVersion = src.vdVersion := by
  rw [copyVdir] at h
  obtain ⟨p, hp⟩ : ∃ p, p = (if tgt.vdNblk < src.vdNblk then kmalloc mem else (some fun _ => 0, mem)) :=
    ⟨_, rfl⟩
  simp only [← hp] at h
  by_cases hnone : p.1.isNone
  · rw [if_pos hnone] at h
    cases congrArg Prod.fst h
  rw [if_neg hnone] at h
  obtain ⟨c, hc⟩ : ∃ c, c = copyDeblks src.vdDeblk (src.vdNblk - 1) 1
      (Function.update tgt.vdDeblk 0 (src.vdDeblk 0)) p.2 := ⟨_, rfl⟩
  rw [← hc] at h
  cases hall : c.1 with
  | false =>
    rw [hall] at h
    cases congrArg Prod.fst h
  | true =>
    rw [hall, if_pos rfl] at h
    obtain rfl := congrArg (fun r => r.2.1) h
    refine ⟨⟨hv.nblk, fun i es hes => (hv.laid i es hes).congr ?_⟩, rfl, rfl, rfl⟩
    have hi : i < src.vdNblk := by
      rw [hv.nblk]
      exact (List.getElem?_eq_some_iff.mp hes).1
    have hcopy := copyDeblks_spec src.vdDeblk (hc.symm.trans (Prod.ext hall rfl : c = (true, c.2))) i
    show c.2.1 i = src.vdDeblk i
    by_cases h0 : i = 0
    · rw [hcopy, if_neg (by omega), h0, Function.update_self]
    · rw [hcopy, if_pos (by omega)]

/-! ## Runs -/

/-- A listing made by `append_de`, from a new or an emptied one, and its entries. -/
inductive Appended (A : Arch) : Vdir → List De → Prop
  | alloc {mem mem' : Kmem} {v : Vdir} (h : allocVdir A mem = (.ok v, mem')) : Appended A v []
  | reinit {v : Vdir} (h : 0 < v.vdNblk) : Appended A (reinitVdir A v) []
  | append {v v' : Vdir} {es : List De} (h : Appended A v es) {fullNameHash : Name → Nat} {e : De}
      (he : e.Fits A) {delist delist' : Buckets Name} {mem mem' : Kmem}
      (happ : appendDe A fullNameHash v e delist mem = (0, v', delist', mem')) : Appended A v' (es ++ [e])

theorem Appended.isOpen {v : Vdir} {es : List De} (h : Appended A v es) :
    ∃ bs last, IsOpen A v bs last ∧ (bs ++ [last]).flatten = es := by
  induction h with
  | alloc h => exact ⟨[], [], (allocVdir_spec h).1, rfl⟩
  | reinit h => exact ⟨[], [], reinitVdir_spec h, rfl⟩
  | append _ he happ ih =>
    obtain ⟨bs, last, hopen, hflat⟩ := ih
    obtain ⟨⟨bs', last', hopen', hflat'⟩, -⟩ := appendDe_spec hopen he happ
    exact ⟨bs', last', hopen', by rw [hflat', hflat]⟩

/-- Nothing was added. -/
theorem Appended.fresh {v : Vdir} (h : Appended A v []) : IsOpen A v [] [] := by
  generalize hes : ([] : List De) = es at h
  cases h with
  | alloc h => exact (allocVdir_spec h).1
  | reinit h => exact reinitVdir_spec h
  | append _ _ _ => exact absurd hes (List.append_ne_nil_of_right_ne_nil _ (List.cons_ne_nil _ [])).symm

/-- The first entry is at the start; with no entries, the end is. -/
theorem IsOpen.known_zero {v : Vdir} {bs : List (List De)} {last : List De} (h : IsOpen A v bs last) :
    (track A (bs ++ [last]) h.built.sizes_le).Known 0 := by
  cases bs with
  | cons b bs =>
    obtain ⟨e, es, rfl⟩ := List.exists_cons_of_ne_nil (h.full b List.mem_cons_self)
    exact Or.inl ⟨(e, 0), List.mem_cons_self, rfl⟩
  | nil =>
    cases last with
    | nil => exact Or.inr rfl
    | cons e es => exact Or.inl ⟨(e, 0), List.mem_cons_self, rfl⟩

/-- A run of one open directory which has the copy `c` of a listing: calls of `au_vdir_fill_de`, each
    with a `filldir` that takes some number of entries, and seeks to offsets seen before.  With the copy
    and `f_pos` go the offset of the last seek, the entries handed out since, whether the last call
    reached the end, and the offsets seen: those passed to `filldir` and those left in `f_pos`. -/
inductive FillRun (A : Arch) (c : Vdir) :
    Vdir → Nat → Nat → List (De × Nat) → Bool → List Nat → Prop
  | start : FillRun A c c 0 0 [] false [0]
  | fill {v v' : Vdir} {fPos fPos' o n : Nat} {got out : List (De × Nat)} {ended refused : Bool}
      {seen : List Nat} (h : FillRun A c v fPos o got ended seen)
      (hfill : auVdirFillDe A n v fPos = .ok (out, refused, v', fPos')) :
      FillRun A c v' fPos' o (got ++ out) (!refused) (seen ++ (out.map Prod.snd ++ [fPos']))
  | seek {v : Vdir} {fPos o o' : Nat} {got : List (De × Nat)} {ended : Bool} {seen : List Nat}
      (h : FillRun A c v fPos o got ended seen) (hseen : o' ∈ seen) : FillRun A c v o' o' [] false seen

/-- What holds all along a run. -/
structure FillRun.Good (bs : List (List De)) (hsz : ∀ es ∈ bs, sizes A es ≤ deblkSize) (v : Vdir)
    (fPos o : Nat) (got : List (De × Nat)) (ended : Bool) (seen : List Nat) : Prop where
  built : Built A v bs
  halts : Halts A bs v.lastI v.lastP
  rest : (track A bs hsz).rest o = got ++ (track A bs hsz).rest fPos
  ended : ended = true → (track A bs hsz).rest fPos = []
  known : (track A bs hsz).Known fPos
  seen : ∀ o' ∈ seen, (track A bs hsz).Known o'

theorem FillRun.good {c v : Vdir} {fPos o : Nat} {got : List (De × Nat)} {ended : Bool} {seen : List Nat}
    {bs : List (List De)} (hsz : ∀ es ∈ bs, sizes A es ≤ deblkSize) (hc : Built A c bs)
    (hfirst : Halts A bs 0 0) (hstart : Halts A bs c.lastI c.lastP) (hzero : (track A bs hsz).Known 0)
    (h : FillRun A c v fPos o got ended seen) : Good bs hsz v fPos o got ended seen := by
  induction h with
  | start =>
    exact ⟨hc, hstart, rfl, fun h => (by cases h), hzero, fun o' ho' => by
      rw [List.mem_singleton.mp ho']
      exact hzero⟩
  | @fill v v' fPos fPos' o n got out ended refused seen _ hfill ih =>
    have hok : 0 ≤ seekIndex fPos ∨ fPos = calcOffset v := by
      by_contra hc
      obtain ⟨hneg, hcalc⟩ := not_or.mp hc
      rw [auVdirFillDe_wild hcalc (by omega)] at hfill
      cases hfill
    obtain ⟨d, i₀, i, p, heq, hd, hhalt⟩ := auVdirFillDe_spec hsz n ih.built hfirst ih.halts hok
    rw [hd ih.known, short_zero, Track.slipped_known ih.known] at heq
    have hout := Except.ok.inj (hfill.symm.trans heq)
    obtain rfl := congrArg Prod.fst hout
    obtain rfl := congrArg (fun r => r.2.1) hout
    obtain rfl := congrArg (fun r => r.2.2.1) hout
    obtain rfl := congrArg (fun r => r.2.2.2) hout
    refine ⟨ih.built.setLast i p, hhalt, Track.append_take_rest ih.rest n, fun hend => ?_,
      Track.known_after _ n fPos, fun o' ho' => ?_⟩
    · rw [Track.rest_after]
      refine List.drop_eq_nil_of_le ?_
      by_contra hc
      rw [decide_eq_true (Nat.lt_of_not_le hc)] at hend
      cases hend
    · rcases List.mem_append.mp ho' with ho' | ho'
      · exact ih.seen o' ho'
      rcases List.mem_append.mp ho' with ho' | ho'
      · obtain ⟨x, hx, rfl⟩ := List.mem_map.mp ho'
        exact Track.known_of_mem_rest (List.mem_of_mem_take hx)
      · rw [List.mem_singleton.mp ho']
        exact Track.known_after _ n fPos
  | seek _ hseen ih =>
    exact ⟨ih.built, ih.halts, rfl, fun h => (by cases h), ih.seen _ hseen, ih.seen⟩

/-- The next call comes back: there are fewer than 2^31 blocks, `vd_nblk` being an `int`. -/
theorem FillRun.Good.returns {bs : List (List De)} {hsz : ∀ es ∈ bs, sizes A es ≤ deblkSize} {v : Vdir}
    {fPos o : Nat} {got : List (De × Nat)} {ended : Bool} {seen : List Nat}
    (h : FillRun.Good bs hsz v fPos o got ended seen) (hfirst : Halts A bs 0 0) (hbs : bs.length < 2 ^ 31)
    (n : Nat) : ∃ r, auVdirFillDe A n v fPos = .ok r := by
  have hle : fPos ≤ (track A bs hsz).fin := by
    rcases h.known with ⟨x, hx, rfl⟩ | rfl
    · exact Nat.le_of_lt ((track A bs hsz).lt_fin x hx)
    · exact Nat.le_refl _
  obtain ⟨d, i₀, i, p, heq, -⟩ := auVdirFillDe_spec hsz n h.built hfirst h.halts
    (Or.inl (seekIndex_nonneg hsz hbs hle))
  exact ⟨_, heq⟩

/-- A listing starts with an entry, unless it has none. -/
theorem IsOpen.halts_start {v : Vdir} {bs : List (List De)} {last : List De} (h : IsOpen A v bs last) :
    Halts A (bs ++ [last]) 0 0 := by
  cases bs with
  | nil => exact ⟨[], last, rfl, rfl, fun _ => rfl⟩
  | cons b bs => exact ⟨[], b, rfl, rfl, fun hb => absurd hb (h.full b List.mem_cons_self)⟩

/-- A new listing, and one with the entry `a`. -/
def newVdir : Vdir := (appendDeblk .ilp32 ⟨fun _ _ => 0, 0, 0, 0, 0, 0⟩ []).2.1

def entryA : De := ⟨[97], 5, 4⟩

def listingA : Vdir := (appendDe .ilp32 (fun _ => 0) newVdir entryA .empty []).2.1

end KernelPatches.Aufs
