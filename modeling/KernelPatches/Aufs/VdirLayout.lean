/-
  aufs: how the entries of a listing lie in its blocks.

  Block `i` holds a list of entries one after the other from its start, and an end: a mark, or too
  little room for one (`Laid`).  A listing whose blocks all do so is `Built` from the lists of entries
  of its blocks; one that is `Open` can be added to, at `vd_last`, which is the end of the last block.

  * `readDe_writeDe`, `readDe_congr`   — an entry is what was written, and depends on its bytes only;
  * `Laid.append`                      — a block with an entry more;
  * `appendDe_spec`                    — `append_de` adds an entry at the end of an open listing;
  * `placed`                           — the entries with their offsets, as `au_vdir_fill_de` passes
                                         them on; the offsets go up.
-/
import KernelPatches.Aufs.Vdir
import KernelPatches.Lib.Cursor

namespace KernelPatches.Aufs

open KernelPatches.Lib

variable {A : Arch}

/-! ## Sizes -/

theorem deSize_add_le_calcSize (A : Arch) (n : Nat) : deSize A + n ≤ calcSize A n := by
  rcases inoSize_eq A with h | h <;> simp only [calcSize, deSize, h] <;> split <;> omega

theorem calcSize_lt (A : Arch) (n : Nat) : calcSize A n < deSize A + n + inoSize A := by
  rcases inoSize_eq A with h | h <;> simp only [calcSize, deSize, h] <;> split <;> omega

theorem calcSize_mono (A : Arch) {n k : Nat} (h : n ≤ k) : calcSize A n ≤ calcSize A k := by
  rcases inoSize_eq A with hi | hi <;> simp only [calcSize, deSize, hi] <;> split <;> split <;> omega

theorem inoSize_add_lt_calcSize (A : Arch) (n : Nat) : inoSize A + 1 < calcSize A n := by
  have h := deSize_add_le_calcSize A n
  rw [deSize] at h
  omega

theorem calcSize_pos (A : Arch) (n : Nat) : 0 < calcSize A n := by
  have h := inoSize_add_lt_calcSize A n
  omega

/-- The largest entry fits an empty block. -/
theorem calcSize_le_deblkSize (A : Arch) {n : Nat} (h : n ≤ 255) : calcSize A n ≤ deblkSize := by
  have hlt := calcSize_lt A n
  rw [deSize] at hlt
  rcases inoSize_eq A with hi | hi <;> rw [hi] at hlt <;> rw [deblkSize] <;> omega

/-! ## One entry -/

/-- The fields of the entry fit the fields of an `au_vdir_de`, and the name is not empty. -/
structure De.Fits (A : Arch) (e : De) : Prop where
  name_pos : 0 < e.name.length
  name_le : e.name.length ≤ 255
  ino_lt : e.ino < 2 ^ A.bitsPerLong
  type_lt : e.type < 256

theorem readDe_congr {m m' : Mem} {i p : Nat}
    (h : ∀ k, p ≤ k → k < p + calcSize A (m i (p + inoSize A + 1)).toNat → m' i k = m i k) :
    readDe A m' i p = readDe A m i p := by
  have hsz := deSize_add_le_calcSize A (m i (p + inoSize A + 1)).toNat
  rw [deSize] at hsz
  have htype : m' i (p + inoSize A) = m i (p + inoSize A) := h _ (by omega) (by omega)
  have hlen : m' i (p + inoSize A + 1) = m i (p + inoSize A + 1) := h _ (by omega) (by omega)
  have hload : m'.load i p (inoSize A) = m.load i p (inoSize A) :=
    Mem.load_congr fun k hk1 hk2 => h k hk1 (by omega)
  have hname : m'.copyOut i (p + deSize A) (m i (p + inoSize A + 1)).toNat =
      m.copyOut i (p + deSize A) (m i (p + inoSize A + 1)).toNat :=
    Mem.copyOut_congr fun k hk1 hk2 => h k (by omega) (by rw [deSize] at hk2; omega)
  rw [readDe, readDe, htype, hlen, hload, hname]

/-- What is written of an entry lies in its size. -/
theorem writeDe_frame (A : Arch) (m : Mem) (i p : Nat) (e : De) :
    Mem.AgreeOff (fun j k => j = i ∧ p ≤ k ∧ k < p + calcSize A e.name.length) m (writeDe A m i p e) := by
  have hsz := deSize_add_le_calcSize A e.name.length
  rw [deSize] at hsz
  intro j k hk
  have hkeep : ∀ {o n : Nat}, p ≤ o → o + n ≤ p + calcSize A e.name.length →
      ¬ (j = i ∧ o ≤ k ∧ k < o + n) := fun ho hn hc => hk ⟨hc.1, by omega, by omega⟩
  rw [writeDe, Mem.copyIn, if_neg (hkeep (by omega) (by rw [deSize]; omega)), Mem.store,
    if_neg (hkeep (by omega) (by omega)), Mem.store, if_neg (hkeep (by omega) (by omega)), Mem.store,
    if_neg (hkeep (by omega) (by omega))]

/-- **An entry is read back** as it was written. -/
theorem readDe_writeDe {e : De} (he : e.Fits A) (m : Mem) (i p : Nat) :
    readDe A (writeDe A m i p e) i p = e := by
  have hbyte : ∀ {v : Nat}, v < 256 → (UInt8.ofNat v).toNat = v := fun hv => by
    rw [UInt8.toNat_ofNat']
    exact Nat.mod_eq_of_lt hv
  have htype : writeDe A m i p e i (p + inoSize A) = UInt8.ofNat e.type := by
    rw [writeDe, Mem.copyIn, if_neg (by rw [deSize]; omega), Mem.store, if_neg (by omega), Mem.store,
      if_pos (by omega), Nat.sub_self, Nat.pow_zero, Nat.div_one]
  have hlen : writeDe A m i p e i (p + inoSize A + 1) = UInt8.ofNat e.name.length := by
    rw [writeDe, Mem.copyIn, if_neg (by rw [deSize]; omega), Mem.store, if_pos (by omega), Nat.sub_self,
      Nat.pow_zero, Nat.div_one]
  have hload : (writeDe A m i p e).load i p (inoSize A) = e.ino := by
    have hkeep : (writeDe A m i p e).load i p (inoSize A) =
        (m.store i p (inoSize A) e.ino).load i p (inoSize A) := by
      refine Mem.load_congr fun k h1 h2 => ?_
      rw [writeDe, Mem.copyIn, if_neg (by rw [deSize]; omega), Mem.store, if_neg (by omega), Mem.store,
        if_neg (by omega)]
    rw [hkeep]
    exact Mem.load_store_of_lt (by rw [inoSize_pow]; exact he.ino_lt)
  have hname : (writeDe A m i p e).copyOut i (p + deSize A) e.name.length = e.name :=
    Mem.copyOut_copyIn _ _ _ _
  have hn := he.name_le
  rw [readDe, htype, hlen, hload, hbyte he.type_lt, hbyte (by omega), hname]

/-! ## The end of a block -/

theorem setDeblkEnd_isSome {m : Mem} {i p : Nat} (h : calcSize A 0 ≤ deblkSize - p) :
    setDeblkEnd A m i p = some (m.store i (p + inoSize A + 1) 1 0) := if_pos h

/-- The mark ends the block, and lies in the size of an empty entry. -/
theorem setDeblkEnd_spec {m m' : Mem} {i p : Nat} (h : setDeblkEnd A m i p = some m') :
    calcSize A 0 ≤ deblkSize - p ∧ isDeblkEnd A m' i p = true ∧
      Mem.AgreeOff (fun j k => j = i ∧ p ≤ k ∧ k < p + calcSize A 0) m m' := by
  rw [setDeblkEnd] at h
  by_cases hroom : calcSize A 0 ≤ deblkSize - p
  · rw [if_pos hroom] at h
    obtain rfl := Option.some.inj h
    refine ⟨hroom, ?_, Mem.AgreeOff.store fun k h1 h2 => ⟨rfl, by omega, ?_⟩⟩
    · rw [isDeblkEnd, if_pos hroom, Mem.store, if_pos ⟨rfl, by omega, by omega⟩]
      simp
    · have := inoSize_add_lt_calcSize A 0
      omega
  · rw [if_neg hroom] at h
    cases h

theorem isDeblkEnd_of_no_room {m : Mem} {i p : Nat} (h : ¬ calcSize A 0 ≤ deblkSize - p) :
    isDeblkEnd A m i p = true := if_neg h

/-- Where an entry with a name lies there is no end. -/
theorem isDeblkEnd_of_entry {m : Mem} {i p : Nat} {e : De} (hread : readDe A m i p = e)
    (hpos : 0 < e.name.length) (hroom : p + calcSize A e.name.length ≤ deblkSize) :
    isDeblkEnd A m i p = false := by
  have hmono := calcSize_mono A (Nat.zero_le e.name.length)
  have hlen : e.name.length = (m i (p + inoSize A + 1)).toNat := by
    rw [← hread, readDe, Mem.length_copyOut]
  rw [isDeblkEnd, if_pos (by omega), decide_eq_false_iff_not]
  intro hzero
  rw [hlen, hzero] at hpos
  exact absurd hpos (by decide)

theorem isDeblkEnd_congr {m m' : Mem} {i p : Nat} (h : m' i (p + inoSize A + 1) = m i (p + inoSize A + 1)) :
    isDeblkEnd A m' i p = isDeblkEnd A m i p := by
  rw [isDeblkEnd, isDeblkEnd, h]

/-! ## Blocks -/

/-- From offset `p` of block `i` on lie these entries, one after the other, and then the end. -/
def Laid (A : Arch) (m : Mem) (i : Nat) : Nat → List De → Prop
  | p, [] => isDeblkEnd A m i p = true
  | p, e :: es =>
    readDe A m i p = e ∧ e.Fits A ∧ p + calcSize A e.name.length ≤ deblkSize ∧
      Laid A m i (p + calcSize A e.name.length) es

/-- The room entries take. -/
def sizes (A : Arch) (es : List De) : Nat := (es.map fun e => calcSize A e.name.length).sum

@[simp] theorem sizes_nil (A : Arch) : sizes A [] = 0 := rfl

@[simp] theorem sizes_cons (A : Arch) (e : De) (es : List De) :
    sizes A (e :: es) = calcSize A e.name.length + sizes A es := rfl

@[simp] theorem sizes_append (A : Arch) (es es' : List De) :
    sizes A (es ++ es') = sizes A es + sizes A es' := by
  rw [sizes, List.map_append, List.sum_append]
  rfl

theorem length_le_sizes (A : Arch) (es : List De) : es.length ≤ sizes A es := by
  induction es with
  | nil => exact Nat.le_refl 0
  | cons e es ih =>
    have hpos := calcSize_pos A e.name.length
    rw [List.length_cons, sizes_cons]
    omega

theorem Laid.sizes_le {m : Mem} {i : Nat} : ∀ {es : List De} {p : Nat}, Laid A m i p es →
    p ≤ deblkSize → p + sizes A es ≤ deblkSize
  | [], p, _, hp => hp
  | e :: es, p, ⟨_, _, hroom, hes⟩, _ => by
    have hrest := hes.sizes_le hroom
    rw [sizes_cons]
    omega

theorem Laid.fits {m : Mem} {i : Nat} : ∀ {es : List De} {p : Nat}, Laid A m i p es →
    ∀ e ∈ es, e.Fits A
  | [], _, _, _, he => absurd he List.not_mem_nil
  | _ :: _, _, ⟨_, hfits, _, hes⟩, e, he => by
    rcases List.mem_cons.mp he with rfl | he
    · exact hfits
    · exact hes.fits e he

/-- What lies in a block depends on the block only. -/
theorem Laid.congr {m m' : Mem} {i : Nat} (h : m' i = m i) : ∀ {es : List De} {p : Nat},
    Laid A m i p es → Laid A m' i p es
  | [], _, hend => (isDeblkEnd_congr (by rw [h])).trans hend
  | _ :: _, _, ⟨hread, hfits, hroom, hes⟩ =>
    ⟨(readDe_congr fun k _ _ => by rw [h]).trans hread, hfits, hroom, hes.congr h⟩

/-- The entries after the first ones. -/
theorem Laid.drop {m : Mem} {i : Nat} : ∀ {done es : List De} {p : Nat}, Laid A m i p (done ++ es) →
    Laid A m i (p + sizes A done) es
  | [], _, _, h => h
  | e :: done, es, p, ⟨_, _, _, hes⟩ => by
    have hdrop := @Laid.drop _ _ done es _ hes
    rw [sizes_cons, ← Nat.add_assoc]
    exact hdrop

/-- **A block with an entry more.** -/
theorem Laid.append {m m' : Mem} {i : Nat} {e : De} : ∀ {es : List De} {p : Nat}, Laid A m i p es →
    (∀ k, k < p + sizes A es → m' i k = m i k) → readDe A m' i (p + sizes A es) = e → e.Fits A →
    p + sizes A es + calcSize A e.name.length ≤ deblkSize →
    isDeblkEnd A m' i (p + sizes A es + calcSize A e.name.length) = true → Laid A m' i p (es ++ [e])
  | [], _, _, _, hread, hfits, hroom, hend => ⟨hread, hfits, hroom, hend⟩
  | e₀ :: es, p, ⟨hread₀, hfits₀, hroom₀, hes⟩, hkeep, hread, hfits, hroom, hend => by
    rw [sizes_cons, ← Nat.add_assoc] at hkeep hread hroom hend
    refine ⟨(readDe_congr fun k _ hk => hkeep k ?_).trans hread₀, hfits₀, hroom₀,
      hes.append hkeep hread hfits hroom hend⟩
    have hlen : e₀.name.length = (m i (p + inoSize A + 1)).toNat := by
      rw [← hread₀, readDe, Mem.length_copyOut]
    rw [← hlen] at hk
    omega

/-! ## Listings -/

/-- The blocks of the listing hold these lists of entries. -/
structure Built (A : Arch) (v : Vdir) (bs : List (List De)) : Prop where
  nblk : v.vdNblk = bs.length
  laid : ∀ i es, bs[i]? = some es → Laid A v.vdDeblk i 0 es

/-- And `vd_last` is the end of the last one, which has room for the mark; only this one is empty. -/
structure IsOpen (A : Arch) (v : Vdir) (bs : List (List De)) (es : List De) : Prop where
  built : Built A v (bs ++ [es])
  full : ∀ b ∈ bs, b ≠ []
  lastI : v.lastI = bs.length
  lastP : v.lastP = sizes A es
  room : sizes A es + calcSize A 0 ≤ deblkSize

/-- A block is read. -/
def readBlock (A : Arch) (m : Mem) (i : Nat) : Nat → Nat → List De
  | 0, _ => []
  | fuel + 1, p =>
    if isDeblkEnd A m i p then []
    else
      let de := readDe A m i p
      de :: readBlock A m i fuel (p + calcSize A de.name.length)

/-- The entries of a listing. -/
def listing (A : Arch) (v : Vdir) : List De :=
  (List.range v.vdNblk).flatMap fun i => readBlock A v.vdDeblk i deblkSize 0

theorem readBlock_of_laid {m : Mem} {i : Nat} : ∀ {es : List De} {fuel p : Nat}, Laid A m i p es →
    es.length < fuel → readBlock A m i fuel p = es
  | [], _ + 1, _, hend, _ => if_pos hend
  | e :: es, fuel + 1, p, ⟨hread, hfits, hroom, hes⟩, hfuel => by
    have hend := isDeblkEnd_of_entry hread hfits.name_pos hroom
    rw [readBlock, hend, if_neg Bool.false_ne_true, hread]
    exact congrArg (e :: ·) (readBlock_of_laid hes (Nat.lt_of_succ_lt_succ hfuel))

theorem length_lt_deblkSize {m : Mem} {i : Nat} {es : List De} (h : Laid A m i 0 es) :
    es.length < deblkSize := by
  cases es with
  | nil => exact Nat.zero_lt_succ 511
  | cons e es =>
    have hle := h.sizes_le (Nat.zero_le _)
    have hlen := length_le_sizes A es
    have hsz := inoSize_add_lt_calcSize A e.name.length
    rw [sizes_cons] at hle
    rw [List.length_cons]
    omega

/-- The entries of a listing are those of its blocks. -/
theorem Built.listing_eq {v : Vdir} {bs : List (List De)} (h : Built A v bs) :
    listing A v = bs.flatten := by
  have hblock : ∀ i, i < bs.length → readBlock A v.vdDeblk i deblkSize 0 = bs[i]?.getD [] := by
    intro i hi
    have hes := h.laid i bs[i] (List.getElem?_eq_getElem hi)
    rw [List.getElem?_eq_getElem hi, Option.getD_some]
    exact readBlock_of_laid hes (length_lt_deblkSize hes)
  rw [listing, h.nblk, List.flatMap_def]
  congr 1
  apply List.ext_getElem
  · rw [List.length_map, List.length_range]
  · intro i h1 h2
    rw [List.getElem_map, List.getElem_range, hblock i h2, List.getElem?_eq_getElem h2,
      Option.getD_some]

/-! ## Adding to a listing -/

/-- A listing with an empty block more. -/
theorem appendDeblk_spec {v v' : Vdir} {mem mem' : Kmem} {bs : List (List De)} (h : Built A v bs)
    (hfull : ∀ b ∈ bs, b ≠ []) (happ : appendDeblk A v mem = (0, v', mem')) :
    IsOpen A v' bs [] ∧ v'.vdVersion = v.vdVersion ∧ v'.vdJiffy = v.vdJiffy := by
  have hroom : calcSize A 0 ≤ deblkSize - 0 := calcSize_le_deblkSize A (Nat.zero_le _)
  rw [appendDeblk] at happ
  by_cases ho : (kmalloc mem).1.isNone
  · rw [if_pos ho] at happ
    cases congrArg Prod.fst happ
  · rw [if_neg ho] at happ
    cases hd : (kmalloc (kmalloc mem).2).1 with
    | none =>
      simp only [hd] at happ
      cases congrArg Prod.fst happ
    | some bytes =>
      simp only [hd, setDeblkEnd_isSome hroom] at happ
      obtain rfl := congrArg (fun r => r.2.1) happ
      obtain ⟨-, hmark, hframe⟩ := setDeblkEnd_spec (m := Function.update v.vdDeblk v.vdNblk bytes)
        (i := v.vdNblk) (setDeblkEnd_isSome hroom)
      refine ⟨⟨⟨?_, ?_⟩, hfull, h.nblk, rfl, ?_⟩, rfl, rfl⟩
      · show v.vdNblk + 1 = (bs ++ [[]]).length
        rw [h.nblk, List.length_append]
        rfl
      · intro i es hes
        by_cases hi : i < bs.length
        · rw [List.getElem?_append_left hi] at hes
          refine (h.laid i es hes).congr ?_
          have hne : i ≠ v.vdNblk := by rw [h.nblk]; omega
          funext k
          exact (hframe i k (fun hc => hne hc.1)).trans (congrFun (Function.update_of_ne hne _ _) k)
        · obtain ⟨rfl, rfl⟩ : i = v.vdNblk ∧ es = [] := by
            rw [List.getElem?_append_right (by omega), List.getElem?_singleton] at hes
            by_cases h0 : i - bs.length = 0
            · rw [if_pos h0] at hes
              exact ⟨by rw [h.nblk]; omega, (Option.some.inj hes).symm⟩
            · rw [if_neg h0] at hes
              cases hes
          exact hmark
      · rw [sizes_nil]
        omega

theorem IsOpen.full_append {v : Vdir} {bs : List (List De)} {es es' : List De} (h : IsOpen A v bs es)
    (hes' : es' ≠ []) : ∀ b ∈ bs ++ [es'], b ≠ [] := by
  intro b hb
  rcases List.mem_append.mp hb with hb | hb
  · exact h.full b hb
  · rw [List.mem_singleton.mp hb]
    exact hes'

/-- The entry is written at `vd_last`, and there is an end after it. -/
theorem IsOpen.put {v v' : Vdir} {bs : List (List De)} {es : List De} {e : De} {m : Mem}
    (h : IsOpen A v bs es) (he : e.Fits A) (hsz : sizes A es + calcSize A e.name.length ≤ deblkSize)
    (hframe : Mem.AgreeOff (fun j k => j = v.lastI ∧ v.lastP + calcSize A e.name.length ≤ k)
      (writeDe A v.vdDeblk v.lastI v.lastP e) m)
    (hend : isDeblkEnd A m v.lastI (v.lastP + calcSize A e.name.length) = true)
    (hm : v'.vdDeblk = m) (hn : v'.vdNblk = v.vdNblk) : Built A v' (bs ++ [es ++ [e]]) := by
  have hwrite := writeDe_frame A v.vdDeblk v.lastI v.lastP e
  refine ⟨?_, fun i es' hes' => ?_⟩
  · rw [hn, h.built.nblk, List.length_append, List.length_append]
    rfl
  rw [hm]
  by_cases hi : i < bs.length
  · rw [List.getElem?_append_left hi] at hes'
    refine (h.built.laid i es' ((List.getElem?_append_left hi).trans hes')).congr (funext fun k => ?_)
    have hne : i ≠ v.lastI := by rw [h.lastI]; omega
    exact (hframe i k (fun hc => hne hc.1)).trans (hwrite i k (fun hc => hne hc.1))
  · obtain ⟨hi', rfl⟩ : i = v.lastI ∧ es' = es ++ [e] := by
      rw [List.getElem?_append_right (by omega), List.getElem?_singleton] at hes'
      by_cases h0 : i - bs.length = 0
      · rw [if_pos h0] at hes'
        exact ⟨by rw [h.lastI]; omega, (Option.some.inj hes').symm⟩
      · rw [if_neg h0] at hes'
        cases hes'
    have hlaid : Laid A v.vdDeblk i 0 es := by
      refine h.built.laid i es ?_
      rw [hi', h.lastI, List.getElem?_append_right (Nat.le_refl _), Nat.sub_self]
      rfl
    have hq : v.lastP = 0 + sizes A es := by rw [h.lastP, Nat.zero_add]
    refine hlaid.append (fun k hk => ?_) ?_ he (by omega) ?_
    · exact (hframe i k (fun hc => by omega)).trans (hwrite i k (fun hc => by omega))
    · rw [← hq, hi']
      have hread := readDe_writeDe he v.vdDeblk v.lastI v.lastP
      refine (readDe_congr fun k _ hk => hframe v.lastI k (fun hc => ?_)).trans hread
      have hlen : (readDe A (writeDe A v.vdDeblk v.lastI v.lastP e) v.lastI v.lastP).name.length =
          (writeDe A v.vdDeblk v.lastI v.lastP e v.lastI (v.lastP + inoSize A + 1)).toNat :=
        Mem.length_copyOut _ _ _ _
      rw [← hlen, hread] at hk
      omega
    · rw [← hq, hi']
      exact hend

/-- **`append_de` adds the entry at the end**, and its name to the list of names. -/
theorem appendDe_spec {fullNameHash : Name → Nat} {v v' : Vdir} {bs : List (List De)} {es : List De}
    {e : De} {delist delist' : Buckets Name} {mem mem' : Kmem} (h : IsOpen A v bs es) (he : e.Fits A)
    (happ : appendDe A fullNameHash v e delist mem = (0, v', delist', mem')) :
    (∃ bs' es', IsOpen A v' bs' es' ∧ (bs' ++ [es']).flatten = (bs ++ [es]).flatten ++ [e]) ∧
      delist' = delist.add (auNameHash fullNameHash) id e.name := by
  rw [appendDe] at happ
  obtain ⟨room, hroom⟩ : ∃ room, room = (if deblkSize - v.lastP < calcSize A e.name.length then
      appendDeblk A v mem else (0, v, mem)) := ⟨_, rfl⟩
  simp only [← hroom] at happ
  by_cases hr : room.1 ≠ 0
  · rw [if_pos hr] at happ
    exact absurd (congrArg Prod.fst happ) hr
  rw [if_neg hr] at happ
  rw [not_not] at hr
  -- There is room at the end of the listing now, in a new block if need be.
  obtain ⟨bs₁, es₁, hopen, hflat, hsz⟩ : ∃ bs₁ es₁, IsOpen A room.2.1 bs₁ es₁ ∧
      (bs₁ ++ [es₁]).flatten = (bs ++ [es]).flatten ∧
      sizes A es₁ + calcSize A e.name.length ≤ deblkSize := by
    by_cases hlack : deblkSize - v.lastP < calcSize A e.name.length
    · rw [if_pos hlack] at hroom
      have happ' : appendDeblk A v mem = (0, room.2.1, room.2.2) := hroom.symm.trans (Prod.ext hr rfl)
      refine ⟨bs ++ [es], [], (appendDeblk_spec h.built (h.full_append ?_) happ').1, ?_, ?_⟩
      · rintro rfl
        have hle := calcSize_le_deblkSize A he.name_le
        rw [h.lastP, sizes_nil] at hlack
        omega
      · simp
      · rw [sizes_nil, Nat.zero_add]
        exact calcSize_le_deblkSize A he.name_le
    · rw [if_neg hlack] at hroom
      rw [hroom]
      have hroom' := h.room
      have hlastP := h.lastP
      exact ⟨bs, es, h, rfl, by omega⟩
  have hlast : room.2.1.lastP + calcSize A e.name.length ≤ deblkSize := by rw [hopen.lastP]; exact hsz
  by_cases hd : (kmalloc room.2.2).1.isNone
  · rw [if_pos hd] at happ
    cases congrArg Prod.fst happ
  rw [if_neg hd] at happ
  cases hset : setDeblkEnd A (writeDe A room.2.1.vdDeblk room.2.1.lastI room.2.1.lastP e) room.2.1.lastI
      (room.2.1.lastP + calcSize A e.name.length) with
  | some m =>
    simp only [hset] at happ
    obtain rfl := congrArg (fun r => r.2.1) happ
    obtain ⟨hmark, hend, hframe⟩ := setDeblkEnd_spec hset
    refine ⟨⟨bs₁, es₁ ++ [e], ⟨?_, hopen.full, hopen.lastI, ?_, ?_⟩, ?_⟩, (congrArg (fun r => r.2.2.1) happ).symm⟩
    · exact hopen.put he hsz (hframe.mono fun j k hc => ⟨hc.1, hc.2.1⟩) hend rfl rfl
    · show room.2.1.lastP + calcSize A e.name.length = sizes A (es₁ ++ [e])
      rw [hopen.lastP, sizes_append, sizes_cons, sizes_nil, Nat.add_zero]
    · rw [sizes_append, sizes_cons, sizes_nil, Nat.add_zero, ← hopen.lastP]
      omega
    · simp [← hflat]
  | none =>
    simp only [hset] at happ
    have hnone : ¬ calcSize A 0 ≤ deblkSize - (room.2.1.lastP + calcSize A e.name.length) := by
      intro hc
      rw [setDeblkEnd_isSome hc] at hset
      cases hset
    obtain ⟨v₁, hv₁⟩ : ∃ v₁ : Vdir, v₁ = { room.2.1 with
      vdDeblk := writeDe A room.2.1.vdDeblk room.2.1.lastI room.2.1.lastP e
      lastP := room.2.1.lastP + calcSize A e.name.length } := ⟨_, rfl⟩
    simp only [← hv₁] at happ
    have hbuilt : Built A v₁ (bs₁ ++ [es₁ ++ [e]]) :=
      hopen.put he hsz (Mem.AgreeOff.refl _ _) (isDeblkEnd_of_no_room hnone) (by rw [hv₁]) (by rw [hv₁])
    have hv' : (appendDeblk A v₁ (kmalloc room.2.2).2).2.1 = v' := congrArg (fun r => r.2.1) happ
    have hmem' : (appendDeblk A v₁ (kmalloc room.2.2).2).2.2 = mem' := congrArg (fun r => r.2.2.2) happ
    have herr : (appendDeblk A v₁ (kmalloc room.2.2).2).1 = 0 := congrArg (fun r => r.1) happ
    have happ' : appendDeblk A v₁ (kmalloc room.2.2).2 = (0, v', mem') := by
      rw [← hv', ← hmem', ← herr]
    have hfull := hopen.full_append (List.append_ne_nil_of_right_ne_nil es₁ (List.cons_ne_nil e []))
    refine ⟨⟨bs₁ ++ [es₁ ++ [e]], [], (appendDeblk_spec hbuilt hfull happ').1, ?_⟩,
      (congrArg (fun r => r.2.2.1) happ).symm⟩
    simp [← hflat]

/-! ## Empty listings -/

/-- A new listing is empty. -/
theorem allocVdir_spec {mem mem' : Kmem} {v : Vdir} (h : allocVdir A mem = (.ok v, mem')) :
    IsOpen A v [] [] ∧ v.vdVersion = 0 ∧ v.vdJiffy = 0 := by
  have hnone : Built A ⟨fun _ _ => 0, 0, 0, 0, 0, 0⟩ [] := ⟨rfl, fun i es hes => by cases hes⟩
  rw [allocVdir] at h
  by_cases hv : (kmalloc mem).1.isNone
  · rw [if_pos hv] at h
    cases congrArg Prod.fst h
  rw [if_neg hv] at h
  by_cases hd : (kmalloc (kmalloc mem).2).1.isNone
  · simp only [if_pos hd] at h
    cases congrArg Prod.fst h
  simp only [if_neg hd] at h
  obtain ⟨a, ha⟩ : ∃ a, a = appendDeblk A ⟨fun _ _ => 0, 0, 0, 0, 0, 0⟩ (kmalloc (kmalloc mem).2).2 :=
    ⟨_, rfl⟩
  rw [← ha] at h
  by_cases herr : a.1 = 0
  · rw [if_pos herr] at h
    have hav : a.2.1 = v := Except.ok.inj (congrArg Prod.fst h)
    have happ : appendDeblk A ⟨fun _ _ => 0, 0, 0, 0, 0, 0⟩ (kmalloc (kmalloc mem).2).2 =
        (0, v, a.2.2) := by rw [← ha, ← hav, ← herr]
    exact appendDeblk_spec hnone (fun b hb => absurd hb List.not_mem_nil) happ
  · rw [if_neg herr] at h
    cases congrArg Prod.fst h

/-- So is one that was emptied. -/
theorem reinitVdir_spec {v : Vdir} (h : 0 < v.vdNblk) : IsOpen A (reinitVdir A v) [] [] := by
  have hroom : calcSize A 0 ≤ deblkSize - 0 := calcSize_le_deblkSize A (Nat.zero_le _)
  have hset := setDeblkEnd_isSome (m := v.vdDeblk) (i := 0) hroom
  refine ⟨⟨?_, fun i es hes => ?_⟩, fun b hb => absurd hb List.not_mem_nil, rfl, rfl, ?_⟩
  · show (if 1 < v.vdNblk then 1 else v.vdNblk) = 1
    by_cases h1 : 1 < v.vdNblk
    · exact if_pos h1
    · rw [if_neg h1]
      omega
  · obtain ⟨rfl, rfl⟩ : i = 0 ∧ es = [] := by
      cases i with
      | zero => exact ⟨rfl, (Option.some.inj hes).symm⟩
      | succ i => cases hes
    show isDeblkEnd A ((setDeblkEnd A v.vdDeblk 0 0).getD v.vdDeblk) 0 0 = true
    rw [hset]
    exact (setDeblkEnd_spec hset).2.1
  · rw [sizes_nil]
    omega

end KernelPatches.Aufs
