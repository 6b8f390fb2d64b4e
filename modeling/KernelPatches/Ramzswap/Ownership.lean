/-
  Ownership of storage: the table and what is allocated agree.

  `Owned n r` is stated over the table, the objects of the pool that were not freed and the whole pages
  in use: flags and page numbers fit together, every page number designates something allocated, no
  two entries designate the same thing, and nothing allocated is without an entry.

  * `Rep.owned` — a state that represents slots is owned (the two ledgers of `Rep`, read back);
  * `run_owned` — so every state of a run inside the table is;
  * `write_past_table_leaks` — a run that leaves the table leaks.
-/
import KernelPatches.Ramzswap.Device
import Mathlib.Data.List.Nodup

namespace KernelPatches.Ramzswap

open KernelPatches.Lib KernelPatches.Lib.Mem KernelPatches.Xvmalloc

/-! ## What an entry designates -/

/-- Something allocated: a whole page, or an object of the pool. -/
inductive Storage where
  | page (p : Nat)
  | object (loc : Loc)
  deriving DecidableEq

/-- The entry has the flag. -/
def TableEntry.flagged (e : TableEntry) (flag : RzsPageflags) : Bool := e.flags.testBit flag.bit

/-- What the entry designates. -/
def TableEntry.designates (e : TableEntry) : Option Storage :=
  if e.pagenum = 0 then none
  else if e.flagged .uncompressed then some (.page e.pagenum)
  else some (.object ⟨e.pagenum, e.offset⟩)

/-- The table and what is allocated agree. -/
structure Owned (n : Nat) (r : Rzs) : Prop where
  zero : ∀ i < n, (r.table i).flagged .zero = true → (r.table i).pagenum = 0
  uncompressed : ∀ i < n, (r.table i).flagged .uncompressed = true →
    (r.table i).pagenum ≠ 0 ∧ (r.table i).offset = 0
  page : ∀ i < n, ∀ p, (r.table i).designates = some (.page p) → p ∈ r.store
  object : ∀ i < n, ∀ a, (r.table i).designates = some (.object a) → ∃ b ∈ r.objects, b.loc = a
  apart : ∀ i < n, ∀ j < n, ∀ x, (r.table i).designates = some x → (r.table j).designates = some x →
    i = j
  page_owned : ∀ p ∈ r.store, ∃ i < n, (r.table i).designates = some (.page p)
  object_owned : ∀ b ∈ r.objects, ∃ i < n, (r.table i).designates = some (.object b.loc)
  nodup : r.store.Nodup ∧ (r.objects.map Obj.loc).Nodup

/-! ## Slots own what they designate -/

section Slots

variable {A : Arch} {n i : Nat} {r : Rzs} {g : Nat → Slot}

/-- What the slot designates. -/
def Slot.designates : Slot → Option Storage
  | whole p _ => some (.page p)
  | packed a _ => some (.object a)
  | _ => none

theorem Slot.page_of_designates {s : Slot} {p : Nat} (h : s.designates = some (.page p)) :
    s.page = some p := by
  cases s with
  | whole q d =>
    obtain rfl := Storage.page.inj (Option.some.inj h)
    rfl
  | absent => exact nomatch h
  | zero => exact nomatch h
  | packed a c => exact nomatch (Option.some.inj h)

theorem Slot.obj_of_designates {s : Slot} {a : Loc} (h : s.designates = some (.object a)) :
    ∃ m, s.obj = some ⟨a, m⟩ := by
  cases s with
  | packed b c =>
    obtain rfl := Storage.object.inj (Option.some.inj h)
    exact ⟨c.length, rfl⟩
  | absent => exact nomatch h
  | zero => exact nomatch h
  | whole p d => exact nomatch (Option.some.inj h)

/-- The entry of a slot designates what the slot does. -/
theorem Rep.designates (h : Rep A n r g) (hi : i < n) :
    (r.table i).designates = (g i).designates := by
  have hzero := h.pagenum_eq_zero hi
  have hunc := Slot.entry_uncompressed_iff (g i)
  rw [← h.table i hi] at hunc
  unfold TableEntry.designates TableEntry.flagged
  rcases hg : g i with _ | _ | ⟨p, d⟩ | ⟨a, c⟩
  · exact if_pos (hzero.mpr (Or.inl hg))
  · exact if_pos (hzero.mpr (Or.inr hg))
  · rw [if_neg (fun hc => (hzero.mp hc).elim (fun hc => nomatch hg.symm.trans hc)
      (fun hc => nomatch hg.symm.trans hc)), if_pos (hunc.mpr ⟨p, d, hg⟩), h.table i hi, hg]
    rfl
  · rw [if_neg (fun hc => (hzero.mp hc).elim (fun hc => nomatch hg.symm.trans hc)
      (fun hc => nomatch hg.symm.trans hc)), if_neg, h.table i hi, hg]
    · rfl
    · rintro hc
      obtain ⟨_, _, hc⟩ := hunc.mp hc
      exact nomatch hg.symm.trans hc

/-- Two live objects at the same place are the same. -/
theorem live_loc_inj {c : Client} (h : Ok A c) {b b' : Obj} (hb : b ∈ c.live) (hb' : b' ∈ c.live)
    (hloc : b.loc = b'.loc) : b = b' := by
  have hsize := (live_loc h hb).2.2.2.2
  have hsize' := (live_loc h hb').2.2.2.2
  rw [← hloc, hsize] at hsize'
  cases b
  cases b'
  simp_all

/-- **A state that represents slots is owned.** -/
theorem Rep.owned (h : Rep A n r g) : Owned n r where
  zero := by
    intro i hi hflag
    have hz := Slot.entry_zero_iff (g i)
    rw [← h.table i hi] at hz
    exact (h.pagenum_eq_zero hi).mpr (Or.inr (hz.mp hflag))
  uncompressed := by
    intro i hi hflag
    have hu := Slot.entry_uncompressed_iff (g i)
    rw [← h.table i hi] at hu
    obtain ⟨p, d, hg⟩ := hu.mp hflag
    rw [h.table i hi, hg]
    exact ⟨(h.apart p (h.pages.mem hi (congrArg Slot.page hg))).1, rfl⟩
  page := by
    intro i hi p hp
    rw [h.designates hi] at hp
    exact h.pages.mem hi (Slot.page_of_designates hp)
  object := by
    intro i hi a ha
    rw [h.designates hi] at ha
    obtain ⟨m, hm⟩ := Slot.obj_of_designates ha
    exact ⟨_, h.objects.mem hi hm, rfl⟩
  apart := by
    intro i hi j hj x hx hy
    rw [h.designates hi] at hx
    rw [h.designates hj] at hy
    cases x with
    | page p => exact h.pages.inj i hi j hj p (Slot.page_of_designates hx) (Slot.page_of_designates hy)
    | object a =>
      obtain ⟨m, hm⟩ := Slot.obj_of_designates hx
      obtain ⟨m', hm'⟩ := Slot.obj_of_designates hy
      have hsame := live_loc_inj h.pool (h.objects.mem hi hm) (h.objects.mem hj hm') rfl
      exact h.objects.inj i hi j hj _ hm (hsame ▸ hm')
  page_owned := by
    intro p hp
    obtain ⟨i, hi, hpage⟩ := (h.pages.mem_iff p).mp hp
    refine ⟨i, hi, ?_⟩
    rw [h.designates hi]
    revert hpage
    cases g i with
    | whole q d => exact fun hpage => congrArg (fun q => some (Storage.page q)) (Option.some.inj hpage)
    | _ => exact fun hpage => nomatch hpage
  object_owned := by
    intro b hb
    obtain ⟨i, hi, hobj⟩ := (h.objects.mem_iff b).mp hb
    refine ⟨i, hi, ?_⟩
    rw [h.designates hi]
    revert hobj
    cases g i with
    | packed a c =>
      exact fun hobj => congrArg (fun b => some (Storage.object (Obj.loc b))) (Option.some.inj hobj)
    | _ => exact fun hobj => nomatch hobj
  nodup := by
    refine ⟨h.pages.nodup, List.Nodup.map_on ?_ h.objects.nodup⟩
    exact fun b hb b' hb' hloc => live_loc_inj h.pool hb hb' hloc

end Slots

/-! ## Runs -/

section Run

variable {A : Arch} {decompress : List UInt8 → Option (List UInt8)} {params : ModuleParams} {r : Rzs}
  {bdev : Nat → List UInt8} {es : List Event} {d : Dev}

/-- **After every run inside the table** the table and what is allocated agree. -/
theorem run_owned (hstart : Started A params r)
    (hrun : Run (Guarded (Step A decompress) InTable) ⟨r, bdev⟩ es d) :
    Owned (numPages d.rzs.disksize) d.rzs := by
  obtain ⟨p, mem, hp0, hp, hs⟩ := hstart.start
  obtain ⟨hconfig, g, hrep, _⟩ := run_slots (I := fun _ _ _ => True) hs hp0 hp (fun _ _ h => h) trivial
    (fun _ _ _ _ _ _ _ _ _ _ _ => trivial) hrun
  have hdisk : d.rzs.disksize = r.disksize := hconfig.2.1
  rw [hdisk]
  exact hrep.owned

/-- One write inside the table. -/
theorem run_owned_write : ∃ d, Run (Guarded (Step .lp64 onesLzo) InTable) (smallDev 8192 .empty)
    [onesWrite] d ∧ Owned (numPages d.rzs.disksize) d.rzs := by
  obtain ⟨d, hs, _⟩ := even_write
  have hrun := Run.nil.snoc hs
  exact ⟨d, hrun, run_owned even_started hrun⟩

/-- **A write past the table leaks**: no entry of the table designates the object it allocates. -/
theorem write_past_table_leaks : ∃ d, Started .lp64 (smallParams 4608) (smallDev 4608 .empty).rzs ∧
    Run (Step .lp64 onesLzo) (smallDev 4608 .empty) [onesWrite] d ∧
      ¬ Owned (numPages d.rzs.disksize) d.rzs := by
  obtain ⟨d, hs, hobjects, htable, hdisk⟩ := odd_write
  refine ⟨d, odd_started _, Run.nil.snoc hs, fun howned => ?_⟩
  obtain ⟨i, hi, hobj⟩ := howned.object_owned ⟨⟨2, 4⟩, 1⟩ (hobjects ▸ List.mem_singleton_self _)
  have hn : numPages d.rzs.disksize = 1 := by rw [hdisk]; rfl
  rw [hn, Nat.lt_one_iff] at hi
  rw [hi, htable] at hobj
  exact absurd hobj (by decide)

end Run

end KernelPatches.Ramzswap
