/-
  The device is an array of pages.

  `View` is what the events so far promise about a page: never written, last written with this data, or
  nothing (its last write failed, or it was freed since).  The views are a function of the events alone;
  they know neither the four representations of a page nor the backing device.

  * `Agrees`      — slot and backing device together give what the view promises;
  * `run_reads`   — after every run inside the table, every valid read is answered, as its view says.
-/
import KernelPatches.Ramzswap.Device

namespace KernelPatches.Ramzswap

open KernelPatches.Lib KernelPatches.Lib.Mem KernelPatches.Xvmalloc

/-! ## The abstract device -/

/-- What is promised about a page. -/
inductive View where
  | fresh
  | page (data : List UInt8)
  | unknown

/-- A notification frees the page. -/
def View.freed : View → View
  | fresh => fresh
  | _ => unknown

/-- The promises after one more event. -/
def viewStep (view : Nat → View) : Event → Nat → View
  | .write bio _ _ res => Function.update view (pageIndex bio)
      (if res = .ioError then .unknown else .page bio.data)
  | .notify index => Function.update view index (view index).freed
  | _ => view

/-- The promises after the events. -/
def views (es : List Event) : Nat → View := es.foldl viewStep fun _ => .fresh

theorem views_snoc (es : List Event) (e : Event) : views (es ++ [e]) = viewStep (views es) e :=
  List.foldl_append

/-- What a request for a page the backing device holds `stored` of ends up with. -/
def delivered (stored : List UInt8) : IoResult → Option (List UInt8)
  | .endio data => some data
  | .ioError => none
  | .forward => some stored

/-- The answer to a read is what the view promises; page 0 of a new device holds the swap header. -/
def View.Promises (backingSwap : Bool) (i : Nat) (stored : List UInt8) (res : IoResult) : View → Prop
  | fresh => i ≠ 0 → res = if backingSwap then .forward else .endio (List.replicate pageSize 0)
  | page data => delivered stored res = some data
  | unknown => True

/-! ## Pages of zeros -/

/-- `page_zero_filled` tells a page of zeros. -/
theorem eq_of_pageZeroFilled {data : List UInt8} (hlen : data.length = pageSize)
    (h : pageZeroFilled data = true) : data = List.replicate pageSize 0 := by
  refine List.eq_replicate_iff.mpr ⟨hlen, fun b hb => ?_⟩
  obtain ⟨k, hk, rfl⟩ := List.mem_iff_getElem.mp hb
  rw [hlen, pageSize_eq] at hk
  have hword := List.all_eq_true.mp h (k / 8) (List.mem_range.mpr (by rw [pageSize_eq]; omega))
  have hmem : data[k] ∈ (data.drop (8 * (k / 8))).take 8 := by
    refine List.mem_iff_getElem.mpr ⟨k % 8, ?_, ?_⟩
    · rw [List.length_take, List.length_drop, hlen, pageSize_eq]
      omega
    · rw [List.getElem_take, List.getElem_drop]
      simp only [Nat.div_add_mod]
  exact beq_iff_eq.mp (List.all_eq_true.mp hword _ hmem)

/-! ## Agreement -/

section Agree

variable {A : Arch} {decompress : List UInt8 → Option (List UInt8)} {n i : Nat} {d d' : Dev}
  {g g' : Nat → Slot} {e : Event} {view : Nat → View}

/-- Slot and backing device agree with the view of page `i`. -/
def Agrees (decompress : List UInt8 → Option (List UInt8)) (d : Dev) (g : Nat → Slot) (i : Nat) :
    View → Prop
  | .fresh => i ≠ 0 → g i = .absent
  | .page data => delivered (d.bdev i) ((g i).answer decompress d.rzs.backingSwap) = some data
  | .unknown => True

/-- What a page that agrees with its view is answered with. -/
theorem Agrees.promises {v : View} (h : Agrees decompress d g i v) :
    v.Promises d.rzs.backingSwap i (d.bdev i) ((g i).answer decompress d.rzs.backingSwap) := by
  cases v with
  | fresh =>
    intro hi
    rw [h hi]
    rfl
  | page data => exact h
  | unknown => trivial

/-- What is not changed goes on agreeing. -/
theorem Agrees.congr {v : View} (h : Agrees decompress d g i v) (hg : g' i = g i)
    (hbdev : d'.bdev i = d.bdev i) (hback : d'.rzs.backingSwap = d.rzs.backingSwap) :
    Agrees decompress d' g' i v := by
  cases v with
  | fresh => exact fun hi => hg.trans (h hi)
  | page data =>
    unfold Agrees
    rw [hg, hbdev, hback]
    exact h
  | unknown => trivial

/-- The page just written agrees with what was written. -/
theorem Filled.agrees {bio : Bio} {compressed : Option (List UInt8)} {r1 r' : Rzs} {s : Slot}
    {res : IoResult} (hlzo : ∀ c, compressed = some c → decompress c = some bio.data)
    (h : Filled A n (pageIndex bio) bio compressed r1 g s (res, r')) :
    Agrees decompress ⟨r', d.passOn bio res⟩ (Function.update g' (pageIndex bio) s) (pageIndex bio)
      (if res = .ioError then .unknown else .page bio.data) := by
  have hback' : r'.backingSwap = r1.backingSwap := h.config.2.2.1
  have hwritten : Written A bio compressed r1 s res := h.written
  cases hwritten with
  | zero hzero =>
    rw [if_neg (fun hc => by cases hc), Agrees, Function.update_self,
      eq_of_pageZeroFilled bio.data_length hzero]
    rfl
  | whole hno =>
    rw [if_neg (fun hc => by cases hc), Agrees, Function.update_self]
    rfl
  | packed hc =>
    rw [if_neg (fun hc => by cases hc), Agrees, Function.update_self, Slot.answer, hlzo _ hc]
    rfl
  | forwarded hb =>
    have hans : Slot.absent.answer decompress r'.backingSwap = .forward := if_pos (hback'.trans hb)
    rw [if_neg (fun hc => by cases hc), Agrees, Function.update_self, hans, Dev.passOn, if_pos rfl]
    exact congrArg some (Function.update_self _ _ _)
  | failed =>
    rw [if_pos rfl]
    trivial

/-- Every effect keeps agreement. -/
theorem Effect.agrees (h : Effect A decompress n d g e d' g')
    (hagree : ∀ i, Agrees decompress d g i (view i)) :
    ∀ i, Agrees decompress d' g' i (viewStep view e i) := by
  have hback : d'.rzs.backingSwap = d.rzs.backingSwap := h.config.2.2.1
  intro i
  cases h with
  | read => exact (hagree i).congr rfl rfl hback
  | @write bio _ _ res _ _ _ hlzo _ hfilled =>
    rcases eq_or_ne i (pageIndex bio) with rfl | hi
    · rw [viewStep, Function.update_self]
      exact hfilled.agrees hlzo
    · rw [viewStep, Function.update_of_ne hi]
      refine (hagree i).congr (Function.update_of_ne hi _ _) ?_ hback
      change d.passOn bio res i = d.bdev i
      unfold Dev.passOn
      split
      · exact Function.update_of_ne hi _ _
      · rfl
  | invalid => exact (hagree i).congr rfl rfl hback
  | @notify index _ _ =>
    rcases eq_or_ne i index with rfl | hi
    · rw [viewStep, Function.update_self]
      cases view i with
      | fresh => exact fun _ => Function.update_self _ _ _
      | page data => trivial
      | unknown => trivial
    · rw [viewStep, Function.update_of_ne hi]
      exact (hagree i).congr (Function.update_of_ne hi _ _) rfl hback
  | other => exact (hagree i).congr rfl rfl hback

end Agree

/-! ## Runs -/

section Run

variable {A : Arch} {decompress : List UInt8 → Option (List UInt8)} {params : ModuleParams} {r : Rzs}
  {bdev : Nat → List UInt8} {es : List Event} {d : Dev}

/-- **The device is an array of pages**: after every run inside the table, a valid read inside the table
    is answered as the events so far promise. -/
theorem run_reads (hstart : Started A params r)
    (hrun : Run (Guarded (Step A decompress) InTable) ⟨r, bdev⟩ es d) (bio : Bio)
    (hvalid : validSwapRequest d.rzs bio = true)
    (hin : pageIndex bio < numPages d.rzs.disksize ∧ pageIndex bio < 2 ^ 32) :
    ∃ res r', ramzswapMakeRequest A decompress .read bio none none d.rzs = some (res, r') ∧
      (views es (pageIndex bio)).Promises d.rzs.backingSwap (pageIndex bio)
        (d.bdev (pageIndex bio)) res := by
  obtain ⟨p, mem, hp0, hp, hs⟩ := hstart.start
  obtain ⟨hconfig, g, hrep, hagree⟩ := run_slots
    (I := fun es d g => ∀ i, Agrees decompress d g i (views es i)) hs hp0 hp (fun _ _ h => h)
    (fun i hi => Function.update_of_ne hi _ _)
    (fun es d e d' g g' _ _ _ heffect hagree i => by
      rw [views_snoc]
      exact heffect.agrees hagree i) hrun
  have hdisk : d.rzs.disksize = r.disksize := hconfig.2.1
  have hindex := readIndex_eq hin.2
  have hlt : readIndex bio < numPages r.disksize := by
    rw [hindex, ← hdisk]
    exact hin.1
  obtain ⟨r', hread, _⟩ := read_spec (A := A) bio decompress hrep hlt
  refine ⟨_, r', (if_pos hvalid).trans (congrArg some hread), ?_⟩
  rw [hindex]
  exact (hagree (pageIndex bio)).promises

/-- Reading page 1 after it was written. -/
theorem run_reads_write : ∃ d res r', Run (Guarded (Step .lp64 onesLzo) InTable) (smallDev 8192 .empty)
    [onesWrite] d ∧
      ramzswapMakeRequest .lp64 onesLzo .read onesBio none none d.rzs = some (res, r') ∧
      (views [onesWrite] (pageIndex onesBio)).Promises d.rzs.backingSwap (pageIndex onesBio)
        (d.bdev (pageIndex onesBio)) res := by
  obtain ⟨d, hs, hdisk⟩ := even_write
  have hrun := Run.nil.snoc hs
  have hvalid : validSwapRequest d.rzs onesBio = true := by
    rw [validSwapRequest_iff, hdisk]
    exact ⟨by decide, by decide, rfl, rfl, rfl⟩
  have hin : pageIndex onesBio < numPages d.rzs.disksize ∧ pageIndex onesBio < 2 ^ 32 := by
    rw [hdisk]
    exact ⟨by decide, by decide⟩
  obtain ⟨res, r', hread, hpromise⟩ := run_reads even_started hrun onesBio hvalid hin
  exact ⟨d, res, r', hrun, hread, hpromise⟩

/-- **A page never written, and not forwarded**: page 0 is answered from the swap header; and the page
    past the table of the other device is a page of zeros, if that is what the memory there says. -/
theorem fresh_not_forwarded :
    (Started .lp64 (smallParams 8192) (smallDev 8192 .empty).rzs ∧
      (smallDev 8192 .empty).rzs.backingSwap = true ∧
      validSwapRequest (smallDev 8192 .empty).rzs (Bio.at 0) = true ∧
      ∀ x, ramzswapMakeRequest .lp64 onesLzo .read (Bio.at 0) none none (smallDev 8192 .empty).rzs =
        some x → x.1 ≠ .forward) ∧
    (Started .lp64 (smallParams 4608) (smallDev 4608 ⟨0, 0, 2⟩).rzs ∧
      (smallDev 4608 ⟨0, 0, 2⟩).rzs.backingSwap = true ∧
      validSwapRequest (smallDev 4608 ⟨0, 0, 2⟩).rzs (Bio.at 8) = true ∧
      ∀ x, ramzswapMakeRequest .lp64 onesLzo .read (Bio.at 8) none none
        (smallDev 4608 ⟨0, 0, 2⟩).rzs = some x → x.1 ≠ .forward) := by
  have h0 : (ramzswapMakeRequest .lp64 onesLzo .read (Bio.at 0) none none
      (smallDev 8192 .empty).rzs).map (fun x => decide (x.1 = .forward)) = some false := by
    decide +kernel
  have h1 : (ramzswapMakeRequest .lp64 onesLzo .read (Bio.at 8) none none
      (smallDev 4608 ⟨0, 0, 2⟩).rzs).map (fun x => decide (x.1 = .forward)) = some false := by
    decide +kernel
  refine ⟨⟨even_started, by decide, by decide, fun x hx => ?_⟩,
    ⟨odd_started _, by decide, by decide, fun x hx => ?_⟩⟩
  · rw [hx] at h0
    exact of_decide_eq_false (Option.some.inj h0)
  · rw [hx] at h1
    exact of_decide_eq_false (Option.some.inj h1)

end Run

end KernelPatches.Ramzswap
