/-
  uloop: what is served is what is there to serve.

  Whatever the order in which transfers and processes go on, and whichever of them fail or give up, over any
  number of sessions with the same bitmap and cache: a read that comes to its end has delivered the bytes of
  the device that is cached (`served_target`).

  Behind it (`Sound`): a block whose bit is set — in the page in memory, or in the file, which may be behind
  it — is in the cache; so is a block somebody has answered for; and a transfer has passed over blocks that
  are in the cache only.  The cache only gains (`Good.store`).

  Two things are asked.  The blocks a transfer passes over must be those of its request (`Covers`): the loop
  steps by pages from the start of the request, so a request that starts inside a block and runs over into
  the next one may never look at the last block.  And no switch of the bitmap's pages may misread
  (`BitmapRuns`).
-/
import KernelPatches.Uloop.Transfer
import KernelPatches.Lib.Tally

namespace KernelPatches.Uloop

open KernelPatches.Lib

/-! ## What is in the cache -/

/-- Byte `i` of the cache is that of the device, if the device has it. -/
def Good (target cache : File) (i : Nat) : Prop := i < target.size → cache.data i = target.data i

/-- Block `n` is in the cache. -/
def Block (target cache : File) (n : Nat) : Prop := ∀ i, i / pageSize = n → Good target cache i

/-- The blocks of a request are in the cache. -/
def Fetched (target cache : File) (q : Req) : Prop :=
  ∀ i, q.start - q.start % pageSize ≤ i → i < q.start + q.size → Good target cache i

section Cache

variable {target cache : File} {q : Req}

/-- What `store` writes. -/
theorem store_eq : store target cache q
    = cache.write (storeRange target.size q.start q.size).1 (storeRange target.size q.start q.size).2
        fun k => target.data ((storeRange target.size q.start q.size).1 + k) := rfl

/-- **`store` fetches what it was asked for.** -/
theorem store_fetched : Fetched target (store target cache q) q := by
  intro i hlo hhi hi
  obtain ⟨k, rfl⟩ := Nat.exists_eq_add_of_le hlo
  have hmod : q.start % pageSize ≤ q.start := Nat.mod_le _ _
  have hk : k < (storeRange target.size q.start q.size).2 := by
    show k < if target.size < q.start - q.start % pageSize + (q.size + q.start % pageSize)
      then target.size - (q.start - q.start % pageSize) else q.size + q.start % pageSize
    split_ifs <;> omega
  rw [store_eq]
  exact File.write_data_in cache _ hk

/-- It spoils nothing. -/
theorem Good.store {i : Nat} (h : Good target cache i) : Good target (store target cache q) i := by
  intro hi
  rw [store_eq]
  by_cases hin : (storeRange target.size q.start q.size).1 ≤ i ∧
      i < (storeRange target.size q.start q.size).1 + (storeRange target.size q.start q.size).2
  · obtain ⟨k, rfl⟩ := Nat.exists_eq_add_of_le hin.1
    exact File.write_data_in cache _ (by omega)
  · rw [File.write_data_out _ _ (by omega)]
    exact h hi

/-- A whole page from anywhere in a block: the block is there. -/
theorem Fetched.block (h : Fetched target cache q) (hsize : q.size = pageSize) :
    Block target cache (q.start / pageSize) := by
  intro i hi
  apply h i <;> rw [pageSize_eq] at * <;> omega

end Cache

/-! ## What the bitmap says -/

/-- Every bit that is set, in the file or in the page in memory, is that of a block with the property. -/
def BitsSay (P : Nat → Prop) (i : Nat) (v : UInt8) : Prop :=
  ∀ k < 8, v.toNat.testBit k = true → P (8 * i + k)

section Bits

variable {P : Nat → Prop} {d : Bmp}

/-- The bytes of a file, by its bits. -/
theorem bitsSay_iff {f : File} :
    (∀ i, BitsSay P i (f.data i)) ↔ ∀ i, bitAt f.data i = true → P i := by
  constructor
  · intro h i hi
    have hk := h (i / 8) (i % 8) (Nat.mod_lt _ (by decide)) hi
    rwa [Nat.div_add_mod] at hk
  · intro h i k hk hbit
    refine h _ ?_
    rw [bitAt, show (8 * i + k) / 8 = i by omega, show (8 * i + k) % 8 = k by omega]
    exact hbit

/-- What a bit says that is set. -/
theorem holds_of_bit (h : d.table.Every pageSize (BitsSay P)) {i : Nat} (hi : d.bit i = true) : P i := by
  have hk := h.byte (by decide) (i / 8) (i % 8) (Nat.mod_lt _ (by decide)) hi
  rwa [Nat.div_add_mod] at hk

/-- A bit more. -/
theorem bitsSay_setBit (h : d.table.Every pageSize (BitsSay P)) {loff : Nat}
    (hidx : d.bmpidx = loff / bmpPageBytes) (hP : P loff) :
    (d.setBit (loff % bmpPageBytes)).table.Every pageSize (BitsSay P) where
  file := h.file
  buf := by
    intro k hk j hj hbit
    have hbit' : bitAt (setBitAt d.bmpbuf (loff % bmpPageBytes)) (8 * k + j) = true := by
      rw [bitAt, show (8 * k + j) / 8 = k by omega, show (8 * k + j) % 8 = j by omega]
      exact hbit
    rw [bitAt_setBitAt, Bool.or_eq_true, decide_eq_true_iff] at hbit'
    rcases hbit' with heq | hold
    · have hpos : 8 * ((d.setBit (loff % bmpPageBytes)).table.idx * pageSize + k) + j = loff := by
        show 8 * (d.bmpidx * pageSize + k) + j = loff
        rw [hidx]
        rw [bmpPageBytes_eq] at heq ⊢
        rw [pageSize_eq] at hk ⊢
        omega
      rwa [hpos]
    · refine h.buf k hk j hj ?_
      rw [bitAt, show (8 * k + j) / 8 = k by omega, show (8 * k + j) % 8 = j by omega] at hold
      exact hold

/-- More is true of the blocks now. -/
theorem BitsSay.imp {P' : Nat → Prop} (hP : ∀ n, P n → P' n) {i : Nat} {v : UInt8}
    (h : BitsSay P i v) : BitsSay P' i v := fun k hk hb => hP _ (h k hk hb)

end Bits

/-! ## The invariant -/

/-- The blocks a transfer has passed over are in the cache. -/
def Passed (target cache : File) (x : Xfer) : Prop :=
  ∃ k, x.pos = x.start + k * pageSize ∧ x.size ≤ x.sz + k * pageSize ∧
    ∀ n, x.start / pageSize ≤ n → n < x.start / pageSize + k → Block target cache n

/-- What is known where a transfer is. -/
def LocSound {η : Type} (target cache : File) : Loc η → Prop
  | .idle => True
  | .test x | .begin x | .taken x _ | .posted x _ | .wait x => Passed target cache x
  | .hold x q => Passed target cache x ∧ Fetched target cache q
  | .mark x => Passed target cache x ∧ Block target cache (x.pos / pageSize)

/-- The blocks of the pages a transfer steps over are all of its request. -/
def Covers (start size : Nat) : Prop :=
  start % pageSize + size ≤ (size + (pageSize - 1)) / pageSize * pageSize

/-- What a transfer has delivered is right. -/
def Right (target : File) (v : Served) : Prop :=
  ∀ k < v.size, v.start + k < target.size → v.data k = target.data (v.start + k)

variable {τ η : Type}

/-- Nothing is said to be in the cache that is not. -/
structure Sound (target : File) (s : World τ η) : Prop where
  disk : ∀ i, bitAt s.disk.data i = true → Block target s.cache i
  bmp : ∀ d b, s.dev = some d → d.bmp = some b →
    Fits b ∧ b.table.Every pageSize (BitsSay (Block target s.cache))
  sndres : ∀ d, s.dev = some d → ∀ q ∈ d.sndres, Fetched target s.cache q
  xfers : ∀ t, LocSound target s.cache (s.xfers t)
  helpers : ∀ h q, s.helpers h = .stored q → Fetched target s.cache q
  served : ∀ v ∈ s.served, Covers v.start v.size → Right target v

section Parts

variable {target cache : File} {x : Xfer}

/-- One block more. -/
theorem Passed.next (h : Passed target cache x) (hb : Block target cache (x.pos / pageSize)) :
    Passed target cache x.next := by
  obtain ⟨k, hpos, hsize, hall⟩ := h
  rw [pageSize_eq] at *
  refine ⟨k + 1, ?_, ?_, fun n hlo hhi => ?_⟩
  · show x.pos + pageSize = x.start + (k + 1) * pageSize
    rw [pageSize_eq]
    omega
  · show x.size ≤ x.sz - pageSize + (k + 1) * pageSize
    rw [pageSize_eq]
    omega
  · have hhi' : n < x.start / 4096 + (k + 1) := hhi
    have hlo' : x.start / 4096 ≤ n := hlo
    by_cases hn : n < x.start / 4096 + k
    · exact hall n hlo' hn
    · obtain rfl : n = x.pos / 4096 := by omega
      exact hb

/-- **At the end of its loop** a transfer has passed over its whole request. -/
theorem Passed.right (h : Passed target cache x) (hsz : x.sz = 0) (hc : Covers x.start x.size) :
    Right target ⟨x.start, x.size, fun k => cache.data (x.start + k)⟩ := by
  obtain ⟨k, -, hsize, hall⟩ := h
  intro j hj hin
  have hj' : j < x.size := hj
  refine hall ((x.start + j) / pageSize) ?_ ?_ _ rfl hin <;> rw [Covers, pageSize_eq] at * <;> omega

/-- What is in the cache stays there. -/
theorem Passed.mono {cache' : File} (hg : ∀ i, Good target cache i → Good target cache' i)
    (h : Passed target cache x) : Passed target cache' x := by
  obtain ⟨k, hpos, hsize, hall⟩ := h
  exact ⟨k, hpos, hsize, fun n hlo hhi i hi => hg i (hall n hlo hhi i hi)⟩

theorem LocSound.mono {cache' : File} (hg : ∀ i, Good target cache i → Good target cache' i)
    {l : Loc η} (h : LocSound target cache l) : LocSound target cache' l := by
  cases l with
  | idle => trivial
  | test => exact Passed.mono hg h
  | begin => exact Passed.mono hg h
  | taken => exact Passed.mono hg h
  | posted => exact Passed.mono hg h
  | wait => exact Passed.mono hg h
  | hold => exact ⟨Passed.mono hg h.1, fun i hlo hhi => hg i (h.2 i hlo hhi)⟩
  | mark => exact ⟨Passed.mono hg h.1, fun i hi => hg i (h.2 i hi)⟩

end Parts

namespace Sound

variable {target : File} {s : World τ η}

/-- The cache gains. -/
theorem grow (h : Sound target s) {c : File}
    (hg : ∀ i, Good target s.cache i → Good target c i) :
    Sound target { s with cache := c } where
  disk := fun i hi j hj => hg j (h.disk i hi j hj)
  bmp := by
    intro d b hd hb
    obtain ⟨hfits, hevery⟩ := h.bmp d b hd hb
    exact ⟨hfits, hevery.imp fun i v hv => hv.imp fun n hn j hj => hg j (hn j hj)⟩
  sndres := fun d hd q hq i hlo hhi => hg i (h.sndres d hd q hq i hlo hhi)
  xfers := fun t => (h.xfers t).mono hg
  helpers := fun p q hq i hlo hhi => hg i (h.helpers p q hq i hlo hhi)
  served := h.served

variable [DecidableEq τ] [DecidableEq η]

omit [DecidableEq η] in
/-- A transfer goes on. -/
theorem goto (h : Sound target s) {t : τ} {l : Loc η} (hl : LocSound target s.cache l) :
    Sound target (s.goto t l) where
  disk := h.disk
  bmp := h.bmp
  sndres := h.sndres
  xfers := by
    intro t'
    show LocSound target s.cache (Function.update s.xfers t l t')
    rcases eq_or_ne t' t with rfl | hne
    · rwa [Function.update_self]
    · rw [Function.update_of_ne hne]
      exact h.xfers t'
  helpers := h.helpers
  served := h.served

omit [DecidableEq τ] in
/-- A process goes on. -/
theorem become (h : Sound target s) {p : η} {l : Helper}
    (hl : ∀ q, l = .stored q → Fetched target s.cache q) : Sound target (s.become p l) where
  disk := h.disk
  bmp := h.bmp
  sndres := h.sndres
  xfers := h.xfers
  helpers := by
    intro p' q hq
    have hq' : Function.update s.helpers p l p' = .stored q := hq
    rcases eq_or_ne p' p with rfl | hne
    · rw [Function.update_self] at hq'
      exact hl q hq'
    · rw [Function.update_of_ne hne] at hq'
      exact h.helpers p' q hq'
  served := h.served

omit [DecidableEq τ] in
theorem signal (h : Sound target s) (p : η) (b : Bool) : Sound target (s.signal p b) :=
  ⟨h.disk, h.bmp, h.sndres, h.xfers, h.helpers, h.served⟩

omit [DecidableEq τ] [DecidableEq η] in
/-- The device has other queues, or another page of its bitmap in memory. -/
theorem setDev (h : Sound target s) {d : UloDev η}
    (hb : ∀ b, d.bmp = some b →
      Fits b ∧ b.table.Every pageSize (BitsSay (Block target s.cache)))
    (hq : ∀ q ∈ d.sndres, Fetched target s.cache q) : Sound target (s.setDev d) where
  disk := h.disk
  bmp := by
    intro d' b hd hb'
    obtain rfl := Option.some.inj hd
    exact hb b hb'
  sndres := by
    intro d' hd
    obtain rfl := Option.some.inj hd
    exact hq
  xfers := h.xfers
  helpers := h.helpers
  served := h.served

end Sound

/-! ## Runs -/

/-- No switch of the bitmap's pages misreads. -/
def NoMisread (s : World τ η) : Ev τ η → Prop
  | .test t w r e2 => ∀ d b x, s.dev = some d → d.bmp = some b → s.xfers t = .test x →
      ¬ Misread b (x.pos / pageSize / bmpPageBytes) w r e2
  | .mark t w r e2 => ∀ d b x, s.dev = some d → d.bmp = some b → s.xfers t = .mark x →
      ¬ Misread b (x.pos / pageSize / bmpPageBytes) w r e2
  | _ => True

section Step

variable {target : File} {s s' : World τ η} {e : Ev τ η} [DecidableEq τ] [DecidableEq η]

omit [DecidableEq η] in
/-- What a transfer knows after its test of a block. -/
theorem test_sound {b : Bmp} {x : Xfer} {w r e2 : Vfs} {cache : File}
    (hfits : Fits b) (hevery : b.table.Every pageSize (BitsSay (Block target cache)))
    (hm : ¬ Misread b (x.pos / pageSize / bmpPageBytes) w r e2) (hx : Passed target cache x)
    {err : Int} (h : (testBlock b (x.pos / pageSize) w r e2).1 = .done err) :
    LocSound (η := η) target cache (if err ≠ 0 then .idle
      else if (testBlock b (x.pos / pageSize) w r e2).2.1 then .test x.next else .begin x) := by
  by_cases herr : err ≠ 0
  · rw [if_pos herr]
    trivial
  rw [if_neg herr]
  obtain rfl : err = 0 := not_not.mp herr
  by_cases hset : (testBlock b (x.pos / pageSize) w r e2).2.1 = true
  · rw [if_pos hset]
    refine hx.next (holds_of_bit hevery ?_)
    rw [← (testBlock_kept hfits hm).2 h]
    exact hset
  · rw [if_neg hset]
    exact hx

/-- The bitmap after a block was marked. -/
theorem mark_sound {b : Bmp} {loff : Nat} {w r e2 : Vfs} {P : Nat → Prop} (hfits : Fits b)
    (hevery : b.table.Every pageSize (BitsSay P)) (hm : ¬ Misread b (loff / bmpPageBytes) w r e2)
    (hP : P loff) :
    Fits (setBlock b loff w r e2).2 ∧ (setBlock b loff w r e2).2.table.Every pageSize (BitsSay P) := by
  refine ⟨(setBlock_marks hfits hm).1, ?_⟩
  have hsw := uloBmpPindex_switch hfits (loff / bmpPageBytes) w r e2
  have hk := hsw.kept hfits hm
  by_cases herr : (uloBmpPindex b (loff / bmpPageBytes) w r e2).1 = .done 0
  · have hset : (setBlock b loff w r e2).2
        = (uloBmpPindex b (loff / bmpPageBytes) w r e2).2.setBit (loff % bmpPageBytes) := if_pos herr
    rw [herr] at hsw
    rw [hset]
    exact bitsSay_setBit (hk.every _ hevery) hsw.idx hP
  · have hset : (setBlock b loff w r e2).2 = (uloBmpPindex b (loff / bmpPageBytes) w r e2).2 :=
      if_neg herr
    rw [hset]
    exact hk.every _ hevery

/-- The bitmap file taken into use. -/
theorem setbmp_sound {d : Option Bmp} {disk : File} {arg : SetbmpArg} {P : Nat → Prop}
    (hd : ∀ b, d = some b → Fits b ∧ b.table.Every pageSize (BitsSay P))
    (hdisk : ∀ i, bitAt disk.data i = true → P i)
    (hfile : ∀ f rw, arg.file = some (f, rw) → f = disk) :
    ∀ b, (uloCtlSetbmp d arg).2 = some b → Fits b ∧ b.table.Every pageSize (BitsSay P) := by
  intro b hb
  rcases uloCtlSetbmp_cases d arg with ⟨-, hsame⟩ | ⟨f, rw', buf, hf, heq, hfits, hbuf⟩
  · rw [hsame] at hb
    exact hd b hb
  · rw [heq] at hb
    obtain rfl := Option.some.inj hb
    obtain rfl := hfile f rw' hf
    exact ⟨hfits, .of_file (bitsSay_iff.mpr hdisk) hbuf⟩

/-- **One move.** -/
theorem step_sound (hs : Sound target s) (hn : NoMisread s e) (h : UloStep target s e s') :
    Sound target s' := by
  cases h with
  | @start t d b realBlock size hd hb ht =>
    refine hs.goto (l := .test _) ⟨0, ?_, Nat.le_refl _, fun n hlo hhi => ?_⟩
    · rw [Nat.zero_mul, Nat.add_zero]
    · omega
  | @test t d b x w r e2 err hd hb ht hsz h =>
    obtain ⟨hfits, hevery⟩ := hs.bmp d b hd hb
    have hm := hn d b x hd hb ht
    have hx : Passed target s.cache x := by
      have hl := hs.xfers t
      rwa [ht] at hl
    have hk := (testBlock_kept hfits hm).1
    refine (hs.setDev (d := { d with bmp := some _ }) (fun b' hb' => ?_) (hs.sndres d hd)).goto
      (test_sound hfits hevery hm hx h)
    obtain rfl := Option.some.inj hb'
    exact ⟨hk.fits, hk.every _ hevery⟩
  | @take t d x pid rest hd ht hq =>
    have hl := hs.xfers t
    rw [ht] at hl
    exact (hs.setDev (d := { d with ready := rest }) (hs.bmp d · hd) (hs.sndres d hd)).goto hl
  | @post t d x pid hd ht =>
    have hl := hs.xfers t
    rw [ht] at hl
    exact (hs.setDev (d := { d with rcvreq := d.rcvreq ++ [x.req] }) (hs.bmp d · hd)
      (hs.sndres d hd)).goto hl
  | @kill t x pid ok ht hpid =>
    have hl := hs.xfers t
    rw [ht] at hl
    cases ok with
    | true => exact (hs.signal pid true).goto hl
    | false => exact hs.goto trivial
  | @takeRes t d x q rest hd ht hq =>
    have hl := hs.xfers t
    rw [ht] at hl
    have hall := hs.sndres d hd
    rw [hq] at hall
    refine (hs.setDev (d := { d with sndres := rest }) (hs.bmp d · hd)
      fun q' hq' => hall q' (List.mem_cons_of_mem _ hq')).goto ?_
    have hfetched := hall q List.mem_cons_self
    by_cases hmine : q = x.req
    · rw [if_pos hmine]
      subst hmine
      exact ⟨hl, hfetched.block rfl⟩
    · rw [if_neg hmine]
      exact ⟨hl, hfetched⟩
  | @putBack t d x q hd ht =>
    have hl := hs.xfers t
    rw [ht] at hl
    refine (hs.setDev (d := { d with sndres := d.sndres ++ [q] }) (hs.bmp d · hd)
      fun q' hq' => ?_).goto (l := .wait x) hl.1
    rcases List.mem_append.mp hq' with hq' | hq'
    · exact hs.sndres d hd q' hq'
    · rw [List.mem_singleton.mp hq']
      exact hl.2
  | @mark t d b x w r e2 err hd hb ht h =>
    obtain ⟨hfits, hevery⟩ := hs.bmp d b hd hb
    have hm := hn d b x hd hb ht
    have hl := hs.xfers t
    rw [ht] at hl
    refine (hs.setDev (d := { d with bmp := some _ }) (fun b' hb' => ?_) (hs.sndres d hd)).goto ?_
    · obtain rfl := Option.some.inj hb'
      exact mark_sound hfits hevery hm hl.2
    · by_cases herr : err ≠ 0
      · rw [if_pos herr]
        trivial
      · rw [if_neg herr]
        exact hl.1.next hl.2
  | @serve t x ht hsz =>
    have hl := hs.xfers t
    rw [ht] at hl
    have hg := hs.goto (t := t) (l := .idle) trivial
    refine ⟨hg.disk, hg.bmp, hg.sndres, hg.xfers, hg.helpers, fun v hv hc => ?_⟩
    rcases List.mem_append.mp hv with hv | hv
    · exact hs.served v hv hc
    · obtain rfl := List.mem_singleton.mp hv
      exact hl.right hsz hc
  | interrupt ht => exact hs.goto trivial
  | @ready p d hd hh =>
    exact (hs.setDev (d := { d with ready := d.ready ++ [p] }) (hs.bmp d · hd)
      (hs.sndres d hd)).become fun q hq => nomatch hq
  | wake hh hp => exact (hs.signal _ _).become fun q hq => nomatch hq
  | @rcvreq p d q rest hd hh hq =>
    exact (hs.setDev (d := { d with rcvreq := rest }) (hs.bmp d · hd)
      (hs.sndres d hd)).become fun q hq => nomatch hq
  | @rcvreqFault p d q rest hd hh hq =>
    exact (hs.setDev (d := { d with rcvreq := rest ++ [q] }) (hs.bmp d · hd)
      (hs.sndres d hd)).become fun q hq => nomatch hq
  | @store p q hh hcan =>
    refine (hs.grow fun i hi => hi.store).become fun q' hq' => ?_
    obtain rfl := Helper.stored.inj hq'
    exact store_fetched
  | @storeFailed p q copied hh hcan =>
    refine (hs.grow (c := if copied then _ else s.cache) fun i hi => ?_).become
      fun q hq => nomatch hq
    cases copied with
    | true => exact hi.store
    | false => exact hi
  | @sndres p d q hd hh =>
    refine (hs.setDev (d := { d with sndres := d.sndres ++ [q] }) (hs.bmp d · hd)
      fun q' hq' => ?_).become fun q hq => nomatch hq
    rcases List.mem_append.mp hq' with hq' | hq'
    · exact hs.sndres d hd q' hq'
    · rw [List.mem_singleton.mp hq']
      exact hs.helpers p q hh
  | exit => exact hs.become fun q hq => nomatch hq
  | @release d w hd ht =>
    refine ⟨fun i hi => ?_, fun d' b hd' => (nomatch hd'), fun d' hd' => (nomatch hd'), hs.xfers,
      hs.helpers, hs.served⟩
    cases hb : d.bmp with
    | none =>
      rw [hb] at hi
      exact hs.disk i hi
    | some b =>
      -- the file, after some of the page in memory was written to it
      rw [hb] at hi
      obtain ⟨-, hevery⟩ := hs.bmp d b hd hb
      obtain ⟨n, hn, hfile⟩ : ∃ n ≤ pageSize, uloopRelease b w = (b.table.store pageSize n).file := by
        rcases uloWrite_cases b.bmp b.bmpbuf pageSize (b.bmpidx * pageSize) w with
          ⟨-, -, hf⟩ | ⟨-, -, n, hn, hf⟩
        · exact ⟨_, Nat.le_refl _, hf⟩
        · exact ⟨n, hn, hf⟩
      refine bitsSay_iff.mp (hevery.store hn).file i ?_
      rw [← hfile]
      exact hi
  | init hd hsz =>
    refine ⟨hs.disk, fun d' b hd' hb' => ?_, fun d' hd' q hq => ?_, hs.xfers, hs.helpers, hs.served⟩
    · obtain rfl := Option.some.inj hd'
      exact nomatch hb'
    · obtain rfl := Option.some.inj hd'
      exact nomatch hq
  | @setbmp d arg hd hfile =>
    exact hs.setDev (d := { d with bmp := _ }) (setbmp_sound (hs.bmp d · hd) hs.disk hfile)
      (hs.sndres d hd)

/-- Nobody has begun: no device, every bit of the bitmap file that of a block in the cache (a new file has
    none set). -/
structure Start (target : File) (s : World τ η) : Prop where
  dev : s.dev = none
  disk : ∀ i, bitAt s.disk.data i = true → Block target s.cache i
  xfers : ∀ t, s.xfers t = .idle
  helpers : ∀ h, s.helpers h = .idle
  served : s.served = []

omit [DecidableEq τ] [DecidableEq η] in
theorem Start.sound (h : Start target s) : Sound target s where
  disk := h.disk
  bmp := fun d b hd => by rw [h.dev] at hd; exact nomatch hd
  sndres := fun d hd => by rw [h.dev] at hd; exact nomatch hd
  xfers := fun t => by rw [h.xfers]; trivial
  helpers := fun p q hq => by rw [h.helpers] at hq; exact nomatch hq
  served := fun v hv => by rw [h.served] at hv; exact nomatch hv

/-- **What is served is the device.**  In every run in which no switch of the bitmap's pages misreads, every
    read that came to its end has delivered the bytes of the device that is cached, if the pages it stepped
    over were those of its request. -/
theorem served_target {s0 : World τ η} {es : List (Ev τ η)} (h0 : Start target s0)
    (h : Run (Guarded (UloStep target) NoMisread) s0 es s) :
    ∀ v ∈ s.served, Covers v.start v.size →
      ∀ k < v.size, v.start + k < target.size → v.data k = target.data (v.start + k) :=
  (h.inv h0.sound fun _ _ _ hs he => step_sound hs he.1 he.2).served

end Step

/-- A device set up for a new bitmap, and a read that misses its block, sends for it, and is served. -/
theorem served_run : ∃ es s, Run (Guarded (UloStep oneBlock) NoMisread) (smallWorld none) es s ∧
    ∃ v, s.served = [v] ∧ v.start = 0 ∧ v.size = 512 := by
  have a0 : Run (Guarded (UloStep oneBlock) NoMisread) (smallWorld none) [] _ := .nil
  have a1 := a0.go (e := .init) (.init rfl rfl) (by trivial)
  have a2 := a1.go (e := .setbmp ⟨true, some (zeroPage, true), 4096, true, .done 4096⟩)
    (.setbmp rfl fun f rw hf => (congrArg Prod.fst (Option.some.inj hf)).symm) (by trivial)
  have h1 := a2.go (e := .start () 0 512) (.start rfl rfl rfl) (by trivial)
  have h2 := h1.go (e := .test () (.fail 0) (.fail 0) (.fail 0)) (.test rfl rfl rfl (by decide) rfl) (by
    intro d b x hd hb hx hm
    obtain rfl := Option.some.inj hd
    obtain rfl := Option.some.inj hb
    obtain rfl := Loc.test.inj hx
    exact hm.1 rfl)
  have h3 := h2.go (e := .ready ()) (.ready rfl rfl) (by trivial)
  have h4 := h3.go (e := .take ()) (.take rfl rfl rfl) (by trivial)
  have h5 := h4.go (e := .post ()) (.post rfl rfl) (by trivial)
  have h6 := h5.go (e := .kill () true)
    (.kill rfl fun _ => show Helper.waiting ≠ .exited from fun h => nomatch h) (by trivial)
  have h7 := h6.go (e := .wake ()) (.wake rfl rfl) (by trivial)
  have h8 := h7.go (e := .rcvreq ()) (.rcvreq rfl rfl rfl) (by trivial)
  have h9 := h8.go (e := .store ()) (.store rfl ⟨by decide, by decide, by decide⟩) (by trivial)
  have h10 := h9.go (e := .sndres ()) (.sndres rfl rfl) (by trivial)
  have h11 := h10.go (e := .takeRes ()) (.takeRes rfl rfl rfl) (by trivial)
  have h12 := h11.go (e := .mark () (.fail 0) (.fail 0) (.fail 0)) (.mark rfl rfl rfl rfl) (by
    intro d b x hd hb hx hm
    obtain rfl := Option.some.inj hd
    obtain rfl := Option.some.inj hb
    obtain rfl := Loc.mark.inj hx
    exact hm.1 rfl)
  have h13 := h12.go (e := .serve ()) (.serve rfl rfl) (by trivial)
  exact ⟨_, _, h13, _, rfl, rfl, rfl⟩

theorem smallWorld_start : Start oneBlock (smallWorld none) where
  dev := rfl
  disk := by
    intro i hi
    have hzero : bitAt (fun _ => 0) i = true := hi
    rw [bitAt_zero] at hzero
    exact nomatch hzero
  xfers := fun _ => rfl
  helpers := fun _ => rfl
  served := rfl

theorem served_target_small : ∃ (s : World Unit Unit) (v : Served), s.served = [v] ∧
    v.start = 0 ∧ ∀ k < 512, v.data k = oneBlock.data k := by
  obtain ⟨es, s, hrun, v, hserved, hstart, hsize⟩ := served_run
  refine ⟨s, v, hserved, hstart, fun k hk => ?_⟩
  have h := served_target smallWorld_start hrun v (by rw [hserved]; exact List.mem_singleton_self v)
  rw [hstart, hsize] at h
  have hcovers : Covers 0 512 := show 0 % 4096 + 512 ≤ (512 + (4096 - 1)) / 4096 * 4096 by decide
  have hk' := h hcovers k hk (show 0 + k < 4096 by omega)
  rwa [Nat.zero_add] at hk'

end KernelPatches.Uloop
