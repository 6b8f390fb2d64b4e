/-
  `au_copy_file` (misc.c): whether the copy is exact, and whether it ends.

  A block of zeros is skipped by a seek, so a file may end with a hole.  Then ONE BYTE is written and the size
  is set to the position, which is behind that byte.

  The size comes right when the last block was written.  That is about the reads, and not only about the
  source: a block may be skipped when one read has brought a whole block of it, and after a short read the
  blocks are not where they were.

  * `copyReads`             — how much the reads of a copy bring;
  * `auCopyFile_exact_iff`  — a copy that returns zero has the size and the bytes asked for, unless the last
                              read brought a whole block of zeros;
  * `copy_ends_iff`         — the copy ends, whatever the answers are, when the source is long enough.
-/
import KernelPatches.Aufs.CopyFile

namespace KernelPatches.Aufs

open KernelPatches.Lib

/-- The size of a block. -/
def copyBlksize (sBlocksize : Nat) : Nat :=
  if sBlocksize = 0 ∨ pageSize < sBlocksize then pageSize else sBlocksize

theorem copyBlksize_pos (sBlocksize : Nat) : 0 < copyBlksize sBlocksize := by
  unfold copyBlksize
  split_ifs with h
  · decide
  · omega

/-! ## The reads -/

/-- The bytes each read brings that is not asked again, with `len` bytes to copy from `pos` on.  The seeks and
    writes between the reads take their answers. -/
def copyReads (src : File) (blksize : Nat) : Nat → Nat → Nat → List Int → List Nat
  | 0, _, _, _ => []
  | fuel + 1, len, pos, io =>
    if len = 0 then []
    else
      match copyRead src pos (min blksize len) io with
      | none => []
      | some (rbytes, io) =>
        if rbytes < 0 then []
        else
          let n := rbytes.toNat
          let buf := fun i => src.data (pos + i)
          let io :=
            if decide (n ≤ len ∧ n = blksize) && isZero buf n then (copySeek n ⟨.empty, 0⟩ io).2.2
            else (copyWrite buf 0 n ⟨.empty, 0⟩ io).2
          n :: copyReads src blksize fuel (len - n) (pos + n) io

/-- The last read brings a whole block, and these are zeros. -/
def EndsInHole (src : File) (len sBlocksize : Nat) (io : List Int) : Prop :=
  let blksize := copyBlksize sBlocksize
  -- the two allocations come before the reads
  (copyReads src blksize len len 0 (answer 0 (answer 0 io).2).2).getLast? = some blksize ∧
    ∀ i < blksize, src.data (len - blksize + i) = 0

section Reads

variable {src : File} {blksize : Nat}

/-- Which answers a write takes does not depend on the file. -/
theorem copyWrite_io {buf : Nat → UInt8} : ∀ {io : List Int} {p n : Nat} (d d' : Dst),
    (copyWrite buf p n d io).2 = (copyWrite buf p n d' io).2 := by
  intro io
  induction io with
  | nil => exact fun _ _ => rfl
  | cons r io ih =>
    intro p n d d'
    rw [copyWrite, copyWrite]
    split_ifs with h0 hagain hneg
    · rfl
    · exact ih d d'
    · rfl
    · exact ih _ _

theorem copySeek_io {n : Nat} (d d' : Dst) (io : List Int) :
    (copySeek n d io).2.2 = (copySeek n d' io).2.2 := by
  cases io with
  | nil => rfl
  | cons r io =>
    rw [copySeek, copySeek]
    split_ifs <;> rfl

/-- One round of a copy that succeeds: what is read, and how the copy and the reads go on. -/
theorem copyLoop_round {fuel len : Nat} {c c' : Copy} (hc : Copied src c) (hun : Unfailing c.io)
    (hlen : len ≠ 0) (h : copyLoop src blksize (fuel + 1) len c = some (0, c')) :
    ∃ n c₁, 0 < n ∧ n ≤ len ∧ c₁.srcPos = c.srcPos + n ∧ Copied src c₁ ∧ Unfailing c₁.io ∧
      (c₁.allZero = true ↔ n = blksize ∧ ∀ i < n, src.data (c.srcPos + i) = 0) ∧
      (c₁.allZero = true → c₁.dst.file.size < c₁.srcPos) ∧
      copyLoop src blksize fuel (len - n) c₁ = some (0, c') ∧
      copyReads src blksize (fuel + 1) len c.srcPos c.io
        = n :: copyReads src blksize fuel (len - n) c₁.srcPos c₁.io := by
  rw [copyLoop, if_neg hlen] at h
  rw [copyReads, if_neg hlen]
  cases hread : copyRead src c.srcPos (min blksize len) c.io with
  | none =>
    rw [hread] at h
    cases h
  | some r =>
    obtain ⟨rbytes, io⟩ := r
    obtain ⟨hpos, hle, -, hun'⟩ := copyRead_ok hun hread
    rw [hread] at h
    simp only [if_neg (show ¬ rbytes < 0 by omega)] at h ⊢
    by_cases hz : (decide (rbytes.toNat ≤ len ∧ rbytes.toNat = blksize)
        && isZero (fun i => src.data (c.srcPos + i)) rbytes.toNat) = true
    · -- skipped
      have hzero : ∀ i < rbytes.toNat, src.data (c.srcPos + i) = 0 :=
        isZero_iff.mp (Bool.and_eq_true_iff.mp hz).2
      have hwhole : rbytes.toNat = blksize := (of_decide_eq_true (Bool.and_eq_true_iff.mp hz).1).2
      rw [if_pos hz, hz] at h
      by_cases hk : (copySeek rbytes.toNat c.dst io).1 < 0
      · rw [if_pos hk] at h
        have herr : (copySeek rbytes.toNat c.dst io).1 = 0 := congrArg Prod.fst (Option.some.inj h)
        omega
      rw [if_neg hk] at h
      obtain ⟨hd, hun''⟩ := copySeek_ok hun' hk
      rw [hd] at h
      refine ⟨rbytes.toNat, _, by omega, by omega, rfl, hc.seek hzero _, hun'', ?_, fun _ => ?_, h, ?_⟩
      · exact iff_of_true rfl ⟨hwhole, hzero⟩
      · have hsize := hc.size
        show c.dst.file.size < c.srcPos + rbytes.toNat
        omega
      · rw [if_pos hz, copySeek_io _ c.dst]
    · -- written
      rw [if_neg hz] at h
      obtain ⟨hd, hun''⟩ := @copyWrite_ok (fun i => src.data (c.srcPos + i)) io 0 rbytes.toNat c.dst hun'
      rw [hd, Bool.eq_false_iff.mpr hz] at h
      refine ⟨rbytes.toNat, _, by omega, by omega, rfl, hc.write (by omega) _, hun'', ?_,
        fun hf => Bool.noConfusion hf, h, ?_⟩
      · refine iff_of_false Bool.noConfusion fun hno => hz ?_
        exact Bool.and_eq_true_iff.mpr ⟨decide_eq_true ⟨by omega, hno.1⟩, isZero_iff.mpr hno.2⟩
      · rw [if_neg hz, copyWrite_io _ c.dst]

/-- **The last block**, by induction on the rounds: it was skipped exactly when the last read brought a whole
    block of zeros, and then the file is too short. -/
theorem copyLoop_last : ∀ {fuel len : Nat} {c c' : Copy}, Copied src c → Unfailing c.io → len ≠ 0 →
    copyLoop src blksize fuel len c = some (0, c') →
    (c'.allZero = true → c'.dst.file.size < c'.srcPos) ∧
    (c'.allZero = true ↔ (copyReads src blksize fuel len c.srcPos c.io).getLast? = some blksize ∧
      ∀ i < blksize, src.data (c.srcPos + len - blksize + i) = 0) := by
  intro fuel
  induction fuel with
  | zero =>
    intro len c c' _ _ hlen h
    rw [copyLoop, if_neg hlen] at h
    cases h
  | succ fuel ih =>
    intro len c c' hc hun hlen h
    obtain ⟨n, c₁, hn, hnle, hpos, hc₁, hun₁, hzero, hshort, hrest, hreads⟩ := copyLoop_round hc hun hlen h
    rw [hreads]
    by_cases hleft : len - n = 0
    · -- the last round
      have hend : c' = c₁ := by
        cases fuel with
        | zero =>
          rw [copyLoop, if_pos hleft] at hrest
          exact (congrArg Prod.snd (Option.some.inj hrest)).symm
        | succ fuel =>
          rw [copyLoop, if_pos hleft] at hrest
          exact (congrArg Prod.snd (Option.some.inj hrest)).symm
      have hnil : copyReads src blksize fuel (len - n) c₁.srcPos c₁.io = [] := by
        cases fuel with
        | zero => rfl
        | succ fuel => rw [copyReads, if_pos hleft]
      rw [hend, hnil, hzero]
      refine ⟨fun h => hshort (hzero.mpr h), ?_⟩
      rw [List.getLast?_singleton, Option.some_inj]
      refine and_congr_right fun hnb => ?_
      rw [← hnb, show c.srcPos + len - n = c.srcPos by omega]
    · obtain ⟨hshort', hlast⟩ := ih hc₁ hun₁ hleft hrest
      refine ⟨hshort', hlast.trans ?_⟩
      have hne : copyReads src blksize fuel (len - n) c₁.srcPos c₁.io ≠ [] := by
        cases fuel with
        | zero =>
          rw [copyLoop, if_neg hleft] at hrest
          cases hrest
        | succ fuel =>
          obtain ⟨k, c₂, -, -, -, -, -, -, -, -, hk⟩ := copyLoop_round hc₁ hun₁ hleft hrest
          rw [hk]
          exact List.cons_ne_nil _ _
      rw [List.getLast?_cons, List.getLast?_eq_some_getLast hne,
        show c₁.srcPos + (len - n) = c.srcPos + len by omega]
      rfl

/-- A hole at the end is never left with the right size: the byte written behind it counts, or it is not
    written. -/
theorem copyLastHole_size {c : Copy} (hc : Copied src c) (hshort : c.dst.file.size < c.srcPos)
    (h : (copyLastHole c).1 = 0) : (copyLastHole c).2.1.size ≠ c.srcPos := by
  rw [copyLastHole] at h ⊢
  by_cases hone : (answer 1 c.io).1 = 1
  · rw [if_pos hone] at h ⊢
    simp only [if_pos h]
    show c.dst.pos + (answer 1 c.io).1.toNat ≠ c.srcPos
    rw [hone, hc.pos]
    exact Nat.succ_ne_self c.srcPos
  · rw [if_neg hone] at h ⊢
    dsimp only at h
    show (c.dst.file.write c.dst.pos (answer 1 c.io).1.toNat _).size ≠ c.srcPos
    rw [h, show (0 : Int).toNat = 0 from rfl, File.write_zero]
    exact Nat.ne_of_lt hshort

end Reads

/-- **When a copy that returns zero is exact**, no transfer having failed: unless the last read brought a whole
    block of zeros. -/
theorem auCopyFile_exact_iff {src file : File} {len sBlocksize : Nat} {io io' : List Int} (hun : Unfailing io)
    (h : auCopyFile src len sBlocksize io = some (0, file, io')) :
    (file.size = len ∧ ∀ i < len, file.data i = src.data i) ↔ ¬ EndsInHole src len sBlocksize io := by
  have hdata := auCopyFile_data hun h
  have hbytes : ∀ i < len, file.data i = src.data i := fun i hi => (hdata i).trans (if_pos hi)
  have hun' : Unfailing (answer 0 (answer 0 io).2).2 := answer_unfailing 0 (answer_unfailing 0 hun)
  refine (and_iff_left hbytes).trans ?_
  unfold EndsInHole
  dsimp only
  rw [auCopyFile] at h
  by_cases hzp : (answer 0 io).1 < 0
  · rw [if_pos hzp] at h
    have herr : (negENOMEM : Int) = 0 := congrArg Prod.fst (Option.some.inj h)
    exact absurd herr (by decide)
  rw [if_neg hzp] at h
  by_cases hbuf : (answer 0 (answer 0 io).2).1 < 0
  · simp only [if_pos hbuf] at h
    have herr : (negENOMEM : Int) = 0 := congrArg Prod.fst (Option.some.inj h)
    exact absurd herr (by decide)
  simp only [if_neg hbuf] at h
  obtain ⟨blk, hblk⟩ : ∃ blk, blk = copyBlksize sBlocksize := ⟨_, rfl⟩
  rw [show (if sBlocksize = 0 ∨ pageSize < sBlocksize then pageSize else sBlocksize) = blk from hblk.symm] at h
  rw [← hblk]
  obtain ⟨io₁, hio₁⟩ : ∃ io₁, io₁ = (answer 0 (answer 0 io).2).2 := ⟨_, rfl⟩
  rw [← hio₁] at h hun' ⊢
  have hstart : Copied src ⟨0, ⟨.empty, 0⟩, false, io₁⟩ := ⟨rfl, fun _ => rfl, Nat.le_refl _, fun _ => rfl⟩
  cases hl : copyLoop src blk len len ⟨0, ⟨.empty, 0⟩, false, io₁⟩ with
  | none =>
    rw [hl] at h
    cases h
  | some r =>
    obtain ⟨err, c⟩ := r
    rw [hl] at h
    have hr := Option.some.inj h
    have herr : err = 0 := by
      by_cases hhole : err = 0 ∧ c.allZero = true
      · exact hhole.1
      · rw [if_neg hhole] at hr
        exact congrArg Prod.fst hr
    rw [herr] at hl hr
    obtain ⟨hc, hpos, -⟩ := copyLoop_ok hstart hun' hl
    have hend : c.srcPos = len := hpos.trans (Nat.zero_add len)
    by_cases hlen : len = 0
    · -- nothing was read
      have hreads : copyReads src blk len len 0 io₁ = [] := by
        rw [hlen]
        rfl
      have hc0 : c = ⟨0, ⟨.empty, 0⟩, false, io₁⟩ := by
        rw [hlen, copyLoop, if_pos rfl] at hl
        exact (congrArg Prod.snd (Option.some.inj hl)).symm
      rw [hc0, if_neg (by simp)] at hr
      have hfile : File.empty = file := congrArg (fun r => r.2.1) hr
      rw [hreads, ← hfile]
      refine iff_of_true hlen.symm fun hlast => ?_
      cases hlast.1
    obtain ⟨hshort, hlast⟩ := copyLoop_last hstart hun' hlen hl
    simp only [Nat.zero_add] at hlast
    rw [← hlast]
    by_cases hz : c.allZero = true
    · rw [if_pos ⟨rfl, hz⟩] at hr
      refine iff_of_false ?_ fun hno => hno hz
      have hsize := copyLastHole_size hc (hshort hz) (congrArg Prod.fst hr)
      rw [hr, hend] at hsize
      exact hsize
    · rw [if_neg fun hhole => hz hhole.2] at hr
      have hfile : c.dst.file = file := congrArg (fun r => r.2.1) hr
      refine iff_of_true ?_ hz
      rw [← hfile, hc.solid (Bool.eq_false_iff.mpr hz), hend]

/-- A file of zeros. -/
def zeroFile (size : Nat) : File := ⟨size, fun _ => 0, fun _ _ => rfl⟩

theorem auCopyFile_exact_iff_zeros : ∃ file, auCopyFile (zeroFile pageSize) pageSize pageSize [] = some (0, file, []) ∧
    ((file.size = pageSize ∧ ∀ i < pageSize, file.data i = (zeroFile pageSize).data i) ↔
      ¬ EndsInHole (zeroFile pageSize) pageSize pageSize []) := by
  obtain ⟨file, hfile⟩ := auCopyFile_nil (zeroFile pageSize) pageSize
  exact ⟨file, hfile, auCopyFile_exact_iff unfailing_nil hfile⟩

/-- Not always: of one block of zeros, of one byte, the copy has two. -/
theorem zero_block_longer : ¬ ∀ (src file : File) (len sBlocksize : Nat) (io io' : List Int), Unfailing io →
    auCopyFile src len sBlocksize io = some (0, file, io') →
      file.size = len ∧ ∀ i < len, file.data i = src.data i := by
  intro hall
  have hcopy : ∃ file, auCopyFile (zeroFile 1) 1 1 [] = some (0, file, []) ∧ file.size = 2 := ⟨_, rfl, rfl⟩
  obtain ⟨file, hfile, hsize⟩ := hcopy
  have hone := (hall (zeroFile 1) file 1 1 [] [] unfailing_nil hfile).1
  rw [hsize] at hone
  exact absurd hone (by decide)

/-! ## The end of the source -/

section Ends

variable {src : File} {blksize : Nat}

/-- A read before the end of the source comes back, with an error or some bytes, by induction on the answers. -/
theorem copyRead_returns {pos sz : Nat} (hpos : pos < src.size) (hsz : 0 < sz) : ∀ io : List Int,
    ∃ rbytes io', copyRead src pos sz io = some (rbytes, io') ∧ rbytes ≠ 0 ∧ pos + rbytes.toNat ≤ src.size := by
  intro io
  induction io with
  | nil =>
    refine ⟨(min sz (src.size - pos) : Nat), [], ?_, by omega, by omega⟩
    rw [copyRead, if_neg (by omega)]
  | cons r io ih =>
    rw [copyRead]
    obtain ⟨k, hk⟩ : ∃ k, k = min r (min sz (src.size - pos) : Nat) := ⟨_, rfl⟩
    rw [← hk]
    by_cases hagain : k = 0 ∨ k = -EAGAIN ∨ k = -EINTR
    · rw [if_pos hagain]
      exact ih
    · rw [if_neg hagain]
      exact ⟨k, io, rfl, fun h0 => hagain (Or.inl h0), by omega⟩

/-- **The loop ends** when the source has what is to be copied, by induction on the rounds. -/
theorem copyLoop_returns (hblk : 0 < blksize) : ∀ {fuel len : Nat} {c : Copy}, c.srcPos + len ≤ src.size →
    len ≤ fuel → (copyLoop src blksize fuel len c).isSome = true := by
  intro fuel
  induction fuel with
  | zero =>
    intro len c _ hfuel
    rw [copyLoop, if_pos (by omega)]
    rfl
  | succ fuel ih =>
    intro len c hin hfuel
    rw [copyLoop]
    by_cases h0 : len = 0
    · rw [if_pos h0]
      rfl
    rw [if_neg h0]
    obtain ⟨rbytes, io', hread, hne, hend⟩ :=
      @copyRead_returns src c.srcPos (min blksize len) (by omega) (by omega) c.io
    rw [hread]
    dsimp only
    by_cases hneg : rbytes < 0
    · rw [if_pos hneg]
      rfl
    rw [if_neg hneg]
    -- a byte at least is behind the round
    have hfuel' : len - rbytes.toNat ≤ fuel := by omega
    have hin' : c.srcPos + rbytes.toNat + (len - rbytes.toNat) ≤ src.size := by omega
    split_ifs
    · rfl
    · exact ih hin' hfuel'
    · exact ih hin' hfuel'

/-- **The loop does not end** when the source is shorter and nothing fails: the read at its end is asked again
    for ever. -/
theorem copyLoop_stuck : ∀ {fuel len : Nat} {c : Copy}, c.io = [] → c.srcPos ≤ src.size →
    src.size < c.srcPos + len → copyLoop src blksize fuel len c = none := by
  intro fuel
  induction fuel with
  | zero =>
    intro len c _ hle hlt
    rw [copyLoop, if_neg (by omega)]
  | succ fuel ih =>
    intro len c hio hle hlt
    rw [copyLoop, if_neg (by omega), hio, copyRead]
    by_cases hend : min (min blksize len) (src.size - c.srcPos) = 0
    · rw [if_pos hend]
    rw [if_neg hend]
    dsimp only
    rw [if_neg (by omega), Int.toNat_natCast]
    have hin : ∀ n, n = min (min blksize len) (src.size - c.srcPos) →
        c.srcPos + n ≤ src.size ∧ src.size < c.srcPos + n + (len - n) := fun n hn => by omega
    obtain ⟨hle', hlt'⟩ := hin _ rfl
    split_ifs with hz hneg
    · exact absurd hneg (Int.lt_irrefl 0)
    · exact ih rfl hle' hlt'
    · exact ih rfl hle' hlt'

end Ends

/-- **When a copy ends**, whatever is answered, EAGAIN and EINTR a finite number of times: exactly when the
    source is not shorter than what is to be copied. -/
theorem copy_ends_iff (src : File) (len sBlocksize : Nat) :
    (∀ io, (auCopyFile src len sBlocksize io).isSome = true) ↔ len ≤ src.size := by
  obtain ⟨blk, hblk⟩ : ∃ blk, blk = copyBlksize sBlocksize := ⟨_, rfl⟩
  have hsize : (if sBlocksize = 0 ∨ pageSize < sBlocksize then pageSize else sBlocksize) = blk := hblk.symm
  constructor
  · intro hall
    by_contra hshort
    have hstuck : copyLoop src blk len len ⟨0, ⟨.empty, 0⟩, false, []⟩ = none :=
      copyLoop_stuck rfl (Nat.zero_le _) (by show src.size < 0 + len; omega)
    have hnone : auCopyFile src len sBlocksize [] = none := by
      unfold auCopyFile
      rw [hsize]
      simp only [answer, if_neg (show ¬ ((0 : Nat) : Int) < 0 by decide), hstuck]
    have hsome := hall []
    rw [hnone] at hsome
    exact Bool.noConfusion hsome
  · intro hle io
    rw [auCopyFile]
    by_cases hzp : (answer 0 io).1 < 0
    · rw [if_pos hzp]
      rfl
    rw [if_neg hzp]
    by_cases hbuf : (answer 0 (answer 0 io).2).1 < 0
    · simp only [if_pos hbuf]
      rfl
    simp only [if_neg hbuf]
    rw [hsize]
    have hloop : (copyLoop src blk len len ⟨0, ⟨.empty, 0⟩, false, (answer 0 (answer 0 io).2).2⟩).isSome = true :=
      copyLoop_returns (by rw [hblk]; exact copyBlksize_pos sBlocksize) (by show 0 + len ≤ src.size; omega)
        (Nat.le_refl len)
    obtain ⟨r, hr⟩ := Option.isSome_iff_exists.mp hloop
    rw [hr]
    rfl

/-- Not always: one byte is asked of an empty file. -/
theorem copy_past_end : ¬ ∀ (src : File) (len sBlocksize : Nat) (io : List Int),
    (auCopyFile src len sBlocksize io).isSome = true := by
  intro hall
  have hsome := hall .empty 1 1 []
  have hnone : auCopyFile .empty 1 1 [] = none := rfl
  rw [hnone] at hsome
  exact Bool.noConfusion hsome

end KernelPatches.Aufs
