/-
  `au_copy_file` (misc.c): the copy-up of a file, block by block, blocks of zeros left as holes.

  The answers of the lower file systems are a list, as for the xino files: a request the list has no
  answer for succeeds in full.

  * a read is asked again after `-EAGAIN`, `-EINTR` and zero.  At the end of the file it is asked for
    ever, which is a result `none` here (`copyRead`);
  * a write is asked again after `-EAGAIN`, `-EINTR` and for the bytes left.  After another error the
    block is left, and nothing is reported (`copyWrite`);
  * after a hole at the end one more byte is written and the size set to the position behind IT.

  * `auCopyFile_data` — where no transfer fails, a copy that succeeds has the bytes of the source.
-/
import KernelPatches.Aufs.Xino

namespace KernelPatches.Aufs

open KernelPatches.Lib

/-! ## The copy -/

/-- A file that is written and the position in it. -/
structure Dst where
  file : File
  pos : Nat

/-- `n` bytes of the buffer, from its byte `p` on, at the position. -/
def Dst.put (d : Dst) (buf : Nat → UInt8) (p n : Nat) : Dst :=
  ⟨d.file.write d.pos n fun i => buf (p + i), d.pos + n⟩

/-- `while (!rbytes || err == -EAGAIN || err == -EINTR)` -/
def copyRead (src : File) (pos sz : Nat) : List Int → Option (Int × List Int)
  | [] =>
    let rbytes := min sz (src.size - pos)
    if rbytes = 0 then none else some (rbytes, [])
  | r :: io =>
    let rbytes := min r (min sz (src.size - pos) : Nat)
    if rbytes = 0 ∨ rbytes = -EAGAIN ∨ rbytes = -EINTR then copyRead src pos sz io
    else some (rbytes, io)

/-- `while (wbytes)`.  An error ends it, with the position behind what was written. -/
def copyWrite (buf : Nat → UInt8) (p wbytes : Nat) (d : Dst) : List Int → Dst × List Int
  | [] => (d.put buf p wbytes, [])
  | r :: io =>
    if wbytes = 0 then (d, r :: io)
    else if r = -EAGAIN ∨ r = -EINTR then copyWrite buf p wbytes d io
    else if r < 0 then (d, io)
    else
      let b := min r.toNat wbytes
      copyWrite buf (p + b) (wbytes - b) (d.put buf p b) io

/-- `vfsub_llseek(dst, rbytes, SEEK_CUR)`, which is not asked again. -/
def copySeek (n : Nat) (d : Dst) : List Int → Int × Dst × List Int
  | [] => (0, ⟨d.file, d.pos + n⟩, [])
  | r :: io => if r < 0 then (r, d, io) else (0, ⟨d.file, d.pos + n⟩, io)

/-- `!memcmp(buf, zp, n)` -/
def isZero (buf : Nat → UInt8) (n : Nat) : Bool := (List.range n).all fun i => buf i == 0

/-- Where the copy is. -/
structure Copy where
  srcPos : Nat
  dst : Dst
  allZero : Bool
  io : List Int

/-- `while (len)`.  A round copies a byte at least, so `len` rounds are enough. -/
def copyLoop (src : File) (blksize : Nat) : Nat → Nat → Copy → Option (Int × Copy)
  | 0, len, c => if len = 0 then some (0, c) else none
  | fuel + 1, len, c =>
    if len = 0 then some (0, c)
    else
      match copyRead src c.srcPos (min blksize len) c.io with
      | none => none
      | some (rbytes, io) =>
        if rbytes < 0 then some (rbytes, { c with io := io })
        else
          let n := rbytes.toNat
          let buf := fun i => src.data (c.srcPos + i)
          let allZero := decide (n ≤ len ∧ n = blksize) && isZero buf n
          if allZero then
            let k := copySeek n c.dst io
            if k.1 < 0 then some (k.1, ⟨c.srcPos + n, k.2.1, allZero, k.2.2⟩)
            else copyLoop src blksize fuel (len - n) ⟨c.srcPos + n, k.2.1, allZero, k.2.2⟩
          else
            let w := copyWrite buf 0 n c.dst io
            copyLoop src blksize fuel (len - n) ⟨c.srcPos + n, w.1, allZero, w.2⟩

/-- The last block may be a hole. -/
def copyLastHole (c : Copy) : Int × File × List Int :=
  let w := answer 1 c.io
  let d := c.dst.put (fun _ => 0) 0 w.1.toNat
  if w.1 = 1 then
    let t := answer 0 w.2
    (t.1, if t.1 = 0 then d.file.truncate d.pos else d.file, t.2)
  else (w.1, d.file, w.2)

/-- `au_copy_file` into a file just created: the error and the file.  `sBlocksize` is that of the file
    system it was created on. -/
def auCopyFile (src : File) (len sBlocksize : Nat) (io : List Int) : Option (Int × File × List Int) :=
  let zp := answer 0 io
  if zp.1 < 0 then some (negENOMEM, .empty, zp.2)
  else
    let blksize := if sBlocksize = 0 ∨ pageSize < sBlocksize then pageSize else sBlocksize
    let buf := answer 0 zp.2
    if buf.1 < 0 then some (negENOMEM, .empty, buf.2)
    else
      match copyLoop src blksize len len ⟨0, ⟨.empty, 0⟩, false, buf.2⟩ with
      | none => none
      | some (err, c) =>
        some (if err = 0 ∧ c.allZero then copyLastHole c else (err, c.dst.file, c.io))

/-! ## Where no transfer fails -/

/-- No request is answered with an error, those asked again apart. -/
def Unfailing (io : List Int) : Prop := ∀ r ∈ io, 0 ≤ r ∨ r = -EAGAIN ∨ r = -EINTR

theorem unfailing_nil : Unfailing [] := fun _ h => absurd h List.not_mem_nil

theorem Unfailing.tail {r : Int} {io : List Int} (h : Unfailing (r :: io)) : Unfailing io :=
  fun r' hr' => h r' (List.mem_cons_of_mem r hr')

theorem answer_unfailing (n : Nat) : ∀ {io : List Int}, Unfailing io → Unfailing (answer n io).2 := by
  intro io
  induction io with
  | nil => intro h; exact h
  | cons r io ih =>
    intro h
    rw [answer]
    by_cases hr : r = -EAGAIN ∨ r = -EINTR
    · rw [if_pos hr]
      exact ih h.tail
    · rw [if_neg hr]
      exact h.tail

/-- A read that ends has read something. -/
theorem copyRead_ok {src : File} {pos sz : Nat} {rbytes : Int} {io' : List Int} :
    ∀ {io : List Int}, Unfailing io → copyRead src pos sz io = some (rbytes, io') →
      0 < rbytes ∧ rbytes.toNat ≤ sz ∧ pos + rbytes.toNat ≤ src.size ∧ Unfailing io' := by
  intro io
  induction io with
  | nil =>
    intro hun h
    rw [copyRead] at h
    by_cases h0 : min sz (src.size - pos) = 0
    · rw [if_pos h0] at h
      cases h
    rw [if_neg h0] at h
    cases h
    exact ⟨by omega, by omega, by omega, hun⟩
  | cons r io ih =>
    intro hun h
    rw [copyRead] at h
    obtain ⟨k, hk⟩ : ∃ k, k = min r (min sz (src.size - pos) : Nat) := ⟨_, rfl⟩
    rw [← hk] at h
    by_cases hagain : k = 0 ∨ k = -EAGAIN ∨ k = -EINTR
    · rw [if_pos hagain] at h
      exact ih hun.tail h
    rw [if_neg hagain] at h
    have hinj := Option.some.inj h
    have hk' : k = rbytes := congrArg Prod.fst hinj
    have hio' : io = io' := congrArg Prod.snd hinj
    have hr := hun r List.mem_cons_self
    rw [← hk', ← hio']
    have hpos : 0 < k := by
      simp only [EAGAIN, EINTR] at hr hagain
      omega
    exact ⟨hpos, by omega, by omega, hun.tail⟩

/-- The bytes left over are written where the first ones ended. -/
theorem Dst.put_put (d : Dst) (buf : Nat → UInt8) (p a b : Nat) :
    (d.put buf p a).put buf (p + a) b = d.put buf p (a + b) := by
  have hsrc : (fun i => buf (p + a + i)) = fun i => (fun j => buf (p + j)) (a + i) := by
    funext i
    rw [Nat.add_assoc]
  rw [Dst.put, Dst.put, Dst.put, hsrc]
  simp only [File.write_append, Nat.add_assoc]

/-- **A block is written** whole, by induction on the answers. -/
theorem copyWrite_ok {buf : Nat → UInt8} : ∀ {io : List Int} {p n : Nat} {d : Dst}, Unfailing io →
    (copyWrite buf p n d io).1 = d.put buf p n ∧ Unfailing (copyWrite buf p n d io).2 := by
  intro io
  induction io with
  | nil => intro p n d h; exact ⟨rfl, h⟩
  | cons r io ih =>
    intro p n d h
    rw [copyWrite]
    by_cases h0 : n = 0
    · rw [if_pos h0, h0]
      refine ⟨?_, h⟩
      rw [Dst.put, File.write_zero]
      rfl
    rw [if_neg h0]
    by_cases hagain : r = -EAGAIN ∨ r = -EINTR
    · rw [if_pos hagain]
      exact ih h.tail
    rw [if_neg hagain]
    have hr : ¬ r < 0 := by
      rcases h r List.mem_cons_self with hr | hr
      · omega
      · exact absurd hr hagain
    rw [if_neg hr]
    obtain ⟨hd, hio⟩ := @ih (p + min r.toNat n) (n - min r.toNat n) (d.put buf p (min r.toNat n)) h.tail
    refine ⟨hd.trans ?_, hio⟩
    rw [Dst.put_put, show min r.toNat n + (n - min r.toNat n) = n by omega]

theorem copySeek_ok {n : Nat} {d : Dst} {io : List Int} (hun : Unfailing io)
    (h : ¬ (copySeek n d io).1 < 0) :
    (copySeek n d io).2.1 = ⟨d.file, d.pos + n⟩ ∧ Unfailing (copySeek n d io).2.2 := by
  cases io with
  | nil => exact ⟨rfl, hun⟩
  | cons r io =>
    rw [copySeek] at h ⊢
    by_cases hr : r < 0
    · rw [if_pos hr] at h
      exact absurd hr h
    · rw [if_neg hr]
      exact ⟨rfl, hun.tail⟩

theorem isZero_iff {buf : Nat → UInt8} {n : Nat} : isZero buf n = true ↔ ∀ i < n, buf i = 0 := by
  rw [isZero, List.all_eq_true]
  constructor
  · intro h i hi
    exact eq_of_beq (h i (List.mem_range.mpr hi))
  · intro h i hi
    exact beq_iff_eq.mpr (h i (List.mem_range.mp hi))

/-- What is copied so far, holes included.  The file is not shorter unless it ends with a hole. -/
structure Copied (src : File) (c : Copy) : Prop where
  pos : c.dst.pos = c.srcPos
  data : ∀ i, c.dst.file.data i = if i < c.srcPos then src.data i else 0
  size : c.dst.file.size ≤ c.srcPos
  solid : c.allZero = false → c.dst.file.size = c.srcPos

section Copied

variable {src : File} {c : Copy}

/-- A block was written. -/
theorem Copied.write (h : Copied src c) {n : Nat} (hn : 0 < n) (io : List Int) :
    Copied src ⟨c.srcPos + n, c.dst.put (fun i => src.data (c.srcPos + i)) 0 n, false, io⟩ := by
  have hsize : (c.dst.put (fun i => src.data (c.srcPos + i)) 0 n).file.size = c.srcPos + n := by
    show (c.dst.file.write _ _ _).size = _
    rw [File.write_size (by omega), h.pos]
    have := h.size
    omega
  refine ⟨?_, fun i => ?_, Nat.le_of_eq hsize, fun _ => hsize⟩
  · show c.dst.pos + n = c.srcPos + n
    rw [h.pos]
  · show (c.dst.file.write c.dst.pos n fun i => src.data (c.srcPos + (0 + i))).data i
      = if i < c.srcPos + n then src.data i else 0
    rw [h.pos]
    by_cases hin : c.srcPos ≤ i ∧ i < c.srcPos + n
    · obtain ⟨k, rfl⟩ : ∃ k, i = c.srcPos + k := ⟨i - c.srcPos, by omega⟩
      rw [File.write_data_in _ _ (by omega), if_pos hin.2, Nat.zero_add]
    · rw [File.write_data_out _ _ (by omega), h.data]
      by_cases hlt : i < c.srcPos
      · rw [if_pos hlt, if_pos (by omega)]
      · rw [if_neg hlt, if_neg (by omega)]

/-- A block of zeros was skipped. -/
theorem Copied.seek (h : Copied src c) {n : Nat} (hz : ∀ i < n, src.data (c.srcPos + i) = 0)
    (io : List Int) : Copied src ⟨c.srcPos + n, ⟨c.dst.file, c.dst.pos + n⟩, true, io⟩ := by
  refine ⟨?_, fun i => ?_, ?_, fun hc => Bool.noConfusion hc⟩
  · show c.dst.pos + n = c.srcPos + n
    rw [h.pos]
  · show c.dst.file.data i = if i < c.srcPos + n then src.data i else 0
    rw [h.data]
    by_cases hlt : i < c.srcPos
    · rw [if_pos hlt, if_pos (by omega)]
    · rw [if_neg hlt]
      by_cases hin : i < c.srcPos + n
      · obtain ⟨k, rfl⟩ : ∃ k, i = c.srcPos + k := ⟨i - c.srcPos, by omega⟩
        rw [if_pos hin, hz k (by omega)]
      · rw [if_neg hin]
  · show c.dst.file.size ≤ c.srcPos + n
    have := h.size
    omega

/-- **The loop** copies `len` bytes, by induction on the rounds left. -/
theorem copyLoop_ok {blksize : Nat} : ∀ {fuel len : Nat} {c c' : Copy}, Copied src c →
    Unfailing c.io → copyLoop src blksize fuel len c = some (0, c') →
    Copied src c' ∧ c'.srcPos = c.srcPos + len ∧ Unfailing c'.io := by
  intro fuel
  induction fuel with
  | zero =>
    intro len c c' hc hun h
    rw [copyLoop] at h
    by_cases h0 : len = 0
    · rw [if_pos h0] at h
      cases h
      exact ⟨hc, by omega, hun⟩
    · rw [if_neg h0] at h
      cases h
  | succ fuel ih =>
    intro len c c' hc hun h
    rw [copyLoop] at h
    by_cases h0 : len = 0
    · rw [if_pos h0] at h
      cases h
      exact ⟨hc, by omega, hun⟩
    rw [if_neg h0] at h
    cases hread : copyRead src c.srcPos (min blksize len) c.io with
    | none =>
      rw [hread] at h
      cases h
    | some r =>
      obtain ⟨rbytes, io⟩ := r
      obtain ⟨hpos, hle, -, hun'⟩ := copyRead_ok hun hread
      rw [hread] at h
      simp only [if_neg (show ¬ rbytes < 0 by omega)] at h
      have hlen : c.srcPos + len = c.srcPos + rbytes.toNat + (len - rbytes.toNat) := by omega
      rw [hlen]
      by_cases hz : (decide (rbytes.toNat ≤ len ∧ rbytes.toNat = blksize)
          && isZero (fun i => src.data (c.srcPos + i)) rbytes.toNat) = true
      · rw [if_pos hz] at h
        rw [hz] at h
        have hzero : ∀ i < rbytes.toNat, src.data (c.srcPos + i) = 0 :=
          isZero_iff.mp (Bool.and_eq_true_iff.mp hz).2
        by_cases hk : (copySeek rbytes.toNat c.dst io).1 < 0
        · rw [if_pos hk] at h
          have herr : (copySeek rbytes.toNat c.dst io).1 = 0 := congrArg Prod.fst (Option.some.inj h)
          omega
        rw [if_neg hk] at h
        obtain ⟨hd, hun''⟩ := copySeek_ok hun' hk
        rw [hd] at h
        exact ih (hc.seek hzero _) hun'' h
      · rw [if_neg hz] at h
        obtain ⟨hd, hun''⟩ := @copyWrite_ok (fun i => src.data (c.srcPos + i)) io 0 rbytes.toNat c.dst hun'
        rw [hd, Bool.eq_false_iff.mpr hz] at h
        exact ih (hc.write (by omega) _) hun'' h

/-- The byte behind a last hole is zero, as if it were not there. -/
theorem copyLastHole_data (h : Copied src c) (hz : (copyLastHole c).1 = 0) (i : Nat) :
    (copyLastHole c).2.1.data i = if i < c.srcPos then src.data i else 0 := by
  have hput : ∀ n, (c.dst.put (fun _ => 0) 0 n).file.data i = if i < c.srcPos then src.data i else 0 := by
    intro n
    show (if c.dst.pos ≤ i ∧ i < c.dst.pos + n then (0 : UInt8) else c.dst.file.data i) = _
    by_cases hin : c.dst.pos ≤ i ∧ i < c.dst.pos + n
    · rw [if_pos hin, if_neg (by rw [← h.pos]; omega)]
    · rw [if_neg hin, h.data]
  rw [copyLastHole] at hz ⊢
  by_cases hone : (answer 1 c.io).1 = 1
  · rw [if_pos hone] at hz ⊢
    simp only [if_pos hz]
    show (if i < c.dst.pos + (answer 1 c.io).1.toNat
      then (c.dst.put (fun _ => 0) 0 (answer 1 c.io).1.toNat).file.data i else 0) = _
    rw [hput]
    by_cases hlt : i < c.dst.pos + (answer 1 c.io).1.toNat
    · rw [if_pos hlt]
    · rw [if_neg hlt, if_neg]
      rw [← h.pos]
      omega
  · rw [if_neg hone]
    exact hput _

end Copied

/-- **A copy that succeeds**, no transfer having failed, has the bytes of the source. -/
theorem auCopyFile_data {src file : File} {len sBlocksize : Nat} {io io' : List Int}
    (hun : Unfailing io) (h : auCopyFile src len sBlocksize io = some (0, file, io')) (i : Nat) :
    file.data i = if i < len then src.data i else 0 := by
  rw [auCopyFile] at h
  by_cases hzp : (answer 0 io).1 < 0
  · rw [if_pos hzp] at h
    have herr : (negENOMEM : Int) = 0 := congrArg Prod.fst (Option.some.inj h)
    exact absurd herr (by decide)
  rw [if_neg hzp] at h
  obtain ⟨blk, hblk⟩ : ∃ blk, blk
    = if sBlocksize = 0 ∨ pageSize < sBlocksize then pageSize else sBlocksize := ⟨_, rfl⟩
  rw [← hblk] at h
  by_cases hbuf : (answer 0 (answer 0 io).2).1 < 0
  · simp only [if_pos hbuf] at h
    have herr : (negENOMEM : Int) = 0 := congrArg Prod.fst (Option.some.inj h)
    exact absurd herr (by decide)
  simp only [if_neg hbuf] at h
  have hun' : Unfailing (answer 0 (answer 0 io).2).2 := answer_unfailing 0 (answer_unfailing 0 hun)
  have hstart : Copied src ⟨0, ⟨.empty, 0⟩, false, (answer 0 (answer 0 io).2).2⟩ :=
    ⟨rfl, fun _ => rfl, Nat.le_refl _, fun _ => rfl⟩
  cases hl : copyLoop src blk len len ⟨0, ⟨.empty, 0⟩, false, (answer 0 (answer 0 io).2).2⟩ with
  | none =>
    rw [hl] at h
    cases h
  | some r =>
    obtain ⟨err, c⟩ := r
    rw [hl] at h
    have hr := Option.some.inj h
    by_cases hhole : err = 0 ∧ c.allZero = true
    · rw [if_pos hhole] at hr
      rw [hhole.1] at hl
      obtain ⟨hc, hpos, -⟩ := copyLoop_ok hstart hun' hl
      have hdata := copyLastHole_data hc (congrArg Prod.fst hr) i
      rw [hpos, Nat.zero_add, hr] at hdata
      exact hdata
    · rw [if_neg hhole] at hr
      rw [show err = 0 from congrArg Prod.fst hr] at hl
      obtain ⟨hc, hpos, -⟩ := copyLoop_ok hstart hun' hl
      have hdata := hc.data i
      rw [hpos, Nat.zero_add, show c.dst.file = file from congrArg (fun r => r.2.1) hr] at hdata
      exact hdata

/-- **The loop ends** where nothing fails and the bytes are there, by induction on the rounds left. -/
theorem copyLoop_nil {src : File} {blksize : Nat} (hblk : 0 < blksize) :
    ∀ {fuel len : Nat} {c : Copy}, c.io = [] → c.srcPos + len ≤ src.size → len ≤ fuel →
      ∃ c', copyLoop src blksize fuel len c = some (0, c') ∧ c'.io = [] := by
  intro fuel
  induction fuel with
  | zero =>
    intro len c hio _ hfuel
    refine ⟨c, ?_, hio⟩
    rw [copyLoop, if_pos (by omega)]
  | succ fuel ih =>
    intro len c hio hin hfuel
    rw [copyLoop]
    by_cases h0 : len = 0
    · exact ⟨c, by rw [if_pos h0], hio⟩
    obtain ⟨n, hn⟩ : ∃ n, n = min (min blksize len) (src.size - c.srcPos) := ⟨_, rfl⟩
    have hread : copyRead src c.srcPos (min blksize len) [] = some ((n : Int), []) := by
      rw [copyRead, ← hn, if_neg (by omega)]
    rw [if_neg h0, hio, hread]
    simp only [if_neg (show ¬ (n : Int) < 0 by omega), Int.toNat_natCast, copySeek, copyWrite,
      Int.lt_irrefl, if_false]
    split
    case isTrue => exact ih rfl (by show c.srcPos + n + (len - n) ≤ src.size; omega) (by omega)
    case isFalse => exact ih rfl (by show c.srcPos + n + (len - n) ≤ src.size; omega) (by omega)

/-- A copy of what is there succeeds where nothing fails. -/
theorem auCopyFile_nil (src : File) (sBlocksize : Nat) :
    ∃ file, auCopyFile src src.size sBlocksize [] = some (0, file, []) := by
  obtain ⟨blk, hblk⟩ : ∃ blk, blk
    = if sBlocksize = 0 ∨ pageSize < sBlocksize then pageSize else sBlocksize := ⟨_, rfl⟩
  have hpos : 0 < blk := by
    rw [hblk]
    split
    case isTrue => decide
    case isFalse h => omega
  obtain ⟨c, hc, hio⟩ := @copyLoop_nil src blk hpos src.size src.size ⟨0, ⟨.empty, 0⟩, false, []⟩ rfl
    (Nat.le_of_eq (Nat.zero_add _)) (Nat.le_refl _)
  have hzero : ¬ ((0 : Nat) : Int) < 0 := by decide
  rw [auCopyFile]
  simp only [answer, if_neg hzero, ← hblk, hc]
  by_cases hz : c.allZero = true
  · have hhole : ∃ file, copyLastHole c = (0, file, []) := by
      rw [copyLastHole, hio]
      exact ⟨_, rfl⟩
    obtain ⟨file, hfile⟩ := hhole
    exact ⟨file, by rw [if_pos ⟨trivial, hz⟩, hfile]⟩
  · exact ⟨c.dst.file, by rw [if_neg fun h => hz h.2, hio]⟩

end KernelPatches.Aufs
