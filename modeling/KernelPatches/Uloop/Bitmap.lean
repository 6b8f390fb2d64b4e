/-
  uloop: the bitmap of the blocks that are there.

  The driver serves a loop device from a cache file that a user process fills block by block (a block is
  a page).  A bitmap file says which blocks are in the cache; the driver keeps one page of it in memory
  (`bmpbuf`, page `bmpidx`) and switches pages with `ulo_bmp_pindex`.

  * `uloBmpPindex` — write the page in memory back, read page `pindex`; if that read fails, "restore";
  * `testBlock`, `setBlock` — what `uloop_xfer` and `ulo_xfer_end` do with the bitmap, under `bmpmtx`;
  * `uloCtlSetbmp`, `uloopRelease` — take a bitmap file into use, and let it go;
  * `uloInit`      — the sizes the user library gives to the cache and to the bitmap.

  What is written back may come short, what is read too, and either may fail: the answers of the file
  system are arguments (`Vfs`).  `BUG_ON` is an outcome of its own.

  The "restore" reads the page before `pindex`, wherever the driver came from: `Misread` says when it is
  the wrong page.  Every other switch keeps the bitmap, be it complete or not (`Switch.kept`).
-/
import KernelPatches.Arch
import KernelPatches.Lib.Paged

namespace KernelPatches.Uloop

open KernelPatches.Lib

/-! ## Reading and writing files -/

def EIO : Int := 5
def EBADF : Int := 9
def ENOMEM : Int := 12
def EFAULT : Int := 14
def EBUSY : Int := 16
def EINVAL : Int := 22

/-- What the file system answers to a read or a write: the bytes it moved, or an error. -/
inductive Vfs where
  | done (n : Nat)
  | fail (e : Nat)
  deriving DecidableEq, Repr

/-- All of the `sz` bytes asked for are moved, as far as the file has them. -/
def Vfs.full (sz : Nat) : Vfs → Bool
  | .done n => sz ≤ n
  | .fail _ => false

/-- How a function of the driver ends: with its value, or at a `BUG_ON`. -/
inductive Outcome where
  | done (err : Int)
  | bug
  deriving DecidableEq, Repr

/-- `vfs_write`: the bytes written, and the file. -/
def vfsWrite (file : File) (buf : Nat → UInt8) (sz pos : Nat) : Vfs → Int × File
  | .done n => ((min n sz : Nat), file.write pos (min n sz) buf)
  | .fail e => (Int.negSucc e, file)

/-- `kernel_read`: the bytes read, and the buffer.  A read ends at the end of the file. -/
def kernelRead (file : File) (pos : Nat) (buf : Nat → UInt8) (sz : Nat) : Vfs → Int × (Nat → UInt8)
  | .done n =>
    ((min n (min sz (file.size - pos)) : Nat),
      fun k => if k < min n (min sz (file.size - pos)) then file.data (pos + k) else buf k)
  | .fail e => (Int.negSucc e, buf)

/-- `ulo_write` -/
def uloWrite (file : File) (buf : Nat → UInt8) (sz pos : Nat) (w : Vfs) : Int × File :=
  let (ret, file) := vfsWrite file buf sz pos w
  if ret ≠ sz then
    -- `ret <= sz` compares without sign: an error is greater than any size
    if 0 ≤ ret ∧ ret ≤ sz then (- EIO, file) else (ret, file)
  else (0, file)

/-! ## The bitmap -/

/-- What `struct ulo_dev` keeps of the bitmap while it has one: `bmp`, `bmpidx`, `bmpbuf`, `bmpsz`. -/
structure Bmp where
  bmp : File
  bmpidx : Nat
  bmpbuf : Nat → UInt8
  bmpsz : Nat

/-- The bitmap as a table of pages. -/
def Bmp.table (d : Bmp) : Paged := ⟨d.bmp, d.bmpidx, d.bmpbuf⟩

/-- Bit `i` of the bitmap, read where the driver would read it. -/
def Bmp.bit (d : Bmp) (i : Nat) : Bool := bitAt (d.table.byte pageSize) i

/-- Bits to a page, `bmp_page_bytes` -/
def bmpPageBytes : Nat := pageSize * 8

@[simp] theorem bmpPageBytes_eq : bmpPageBytes = 32768 := rfl

/-- `ulo_bmp_pindex`, with the answers to its write, its read, and the read that restores. -/
def uloBmpPindex (d : Bmp) (pindex : Nat) (w r e2 : Vfs) : Outcome × Bmp :=
  if d.bmpidx = pindex then (.done 0, d)
  else if d.bmpsz / pageSize < pindex then (.done (- EIO), d)
  else
    let (err, bmp) := uloWrite d.bmp d.bmpbuf pageSize (d.bmpidx * pageSize) w
    let d := { d with bmp := bmp }
    if err ≠ 0 then (.done err, d)
    else if d.bmpsz ≠ bmp.size then (.bug, d)
    else if d.bmpsz < pindex * pageSize + pageSize then (.bug, d)
    else
      let (n, buf) := kernelRead bmp (pindex * pageSize) d.bmpbuf pageSize r
      if n ≠ pageSize then
        -- restore.  Before the start of the file there is nothing to read
        let (n2, buf) := if pindex = 0 then (0, buf)
          else kernelRead bmp (pindex * pageSize - pageSize) buf pageSize e2
        (.done (if n2 ≠ pageSize ∨ 0 ≤ n then - EIO else n), { d with bmpbuf := buf })
      else (.done 0, { d with bmpbuf := buf, bmpidx := pindex })

/-- `set_bit(bit, dev->bmpbuf)` -/
def Bmp.setBit (d : Bmp) (bit : Nat) : Bmp := { d with bmpbuf := setBitAt d.bmpbuf bit }

/-- `test_bit(bit, dev->bmpbuf)` -/
def Bmp.testBit (d : Bmp) (bit : Nat) : Bool := bitAt d.bmpbuf bit

/-- The "test bitmap" of `uloop_xfer`: is block `loff` there?  `set` is 1 until it is known better. -/
def testBlock (d : Bmp) (loff : Nat) (w r e2 : Vfs) : Outcome × Bool × Bmp :=
  let pindex := loff / bmpPageBytes
  let bit := loff % bmpPageBytes
  let (err, d) := uloBmpPindex d pindex w r e2
  (err, if err = .done 0 then d.testBit bit else true, d)

/-- The "set bitmap" of `ulo_xfer_end`: block `loff` is there. -/
def setBlock (d : Bmp) (loff : Nat) (w r e2 : Vfs) : Outcome × Bmp :=
  let pindex := loff / bmpPageBytes
  let bit := loff % bmpPageBytes
  let (err, d) := uloBmpPindex d pindex w r e2
  (err, if err = .done 0 then d.setBit bit else d)

/-! ## Taking a bitmap into use, and letting it go -/

/-- What `ULOCTL_SETBMP` finds: whether the argument could be copied, the file of `fd` and whether it is
    open for reading and writing, the page size the process believes in, whether there is a free page,
    and the answer to the first read. -/
structure SetbmpArg where
  copied : Bool
  file : Option (File × Bool)
  pagesize : Nat
  page : Bool
  read : Vfs

/-- `ulo_ctl_setbmp`: the bitmap in use before, and after. -/
def uloCtlSetbmp (d : Option Bmp) (arg : SetbmpArg) : Int × Option Bmp :=
  if d.isSome then (-EBUSY, d)
  else if !arg.copied then (-EFAULT, d)
  else
    match arg.file with
    | none => (-EINVAL, d)
    | some (bmp, rw) =>
      if arg.pagesize ≠ pageSize then (-EINVAL, d)
      else if !rw then (-EBADF, d)
      else if bmp.size = 0 ∨ bmp.size % pageSize ≠ 0 then (-EBADF, d)
      else if !arg.page then (-ENOMEM, d)
      else
        -- a fresh page: its bytes are what they are, and are all read over
        let (err, buf) := kernelRead bmp 0 (fun _ => 0) pageSize arg.read
        if err = pageSize then (0, some ⟨bmp, 0, buf, bmp.size⟩)
        else if 0 ≤ err then (- EIO, none)
        else (err, none)

/-- `uloop_release`, as for the bitmap: the file as it is left behind.  An error is only reported. -/
def uloopRelease (d : Bmp) (w : Vfs) : File :=
  (uloWrite d.bmp d.bmpbuf pageSize (d.bmpidx * pageSize) w).2

/-! ## The sizes the library chooses -/

/-- `ulo_init`, as for the sizes: of the cache, and of the bitmap. -/
def uloInit (size pagesize : Nat) : Nat × Nat :=
  let mod := size % pagesize
  let cacheSize := if mod ≠ 0 then size + (pagesize - mod) else size
  let sz := cacheSize / pagesize / 8
  let sz := if sz < pagesize then pagesize
    else
      let mod := sz % pagesize
      if mod ≠ 0 then sz + (pagesize - mod) else sz
  (cacheSize, sz)

/-! ## What the functions do, case by case -/

section Cases

variable {d : Bmp} {pindex : Nat} {w r e2 : Vfs}

/-- What is written is a part of the page in memory. -/
theorem uloWrite_cases (file : File) (buf : Nat → UInt8) (sz pos : Nat) (w : Vfs) :
    (w.full sz = true ∧ (uloWrite file buf sz pos w).1 = 0 ∧
      (uloWrite file buf sz pos w).2 = file.write pos sz buf) ∨
    w.full sz = false ∧ (uloWrite file buf sz pos w).1 < 0 ∧
      ∃ n ≤ sz, (uloWrite file buf sz pos w).2 = file.write pos n buf := by
  cases w with
  | fail e =>
    right
    have hne : Int.negSucc e ≠ (sz : Int) := by omega
    have h : uloWrite file buf sz pos (.fail e) = (Int.negSucc e, file) := by
      simp [uloWrite, vfsWrite, hne]
    rw [h]
    exact ⟨rfl, Int.negSucc_lt_zero e, 0, Nat.zero_le _, (File.write_zero _ _ _).symm⟩
  | done n =>
    by_cases hn : min n sz = sz
    · left
      have hle : sz ≤ n := by omega
      simp [uloWrite, vfsWrite, hn, Vfs.full, hle]
    · right
      have hne : ((min n sz : Nat) : Int) ≠ (sz : Int) := by omega
      have hle : 0 ≤ ((min n sz : Nat) : Int) ∧ ((min n sz : Nat) : Int) ≤ (sz : Int) := by omega
      have h : uloWrite file buf sz pos (.done n) = (- EIO, file.write pos (min n sz) buf) := by
        show (if ((min n sz : Nat) : Int) ≠ sz then _ else _) = _
        rw [if_pos hne, if_pos hle]
      rw [h]
      exact ⟨decide_eq_false (by omega), show - EIO < 0 by decide, _, Nat.min_le_right _ _, rfl⟩

/-- A whole read. -/
theorem kernelRead_full {file : File} {pos sz : Nat} {buf : Nat → UInt8}
    (h : (kernelRead file pos buf sz r).1 = sz) :
    ∀ k < sz, (kernelRead file pos buf sz r).2 k = file.data (pos + k) := by
  intro k hk
  cases r with
  | fail e => exact absurd h (by show Int.negSucc e ≠ (sz : Int); omega)
  | done n =>
    have hn : min n (min sz (file.size - pos)) = sz := Int.ofNat.inj h
    exact if_pos (by rw [hn]; exact hk)

/-- What a read does to the buffer: some of it is read, and all of it if the answer says so. -/
theorem kernelRead_cases (file : File) (pos : Nat) (buf : Nat → UInt8) {sz : Nat} (hsz : 0 < sz)
    (r : Vfs) : ∃ n ≤ sz, (n = sz ↔ (kernelRead file pos buf sz r).1 = sz) ∧
      (pos + sz ≤ file.size → (n = sz ↔ r.full sz = true)) ∧
      (kernelRead file pos buf sz r).2 = fun k => if k < n then file.data (pos + k) else buf k := by
  cases r with
  | fail e =>
    refine ⟨0, Nat.zero_le _, ⟨fun h => absurd h hsz.ne, fun h => ?_⟩, fun _ => ?_, ?_⟩
    · have hneg : Int.negSucc e = (sz : Int) := h
      omega
    · exact ⟨fun h => absurd h hsz.ne, fun h => Bool.noConfusion h⟩
    · simp [kernelRead]
  | done n =>
    refine ⟨min n (min sz (file.size - pos)), by omega, ?_, fun hin => ?_, rfl⟩
    · show _ ↔ ((min n (min sz (file.size - pos)) : Nat) : Int) = (sz : Int)
      exact Int.ofNat_inj.symm
    · show _ ↔ decide (sz ≤ n) = true
      rw [decide_eq_true_iff]
      omega

/-- A bitmap in use: whole pages, and the page in memory is one of them. -/
structure Fits (d : Bmp) : Prop where
  size : d.bmp.size = d.bmpsz
  pages : d.bmpsz % pageSize = 0
  idx : d.bmpidx * pageSize + pageSize ≤ d.bmpsz

/-- The page in memory written back: the file keeps its size. -/
theorem Fits.store_size (hd : Fits d) {n : Nat} (hn : n ≤ pageSize) :
    (d.table.store pageSize n).file.size = d.bmpsz := by
  show (d.bmp.write (d.bmpidx * pageSize) n d.bmpbuf).size = d.bmpsz
  have hidx := hd.idx
  have hsize := hd.size
  by_cases h0 : n = 0
  · rw [h0, File.write_zero, hsize]
  · rw [File.write_size h0]
    omega

/-- **Taking a bitmap into use**: nothing changes, or the file is there, is of whole pages, and its first page
    is in memory. -/
theorem uloCtlSetbmp_cases (d : Option Bmp) (arg : SetbmpArg) :
    (uloCtlSetbmp d arg).1 ≠ 0 ∧ (uloCtlSetbmp d arg).2 = d ∨
    ∃ f rw buf, arg.file = some (f, rw) ∧ uloCtlSetbmp d arg = (0, some ⟨f, 0, buf, f.size⟩) ∧
      Fits ⟨f, 0, buf, f.size⟩ ∧ ∀ k < pageSize, buf k = f.data (0 * pageSize + k) := by
  cases d with
  | some d => exact Or.inl ⟨show -EBUSY ≠ 0 by decide, rfl⟩
  | none =>
    simp only [uloCtlSetbmp, Option.isSome_none, Bool.false_eq_true, if_false]
    cases hcopied : arg.copied
    case false => exact Or.inl ⟨by simp [EFAULT], rfl⟩
    simp only [Bool.not_true, Bool.false_eq_true, if_false]
    cases hfile : arg.file with
    | none => exact Or.inl ⟨by simp [EINVAL], rfl⟩
    | some fr =>
      obtain ⟨f, rw⟩ := fr
      simp only
      split_ifs with hps hrw hsz hpage hread hneg
      · exact Or.inl ⟨by simp [EINVAL], rfl⟩
      · exact Or.inl ⟨by simp [EBADF], rfl⟩
      · exact Or.inl ⟨by simp [EBADF], rfl⟩
      · exact Or.inl ⟨by simp [ENOMEM], rfl⟩
      · -- the first page was read
        refine Or.inr ⟨f, rw, _, rfl, rfl, ?_, fun k hk => ?_⟩
        · rw [not_or, not_not] at hsz
          refine ⟨rfl, hsz.2, ?_⟩
          obtain ⟨h1, h2⟩ := hsz
          show 0 * pageSize + pageSize ≤ f.size
          rw [pageSize_eq] at h2 ⊢
          omega
        · rw [Nat.zero_mul]
          exact kernelRead_full hread k hk
      · exact Or.inl ⟨by simp [ EIO], rfl⟩
      · exact Or.inl ⟨by omega, rfl⟩

/-- What a switch of pages comes to.  A switch that fails before it reads has at most written some of
    the page in memory back; one whose read fails has spoilt the buffer. -/
inductive Switch (d : Bmp) (pindex : Nat) (w r e2 : Vfs) : Outcome → Bmp → Prop
  | here (h : d.bmpidx = pindex) : Switch d pindex w r e2 (.done 0) d
  | failed {err : Int} (h : err < 0) {n : Nat} (hn : n ≤ pageSize)
      (hw : w.full pageSize = true → d.bmpsz < pindex * pageSize) :
      Switch d pindex w r e2 (.done err) { d with bmp := (d.table.store pageSize n).file }
  | beyond (h : pindex = d.bmpsz / pageSize) :
      Switch d pindex w r e2 .bug { d with bmp := (d.table.store pageSize pageSize).file }
  | turned (h : pindex * pageSize + pageSize ≤ d.bmpsz) (hr : r.full pageSize = true) :
      Switch d pindex w r e2 (.done 0)
        { d with
          bmp := (d.table.store pageSize pageSize).file
          bmpbuf := ((d.table.store pageSize pageSize).turn pageSize pindex).buf
          bmpidx := pindex }
  | readFailed {err : Int} (h : err < 0) (hne : d.bmpidx ≠ pindex)
      (hin : pindex * pageSize + pageSize ≤ d.bmpsz) (hw : w.full pageSize = true)
      (hr : r.full pageSize = false) {n m : Nat} (hn : n < pageSize) (hm : m ≤ pageSize)
      (h0 : pindex = 0 → m = 0) (hm' : pindex ≠ 0 → (m = pageSize ↔ e2.full pageSize = true)) :
      Switch d pindex w r e2 (.done err)
        { d with
          bmp := (d.table.store pageSize pageSize).file
          bmpbuf := (((d.table.store pageSize pageSize).fill pageSize pindex n).fill pageSize
            (pindex - 1) m).buf }

/-- **What `ulo_bmp_pindex` does**, to a bitmap in use. -/
theorem uloBmpPindex_switch (hd : Fits d) (pindex : Nat) (w r e2 : Vfs) :
    Switch d pindex w r e2 (uloBmpPindex d pindex w r e2).1 (uloBmpPindex d pindex w r e2).2 := by
  rw [uloBmpPindex]
  by_cases hidx : d.bmpidx = pindex
  · rw [if_pos hidx]
    exact .here hidx
  rw [if_neg hidx]
  by_cases hfar : d.bmpsz / pageSize < pindex
  · rw [if_pos hfar]
    have h : Switch d pindex w r e2 (.done (- EIO)) { d with bmp := (d.table.store pageSize 0).file } :=
      .failed (by decide) (Nat.zero_le _) fun _ => (Nat.div_lt_iff_lt_mul (by decide)).mp hfar
    have h0 : (d.table.store pageSize 0).file = d.bmp := File.write_zero _ _ _
    rwa [h0] at h
  rw [if_neg hfar]
  rcases uloWrite_cases d.bmp d.bmpbuf pageSize (d.bmpidx * pageSize) w with
    ⟨hw, herr, hfile⟩ | ⟨hw, herr, n, hn, hfile⟩
  case inr =>
    -- the page was not written back, or not all of it
    have herr' : ¬ (uloWrite d.bmp d.bmpbuf pageSize (d.bmpidx * pageSize) w).1 = 0 :=
      Int.ne_of_lt herr
    simp only [ne_eq, herr', not_false_eq_true, if_true, hfile]
    exact .failed herr hn fun h => absurd h (by rw [hw]; exact Bool.false_ne_true)
  have hsame : d.bmpsz = (d.bmp.write (d.bmpidx * pageSize) pageSize d.bmpbuf).size :=
    (hd.store_size (Nat.le_refl _)).symm
  simp only [herr, hfile, ne_eq, not_true_eq_false, if_false, ← hsame]
  by_cases hbeyond : d.bmpsz < pindex * pageSize + pageSize
  · rw [if_pos hbeyond]
    refine .beyond ?_
    have hpages := hd.pages
    rw [pageSize_eq] at hfar hbeyond hpages ⊢
    omega
  rw [if_neg hbeyond]
  have hpos : 0 < pageSize := by decide
  have hin := Nat.le_of_not_lt hbeyond
  obtain ⟨n, hn, hfull, hr, hbuf⟩ := kernelRead_cases
    (d.bmp.write (d.bmpidx * pageSize) pageSize d.bmpbuf) (pindex * pageSize) d.bmpbuf hpos r
  by_cases hread : n = pageSize
  · -- the page was read
    subst hread
    simp only [hfull.mp rfl, hbuf, not_true_eq_false, if_false]
    exact .turned hin ((hr (by rwa [← hsame])).mp rfl)
  -- it was not, and the "restore" reads the page before it
  have hlt : n < pageSize := Nat.lt_of_le_of_ne hn hread
  have hr' : r.full pageSize = false :=
    Bool.eq_false_iff.mpr fun h => hread ((hr (by rwa [← hsame])).mpr h)
  rw [if_pos fun h => hread (hfull.mpr h)]
  have herr : ∀ n2 e : Int, (if n2 ≠ pageSize ∨ 0 ≤ e then - EIO else e) < 0 := by
    intro n2 e
    by_cases hc : n2 ≠ pageSize ∨ 0 ≤ e
    · rw [if_pos hc]
      decide
    · rw [if_neg hc]
      omega
  simp only [hbuf]
  by_cases h0 : pindex = 0
  · simp only [if_pos h0]
    show Switch d pindex w r e2 _ { d with
      bmp := (d.table.store pageSize pageSize).file
      bmpbuf := ((d.table.store pageSize pageSize).fill pageSize pindex n).buf }
    rw [← Paged.fill_zero ((d.table.store pageSize pageSize).fill pageSize pindex n) (pindex - 1)]
    exact .readFailed (herr _ _) hidx hin hw hr' hlt (Nat.zero_le _) (fun _ => rfl)
      fun h => absurd h0 h
  · simp only [if_neg h0]
    have hprev : pindex * pageSize - pageSize = (pindex - 1) * pageSize := by
      rw [Nat.sub_mul, Nat.one_mul]
    obtain ⟨m, hm, -, hm', hbuf'⟩ := kernelRead_cases
      (d.bmp.write (d.bmpidx * pageSize) pageSize d.bmpbuf) (pindex * pageSize - pageSize)
      (fun k => if k < n then (d.bmp.write (d.bmpidx * pageSize) pageSize d.bmpbuf).data
        (pindex * pageSize + k) else d.bmpbuf k) hpos e2
    rw [hbuf', hprev]
    rw [← hsame] at hm'
    exact .readFailed (herr _ _) hidx hin hw hr' hlt hm (fun h => absurd h h0)
      fun _ => hm' (by omega)

/-- When the page in memory cannot be written the driver comes back with the error. -/
theorem uloBmpPindex_failing (d : Bmp) (pindex : Nat) (r e2 : Vfs) :
    ∃ err, (uloBmpPindex d pindex (.fail 0) r e2).1 = .done err := by
  rw [uloBmpPindex]
  by_cases hidx : d.bmpidx = pindex
  · rw [if_pos hidx]
    exact ⟨0, rfl⟩
  rw [if_neg hidx]
  by_cases hfar : d.bmpsz / pageSize < pindex
  · rw [if_pos hfar]
    exact ⟨- EIO, rfl⟩
  · rw [if_neg hfar]
    exact ⟨-1, rfl⟩

/-- The read of page `pindex` fails, and what is read to restore is not the page that was in memory, or
    not all of it: the page before `pindex` is read, wherever the driver came from. -/
def Misread (d : Bmp) (pindex : Nat) (w r e2 : Vfs) : Prop :=
  d.bmpidx ≠ pindex ∧ pindex * pageSize + pageSize ≤ d.bmpsz ∧ w.full pageSize = true ∧
    r.full pageSize = false ∧ ¬ (pindex = d.bmpidx + 1 ∧ e2.full pageSize = true)

instance : Decidable (Misread d pindex w r e2) :=
  inferInstanceAs (Decidable (_ ∧ _ ∧ _ ∧ _ ∧ ¬ (_ ∧ _)))

/-- A bitmap with the same bits, of the same size: written back more, or with another page of it in
    memory. -/
structure Kept (d d' : Bmp) : Prop where
  sz : d'.bmpsz = d.bmpsz
  fits : Fits d'
  byte : ∀ i, d'.table.byte pageSize i = d.table.byte pageSize i
  every : ∀ Q, d.table.Every pageSize Q → d'.table.Every pageSize Q

theorem Kept.bit {d' : Bmp} (h : Kept d d') (i : Nat) : d'.bit i = d.bit i :=
  bitAt_congr (h.byte _) rfl

/-- **A switch keeps the bitmap**, whether it comes to its end or not, if it does not misread. -/
theorem Switch.kept {o : Outcome} {d' : Bmp} (hd : Fits d) (h : Switch d pindex w r e2 o d')
    (hm : ¬ Misread d pindex w r e2) : Kept d d' := by
  have hp : 0 < pageSize := by decide
  have hfull := hd.store_size (Nat.le_refl pageSize)
  cases h with
  | here => exact ⟨rfl, hd, fun _ => rfl, fun _ h => h⟩
  | failed herr hn hw =>
    exact ⟨rfl, ⟨hd.store_size hn, hd.pages, hd.idx⟩, fun i => Paged.byte_store hp hn,
      fun _ h => h.store hn⟩
  | beyond =>
    exact ⟨rfl, ⟨hfull, hd.pages, hd.idx⟩, fun i => Paged.byte_store hp (Nat.le_refl _),
      fun _ h => h.store (Nat.le_refl _)⟩
  | turned hin hr =>
    refine ⟨rfl, ⟨hfull, hd.pages, hin⟩, fun i => ?_, fun _ h => (h.store (Nat.le_refl _)).turn _⟩
    exact (Paged.byte_turn hp _).trans (Paged.data_store hp)
  | @readFailed _ herr hne hin hw hr n m hn hm' h0 hfull' =>
    -- the page read is the one that was in memory, and it was just written back
    obtain ⟨rfl, he⟩ : pindex = d.bmpidx + 1 ∧ e2.full pageSize = true := by
      by_contra hc
      exact hm ⟨hne, hin, hw, hr, hc⟩
    obtain rfl : m = pageSize := (hfull' (Nat.succ_ne_zero _)).mpr he
    have hbuf : ∀ k < pageSize, (((d.table.store pageSize pageSize).fill pageSize (d.bmpidx + 1) n).fill
        pageSize (d.bmpidx + 1 - 1) pageSize).buf k
          = (d.table.store pageSize pageSize).file.data (d.bmpidx * pageSize + k) :=
      fun k hk => Paged.fill_buf hk
    refine ⟨rfl, ⟨hfull, hd.pages, hd.idx⟩, fun i => ?_, fun Q h => ?_⟩
    · exact (Paged.byte_own hp hbuf).trans (Paged.data_store hp)
    · exact .of_file (h.store (Nat.le_refl _)).file hbuf

/-- A switch that comes to its end has the page in memory. -/
theorem Switch.idx {d' : Bmp} (h : Switch d pindex w r e2 (.done 0) d') : d'.bmpidx = pindex := by
  cases h with
  | here h => exact h
  | failed h => exact absurd h (by decide)
  | turned => rfl
  | readFailed h => exact absurd h (by decide)

end Cases

end KernelPatches.Uloop
