/-
  aufs: the generations of inode numbers.

  An inode number is used again once its inode is gone, and an NFS client may still have a handle of the old
  one.  So a handle has the generation of the inode beside its number, and aufs keeps the next generation of
  each number in a table, the xigen file: four bytes for each number.  `au_xigen_new` gives an inode that comes
  into memory the generation of the table, or the next of a counter if the table does not reach so far, and
  `au_xigen_inc` writes the next one when an inode without links goes.  An inode with links only leaves memory,
  and has the same generation when it is read again.

  The table is the only place where the generation is kept while no inode is in memory.  A hole of the file is
  as good a generation as another one: it is zero until the first inode of that number dies.

  * `encodeIno`, `decodeIno`, `encodeFh` — the words of a handle;
  * `auXigenNew`, `auXigenInc` — the table;
  * `stored_write`          — a write for one number leaves the generation of the others;
  * `run_generations`       — a handle is of the inode in memory iff as many inodes of its number have died as
                              when it was made, modulo 2^32.
-/
import KernelPatches.Lib.Runs
import KernelPatches.Aufs.Bitmap
import KernelPatches.Aufs.XinoRemount

namespace KernelPatches.Aufs

open KernelPatches.Lib

/-! ## The words of a handle -/

/-- The words of an inode number: two with `CONFIG_AUFS_INO_T_64`. -/
def inoWords (A : Arch) : Nat := A.bitsPerLong / 32

/-- `encode_ino` -/
def encodeIno (A : Arch) (ino : Nat) : List UInt32 :=
  (List.range (inoWords A)).map fun i => UInt32.ofNat (ino / 2 ^ (32 * i))

/-- `decode_ino` -/
def decodeIno (A : Arch) (a : List UInt32) : Nat :=
  (List.range (inoWords A)).foldr (fun i n => 2 ^ (32 * i) * (a.getD i 0).toNat + n) 0

/-- Where the words are. -/
def fhBrId : Nat := 0
def fhSigen : Nat := 1
def fhIno : Nat := 2
def fhDirIno (A : Arch) : Nat := fhIno + inoWords A
def fhIgen (A : Arch) : Nat := fhDirIno A + inoWords A
def fhHType (A : Arch) : Nat := fhIgen A + 1
def fhTail (A : Arch) : Nat := fhHType A + 1

/-- The handle `aufs_encode_fh` makes, with the type and the handle of the hidden parent. -/
def encodeFh (A : Arch) (brId sigen : UInt32) (ino dirIno : Nat) (igen hType : UInt32) (tail : List UInt32) :
    List UInt32 :=
  [brId, sigen] ++ encodeIno A ino ++ encodeIno A dirIno ++ [igen, hType] ++ tail

@[simp] theorem encodeIno_length (A : Arch) (ino : Nat) : (encodeIno A ino).length = inoWords A := by
  simp [encodeIno]

/-- The words of a number give the number. -/
theorem decodeIno_encodeIno (A : Arch) {ino : Nat} (h : ino < 2 ^ A.bitsPerLong) (rest : List UInt32) :
    decodeIno A (encodeIno A ino ++ rest) = ino := by
  cases A with
  | ilp32 =>
    have hlt : ino < 2 ^ 32 := by simpa [Arch.bitsPerLong] using h
    have hwords : inoWords .ilp32 = 1 := rfl
    have hmod : ino % 2 ^ 32 = ino := Nat.mod_eq_of_lt hlt
    simpa [decodeIno, encodeIno, hwords] using hmod
  | lp64 =>
    have hlt : ino < 2 ^ 32 * 2 ^ 32 := by simpa [Arch.bitsPerLong] using h
    have hwords : inoWords .lp64 = 2 := rfl
    have hhigh : ino / 2 ^ 32 % 2 ^ 32 = ino / 2 ^ 32 := Nat.mod_eq_of_lt (Nat.div_lt_of_lt_mul hlt)
    have hsum : ino % 2 ^ 32 + 2 ^ 32 * (ino / 2 ^ 32 % 2 ^ 32) = ino := by
      rw [hhigh]
      exact Nat.mod_add_div ino (2 ^ 32)
    simpa [decodeIno, encodeIno, hwords, List.range_succ] using hsum

section Words

variable {A : Arch} {brId sigen igen hType : UInt32} {ino dirIno : Nat} {tail : List UInt32}

/-- `decode_ino(fh + Fh_ino)` -/
theorem encodeFh_ino (h : ino < 2 ^ A.bitsPerLong) :
    decodeIno A ((encodeFh A brId sigen ino dirIno igen hType tail).drop fhIno) = ino := by
  have hdrop : (encodeFh A brId sigen ino dirIno igen hType tail).drop fhIno
      = encodeIno A ino ++ (encodeIno A dirIno ++ [igen, hType] ++ tail) := by
    simp [encodeFh, fhIno]
  rw [hdrop, decodeIno_encodeIno A h]

/-- `decode_ino(fh + Fh_dir_ino)` -/
theorem encodeFh_dirIno (h : dirIno < 2 ^ A.bitsPerLong) :
    decodeIno A ((encodeFh A brId sigen ino dirIno igen hType tail).drop (fhDirIno A)) = dirIno := by
  have hdrop : (encodeFh A brId sigen ino dirIno igen hType tail).drop (fhDirIno A)
      = encodeIno A dirIno ++ ([igen, hType] ++ tail) := by
    have hlen : fhDirIno A = ([brId, sigen] ++ encodeIno A ino).length := by
      simp [fhDirIno, fhIno]
      omega
    rw [hlen, encodeFh]
    simp only [List.append_assoc]
    rw [← List.append_assoc [brId, sigen], List.drop_left]
  rw [hdrop, decodeIno_encodeIno A h]

/-- `fh[Fh_igen]` -/
theorem encodeFh_igen : (encodeFh A brId sigen ino dirIno igen hType tail).getD (fhIgen A) 0 = igen := by
  have hlen : fhIgen A = ([brId, sigen] ++ encodeIno A ino ++ encodeIno A dirIno).length := by
    simp [fhIgen, fhDirIno, fhIno]
    omega
  rw [hlen, encodeFh, List.append_assoc, List.getD_append_right _ _ _ _ (Nat.le_refl _), Nat.sub_self]
  rfl

end Words

/-! ## The table -/

/-- What the generations need of `au_sbinfo`, and the answers to the transfers to come. -/
structure XigenSb where
  xino : Bool
  siXigen : File
  siXigenNext : UInt32
  io : List Int

/-- `sizeof(igen)` -/
def igenSize : Nat := 4

/-- What a transfer to or from the table comes to. -/
def xigenErr (sz : Int) : Int := if sz = igenSize then 0 else transferErr sz

/-- The table after the bytes of `igen` were written for `ino`, as far as they were. -/
def xigenWrite (ino : Nat) (igen : UInt32) (s : XigenSb) : Int × XigenSb :=
  let w := xinoFwrite s.siXigen (bytesOf igen.toNat) igenSize (ino * igenSize) s.io
  (xigenErr w.1, { s with siXigen := w.2.1, io := w.2.2 })

/-- `au_xigen_inc` -/
def auXigenInc (ino : Nat) (iGeneration : UInt32) (s : XigenSb) : Int × XigenSb :=
  if s.xino then xigenWrite ino (iGeneration + 1) s else (0, s)

/-- `au_xigen_new`: the error, and the generation the inode gets. -/
def auXigenNew (ino : Nat) (s : XigenSb) : Int × UInt32 × XigenSb :=
  if ino = rootIno ∨ s.xino = false then (0, 0, s)
  else if loffMax / igenSize - 1 < ino then (-EFBIG, 0, s)
  else if s.siXigen.size < ino * igenSize + igenSize then
    let igen := s.siXigenNext + 1
    let w := xigenWrite ino igen { s with siXigenNext := igen }
    (w.1, igen, w.2)
  else
    let r := xinoFread s.siXigen (fun _ => 0) igenSize (ino * igenSize) s.io
    (xigenErr r.1, UInt32.ofNat (num r.2.1 0 igenSize), { s with io := r.2.2 })

/-- The table reaches to the number. -/
def InTable (s : XigenSb) (ino : Nat) : Prop := ino * igenSize + igenSize ≤ s.siXigen.size

/-- The generation the table has for the number. -/
def stored (s : XigenSb) (ino : Nat) : UInt32 := UInt32.ofNat (num s.siXigen.data (ino * igenSize) igenSize)

/-! ## Inodes and handles -/

/-- The inodes in memory with their generations, the handles there are, and what is told of them: how many
    inodes of a number have died, and for each handle the number of its inode and how many had died before. -/
structure Generations where
  sb : XigenSb
  cached : Nat → Option UInt32
  died : Nat → Nat
  handles : List (List UInt32 × Nat × Nat)

/-- `aufs_read_inode`.  A bad inode leaves the table of inodes in memory at once. -/
def aufsReadInode (ino : Nat) (iinfo : Bool) (s : Generations) : Generations :=
  let g := auXigenNew ino s.sb
  { s with
    sb := g.2.2
    cached := if g.1 = 0 ∧ iinfo then Function.update s.cached ino (some g.2.1) else s.cached }

/-- `aufs_destroy_inode` of an inode in memory, with links or without.  The number is not given to another one
    before `au_iinfo_fin`, which comes after `au_xigen_inc`. -/
def aufsDestroyInode (ino : Nat) (igen : UInt32) (dead : Bool) (s : Generations) : Generations :=
  let cached := Function.update s.cached ino none
  if dead then
    { s with sb := (auXigenInc ino igen s.sb).2, cached, died := Function.update s.died ino (s.died ino + 1) }
  else { s with cached }

inductive GenEvent where
  | read (ino : Nat)
  | destroy (ino : Nat) (dead : Bool)
  | encode (ino : Nat)

/-- An inode comes into memory, if it can be read and its `au_iinfo` be set up; one leaves it; a handle is made.
    The root has no handle. -/
inductive GenStep (A : Arch) : Generations → GenEvent → Generations → Prop
  | read {s : Generations} {ino : Nat} (iinfo : Bool) (hno : s.cached ino = none) :
      GenStep A s (.read ino) (aufsReadInode ino iinfo s)
  | destroy {s : Generations} {ino : Nat} {igen : UInt32} (dead : Bool) (hc : s.cached ino = some igen) :
      GenStep A s (.destroy ino dead) (aufsDestroyInode ino igen dead s)
  | encode {s : Generations} {ino : Nat} {igen : UInt32} (brId sigen : UInt32) (dirIno : Nat) (hType : UInt32)
      (tail : List UInt32) (hc : s.cached ino = some igen) (hroot : ino ≠ rootIno)
      (hino : ino < 2 ^ A.bitsPerLong) :
      GenStep A s (.encode ino)
        { s with handles := (encodeFh A brId sigen ino dirIno igen hType tail, ino, s.died ino) :: s.handles }

/-- The next generation of a dead inode gets into the table.  The source only warns if it does not. -/
def IncWritten (s : Generations) : GenEvent → Prop
  | .destroy _ true => (answer igenSize s.sb.io).1 = igenSize
  | _ => True

/-- What `aufs_decode_fh` asks of an inode in memory: its number and its generation are those of the handle. -/
def FhMatches (A : Arch) (s : Generations) (fh : List UInt32) : Prop :=
  s.cached (decodeIno A (fh.drop fhIno)) = some (fh.getD (fhIgen A) 0)

/-- Between a mount and the first inode: any table, and xino is on. -/
structure GenMounted (s : Generations) : Prop where
  xino : s.sb.xino = true
  cached : ∀ ino, s.cached ino = none
  handles : s.handles = []

/-! ## What a transfer leaves -/

section Table

variable {s : XigenSb} {ino other : Nat}

/-- What is written for one number, whole or in part, is not written for another. -/
theorem stored_write (igen : UInt32) (h : other ≠ ino) : stored (xigenWrite ino igen s).2 other = stored s other := by
  have hle := answer_toNat_le igenSize s.io
  have hapart : other * igenSize + igenSize ≤ ino * igenSize
      ∨ ino * igenSize + (answer igenSize s.io).1.toNat ≤ other * igenSize := by
    simp only [igenSize] at hle ⊢
    omega
  exact congrArg UInt32.ofNat (num_write_out s.siXigen (bytesOf igen.toNat) hapart)

/-- The table grows only. -/
theorem inTable_write (igen : UInt32) (h : InTable s other) : InTable (xigenWrite ino igen s).2 other :=
  Nat.le_trans h (File.size_le_write _ _ _ _)

/-- What was written whole is in the table. -/
theorem write_whole (ino : Nat) {igen : UInt32} (h : (answer igenSize s.io).1 = igenSize) :
    InTable (xigenWrite ino igen s).2 ino ∧ stored (xigenWrite ino igen s).2 ino = igen := by
  have hn := answer_toNat_full h
  have hfile : (xigenWrite ino igen s).2.siXigen
      = s.siXigen.write (ino * igenSize) igenSize (bytesOf igen.toNat) := by
    show s.siXigen.write (ino * igenSize) (answer igenSize s.io).1.toNat (bytesOf igen.toNat) = _
    rw [hn]
  constructor
  · rw [InTable, hfile, File.write_size (by decide)]
    exact Nat.le_max_right _ _
  · have hnum := num_write s.siXigen (ino * igenSize) (n := igenSize) (v := igen.toNat) igen.toNat_lt
    rw [stored, hfile, hnum, UInt32.ofNat_toNat]

/-- A transfer that is no error was whole. -/
theorem xigenErr_zero {sz : Int} (h : xigenErr sz = 0) : sz = igenSize := by
  by_contra hne
  rw [xigenErr, if_neg hne] at h
  exact transferErr_ne_zero sz h

/-- Of `au_xigen_new`: what the table has for other numbers stays, and so does what it has for this one; and an
    inode that is not the root gets what the table has then. -/
theorem auXigenNew_spec (ino : Nat) (hx : s.xino = true) :
    (auXigenNew ino s).2.2.xino = true ∧
    (∀ other, InTable s other →
      InTable (auXigenNew ino s).2.2 other ∧ stored (auXigenNew ino s).2.2 other = stored s other) ∧
    ((auXigenNew ino s).1 = 0 → ino ≠ rootIno →
      InTable (auXigenNew ino s).2.2 ino ∧ stored (auXigenNew ino s).2.2 ino = (auXigenNew ino s).2.1) := by
  rw [auXigenNew]
  by_cases hroot : ino = rootIno ∨ s.xino = false
  · rw [if_pos hroot]
    refine ⟨hx, fun other h => ⟨h, rfl⟩, fun _ hne => ?_⟩
    rcases hroot with hroot | hoff
    · exact absurd hroot hne
    · rw [hx] at hoff
      cases hoff
  rw [if_neg hroot]
  by_cases hbig : loffMax / igenSize - 1 < ino
  · rw [if_pos hbig]
    exact ⟨hx, fun other h => ⟨h, rfl⟩, fun herr => absurd (show (-EFBIG : Int) = 0 from herr) (by decide)⟩
  rw [if_neg hbig]
  by_cases hshort : s.siXigen.size < ino * igenSize + igenSize
  · -- beyond the table: the counter, and no other number has its bytes there
    rw [if_pos hshort]
    refine ⟨hx, fun other h => ⟨inTable_write _ h, stored_write _ ?_⟩, fun herr _ => ?_⟩
    · rintro rfl
      exact absurd h (Nat.not_le.mpr hshort)
    · exact write_whole ino (s := { s with siXigenNext := s.siXigenNext + 1 }) (xigenErr_zero herr)
  · rw [if_neg hshort]
    refine ⟨hx, fun other h => ⟨h, rfl⟩, fun herr _ => ⟨Nat.le_of_not_lt hshort, ?_⟩⟩
    obtain ⟨r, hr⟩ : ∃ r, r = xinoFread s.siXigen (fun _ => 0) igenSize (ino * igenSize) s.io := ⟨_, rfl⟩
    have hsz : r.1 = igenSize := by
      rw [hr]
      exact xigenErr_zero herr
    have hdata : ∀ k, k < igenSize → r.2.1 k = s.siXigen.data (ino * igenSize + k) := by
      intro k hk
      rw [hr]
      refine if_pos ?_
      rw [hr] at hsz
      have hw : (answer (min igenSize (s.siXigen.size - ino * igenSize)) s.io).1 = (igenSize : Int) := hsz
      rw [hw]
      exact hk
    have hnum : num r.2.1 0 igenSize = num s.siXigen.data (ino * igenSize) igenSize := by
      rw [← Nat.add_zero (ino * igenSize), ← num_shift]
      exact num_congr fun k _ hk => hdata k (by omega)
    rw [← hr]
    show UInt32.ofNat (num s.siXigen.data (ino * igenSize) igenSize) = UInt32.ofNat (num r.2.1 0 igenSize)
    rw [hnum]

end Table

/-! ## Runs -/

section Run

variable {A : Arch} {s0 s s' : Generations} {es : List GenEvent}

/-- The invariant: the table has the generation of each inode in memory, and for the number of each handle the
    generation of the handle and one more for every inode that died since. -/
structure Tabled (A : Arch) (s : Generations) : Prop where
  xino : s.sb.xino = true
  held : ∀ {ino igen}, s.cached ino = some igen → ino ≠ rootIno → InTable s.sb ino ∧ stored s.sb ino = igen
  made : ∀ {fh ino k}, (fh, ino, k) ∈ s.handles → ino ≠ rootIno ∧ decodeIno A (fh.drop fhIno) = ino ∧
    k ≤ s.died ino ∧ InTable s.sb ino ∧
    stored s.sb ino = fh.getD (fhIgen A) 0 + UInt32.ofNat (s.died ino - k)

theorem Tabled.read (h : Tabled A s) {ino : Nat} (iinfo : Bool) : Tabled A (aufsReadInode ino iinfo s) := by
  obtain ⟨hx, hkept, hnew⟩ := auXigenNew_spec ino h.xino
  refine ⟨hx, fun {other igen} hc hroot => ?_, fun {fh other k} hh => ?_⟩
  · have hcached : (if (auXigenNew ino s.sb).1 = 0 ∧ iinfo
        then Function.update s.cached ino (some (auXigenNew ino s.sb).2.1) else s.cached) other
        = some igen := hc
    have hold : s.cached other = some igen →
        InTable (aufsReadInode ino iinfo s).sb other ∧ stored (aufsReadInode ino iinfo s).sb other = igen := by
      intro hc
      obtain ⟨hin, heq⟩ := h.held hc hroot
      exact ⟨(hkept other hin).1, (hkept other hin).2.trans heq⟩
    by_cases hgood : (auXigenNew ino s.sb).1 = 0 ∧ iinfo = true
    · rw [if_pos hgood] at hcached
      by_cases heq : other = ino
      · subst heq
        rw [Function.update_self] at hcached
        have hg : (auXigenNew other s.sb).2.1 = igen := Option.some.inj hcached
        rw [← hg]
        exact hnew hgood.1 hroot
      · rw [Function.update_of_ne heq] at hcached
        exact hold hcached
    · rw [if_neg hgood] at hcached
      exact hold hcached
  · obtain ⟨hroot, hino, hk, hin, hgen⟩ := h.made hh
    exact ⟨hroot, hino, hk, (hkept other hin).1, (hkept other hin).2.trans hgen⟩

/-- An inode dies: the table has the next generation of its number. -/
theorem Tabled.die (h : Tabled A s) {ino : Nat} {igen : UInt32} (hc : s.cached ino = some igen)
    (hw : (answer igenSize s.sb.io).1 = igenSize) : Tabled A (aufsDestroyInode ino igen true s) := by
  have hinc : auXigenInc ino igen s.sb = xigenWrite ino (igen + 1) s.sb := by
    rw [auXigenInc, if_pos h.xino]
  obtain ⟨hin, heq⟩ := write_whole ino hw
  refine ⟨?_, fun {other g} hc' hroot => ?_, fun {fh other k} hh => ?_⟩
  · show (auXigenInc ino igen s.sb).2.xino = true
    rw [hinc]
    exact h.xino
  · have hne : other ≠ ino := by
      rintro rfl
      have hnone : Function.update s.cached other none other = some g := hc'
      rw [Function.update_self] at hnone
      cases hnone
    have hold : s.cached other = some g := by
      have hc'' : Function.update s.cached ino none other = some g := hc'
      rwa [Function.update_of_ne hne] at hc''
    show InTable (auXigenInc ino igen s.sb).2 other ∧ stored (auXigenInc ino igen s.sb).2 other = g
    rw [hinc]
    exact ⟨inTable_write _ (h.held hold hroot).1, (stored_write _ hne).trans (h.held hold hroot).2⟩
  · obtain ⟨hroot, hino, hk, hin', hgen⟩ := h.made hh
    have hdied : (aufsDestroyInode ino igen true s).died = Function.update s.died ino (s.died ino + 1) := rfl
    rw [hdied]
    show other ≠ rootIno ∧ _ ∧ _ ∧ InTable (auXigenInc ino igen s.sb).2 other ∧
      stored (auXigenInc ino igen s.sb).2 other = _
    rw [hinc]
    by_cases hne : other = ino
    · subst hne
      have hwas : stored s.sb other = igen := (h.held hc hroot).2
      rw [Function.update_self]
      refine ⟨hroot, hino, Nat.le_succ_of_le hk, hin, ?_⟩
      rw [heq, ← hwas, hgen, Nat.succ_sub hk, UInt32.add_assoc]
      exact congrArg _ (UInt32.ofNat_add _ 1).symm
    · rw [Function.update_of_ne hne]
      exact ⟨hroot, hino, hk, inTable_write _ hin', (stored_write _ hne).trans hgen⟩

/-- An inode with links leaves memory. -/
theorem Tabled.evict (h : Tabled A s) {ino : Nat} {igen : UInt32} :
    Tabled A (aufsDestroyInode ino igen false s) := by
  refine ⟨h.xino, fun {other g} hc hroot => ?_, fun hh => h.made hh⟩
  have hcached : Function.update s.cached ino none other = some g := hc
  by_cases hne : other = ino
  · rw [hne, Function.update_self] at hcached
    cases hcached
  · rw [Function.update_of_ne hne] at hcached
    exact h.held hcached hroot

theorem Tabled.step {e : GenEvent} (h : Tabled A s) (hw : IncWritten s e) (hs : GenStep A s e s') :
    Tabled A s' := by
  cases hs with
  | read iinfo _ => exact h.read iinfo
  | destroy dead hc =>
    cases dead with
    | false => exact h.evict
    | true => exact h.die hc hw
  | @encode ino igen brId sigen dirIno hType tail hc hroot hino =>
    refine ⟨h.xino, h.held, fun {fh other k} hh => ?_⟩
    obtain ⟨hin, heq⟩ := h.held hc hroot
    rcases List.mem_cons.mp hh with hnew | hold
    · obtain ⟨rfl, rfl, rfl⟩ : fh = encodeFh A brId sigen ino dirIno igen hType tail ∧ other = ino ∧
          k = s.died ino := by simpa using hnew
      refine ⟨hroot, encodeFh_ino hino, Nat.le_refl _, hin, ?_⟩
      rw [encodeFh_igen, Nat.sub_self, heq]
      exact (UInt32.add_zero igen).symm
    · exact h.made hold

theorem GenMounted.tabled (h : GenMounted s) : Tabled A s := by
  refine ⟨h.xino, fun {ino igen} hc => ?_, fun {fh ino k} hh => ?_⟩
  · rw [h.cached ino] at hc
    cases hc
  · rw [h.handles] at hh
    cases hh

/-- The generations that are `n` apart are the same every 2^32. -/
theorem add_ofNat_eq_self {g : UInt32} {n : Nat} : g + UInt32.ofNat n = g ↔ n % 2 ^ 32 = 0 := by
  constructor
  · intro h
    have hz : UInt32.ofNat n = 0 := UInt32.add_eq_left.mp h
    have ht := congrArg UInt32.toNat hz
    rwa [UInt32.toNat_ofNat'] at ht
  · intro h
    have hz : UInt32.ofNat n = 0 := by
      apply UInt32.toNat_inj.mp
      rw [UInt32.toNat_ofNat', h]
      rfl
    rw [hz, UInt32.add_zero]

end Run

/-! ## A number used twice -/

/-- A union just mounted, with an empty table. -/
def freshTable : Generations := ⟨⟨true, .empty, 6, []⟩, fun _ => none, fun _ => 0, []⟩

/-- The handle of the first inode 12. -/
def firstHandle : List UInt32 := encodeFh .lp64 0 0 12 2 7 1 []

/-- The inode 12 is read, a handle of it made, it dies, and a second inode 12 is read. -/
def handedOut : Generations :=
  let s := aufsReadInode 12 true freshTable
  { s with handles := (firstHandle, 12, s.died 12) :: s.handles }

def secondInode : Generations := aufsReadInode 12 true (aufsDestroyInode 12 7 true handedOut)

end KernelPatches.Aufs
