/-
  aufs: reading a directory after a seek to any position.

  `seek_vdir` moves `vd_last` to the first entry from `f_pos` on, and leaves `f_pos` where it is.  From then on
  `au_vdir_fill_de` adds the sizes of the entries to an `f_pos` that is short of them, and the next call, which
  sees that the two differ, seeks again.  It comes back to an entry that was handed out if the distance is
  not less than what that entry takes.  At the end of a block `f_pos` is put right.

  And the index of the block is an `int`: positions from 2^40 on may have a negative one.

  * `fillCalls`            — calls with buffers of any sizes, one after the other;
  * `LseekRun`             — the states calls and seeks to any positions lead to;
  * `DeliversFrom`         — whatever the buffers, the entries from the position on are handed out, in order
                             and each once;
  * `lseek_delivers_iff`   — so it is iff the index is not negative and the distance is less than what the
                             entries take;
  * `entry_twice`          — a seek to position 1, and the same entry from two calls.
-/
import KernelPatches.Aufs.VdirFill

namespace KernelPatches.Aufs

open KernelPatches.Lib

variable {A : Arch}

/-! ## Calls and seeks -/

/-- Calls of `au_vdir_fill_de`, with a `filldir` that takes so many entries in each: what was handed out
    before and is now, whether the last call came to the end, the listing and `f_pos`. -/
def fillCalls (A : Arch) : List Nat → List (De × Nat) × Bool × Vdir × Nat →
    Except Trap (List (De × Nat) × Bool × Vdir × Nat)
  | [], s => .ok s
  | n :: ns, (got, _, v, fPos) =>
    match auVdirFillDe A n v fPos with
    | .error t => .error t
    | .ok (out, refused, v, fPos) => fillCalls A ns (got ++ out, !refused, v, fPos)

/-- What calls and seeks to any positions make of the copy `c` of a listing and of `f_pos`. -/
inductive LseekRun (A : Arch) (c : Vdir) : Vdir → Nat → Prop
  | start : LseekRun A c c 0
  | fill {v v' : Vdir} {fPos fPos' n : Nat} {out : List (De × Nat)} {refused : Bool}
      (h : LseekRun A c v fPos) (hfill : auVdirFillDe A n v fPos = .ok (out, refused, v', fPos')) :
      LseekRun A c v' fPos'
  | lseek {v : Vdir} {fPos : Nat} (h : LseekRun A c v fPos) (pos : Nat) : LseekRun A c v pos

/-- The entries from a position on. -/
def entriesFrom (pos : List (De × Nat)) (fPos : Nat) : List De :=
  (pos.filter fun x => fPos ≤ x.2).map Prod.fst

/-- Any calls after a seek to `fPos` come back, and hand out the entries from there on, in order and each
    once, and all of them when the end is reached. -/
def DeliversFrom (A : Arch) (pos : List (De × Nat)) (v : Vdir) (fPos : Nat) : Prop :=
  ∀ ns, ∃ got ended v' fPos', fillCalls A ns ([], false, v, fPos) = .ok (got, ended, v', fPos') ∧
    (∃ l, entriesFrom pos fPos = got.map Prod.fst ++ l) ∧
    (ended = true → got.map Prod.fst = entriesFrom pos fPos)

/-! ## What the calls hand out -/

section Calls

variable {bs : List (List De)}

theorem track_blocks (hsz : ∀ es ∈ bs, sizes A es ≤ deblkSize) : (track A bs hsz).Blocks (blockOf A bs) := by
  have hfin : ∀ {o}, (track A bs hsz).Known o → o ≤ endOffset A 0 bs := by
    rintro o (⟨x, hx, rfl⟩ | rfl)
    · exact Nat.le_of_lt ((track A bs hsz).lt_fin x hx)
    · exact Nat.le_refl _
  intro o o' ho ho' hle
  by_cases hend : o = endOffset A 0 bs
  · have hend' : o' = endOffset A 0 bs := by
      have h := hfin ho'
      omega
    rw [hend, hend']
  have hblk : blockOf A bs o = o / deblkSize := if_neg hend
  by_cases hend' : o' = endOffset A 0 bs
  · -- an entry, and the end
    obtain ⟨x, hx, rfl⟩ := ho.resolve_right hend
    have hlt : x.2 < deblkSize * (0 + bs.length) := placed_lt hsz x hx
    rw [hblk, blockOf, if_pos hend']
    have hdiv : x.2 / deblkSize < bs.length := Nat.div_lt_of_lt_mul (by rwa [Nat.zero_add] at hlt)
    omega
  · rw [hblk, blockOf, if_neg hend']
    exact Nat.div_le_div_right hle

/-- Calls of the code are calls of a reader who may be short of the entries. -/
theorem fillCalls_spec (hsz : ∀ es ∈ bs, sizes A es ≤ deblkSize) (hfirst : Halts A bs 0 0)
    (hbs : bs.length < 2 ^ 31) (ns : List Nat) : ∀ {got got' : List (De × Nat)} {ended : Bool} {v : Vdir}
    {fPos : Nat}, Built A v bs → Halts A bs v.lastI v.lastP → 0 ≤ seekIndex fPos →
    got.map Prod.fst = got'.map Prod.fst →
    ∃ out v', fillCalls A ns (got, ended, v, fPos) =
        .ok (out, ((track A bs hsz).calls (blockOf A bs) ns (got', ended, fPos)).2.1, v',
          ((track A bs hsz).calls (blockOf A bs) ns (got', ended, fPos)).2.2) ∧
      out.map Prod.fst = ((track A bs hsz).calls (blockOf A bs) ns (got', ended, fPos)).1.map Prod.fst := by
  induction ns with
  | nil => exact fun {got _ _ v _} _ _ _ hgot => ⟨got, v, rfl, hgot⟩
  | cons n ns ih =>
    intro got got' ended v fPos hv hhalt hidx hgot
    obtain ⟨d, i₀, i, p, heq, -, hhalt'⟩ := auVdirFillDe_spec hsz n hv hfirst hhalt (Or.inl hidx)
    have hidx' : 0 ≤ seekIndex ((track A bs hsz).slipped (blockOf A bs) n fPos) := by
      rcases (track A bs hsz).slipped_le (blockOf A bs) n fPos with hle | hsame
      · exact seekIndex_nonneg hsz hbs hle
      · rw [hsame]
        exact hidx
    have hout : (got ++ (((track A bs hsz).rest fPos).take n).map (short d i₀)).map Prod.fst =
        (got' ++ ((track A bs hsz).rest fPos).take n).map Prod.fst := by
      rw [List.map_append, List.map_append, short_fst, hgot]
    have hended : (!decide (n < ((track A bs hsz).rest fPos).length)) =
        decide (((track A bs hsz).rest fPos).length ≤ n) := by
      rw [← decide_not]
      exact decide_eq_decide.mpr Nat.not_lt
    rw [fillCalls, heq, Track.calls]
    dsimp only
    rw [hended]
    exact ih (hv.setLast i p) hhalt' hidx' hout

end Calls

/-- What calls and seeks leave as it is. -/
theorem LseekRun.halts {c v : Vdir} {fPos : Nat} {bs : List (List De)}
    (hsz : ∀ es ∈ bs, sizes A es ≤ deblkSize) (hc : Built A c bs) (hfirst : Halts A bs 0 0)
    (hstart : Halts A bs c.lastI c.lastP) (h : LseekRun A c v fPos) :
    Built A v bs ∧ Halts A bs v.lastI v.lastP := by
  induction h with
  | start => exact ⟨hc, hstart⟩
  | @fill v v' fPos fPos' n out refused _ hfill ih =>
    have hok : 0 ≤ seekIndex fPos ∨ fPos = calcOffset v := by
      by_contra hno
      obtain ⟨hneg, hcalc⟩ := not_or.mp hno
      rw [auVdirFillDe_wild hcalc (by omega)] at hfill
      cases hfill
    obtain ⟨d, i₀, i, p, heq, -, hhalt⟩ := auVdirFillDe_spec hsz n ih.1 hfirst ih.2 hok
    obtain rfl := congrArg (fun r => r.2.2.1) (Except.ok.inj (hfill.symm.trans heq))
    exact ⟨ih.1.setLast i p, hhalt⟩
  | lseek _ _ ih => exact ih

/-! ## Any position -/

/-- **Reading from any position.**  After any calls and seeks on a copy of a listing made by `append_de`, a seek
    to `fPos` is followed by the right entries iff the index of its block is not negative as an `int`, and
    the distance from `fPos` to the first entry is less than what each entry takes that is handed out before
    the end of that block. -/
theorem lseek_delivers_iff {w t c : Vdir} {es : List De} {mem mem' : Kmem} (hw : Appended A w es)
    (ht : Appended A t []) (hc : copyVdir A t w mem = (0, c, mem')) (hn : w.vdNblk < 2 ^ 31) :
    ∃ (bs : List (List De)) (h : Built A c bs), bs.flatten = es ∧
      ∀ {v : Vdir} {o : Nat}, LseekRun A c v o → ∀ fPos,
        (DeliversFrom A (placed A 0 bs) v fPos ↔
          0 ≤ seekIndex fPos ∧ (track A bs h.sizes_le).Clears (blockOf A bs) fPos) := by
  obtain ⟨bs, last, hopen, hflat⟩ := hw.isOpen
  obtain ⟨hbuilt, hlastI, hlastP, -⟩ := copyVdir_spec hopen.built hc
  have hfirst := hopen.halts_start
  have hstart : Halts A (bs ++ [last]) c.lastI c.lastP := by
    rw [hlastI, hlastP, ht.fresh.lastI, ht.fresh.lastP]
    exact hfirst
  rw [hopen.built.nblk] at hn
  refine ⟨bs ++ [last], hbuilt, hflat, fun {v o} hrun fPos => ?_⟩
  generalize bs ++ [last] = bs at *
  have hsz := hbuilt.sizes_le
  obtain ⟨hv, hhalt⟩ := hrun.halts hsz hbuilt hfirst hstart
  rw [← Track.calls_deliver_iff (track_blocks hsz) Prod.fst]
  by_cases hidx : 0 ≤ seekIndex fPos
  · -- the calls come back, and are those of the reader
    refine ⟨fun hd => ⟨hidx, fun ns => ?_⟩, fun hd ns => ?_⟩
    · obtain ⟨out, v', hcalls, hfst⟩ := fillCalls_spec hsz hfirst hn ns hv hhalt hidx
        (rfl : ([] : List (De × Nat)).map Prod.fst = [].map Prod.fst)
      obtain ⟨got, ended, v'', fPos', heq, hpre, hend⟩ := hd ns
      have hsame := Except.ok.inj (heq.symm.trans hcalls)
      have hgot : got = out := congrArg Prod.fst hsame
      have hended : ended = _ := congrArg (fun r => r.2.1) hsame
      rw [← hfst, ← hgot]
      exact ⟨hpre, fun h => hend (hended.trans h)⟩
    · obtain ⟨out, v', hcalls, hfst⟩ := fillCalls_spec hsz hfirst hn ns hv hhalt hidx
        (rfl : ([] : List (De × Nat)).map Prod.fst = [].map Prod.fst)
      refine ⟨_, _, _, _, hcalls, ?_, ?_⟩
      · rw [hfst]
        exact (hd.2 ns).1
      · rw [hfst]
        exact (hd.2 ns).2
  · -- the first call does not come back
    refine ⟨fun hd => ?_, fun hd => absurd hd.1 hidx⟩
    obtain ⟨got, ended, v', fPos', heq, -⟩ := hd [0]
    have hcalc : fPos ≠ calcOffset v := by
      rintro rfl
      apply hidx
      refine seekIndex_nonneg hsz hn ?_
      have hhead := hhalt.head hsz
      rw [calcOffset, Nat.add_comm, ← hhead]
      obtain ⟨l, hl⟩ := (track A bs hsz).exists_rest (deblkSize * v.lastI + v.lastP)
      rcases Track.known_headOffset hl with ⟨x, hx, hxo⟩ | hfin
      · rw [← hxo]
        exact Nat.le_of_lt ((track A bs hsz).lt_fin x hx)
      · exact Nat.le_of_eq hfin
    rw [fillCalls, auVdirFillDe_wild hcalc (by omega)] at heq
    cases heq

/-! ## An entry that comes twice -/

/-- A name of 18 letters, and one of one letter. -/
def longName : De := ⟨List.replicate 18 98, 6, 8⟩

def listingLong : Vdir :=
  (appendDe .ilp32 (fun _ => 0) (appendDe .ilp32 (fun _ => 0) newVdir longName .empty []).2.1 entryA
    .empty []).2.1

def copyLong : Vdir := (copyVdir .ilp32 newVdir listingLong []).2.1

theorem listingLong_appended : Appended .ilp32 listingLong [longName, entryA] := by
  have hnew : Appended .ilp32 newVdir [] := Appended.alloc (rfl : allocVdir .ilp32 [] = (.ok newVdir, []))
  have hlong : longName.Fits .ilp32 := ⟨by decide, by decide, by decide, by decide⟩
  have hshort : entryA.Fits .ilp32 := ⟨by decide, by decide, by decide, by decide⟩
  have hone := hnew.append hlong (rfl : appendDe .ilp32 (fun _ => 0) newVdir longName .empty [] =
    (0, (appendDe .ilp32 (fun _ => 0) newVdir longName .empty []).2.1, _, []))
  exact hone.append hshort (rfl : appendDe .ilp32 (fun _ => 0)
    (appendDe .ilp32 (fun _ => 0) newVdir longName .empty []).2.1 entryA .empty [] = (0, listingLong, _, []))

theorem lseek_delivers_long :
    ∃ (bs : List (List De)) (h : Built .ilp32 copyLong bs), bs.flatten = [longName, entryA] ∧
      ∀ {v : Vdir} {o : Nat}, LseekRun .ilp32 copyLong v o → ∀ fPos,
        (DeliversFrom .ilp32 (placed .ilp32 0 bs) v fPos ↔
          0 ≤ seekIndex fPos ∧ (track .ilp32 bs h.sizes_le).Clears (blockOf .ilp32 bs) fPos) :=
  lseek_delivers_iff listingLong_appended (Appended.alloc (rfl : allocVdir .ilp32 [] = (.ok newVdir, [])))
    (rfl : copyVdir .ilp32 newVdir listingLong [] = (0, copyLong, [])) (by decide)

theorem copyLong_calls : (fillCalls .ilp32 [1, 1] ([], false, copyLong, 1)).toOption.map
    (fun r => r.1.map Prod.fst) = some [entryA, entryA] := by
  decide +kernel

/-- **The second entry, from two calls**, after a seek to position 1: the first call leaves `f_pos` 23 short of
    the end, where the entry takes 8. -/
theorem entry_twice : LseekRun .ilp32 copyLong copyLong 1 ∧ listing .ilp32 copyLong = [longName, entryA] ∧
    placed .ilp32 0 [[longName, entryA]] = [(longName, 0), (entryA, 24)] ∧
    entriesFrom [(longName, 0), (entryA, 24)] 1 = [entryA] ∧
    (fillCalls .ilp32 [1, 1] ([], false, copyLong, 1)).toOption.map (fun r => r.1.map Prod.fst) =
      some [entryA, entryA] ∧
    ¬ DeliversFrom .ilp32 [(longName, 0), (entryA, 24)] copyLong 1 := by
  refine ⟨.lseek .start 1, by decide +kernel, by decide +kernel, by decide +kernel, copyLong_calls, fun hd => ?_⟩
  obtain ⟨got, ended, v', fPos', heq, ⟨l, hl⟩, -⟩ := hd [1, 1]
  have hgot : got.map Prod.fst = [entryA, entryA] := by
    have h := copyLong_calls
    rw [heq] at h
    exact Option.some.inj h
  have hone : entriesFrom [(longName, 0), (entryA, 24)] 1 = [entryA] := by decide +kernel
  rw [hgot, hone] at hl
  cases hl

end KernelPatches.Aufs
