/-
  aufs: the whiteout base that has too many links.

  An operation whose link of a whiteout fails with EMLINK queues a work that makes a new base.  The work is
  queued under the lock of the super block for reading, and does it under that for writing.  But it reads
  `br_wbr` before it has the lock.  A remount waits for the works that are queued, and then for the lock: a work
  that is queued in between may have read a `br_wbr` that the remount frees, or finds the base gone.

  * `ReinitSb`                 — a branch, the operations that are in it, the works, and the remount;
  * `reinitBrWh`               — the work, once it has the lock;
  * `ReinitStep`               — what each of them does next, in any order;
  * `WorkSound`                — the work uses the installed `br_wbr`, with its base;
  * `run_reinit`               — where no remount takes away what a queued work relies on, this holds, there is
                                 one work at most, and the counter is 0 when there is none;
  * `remount_meets_work`       — two remounts that do.
-/
import Mathlib.Data.Multiset.Filter
import KernelPatches.Aufs.BrMod

namespace KernelPatches.Aufs

open KernelPatches.Lib

/-! ## The model -/

/-- `struct au_wbr`: the dentries, and `wbr_wh_running`. -/
structure AuWbr where
  wbrWh : AuWbrWh
  wbrWhRunning : Int
  deriving DecidableEq, Repr

/-- How far an operation has come: it links, `kick_reinit_br_wh` has counted up to a value, or it is through
    with that. -/
inductive KickPhase where
  | linking
  | counted (n : Int)
  | done
  deriving DecidableEq, Repr

/-- An operation that holds the lock for reading: the `br_wbr` it has read. -/
structure WhLinker where
  wbr : Nat
  phase : KickPhase
  deriving DecidableEq, Repr

/-- A work: the `br_wbr` it was counted on, and what it has read of `br_wbr`, if it has. -/
structure ReinitWork where
  kicked : Nat
  wbr : Option (Option Nat)
  deriving DecidableEq, Repr

/-- A remount: it has waited for the works, or it has the lock. -/
inductive RemountPhase where
  | idle
  | flushed
  | locked
  deriving DecidableEq, Repr

/-- A branch, with the memory its `br_wbr` points to.  `fresh` is an address that was not in use yet. -/
structure ReinitSb where
  brPerm : BrPerm
  brWbr : Option Nat
  wbrs : Nat → AuWbr
  fresh : Nat
  names : WhNames
  linkers : Multiset WhLinker
  siNowait : Multiset ReinitWork
  remount : RemountPhase

/-- `br_wbr` with its dentries. -/
def ReinitSb.wh (s : ReinitSb) : Option AuWbrWh := s.brWbr.map fun w => (s.wbrs w).wbrWh

/-- The dentries of one. -/
def ReinitSb.setWh (s : ReinitSb) (w : Nat) (wh : AuWbrWh) : ReinitSb :=
  { s with wbrs := Function.update s.wbrs w { s.wbrs w with wbrWh := wh } }

/-- `wbr_wh_running` of one goes up or down. -/
def ReinitSb.count (s : ReinitSb) (w : Nat) (n : Int) : ReinitSb :=
  { s with wbrs := Function.update s.wbrs w { s.wbrs w with wbrWhRunning := (s.wbrs w).wbrWhRunning + n } }

/-- What `au_wh_init` leaves for the installed one, which is freed if the result has none. -/
def ReinitSb.inited (s : ReinitSb) (names : WhNames) (wh : Option AuWbrWh) : ReinitSb :=
  match s.brWbr, wh with
  | some w, some wh => { s.setWh w wh with names := names }
  | _, _ => { s with names := names, brWbr := none }

/-- What the work finds: whether the base is where it was, and the result of removing it. -/
structure ReinitEnv where
  moved : Bool
  unlink : Int
  wh : WhEnv

/-- The result of removing the base, which is not done if it is somewhere else. -/
def ReinitEnv.err (env : ReinitEnv) : Int := if env.moved then 0 else env.unlink

/-- The base is removed, and its dentry dropped. -/
def ReinitSb.dropBase (s : ReinitSb) (env : ReinitEnv) (w : Nat) : ReinitSb :=
  { s.setWh w { (s.wbrs w).wbrWh with wbrWhbase := false } with
    names := if !env.moved && env.unlink = 0 then { s.names with base := .neg } else s.names }

/-- `reinit_br_wh`, from the lock on, where `wbr` is what it has read before. -/
def reinitBrWh (env : ReinitEnv) (wbr : Option Nat) (s : ReinitSb) : Except BrTrap ReinitSb :=
  if !auBrWritable s.brPerm then
    .ok (match wbr with
      | none => s
      | some w => s.count w (-1))
  else
    match wbr with
    | none => .error .null
    | some w =>
      -- dget_parent(wbr->wbr_whbase)
      if !(s.wbrs w).wbrWh.wbrWhbase then .error .null
      else
        let s := s.dropBase env w
        if env.err ≠ 0 then .ok (s.count w (-1))
        else
          match auWhInit env.wh s.brPerm s.names s.wh with
          | .error t => .error t
          | .ok (_, names, wh) => .ok ((s.inited names wh).count w (-1))

/-- `au_br_mod` of the branch, after `test_br`: `busy` if `au_br_mod_files_ro` comes to a file that is
    mapped. -/
def modBr (env : WhEnv) (memory busy : Bool) (perm : BrPerm) (s : ReinitSb) : Except BrTrap ReinitSb :=
  if s.brPerm = perm then .ok s
  else if auBrWritable s.brPerm then
    match auBrInitWh env perm s.names s.wh with
    | .error t => .error t
    | .ok (err, names, wh) =>
      let s := s.inited names wh
      if err ≠ 0 ∨ (!auBrWritable perm && busy) then .ok s else .ok { s with brPerm := perm }
  else if auBrWritable perm then
    if !memory then .ok s
    else
      match auBrInitWh env perm s.names (some noWbrWh) with
      | .error t => .error t
      | .ok (err, names, wh) =>
        let s := { s with names := names, fresh := s.fresh + 1 }
        if err ≠ 0 then .ok s
        else
          .ok { s with
            brPerm := perm
            brWbr := some (s.fresh - 1)
            wbrs := Function.update s.wbrs (s.fresh - 1) ⟨wh.getD noWbrWh, 0⟩ }
  else .ok { s with brPerm := perm }

/-! ## Steps -/

inductive ReinitEvent where
  | linkerLock
  | linkerUnlock
  | emlink
  | queue
  | noQueue
  | flush
  | remountLock
  | mod (env : WhEnv) (memory busy : Bool) (perm : BrPerm)
  | remountUnlock
  | sample
  | reinit (env : ReinitEnv)

/-- A step of one of them.  A work does what it does under the lock in one step. -/
inductive ReinitStep : ReinitSb → ReinitEvent → ReinitSb → Prop
  /-- An operation on a writable branch. -/
  | linkerLock {s : ReinitSb} {w : Nat} (hlock : s.remount ≠ .locked) (hperm : auBrWritable s.brPerm)
      (hwbr : s.brWbr = some w) :
      ReinitStep s .linkerLock { s with linkers := ⟨w, .linking⟩ ::ₘ s.linkers }
  | linkerUnlock {s : ReinitSb} {w : Nat} {phase : KickPhase} {rest : Multiset WhLinker}
      (hl : s.linkers = ⟨w, phase⟩ ::ₘ rest) (hphase : phase = .linking ∨ phase = .done) :
      ReinitStep s .linkerUnlock { s with linkers := rest }
  /-- The link count of the base is full: `atomic_inc_return`. -/
  | emlink {s : ReinitSb} {w : Nat} {rest : Multiset WhLinker} (hl : s.linkers = ⟨w, .linking⟩ ::ₘ rest)
      (hbase : (s.wbrs w).wbrWh.wbrWhbase) :
      ReinitStep s .emlink
        { s.count w 1 with linkers := ⟨w, .counted ((s.wbrs w).wbrWhRunning + 1)⟩ ::ₘ rest }
  /-- The first one queues the work. -/
  | queue {s : ReinitSb} {w : Nat} {rest : Multiset WhLinker} (hl : s.linkers = ⟨w, .counted 1⟩ ::ₘ rest) :
      ReinitStep s .queue { s with linkers := ⟨w, .done⟩ ::ₘ rest, siNowait := ⟨w, none⟩ ::ₘ s.siNowait }
  /-- Another one does not, and one that has no memory: `atomic_dec_return`. -/
  | noQueue {s : ReinitSb} {w : Nat} {n : Int} {rest : Multiset WhLinker}
      (hl : s.linkers = ⟨w, .counted n⟩ ::ₘ rest) :
      ReinitStep s .noQueue { s.count w (-1) with linkers := ⟨w, .done⟩ ::ₘ rest }
  /-- `au_nwt_flush` of `si_write_lock` -/
  | flush {s : ReinitSb} (hidle : s.remount = .idle) (hnw : s.siNowait = 0) :
      ReinitStep s .flush { s with remount := .flushed }
  | remountLock {s : ReinitSb} (hflushed : s.remount = .flushed) (hl : s.linkers = 0) :
      ReinitStep s .remountLock { s with remount := .locked }
  | mod {s s' : ReinitSb} {env : WhEnv} {memory busy : Bool} {perm : BrPerm} (hlock : s.remount = .locked)
      (h : modBr env memory busy perm s = .ok s') : ReinitStep s (.mod env memory busy perm) s'
  | remountUnlock {s : ReinitSb} (hlock : s.remount = .locked) :
      ReinitStep s .remountUnlock { s with remount := .idle }
  /-- The work reads `br_wbr`, without a lock. -/
  | sample {s : ReinitSb} {w : Nat} {rest : Multiset ReinitWork} (hnw : s.siNowait = ⟨w, none⟩ ::ₘ rest) :
      ReinitStep s .sample { s with siNowait := ⟨w, some s.brWbr⟩ ::ₘ rest }
  | reinit {s s' : ReinitSb} {env : ReinitEnv} {w : Nat} {wbr : Option Nat} {rest : Multiset ReinitWork}
      (hnw : s.siNowait = ⟨w, some wbr⟩ ::ₘ rest) (hlock : s.remount ≠ .locked) (hl : s.linkers = 0)
      (h : reinitBrWh env wbr s = .ok s') : ReinitStep s (.reinit env) { s' with siNowait := rest }

/-- A branch as it is mounted, with a `br_wbr` that is initialized. -/
def ReinitSb.mounted (brPerm : BrPerm) (wbr : AuWbrWh) (names : WhNames) : ReinitSb :=
  { brPerm, names
    brWbr := if auBrWritable brPerm then some 0 else none
    wbrs := fun _ => ⟨wbr, 0⟩
    fresh := 1, linkers := 0, siNowait := 0, remount := .idle }

/-- **A work that has the lock is sound**: it uses the installed `br_wbr` only, and if the branch is writable
    there is one, with a base. -/
def WorkSound (s : ReinitSb) (wbr : Option Nat) : Prop :=
  (∀ w, wbr = some w → s.brWbr = some w) ∧
  (auBrWritable s.brPerm → ∃ w, wbr = some w ∧ (s.wbrs w).wbrWh.wbrWhbase)

/-- What is claimed of a state. -/
structure ReinitOk (s : ReinitSb) : Prop where
  one : ∀ w, s.brWbr = some w → s.siNowait.countP (fun k => k.kicked = w) ≤ 1
  idle : ∀ w, s.brWbr = some w → s.siNowait.countP (fun k => k.kicked = w) = 0 →
    (∀ l ∈ s.linkers, ∀ n, l ≠ ⟨w, .counted n⟩) → (s.wbrs w).wbrWhRunning = 0
  sound : ∀ w wbr, ⟨w, some wbr⟩ ∈ s.siNowait → s.remount ≠ .locked → s.linkers = 0 → WorkSound s wbr

/-- **The change takes nothing away from a work that is queued**: it does not come to the branch, or fails before
    anything is dropped, or frees a `br_wbr` that no work has read and leaves the branch read-only, or there is no
    work. -/
def ModSafe (s : ReinitSb) (env : WhEnv) (memory busy : Bool) (perm : BrPerm) : Prop :=
  s.siNowait = 0 ∨ s.brPerm = perm ∨
  if auBrWritable s.brPerm then
    ¬ WhFound env ∨ auBrWritable perm = false ∧ busy = false ∧ ∀ k ∈ s.siNowait, k.wbr = none
  else auBrWritable perm = false ∨ memory = false ∨ ¬ (WhFound env ∧ WhMade env perm s.names)

def ReinitSafe (s : ReinitSb) : ReinitEvent → Prop
  | .mod env memory busy perm => ModSafe s env memory busy perm
  | _ => True

/-! ## What holds in a run -/

/-- The operation has counted up, and not down or to the work. -/
def WhLinker.counts (l : WhLinker) : Bool :=
  match l.phase with
  | .counted _ => true
  | _ => false

/-- It is the one that queues the work. -/
def WhLinker.first (l : WhLinker) : Bool := l.phase = .counted 1

/-- The work is for the installed `br_wbr`, with its base, or the branch is read-only. -/
def WorkInv (s : ReinitSb) (k : ReinitWork) : Prop :=
  (s.brWbr = some k.kicked ∧ (s.wbrs k.kicked).wbrWh.wbrWhbase = true ∧
    (k.wbr = none ∨ k.wbr = some (some k.kicked))) ∨
  (s.brWbr = none ∧ auBrWritable s.brPerm = false ∧ (k.wbr = none ∨ k.wbr = some none))

/-- **The invariant**: the counter is the number of works and of operations that have counted up, and of the works
    and the operations that will queue one there is one at most. -/
structure ReinitInv (s : ReinitSb) : Prop where
  wbr : ∀ w, s.brWbr = some w → w < s.fresh ∧ auBrWritable s.brPerm = true
  linker : ∀ l ∈ s.linkers, s.brWbr = some l.wbr ∧ (l.counts = true → (s.wbrs l.wbr).wbrWh.wbrWhbase = true)
  locked : s.remount = .locked → s.linkers = 0
  work : ∀ k ∈ s.siNowait, WorkInv s k
  running : ∀ w, s.brWbr = some w →
    (s.wbrs w).wbrWhRunning = (s.siNowait.card : Int) + (s.linkers.countP fun l => l.counts)
  first : s.siNowait.card + s.linkers.countP (fun l => l.first) ≤ 1

theorem WhLinker.counts_of_first {l : WhLinker} (h : l.first = true) : l.counts = true := by
  unfold WhLinker.first at h
  unfold WhLinker.counts
  rw [of_decide_eq_true h]

section

variable {s s' : ReinitSb}

@[simp] theorem count_brWbr (w : Nat) (n : Int) : (s.count w n).brWbr = s.brWbr := rfl
@[simp] theorem count_brPerm (w : Nat) (n : Int) : (s.count w n).brPerm = s.brPerm := rfl
@[simp] theorem count_siNowait (w : Nat) (n : Int) : (s.count w n).siNowait = s.siNowait := rfl
@[simp] theorem setWh_brWbr (w : Nat) (wh : AuWbrWh) : (s.setWh w wh).brWbr = s.brWbr := rfl
@[simp] theorem setWh_brPerm (w : Nat) (wh : AuWbrWh) : (s.setWh w wh).brPerm = s.brPerm := rfl

@[simp] theorem count_wbrWh (w v : Nat) (n : Int) : ((s.count w n).wbrs v).wbrWh = (s.wbrs v).wbrWh := by
  unfold ReinitSb.count
  by_cases h : v = w
  · subst h
    simp
  · simp [h]

@[simp] theorem count_running (w : Nat) (n : Int) :
    ((s.count w n).wbrs w).wbrWhRunning = (s.wbrs w).wbrWhRunning + n := by
  simp [ReinitSb.count]

@[simp] theorem setWh_running (w v : Nat) (wh : AuWbrWh) :
    ((s.setWh w wh).wbrs v).wbrWhRunning = (s.wbrs v).wbrWhRunning := by
  unfold ReinitSb.setWh
  by_cases h : v = w
  · subst h
    simp
  · simp [h]

@[simp] theorem setWh_wbrWh (w : Nat) (wh : AuWbrWh) : ((s.setWh w wh).wbrs w).wbrWh = wh := by
  simp [ReinitSb.setWh]

/-- Nothing is queued, and nobody is in the branch. -/
theorem ReinitInv.quiet (hwbr : ∀ w, s.brWbr = some w → w < s.fresh ∧ auBrWritable s.brPerm = true)
    (hl : s.linkers = 0) (hnw : s.siNowait = 0) (hrun : ∀ w, s.brWbr = some w → (s.wbrs w).wbrWhRunning = 0) :
    ReinitInv s where
  wbr := hwbr
  linker l h := by
    rw [hl] at h
    exact absurd h (Multiset.notMem_zero l)
  locked _ := hl
  work k h := by
    rw [hnw] at h
    exact absurd h (Multiset.notMem_zero k)
  running w h := by
    rw [hrun w h, hl, hnw]
    rfl
  first := by
    rw [hl, hnw]
    exact Nat.zero_le 1

/-- **What is claimed follows.** -/
theorem ReinitInv.ok (h : ReinitInv s) : ReinitOk s where
  one w _ := by
    have hle : s.siNowait.countP (fun k => k.kicked = w) ≤ s.siNowait.card := Multiset.countP_le_card _ _
    have := h.first
    omega
  idle w hw hnone hlinkers := by
    have hcard : s.siNowait.card = 0 := by
      rw [← hnone, Eq.comm, Multiset.countP_eq_card]
      intro k hk
      rcases h.work k hk with ⟨hw', -⟩ | ⟨hno, -⟩
      · exact Option.some.inj (hw'.symm.trans hw)
      · rw [hno] at hw
        cases hw
    have hcounts : s.linkers.countP (fun l => l.counts) = 0 := by
      rw [Multiset.countP_eq_zero]
      intro l hl hc
      obtain ⟨v, phase⟩ := l
      cases phase with
      | linking => cases hc
      | done => cases hc
      | counted n =>
        have hv : s.brWbr = some v := (h.linker _ hl).1
        obtain rfl := Option.some.inj (hv.symm.trans hw)
        exact hlinkers _ hl n rfl
    rw [h.running w hw, hcard, hcounts]
    rfl
  sound w wbr hk _ _ := by
    rcases h.work _ hk with ⟨hw, hbase, hor⟩ | ⟨hno, hperm, hor⟩
    · have hwbr : wbr = some w := by
        rcases hor with hc | hc
        · cases hc
        · exact Option.some.inj hc
      subst hwbr
      refine ⟨fun v hv => ?_, fun _ => ⟨w, rfl, hbase⟩⟩
      obtain rfl := Option.some.inj hv
      exact hw
    · have hwbr : wbr = none := by
        rcases hor with hc | hc
        · cases hc
        · exact Option.some.inj hc
      subst hwbr
      refine ⟨fun v hv => ?_, fun hc => ?_⟩
      · cases hv
      · rw [hperm] at hc
        cases hc

@[simp] theorem counts_linking (w : Nat) : (⟨w, .linking⟩ : WhLinker).counts = false := rfl
@[simp] theorem counts_counted (w : Nat) (n : Int) : (⟨w, .counted n⟩ : WhLinker).counts = true := rfl
@[simp] theorem counts_done (w : Nat) : (⟨w, .done⟩ : WhLinker).counts = false := rfl
@[simp] theorem first_linking (w : Nat) : (⟨w, .linking⟩ : WhLinker).first = false := rfl
@[simp] theorem first_done (w : Nat) : (⟨w, .done⟩ : WhLinker).first = false := rfl

@[simp] theorem first_counted (w : Nat) (n : Int) : (⟨w, .counted n⟩ : WhLinker).first = decide (n = 1) := by
  simp [WhLinker.first]

@[simp] theorem countP_counts_cons (l : WhLinker) (rest : Multiset WhLinker) :
    (l ::ₘ rest).countP (fun l => l.counts) = rest.countP (fun l => l.counts) + if l.counts then 1 else 0 :=
  Multiset.countP_cons _ _ _

@[simp] theorem countP_first_cons (l : WhLinker) (rest : Multiset WhLinker) :
    (l ::ₘ rest).countP (fun l => l.first) = rest.countP (fun l => l.first) + if l.first then 1 else 0 :=
  Multiset.countP_cons _ _ _

theorem countP_first_le (ls : Multiset WhLinker) :
    ls.countP (fun l => l.first) ≤ ls.countP (fun l => l.counts) := by
  induction ls using Multiset.induction_on with
  | empty => exact Nat.le_refl _
  | cons l ls ih =>
    rw [countP_counts_cons, countP_first_cons]
    by_cases hl : l.first = true
    · rw [if_pos hl, if_pos (WhLinker.counts_of_first hl)]
      exact Nat.succ_le_succ ih
    · rw [if_neg hl, Nat.add_zero]
      exact Nat.le_trans ih (Nat.le_add_right _ _)

/-- The counter, and what is counted by it, where an operation is in the branch. -/
theorem ReinitInv.counted {l : WhLinker} {rest : Multiset WhLinker} (h : ReinitInv s)
    (hl : s.linkers = l ::ₘ rest) :
    (s.wbrs l.wbr).wbrWhRunning =
      (s.siNowait.card : Int) + (rest.countP (fun l => l.counts) + if l.counts then 1 else 0 : Nat) ∧
    s.siNowait.card + (rest.countP (fun l => l.first) + if l.first then 1 else 0) ≤ 1 := by
  have hw := (h.linker l (by rw [hl]; exact Multiset.mem_cons_self _ _)).1
  rw [← countP_counts_cons, ← countP_first_cons, ← hl]
  exact ⟨h.running _ hw, h.first⟩

/-- An operation comes to another phase, or goes. -/
theorem ReinitInv.relink {w : Nat} {phase : KickPhase} {rest ls : Multiset WhLinker} {nw : Multiset ReinitWork}
    (h : ReinitInv s) (hl : s.linkers = ⟨w, phase⟩ ::ₘ rest) (hrest : ∀ l ∈ ls, l ∈ rest ∨ l.wbr = w ∧
      (l.counts = true → (s.wbrs w).wbrWh.wbrWhbase = true)) (n : Int)
    (hnw : ∀ k ∈ nw, k ∈ s.siNowait ∨ k = ⟨w, none⟩ ∧ (s.wbrs w).wbrWh.wbrWhbase = true)
    (hrunning : (s.wbrs w).wbrWhRunning + n = (nw.card : Int) + (ls.countP fun l => l.counts))
    (hfirst : nw.card + ls.countP (fun l => l.first) ≤ 1) :
    ReinitInv { s.count w n with linkers := ls, siNowait := nw } := by
  have hw : s.brWbr = some w := (h.linker _ (by rw [hl]; exact Multiset.mem_cons_self _ _)).1
  have hnot : s.remount ≠ .locked := fun hc => by
    have := h.locked hc
    rw [hl] at this
    exact Multiset.cons_ne_zero this
  constructor
  · exact h.wbr
  · intro l hmem
    refine ⟨?_, fun hc => ?_⟩
    · rcases hrest l hmem with hmem | ⟨rfl, -⟩
      · exact (h.linker l (by rw [hl]; exact Multiset.mem_cons_of_mem hmem)).1
      · exact hw
    · show ((s.count w n).wbrs l.wbr).wbrWh.wbrWhbase = true
      rw [count_wbrWh]
      rcases hrest l hmem with hmem | ⟨rfl, hbase⟩
      · exact (h.linker l (by rw [hl]; exact Multiset.mem_cons_of_mem hmem)).2 hc
      · exact hbase hc
  · exact fun hc => absurd hc hnot
  · intro k hmem
    unfold WorkInv
    dsimp only
    rw [count_wbrWh]
    rcases hnw k hmem with hmem | ⟨rfl, hbase⟩
    · exact h.work k hmem
    · exact Or.inl ⟨hw, hbase, Or.inl rfl⟩
  · intro v hv
    obtain rfl := Option.some.inj (hw.symm.trans hv)
    exact (count_running w n).trans hrunning
  · exact hfirst

theorem inited_some {w : Nat} (hw : s.brWbr = some w) (names : WhNames) (wh : AuWbrWh) :
    s.inited names (some wh) = { s.setWh w wh with names := names } := by
  unfold ReinitSb.inited
  rw [hw]

theorem inited_none (names : WhNames) : s.inited names none = { s with names := names, brWbr := none } := by
  unfold ReinitSb.inited
  cases s.brWbr with
  | none => rfl
  | some w => rfl

/-- The work with the installed `br_wbr` counts down. -/
theorem reinitBrWh_some {env : ReinitEnv} {w : Nat} (hw : s.brWbr = some w)
    (hperm : auBrWritable s.brPerm = true) (hbase : (s.wbrs w).wbrWh.wbrWhbase = true)
    (hrun : reinitBrWh env (some w) s = .ok s') :
    s'.brWbr = some w ∧ s'.brPerm = s.brPerm ∧ s'.fresh = s.fresh ∧ s'.linkers = s.linkers ∧
      (s'.wbrs w).wbrWhRunning = (s.wbrs w).wbrWhRunning - 1 := by
  have hdrop : (s.dropBase env w).brWbr = some w := hw
  have hrunning : ((s.dropBase env w).wbrs w).wbrWhRunning = (s.wbrs w).wbrWhRunning := setWh_running w w _
  unfold reinitBrWh at hrun
  rw [hperm, if_neg (by decide)] at hrun
  dsimp only at hrun
  rw [hbase, if_neg (by decide)] at hrun
  split at hrun
  · cases hrun
    refine ⟨hw, rfl, rfl, rfl, ?_⟩
    rw [count_running, hrunning]
    rfl
  · -- `br_wbr` stays, with the dentries `au_wh_init` leaves
    have hwh : (s.dropBase env w).wh = some ((s.dropBase env w).wbrs w).wbrWh := by
      rw [ReinitSb.wh, hdrop]
      rfl
    obtain ⟨err, names, wh, hinit⟩ :=
      auWhInit_some env.wh (s.dropBase env w).names (show auBrWritable (s.dropBase env w).brPerm = true from hperm)
        ((s.dropBase env w).wbrs w).wbrWh
    rw [hwh, hinit] at hrun
    dsimp only at hrun
    rw [inited_some hdrop] at hrun
    cases hrun
    refine ⟨hw, rfl, rfl, rfl, ?_⟩
    rw [count_running]
    show (((s.dropBase env w).setWh w wh).wbrs w).wbrWhRunning + -1 = _
    rw [setWh_running, hrunning]
    rfl

/-- The work, where it is sound. -/
theorem ReinitInv.reinit {env : ReinitEnv} {w : Nat} {wbr : Option Nat} {rest : Multiset ReinitWork}
    (h : ReinitInv s) (hnw : s.siNowait = ⟨w, some wbr⟩ ::ₘ rest) (hl : s.linkers = 0)
    (hrun : reinitBrWh env wbr s = .ok s') : ReinitInv { s' with siNowait := rest } := by
  have hrest : rest = 0 := by
    have hfirst := h.first
    rw [hnw, Multiset.card_cons] at hfirst
    exact Multiset.card_eq_zero.mp (by omega)
  have hmem : ⟨w, some wbr⟩ ∈ s.siNowait := by
    rw [hnw]
    exact Multiset.mem_cons_self _ _
  rcases h.work _ hmem with ⟨hw, hbase, hor⟩ | ⟨hno, hperm, hor⟩
  · obtain rfl : wbr = some w := by
      rcases hor with hc | hc
      · cases hc
      · exact Option.some.inj hc
    obtain ⟨hlt, hperm⟩ := h.wbr w hw
    obtain ⟨hw', hperm', hfresh', hl', hrunning'⟩ := reinitBrWh_some hw hperm hbase hrun
    refine ReinitInv.quiet (fun v hv => ?_) (hl'.trans hl) hrest fun v hv => ?_
    · obtain rfl := Option.some.inj (hw'.symm.trans hv)
      show _ < s'.fresh ∧ auBrWritable s'.brPerm = true
      rw [hfresh', hperm']
      exact ⟨hlt, hperm⟩
    · obtain rfl := Option.some.inj (hw'.symm.trans hv)
      refine hrunning'.trans ?_
      rw [h.running w hw, hnw, hrest, hl]
      rfl
  · obtain rfl : wbr = none := by
      rcases hor with hc | hc
      · cases hc
      · exact Option.some.inj hc
    have hs : s' = s := by
      unfold reinitBrWh at hrun
      rw [hperm, if_pos (by decide)] at hrun
      cases hrun
      rfl
    subst hs
    refine ReinitInv.quiet (fun v hv => ?_) hl hrest fun v hv => ?_
    · rw [hno] at hv
      cases hv
    · rw [hno] at hv
      cases hv

/-- The branch changes under the lock, where nobody is in it. -/
theorem ReinitInv.locked_change (h : ReinitInv s) (hl : s.linkers = 0) (hl' : s'.linkers = s.linkers)
    (hnw : s'.siNowait = s.siNowait)
    (hwbr : ∀ w, s'.brWbr = some w → w < s'.fresh ∧ auBrWritable s'.brPerm = true)
    (hwork : ∀ k ∈ s.siNowait, WorkInv s' k)
    (hrunning : ∀ w, s'.brWbr = some w → (s'.wbrs w).wbrWhRunning = (s.siNowait.card : Int)) : ReinitInv s' := by
  rw [hl] at hl'
  constructor
  · exact hwbr
  · intro l hmem
    rw [hl'] at hmem
    exact absurd hmem (Multiset.notMem_zero l)
  · exact fun _ => hl'
  · rw [hnw]
    exact hwork
  · intro w hw
    rw [hrunning w hw, hl', hnw, Multiset.countP_zero]
    exact (Int.add_zero _).symm
  · have hfirst := h.first
    rw [hl', hnw]
    rwa [hl] at hfirst

section

variable {env : WhEnv} {memory busy : Bool} {perm : BrPerm}

/-- A branch that stays writable keeps its `br_wbr`, and the base if a work is queued. -/
theorem ReinitInv.mod_kept {w : Nat} {wh : AuWbrWh} {names : WhNames} (h : ReinitInv s) (hl : s.linkers = 0)
    (hw : s.brWbr = some w) (hwh : s.siNowait ≠ 0 → wh = (s.wbrs w).wbrWh)
    (hs : s' = { s.setWh w wh with names := names, brPerm := s'.brPerm }) (hperm : auBrWritable s'.brPerm = true) :
    ReinitInv s' := by
  have hwbrs : ∀ v, s'.wbrs v = (s.setWh w wh).wbrs v := fun v => by rw [hs]
  have hbrWbr : s'.brWbr = some w := by
    rw [hs]
    exact hw
  refine h.locked_change hl (by rw [hs]; rfl) (by rw [hs]; rfl) (fun v hv => ?_) (fun k hk => ?_) fun v hv => ?_
  · obtain rfl := Option.some.inj (hbrWbr.symm.trans hv)
    refine ⟨?_, hperm⟩
    rw [hs]
    exact (h.wbr w hw).1
  · rcases h.work k hk with ⟨hwk, hbase, hor⟩ | ⟨hno, -⟩
    · obtain rfl := Option.some.inj (hw.symm.trans hwk)
      refine Or.inl ⟨hbrWbr, ?_, hor⟩
      have hne : s.siNowait ≠ 0 := fun hc => by
        rw [hc] at hk
        exact Multiset.notMem_zero k hk
      rw [hwbrs, setWh_wbrWh, hwh hne]
      exact hbase
    · rw [hno] at hw
      cases hw
  · obtain rfl := Option.some.inj (hbrWbr.symm.trans hv)
    rw [hwbrs, setWh_running, h.running w hw, hl, Multiset.countP_zero]
    exact Int.add_zero _

/-- A change of a writable branch. -/
theorem ReinitInv.mod_rw (h : ReinitInv s) (hl : s.linkers = 0) (hold : auBrWritable s.brPerm = true)
    (hne : s.brPerm ≠ perm) (hsafe : ModSafe s env memory busy perm)
    (hmod : modBr env memory busy perm s = .ok s') : ReinitInv s' := by
  have hsafe : s.siNowait ≠ 0 → ¬ WhFound env ∨ auBrWritable perm = false ∧ busy = false ∧
      ∀ k ∈ s.siNowait, k.wbr = none := by
    intro hnw
    rcases hsafe with hc | hc | hsafe
    · exact absurd hc hnw
    · exact absurd hc hne
    · rwa [if_pos hold] at hsafe
  unfold modBr at hmod
  rw [if_neg hne, if_pos hold] at hmod
  cases hw : s.brWbr with
  | none =>
    -- nothing is queued for a branch without one
    have hnw : ∀ k ∈ s.siNowait, False := by
      intro k hk
      rcases h.work k hk with ⟨hwk, -⟩ | ⟨-, hro, -⟩
      · rw [hw] at hwk
        cases hwk
      · rw [hold] at hro
        cases hro
    have hnone : ∀ names wh, (s.inited names wh) = { s with names := names, brWbr := none } := by
      intro names wh
      unfold ReinitSb.inited
      rw [hw]
    have hs : ∃ names p, s' = { s with names := names, brWbr := none, brPerm := p } := by
      split at hmod
      · cases hmod
      · dsimp only at hmod
        rw [hnone] at hmod
        split at hmod
        · cases hmod
          exact ⟨_, _, rfl⟩
        · cases hmod
          exact ⟨_, _, rfl⟩
    obtain ⟨names, p, rfl⟩ := hs
    exact h.locked_change hl rfl rfl (fun v hv => by cases hv) (fun k hk => (hnw k hk).elim)
      fun v hv => by cases hv
  | some w =>
    have hwh : s.wh = some (s.wbrs w).wbrWh := by
      rw [ReinitSb.wh, hw]
      rfl
    rw [hwh] at hmod
    by_cases hnew : auBrWritable perm = true
    · obtain ⟨err, names, hinit, -⟩ := auBrInitWh_writable env s.names hnew (s.wbrs w).wbrWh
      rw [hinit] at hmod
      dsimp only at hmod
      rw [inited_some hw, hnew] at hmod
      have hkept : s.siNowait ≠ 0 →
          (if WhFound env then whReached env perm s.names else (s.wbrs w).wbrWh) = (s.wbrs w).wbrWh := by
        intro hnw
        rcases hsafe hnw with hfound | ⟨hro, -⟩
        · exact if_neg hfound
        · rw [hnew] at hro
          cases hro
      split at hmod
      · cases hmod
        exact h.mod_kept hl hw hkept rfl hold
      · cases hmod
        exact h.mod_kept hl hw hkept rfl hnew
    · have hro := Bool.eq_false_iff.mpr hnew
      obtain ⟨err, names, hinit, hiff⟩ := auBrInitWh_ro env s.names hro (s.wbrs w).wbrWh
      rw [hinit] at hmod
      dsimp only at hmod
      by_cases hfound : WhFound env
      · -- it is freed
        rw [if_pos hfound, inited_none, hiff.mpr hfound, hro] at hmod
        have hs : s' = { s with names := names, brWbr := none, brPerm := if busy then s.brPerm else perm } := by
          cases busy with
          | true =>
            rw [if_pos (by decide)] at hmod
            cases hmod
            rfl
          | false =>
            rw [if_neg (by decide)] at hmod
            cases hmod
            rfl
        subst hs
        refine h.locked_change hl rfl rfl (fun v hv => by cases hv) (fun k hk => ?_) fun v hv => by cases hv
        have hnw : s.siNowait ≠ 0 := fun hc => by
          rw [hc] at hk
          exact Multiset.notMem_zero k hk
        rcases hsafe hnw with hc | ⟨-, hbusy, hunread⟩
        · exact absurd hfound hc
        · refine Or.inr ⟨rfl, ?_, Or.inl (hunread k hk)⟩
          rw [hbusy]
          exact hro
      · rw [if_neg hfound, inited_some hw, if_pos (Or.inl (mt hiff.mp hfound))] at hmod
        cases hmod
        exact h.mod_kept hl hw (fun _ => rfl) rfl hold

/-- A change of a read-only branch. -/
theorem ReinitInv.mod_ro (h : ReinitInv s) (hl : s.linkers = 0) (hold : auBrWritable s.brPerm = false)
    (hne : s.brPerm ≠ perm) (hsafe : ModSafe s env memory busy perm)
    (hmod : modBr env memory busy perm s = .ok s') : ReinitInv s' := by
  have hro : ¬ auBrWritable s.brPerm = true := by
    rw [hold]
    exact Bool.false_ne_true
  have hno : s.brWbr = none := by
    cases hw : s.brWbr with
    | none => rfl
    | some w => exact absurd (h.wbr w hw).2 hro
  have hwork : ∀ k ∈ s.siNowait, k.wbr = none ∨ k.wbr = some none := by
    intro k hk
    rcases h.work k hk with ⟨hwk, -⟩ | ⟨-, -, hor⟩
    · rw [hno] at hwk
      cases hwk
    · exact hor
  unfold modBr at hmod
  rw [if_neg hne, if_neg hro] at hmod
  by_cases hnew : auBrWritable perm = true
  · rw [if_pos hnew] at hmod
    cases memory with
    | false =>
      cases hmod
      exact h
    | true =>
      rw [if_neg (by decide)] at hmod
      obtain ⟨err, names, hinit, hiff⟩ := auBrInitWh_writable env s.names hnew noWbrWh
      rw [hinit] at hmod
      dsimp only at hmod
      by_cases herr : err = 0
      · rw [if_neg (not_not.mpr herr)] at hmod
        have hnw : s.siNowait = 0 := by
          rcases hsafe with hnw | hc | hsafe
          · exact hnw
          · exact absurd hc hne
          · rw [if_neg hro] at hsafe
            rcases hsafe with hc | hc | hc
            · rw [hnew] at hc
              cases hc
            · cases hc
            · exact absurd (hiff.mp herr) hc
        cases hmod
        refine h.locked_change hl rfl rfl (fun v hv => ?_) (fun k hk => ?_) fun v hv => ?_
        · obtain rfl := Option.some.inj hv
          exact ⟨by dsimp only; omega, hnew⟩
        · rw [hnw] at hk
          exact absurd hk (Multiset.notMem_zero k)
        · obtain rfl := Option.some.inj hv
          rw [hnw]
          dsimp only
          rw [Function.update_self]
          rfl
      · rw [if_pos herr] at hmod
        cases hmod
        refine h.locked_change hl rfl rfl (fun v hv => ?_) (fun k hk => Or.inr ⟨hno, hold, hwork k hk⟩) fun v hv => ?_
        · rw [hno] at hv
          cases hv
        · rw [hno] at hv
          cases hv
  · rw [if_neg hnew] at hmod
    cases hmod
    refine h.locked_change hl rfl rfl (fun v hv => ?_)
      (fun k hk => Or.inr ⟨hno, Bool.eq_false_iff.mpr hnew, hwork k hk⟩) fun v hv => ?_
    · rw [hno] at hv
      cases hv
    · rw [hno] at hv
      cases hv

/-- **A change of the permission**, where it is safe. -/
theorem ReinitInv.mod (h : ReinitInv s) (hlock : s.remount = .locked) (hsafe : ModSafe s env memory busy perm)
    (hmod : modBr env memory busy perm s = .ok s') : ReinitInv s' := by
  have hl := h.locked hlock
  by_cases hsame : s.brPerm = perm
  · unfold modBr at hmod
    rw [if_pos hsame] at hmod
    cases hmod
    exact h
  · cases hold : auBrWritable s.brPerm with
    | true => exact h.mod_rw hl hold hsame hsafe hmod
    | false => exact h.mod_ro hl hold hsame hsafe hmod

end

theorem count_zero (s : ReinitSb) (w : Nat) : s.count w 0 = s := by
  unfold ReinitSb.count
  rw [Int.add_zero, Function.update_eq_self]

/-- **One step.** -/
theorem ReinitInv.step {e : ReinitEvent} (h : ReinitInv s) (hsafe : ReinitSafe s e) (hs : ReinitStep s e s') :
    ReinitInv s' := by
  cases hs with
  | @linkerLock w hlock hperm hwbr =>
    refine ⟨h.wbr, fun l hl => ?_, fun hc => absurd hc hlock, h.work, fun v hv => ?_, ?_⟩
    · rcases Multiset.mem_cons.mp hl with rfl | hl
      · exact ⟨hwbr, fun hc => by cases hc⟩
      · exact h.linker l hl
    · refine (h.running v hv).trans ?_
      simp
    · have := h.first
      simpa using this
  | @linkerUnlock w phase rest hl hphase =>
    obtain ⟨hrunning, hfirst⟩ := h.counted hl
    have hcounts : (⟨w, phase⟩ : WhLinker).counts = false ∧ (⟨w, phase⟩ : WhLinker).first = false := by
      rcases hphase with rfl | rfl
      · exact ⟨rfl, rfl⟩
      · exact ⟨rfl, rfl⟩
    rw [hcounts.1] at hrunning
    rw [hcounts.2] at hfirst
    have hnext : ReinitInv { s.count w 0 with linkers := rest, siNowait := s.siNowait } := by
      refine h.relink hl (fun l hmem => Or.inl hmem) 0 (fun k hmem => Or.inl hmem) ?_ hfirst
      simpa using hrunning
    rwa [count_zero] at hnext
  | @emlink w rest hl hbase =>
    obtain ⟨hrunning, hfirst⟩ := h.counted hl
    refine h.relink hl (fun l hmem => ?_) 1 (fun k hmem => Or.inl hmem) ?_ ?_
    · rcases Multiset.mem_cons.mp hmem with rfl | hmem
      · exact Or.inr ⟨rfl, fun _ => hbase⟩
      · exact Or.inl hmem
    · rw [hrunning]
      simp
      omega
    · -- it is the first only if the counter was 0
      have hle := countP_first_le rest
      simp at hrunning hfirst ⊢
      split
      · omega
      · omega
  | @queue w rest hl =>
    obtain ⟨hrunning, hfirst⟩ := h.counted hl
    have hbase := (h.linker _ (by rw [hl]; exact Multiset.mem_cons_self _ _)).2 rfl
    have hnext : ReinitInv { s.count w 0 with
        linkers := ⟨w, .done⟩ ::ₘ rest, siNowait := ⟨w, none⟩ ::ₘ s.siNowait } := by
      refine h.relink hl (fun l hmem => ?_) 0 (fun k hmem => ?_) ?_ ?_
      · rcases Multiset.mem_cons.mp hmem with rfl | hmem
        · exact Or.inr ⟨rfl, fun hc => by cases hc⟩
        · exact Or.inl hmem
      · rcases Multiset.mem_cons.mp hmem with rfl | hmem
        · exact Or.inr ⟨rfl, hbase⟩
        · exact Or.inl hmem
      · simp at hrunning ⊢
        omega
      · simp at hfirst ⊢
        omega
    rwa [count_zero] at hnext
  | @noQueue w n rest hl =>
    obtain ⟨hrunning, hfirst⟩ := h.counted hl
    refine h.relink hl (fun l hmem => ?_) (-1) (fun k hmem => Or.inl hmem) ?_ ?_
    · rcases Multiset.mem_cons.mp hmem with rfl | hmem
      · exact Or.inr ⟨rfl, fun hc => by cases hc⟩
      · exact Or.inl hmem
    · simp at hrunning ⊢
      omega
    · simp at hfirst ⊢
      split at hfirst
      · omega
      · omega
  | flush hidle hnw =>
    exact ⟨h.wbr, h.linker, fun hc => (by cases hc), h.work, h.running, h.first⟩
  | remountLock hflushed hl => exact ⟨h.wbr, h.linker, fun _ => hl, h.work, h.running, h.first⟩
  | mod hlock hmod => exact h.mod hlock hsafe hmod
  | remountUnlock hlock => exact ⟨h.wbr, h.linker, fun hc => (by cases hc), h.work, h.running, h.first⟩
  | @sample w rest hnw =>
    refine ⟨h.wbr, h.linker, h.locked, fun k hmem => ?_, fun v hv => ?_, ?_⟩
    · rcases Multiset.mem_cons.mp hmem with rfl | hmem
      · have hwork := h.work ⟨w, none⟩ (by rw [hnw]; exact Multiset.mem_cons_self _ _)
        rcases hwork with ⟨hw, hbase, -⟩ | ⟨hno, hperm, -⟩
        · exact Or.inl ⟨hw, hbase, Or.inr (congrArg some hw)⟩
        · exact Or.inr ⟨hno, hperm, Or.inr (congrArg some hno)⟩
      · exact h.work k (by rw [hnw]; exact Multiset.mem_cons_of_mem hmem)
    · refine (h.running v hv).trans ?_
      rw [hnw, Multiset.card_cons, Multiset.card_cons]
    · have hfirst := h.first
      rw [hnw, Multiset.card_cons] at hfirst
      dsimp only
      rwa [Multiset.card_cons]
  | reinit hnw hlock hl hrun => exact h.reinit hnw hl hrun

end

/-! ## Two remounts -/

/-- A writable branch with all its entries. -/
def readyBranch : ReinitSb := ReinitSb.mounted .rw ⟨true, true, true⟩ ⟨.reg, .dir, .dir⟩

/-- The remount has waited for the works, and one is queued after that, and has read `br_wbr`. -/
def queuedLate : ReinitSb :=
  { (readyBranch.count 0 1) with siNowait := ⟨0, some (some 0)⟩ ::ₘ 0, remount := .flushed }

theorem queuedLate_run : Run ReinitStep readyBranch [.flush, .linkerLock, .emlink, .queue, .linkerUnlock, .sample]
    queuedLate := by
  have h₁ := @ReinitStep.flush readyBranch rfl rfl
  have h₂ := @ReinitStep.linkerLock { readyBranch with remount := .flushed } 0 (by decide) (by decide) rfl
  have h₃ := @ReinitStep.emlink
    { readyBranch with remount := .flushed, linkers := ⟨0, .linking⟩ ::ₘ 0 } 0 0 rfl rfl
  have h₄ := @ReinitStep.queue
    { readyBranch.count 0 1 with remount := .flushed, linkers := ⟨0, .counted 1⟩ ::ₘ 0 } 0 0 rfl
  have h₅ := @ReinitStep.linkerUnlock
    { readyBranch.count 0 1 with
      remount := .flushed, linkers := ⟨0, .done⟩ ::ₘ 0, siNowait := ⟨0, none⟩ ::ₘ 0 } 0 .done 0 rfl (Or.inr rfl)
  have h₆ := @ReinitStep.sample
    { readyBranch.count 0 1 with remount := .flushed, siNowait := ⟨0, none⟩ ::ₘ 0 } 0 0 rfl
  exact (((((Run.nil.snoc h₁).snoc h₂).snoc h₃).snoc h₄).snoc h₅).snoc h₆

/-- After the remount has changed the permission, and is through. -/
def changedLate (perm : BrPerm) : ReinitSb :=
  match modBr whFine true false perm { queuedLate with remount := .locked } with
  | .error _ => queuedLate
  | .ok s => { s with remount := .idle }

end KernelPatches.Aufs
