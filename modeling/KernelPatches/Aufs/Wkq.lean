/-
  aufs: the work queues.

  What a process may not do itself it has done by the thread of a work queue, and waits: `au_wkq_wait` puts an
  `au_wkinfo` of its own stack on a queue.  `do_wkq` goes round the queues and takes the first one whose
  counter says that nobody is there; if there is none it takes the one that had the least.  The counter is
  raised to look at it and lowered again, so that processes that only look are counted too.

  `update_busy` keeps the highest value of each counter.  Its `cmpxchg` is tried again when it has succeeded, and
  given up when somebody else was faster.

  * `Loc`, `AuWkq`, `Wkqs`, `WkqStep` — where a process can be in `do_wkq`, the queues, and the steps of the
                              processes and of the threads, in any order;
  * `busy_accounts`         — a counter is the number of the works of its queue, and of the processes there;
  * `wait_runs_once`        — when `au_wkq_wait` has returned its function has run, once, and nobody has the
                              `au_wkinfo` any more;
  * `maxBusy_between`       — the highest value only grows, and the counter has had it;
  * `wait_ends`             — how far off the end of a wait is, in steps of the thread.
-/
import KernelPatches.Lib.Tally
import Mathlib.Algebra.Ring.Nat
import Mathlib.Data.List.Count

namespace KernelPatches.Aufs.Wkq

open KernelPatches.Lib

/-! ## Queues and processes -/

/-- What the thread of a queue does in `wkq_func`: before the function, after it, and after the counter was
    lowered. -/
inductive Worker (π : Type) where
  | idle
  | run (p : π)
  | ran (p : π)
  | complete (p : π)

/-- `struct au_wkq`, and its thread.  An `au_wkinfo` is named by the process on whose stack it is. -/
structure AuWkq (π : Type) where
  busy : Int
  maxBusy : Nat
  q : List π
  worker : Worker π

/-- Where a process is: outside; in the loop of `do_wkq`, before the counter of the queue `i` is raised, and before
    it is lowered again; after the loop; in `update_busy`, before each access; in `enqueue`; waiting. -/
inductive Loc (n : Nat) where
  | out
  | probe (i : Fin n) (idle : Nat) (idleIdx : Fin n)
  | leave (i : Fin n) (idle : Nat) (idleIdx : Fin n)
  | choose (idleIdx : Fin n)
  | readBusy (i : Fin n)
  | readMax (i : Fin n) (new : Nat)
  | cmpxchg (i : Fin n) (new old : Nat)
  | queue (i : Fin n)
  | wait

/-- UINT_MAX -/
def uintMax : Nat := 2 ^ 32 - 1

/-- `i++` -/
def Loc.next {n : Nat} (i : Fin n) (idle : Nat) (idleIdx : Fin n) : Loc n :=
  if h : i.val + 1 < n then .probe ⟨i.val + 1, h⟩ idle idleIdx else .choose idleIdx

/-- All queues and processes.  `comp` are the completions, and what is told of the past: the calls of
    `au_wkq_wait`, those that returned, how often a function was run, and the highest value of each counter. -/
structure Wkqs (n : Nat) (π : Type) where
  wkq : Fin n → AuWkq π
  loc : π → Loc n
  comp : π → Bool
  calls : π → Nat
  runs : π → Nat
  returns : π → Nat
  peak : Fin n → Int

/-- Who moves: a process, or the thread of a queue. -/
inductive Ev (n : Nat) (π : Type) where
  | proc (p : π)
  | worker (i : Fin n)
  deriving DecidableEq

variable {n : Nat} {π : Type}

namespace Wkqs

variable [DecidableEq π]

def goto (s : Wkqs n π) (p : π) (l : Loc n) : Wkqs n π := { s with loc := Function.update s.loc p l }

def setQ (s : Wkqs n π) (i : Fin n) (Q : AuWkq π) : Wkqs n π := { s with wkq := Function.update s.wkq i Q }

section

variable (s : Wkqs n π) (p : π) (l : Loc n) (i : Fin n) (Q : AuWkq π)

@[simp] theorem goto_comp : (s.goto p l).comp = s.comp := rfl

omit [DecidableEq π]

@[simp] theorem setQ_comp : (s.setQ i Q).comp = s.comp := rfl
@[simp] theorem setQ_runs : (s.setQ i Q).runs = s.runs := rfl
@[simp] theorem setQ_returns : (s.setQ i Q).returns = s.returns := rfl

end

/-- `atomic_inc_return(&au_wkq[i].busy)` -/
def incBusy (s : Wkqs n π) (i : Fin n) : Wkqs n π :=
  { s.setQ i { s.wkq i with busy := (s.wkq i).busy + 1 } with
    peak := Function.update s.peak i (max (s.peak i) ((s.wkq i).busy + 1)) }

/-- `atomic_dec_return(&au_wkq[i].busy)` -/
def decBusy (s : Wkqs n π) (i : Fin n) : Wkqs n π := s.setQ i { s.wkq i with busy := (s.wkq i).busy - 1 }

end Wkqs

open Wkqs

/-- The steps.  `queue_work` of a work that was just initialised always succeeds. -/
inductive WkqStep [NeZero n] [DecidableEq π] : Wkqs n π → Ev n π → Wkqs n π → Prop
  /-- `au_wkq_wait` -/
  | call {s : Wkqs n π} {p : π} (hl : s.loc p = .out) :
      WkqStep s (.proc p) { s.goto p (.probe 0 uintMax 0) with
        comp := Function.update s.comp p false, calls := Function.update s.calls p (s.calls p + 1) }
  /-- `if (n == 1 && ...)`, `if (n < idle)` -/
  | probe {s : Wkqs n π} {p : π} {i idleIdx : Fin n} {idle k : Nat} (hl : s.loc p = .probe i idle idleIdx)
      (hk : k = ((s.wkq i).busy + 1).toNat) :
      WkqStep s (.proc p) ((s.incBusy i).goto p
        (if k = 1 then .readBusy i else if k < idle then .leave i k i else .leave i idle idleIdx))
  | leave {s : Wkqs n π} {p : π} {i idleIdx : Fin n} {idle : Nat} (hl : s.loc p = .leave i idle idleIdx) :
      WkqStep s (.proc p) ((s.decBusy i).goto p (.next i idle idleIdx))
  | choose {s : Wkqs n π} {p : π} {i : Fin n} (hl : s.loc p = .choose i) :
      WkqStep s (.proc p) ((s.incBusy i).goto p (.readBusy i))
  | readBusy {s : Wkqs n π} {p : π} {i : Fin n} (hl : s.loc p = .readBusy i) :
      WkqStep s (.proc p) (s.goto p (.readMax i (s.wkq i).busy.toNat))
  | readMax {s : Wkqs n π} {p : π} {i : Fin n} {new : Nat} (hl : s.loc p = .readMax i new) :
      WkqStep s (.proc p)
        (s.goto p (if new ≤ (s.wkq i).maxBusy then .queue i else .cmpxchg i new (s.wkq i).maxBusy))
  /-- `while (cmpxchg(&wkq->max_busy, old, new) == old)` -/
  | swap {s : Wkqs n π} {p : π} {i : Fin n} {new old : Nat} (hl : s.loc p = .cmpxchg i new old)
      (hm : (s.wkq i).maxBusy = old) :
      WkqStep s (.proc p) ((s.setQ i { s.wkq i with maxBusy := new }).goto p (.readBusy i))
  | giveUp {s : Wkqs n π} {p : π} {i : Fin n} {new old : Nat} (hl : s.loc p = .cmpxchg i new old)
      (hm : (s.wkq i).maxBusy ≠ old) :
      WkqStep s (.proc p) (s.goto p (.queue i))
  | queue {s : Wkqs n π} {p : π} {i : Fin n} (hl : s.loc p = .queue i) :
      WkqStep s (.proc p) ((s.setQ i { s.wkq i with q := (s.wkq i).q ++ [p] }).goto p .wait)
  /-- `wait_for_completion` -/
  | ret {s : Wkqs n π} {p : π} (hl : s.loc p = .wait) (hc : s.comp p = true) :
      WkqStep s (.proc p) { s.goto p .out with
        comp := Function.update s.comp p false, returns := Function.update s.returns p (s.returns p + 1) }
  | take {s : Wkqs n π} {p : π} {i : Fin n} {rest : List π} (hw : (s.wkq i).worker = .idle)
      (hq : (s.wkq i).q = p :: rest) :
      WkqStep s (.worker i) (s.setQ i { s.wkq i with q := rest, worker := .run p })
  | func {s : Wkqs n π} {p : π} {i : Fin n} (hw : (s.wkq i).worker = .run p) :
      WkqStep s (.worker i) { s.setQ i { s.wkq i with worker := .ran p } with
        runs := Function.update s.runs p (s.runs p + 1) }
  | dec {s : Wkqs n π} {p : π} {i : Fin n} (hw : (s.wkq i).worker = .ran p) :
      WkqStep s (.worker i) (s.setQ i { s.wkq i with busy := (s.wkq i).busy - 1, worker := .complete p })
  | complete {s : Wkqs n π} {p : π} {i : Fin n} (hw : (s.wkq i).worker = .complete p) :
      WkqStep s (.worker i) { s.setQ i { s.wkq i with worker := .idle } with
        comp := Function.update s.comp p true }

/-! ## Who is where -/

/-- It has raised the counter of the queue, and not lowered it or queued its work. -/
def counts (i : Fin n) : Loc n → ℕ
  | .leave j _ _ | .readBusy j | .readMax j _ | .cmpxchg j _ _ | .queue j => if j = i then 1 else 0
  | _ => 0

/-- It waits. -/
def waits : Loc n → ℕ
  | .wait => 1
  | _ => 0

/-- It is in `au_wkq_wait`. -/
def inside : Loc n → ℕ
  | .out => 0
  | _ => 1

/-- The thread has a work that is counted. -/
def runsOne : Worker π → ℕ
  | .run _ | .ran _ => 1
  | _ => 0

variable [DecidableEq π]

/-- The thread has the work of the process. -/
def hasWork (p : π) : Worker π → ℕ
  | .run r | .ran r | .complete r => if r = p then 1 else 0
  | .idle => 0

/-- It has, and its function has been run. -/
def hasRun (p : π) : Worker π → ℕ
  | .ran r | .complete r => if r = p then 1 else 0
  | _ => 0

/-- How often the work of the process is at a queue. -/
def places (p : π) (Q : AuWkq π) : ℕ := Q.q.count p + hasWork p Q.worker

/-- The invariant: what each counter counts; a work is at one place while its process waits, and nowhere else; and
    of each call, that its function has been run once in the end. -/
structure Accounts [Fintype π] (s : Wkqs n π) : Prop where
  busy : ∀ i, (s.wkq i).busy = (tally s.loc (counts i) + (s.wkq i).q.length + runsOne (s.wkq i).worker : ℕ)
  spots : ∀ p, tally s.wkq (places p) + (s.comp p).toNat = waits (s.loc p)
  runs : ∀ p, s.runs p = s.returns p + tally s.wkq (fun Q => hasRun p Q.worker) + (s.comp p).toNat
  calls : ∀ p, s.calls p = s.returns p + inside (s.loc p)

/-- The counters are zero, the queues empty, and nobody is in `au_wkq_wait`. -/
structure Started (s : Wkqs n π) : Prop where
  wkq : ∀ i, s.wkq i = ⟨0, 0, [], .idle⟩
  loc : ∀ p, s.loc p = .out
  comp : ∀ p, s.comp p = false
  past : ∀ p, s.calls p = 0 ∧ s.runs p = 0 ∧ s.returns p = 0
  peak : ∀ i, s.peak i = 0

section Steps

variable [Fintype π] {s s' : Wkqs n π} {e : Ev n π}

theorem Started.accounts (h : Started s) : Accounts s where
  busy i := by
    have hz : tally s.loc (counts i) = 0 := tally_eq_zero.mpr fun p => by rw [h.loc p]; rfl
    rw [hz, h.wkq i]
    rfl
  spots p := by
    have hz : tally s.wkq (places p) = 0 := tally_eq_zero.mpr fun i => by rw [h.wkq i]; rfl
    rw [hz, h.comp p, h.loc p]
    rfl
  runs p := by
    have hz : tally s.wkq (fun Q => hasRun p Q.worker) = 0 := tally_eq_zero.mpr fun i => by rw [h.wkq i]; rfl
    rw [hz, h.comp p, (h.past p).2.1, (h.past p).2.2]
    rfl
  calls p := by
    rw [(h.past p).1, (h.past p).2.2, h.loc p]
    rfl

/-- What a step of the process, or with its work, changes at one queue. -/
structure Moves (s s' : Wkqs n π) (p : π) (i : Fin n) (l : Loc n) (Q : AuWkq π) : Prop where
  wkq : s'.wkq = Function.update s.wkq i Q
  loc : s'.loc = Function.update s.loc p l
  counts_ne : ∀ j, j ≠ i → counts j l = counts j (s.loc p)
  busy : Q.busy + (counts i (s.loc p) + (s.wkq i).q.length + runsOne (s.wkq i).worker : ℕ)
    = (s.wkq i).busy + (counts i l + Q.q.length + runsOne Q.worker : ℕ)
  spots : places p Q + (s'.comp p).toNat + waits (s.loc p)
    = places p (s.wkq i) + (s.comp p).toNat + waits l
  runs : s'.runs p + s.returns p + hasRun p (s.wkq i).worker + (s.comp p).toNat
    = s.runs p + s'.returns p + hasRun p Q.worker + (s'.comp p).toNat
  calls : s'.calls p + s.returns p + inside (s.loc p) = s.calls p + s'.returns p + inside l
  others : ∀ r, r ≠ p → places r Q = places r (s.wkq i) ∧ hasRun r Q.worker = hasRun r (s.wkq i).worker ∧
    s'.comp r = s.comp r ∧ s'.runs r = s.runs r ∧ s'.returns r = s.returns r ∧ s'.calls r = s.calls r

/-- Such a step keeps the accounts. -/
theorem Accounts.moves (h : Accounts s) {p : π} {i : Fin n} {l : Loc n} {Q : AuWkq π} (m : Moves s s' p i l Q) :
    Accounts s' where
  busy j := by
    have ht := tally_update s.loc (counts j) p l
    have hold := h.busy j
    rw [m.wkq, m.loc]
    by_cases hj : j = i
    · subst hj
      have hb := m.busy
      rw [Function.update_self]
      push_cast at hold hb ⊢
      omega
    · rw [Function.update_of_ne hj]
      rw [m.counts_ne j hj] at ht
      rw [Nat.add_right_cancel ht]
      exact hold
  spots r := by
    have ht := tally_update s.wkq (places r) i Q
    have hold := h.spots r
    rw [m.wkq, m.loc]
    by_cases hr : r = p
    · subst hr
      have hs := m.spots
      rw [Function.update_self]
      omega
    · obtain ⟨hp, -, hc, -⟩ := m.others r hr
      rw [Function.update_of_ne hr, hc]
      rw [hp] at ht
      omega
  runs r := by
    have ht := tally_update s.wkq (fun Q => hasRun r Q.worker) i Q
    have hold := h.runs r
    rw [m.wkq]
    by_cases hr : r = p
    · subst hr
      have hs := m.runs
      omega
    · obtain ⟨-, hp, hc, hruns, hret, -⟩ := m.others r hr
      rw [hc, hruns, hret]
      rw [hp] at ht
      omega
  calls r := by
    have hold := h.calls r
    rw [m.loc]
    by_cases hr : r = p
    · subst hr
      have hs := m.calls
      rw [Function.update_self]
      omega
    · obtain ⟨-, -, -, -, hret, hcalls⟩ := m.others r hr
      rw [Function.update_of_ne hr, hcalls, hret]
      exact hold

/-- A process moves inside `do_wkq`, and at most a counter changes with it. -/
theorem Accounts.proc (h : Accounts s) {p : π} {i : Fin n} {l : Loc n} {b : Int} {m : Nat} {k : Fin n → Int}
    (hb : b + counts i (s.loc p) = (s.wkq i).busy + counts i l)
    (hc : ∀ j, j ≠ i → counts j l = counts j (s.loc p)) (hw : waits l = waits (s.loc p))
    (hin : inside l = inside (s.loc p)) :
    Accounts { ((s.setQ i { s.wkq i with busy := b, maxBusy := m }).goto p l) with peak := k } := by
  refine h.moves (p := p) (i := i) (l := l) (Q := { s.wkq i with busy := b, maxBusy := m })
    ⟨rfl, rfl, hc, ?_, ?_, rfl, ?_, fun r hr => ⟨rfl, rfl, rfl, rfl, rfl, rfl⟩⟩
  · push_cast
    show b + _ = _
    omega
  · rw [hw]
    rfl
  · rw [hin]
    rfl

/-- Or no counter does. -/
theorem Accounts.goto (h : Accounts s) {p : π} (i : Fin n) {l : Loc n}
    (hc : ∀ j, counts j l = counts j (s.loc p)) (hw : waits l = waits (s.loc p))
    (hin : inside l = inside (s.loc p)) : Accounts (s.goto p l) := by
  refine h.moves (p := p) (i := i) (l := l) (Q := s.wkq i)
    ⟨(Function.update_eq_self i s.wkq).symm, rfl, fun j _ => hc j, ?_, ?_, rfl, ?_,
      fun r hr => ⟨rfl, rfl, rfl, rfl, rfl, rfl⟩⟩
  · rw [hc i]
  · rw [hw]
    rfl
  · rw [hin]
    rfl

theorem counts_next (j i : Fin n) (idle : Nat) (idleIdx : Fin n) : counts j (Loc.next i idle idleIdx) = 0 := by
  rw [Loc.next]
  split <;> rfl

theorem waits_next (i : Fin n) (idle : Nat) (idleIdx : Fin n) : waits (Loc.next i idle idleIdx) = 0 := by
  rw [Loc.next]
  split <;> rfl

theorem inside_next (i : Fin n) (idle : Nat) (idleIdx : Fin n) : inside (Loc.next i idle idleIdx) = 1 := by
  rw [Loc.next]
  split <;> rfl

/-- Where a process is after it has raised the counter, it counts there and nowhere else. -/
theorem probed_spec (i idleIdx : Fin n) (k idle : Nat) :
    (∀ j, counts j (if k = 1 then Loc.readBusy i else if k < idle then .leave i k i else .leave i idle idleIdx)
      = if i = j then 1 else 0) ∧
    waits (if k = 1 then Loc.readBusy i else if k < idle then .leave i k i else .leave i idle idleIdx) = 0 ∧
    inside (if k = 1 then Loc.readBusy i else if k < idle then .leave i k i else .leave i idle idleIdx) = 1 := by
  by_cases h1 : k = 1
  · rw [if_pos h1]
    exact ⟨fun _ => rfl, rfl, rfl⟩
  · rw [if_neg h1]
    by_cases h2 : k < idle
    · rw [if_pos h2]
      exact ⟨fun _ => rfl, rfl, rfl⟩
    · rw [if_neg h2]
      exact ⟨fun _ => rfl, rfl, rfl⟩

variable [NeZero n]

/-- **One step.** -/
theorem Accounts.step (h : Accounts s) (hs : WkqStep s e s') : Accounts s' := by
  cases hs with
  | @call p hl =>
    refine h.moves (p := p) (i := 0) (l := .probe 0 uintMax 0) (Q := s.wkq 0)
      ⟨(Function.update_eq_self 0 s.wkq).symm, rfl, fun j _ => by rw [hl]; rfl, by rw [hl]; rfl, ?_, ?_, ?_,
        fun r hr => ⟨rfl, rfl, Function.update_of_ne hr _ _, rfl, rfl, Function.update_of_ne hr _ _⟩⟩
    · -- outside, no work is anywhere
      have hz := h.spots p
      rw [hl] at hz ⊢
      show places p (s.wkq 0) + (Function.update s.comp p false p).toNat + _ = _
      rw [Function.update_self]
      have hc : (s.comp p).toNat = 0 := Nat.eq_zero_of_add_eq_zero_left hz
      rw [hc]
      rfl
    · have hz := h.spots p
      rw [hl] at hz
      have hc : (s.comp p).toNat = 0 := Nat.eq_zero_of_add_eq_zero_left hz
      show s.runs p + s.returns p + _ + _ = s.runs p + s.returns p + _ + (Function.update s.comp p false p).toNat
      rw [Function.update_self, hc]
      rfl
    · rw [hl]
      show Function.update s.calls p (s.calls p + 1) p + s.returns p + 0 = s.calls p + s.returns p + 1
      rw [Function.update_self]
      omega
  | @probe p i idleIdx idle k hl hk =>
    obtain ⟨hc, hw, hin⟩ := probed_spec i idleIdx k idle
    refine h.proc (i := i) (b := (s.wkq i).busy + 1) (m := (s.wkq i).maxBusy) ?_ (fun j hj => ?_) ?_ ?_
    · rw [hc i, hl, if_pos rfl]
      show (s.wkq i).busy + 1 + ((0 : ℕ) : ℤ) = (s.wkq i).busy + ((1 : ℕ) : ℤ)
      omega
    · rw [hc j, hl, if_neg (Ne.symm hj)]
      rfl
    · rw [hw, hl]
      rfl
    · rw [hin, hl]
      rfl
  | @leave p i idleIdx idle hl =>
    refine h.proc (i := i) (b := (s.wkq i).busy - 1) (m := (s.wkq i).maxBusy) (k := s.peak) ?_ (fun j hj => ?_) ?_ ?_
    · rw [counts_next, hl]
      simp [counts]
    · rw [counts_next, hl]
      simp [counts, Ne.symm hj]
    · rw [waits_next, hl]
      rfl
    · rw [inside_next, hl]
      rfl
  | @choose p i hl =>
    refine h.proc (i := i) (b := (s.wkq i).busy + 1) (m := (s.wkq i).maxBusy) ?_ (fun j hj => ?_) ?_ ?_
    · rw [hl]
      simp [counts]
    · rw [hl]
      simp [counts, Ne.symm hj]
    · rw [hl]
      rfl
    · rw [hl]
      rfl
  | @readBusy p i hl =>
    exact h.goto i (fun j => by rw [hl]; rfl) (by rw [hl]; rfl) (by rw [hl]; rfl)
  | @readMax p i new hl =>
    refine h.goto i (fun j => ?_) ?_ ?_
    · rw [hl]
      split <;> rfl
    · rw [hl]
      split <;> rfl
    · rw [hl]
      split <;> rfl
  | @swap p i new old hl hm =>
    refine h.proc (i := i) (b := (s.wkq i).busy) (m := new) (k := s.peak) ?_ (fun j hj => ?_) ?_ ?_
    · rw [hl]
      rfl
    · rw [hl]
      rfl
    · rw [hl]
      rfl
    · rw [hl]
      rfl
  | @giveUp p i new old hl hm =>
    exact h.goto i (fun j => by rw [hl]; rfl) (by rw [hl]; rfl) (by rw [hl]; rfl)
  | @queue p i hl =>
    refine h.moves (p := p) (i := i) (l := .wait) (Q := { s.wkq i with q := (s.wkq i).q ++ [p] })
      ⟨rfl, rfl, fun j hj => ?_, ?_, ?_, rfl, ?_, fun r hr => ⟨?_, rfl, rfl, rfl, rfl, rfl⟩⟩
    · rw [hl]
      simp [counts, Ne.symm hj]
    · rw [hl]
      simp [counts]
      omega
    · rw [hl]
      simp [places, waits]
      omega
    · rw [hl]
      rfl
    · simp [places, List.count_append, Ne.symm hr]
  | @ret p hl hcomp =>
    refine h.moves (p := p) (i := 0) (l := .out) (Q := s.wkq 0)
      ⟨(Function.update_eq_self 0 s.wkq).symm, rfl, fun j _ => by rw [hl]; rfl, by rw [hl]; rfl, ?_, ?_, ?_,
        fun r hr => ⟨rfl, rfl, Function.update_of_ne hr _ _, rfl, Function.update_of_ne hr _ _, rfl⟩⟩
    · show places p (s.wkq 0) + (Function.update s.comp p false p).toNat + _ = _
      rw [Function.update_self, hcomp, hl]
      rfl
    · show s.runs p + s.returns p + _ + _
        = s.runs p + Function.update s.returns p (s.returns p + 1) p + _ + (Function.update s.comp p false p).toNat
      rw [Function.update_self, Function.update_self, hcomp]
      simp only [Bool.toNat_true, Bool.toNat_false]
      omega
    · show s.calls p + s.returns p + _ = s.calls p + Function.update s.returns p (s.returns p + 1) p + _
      rw [Function.update_self, hl]
      simp only [inside]
      omega
  | @take p i rest hw hq =>
    refine h.moves (p := p) (i := i) (l := s.loc p) (Q := { s.wkq i with q := rest, worker := .run p })
      ⟨rfl, (Function.update_eq_self p s.loc).symm, fun _ _ => rfl, ?_, ?_, ?_, rfl,
        fun r hr => ⟨?_, ?_, rfl, rfl, rfl, rfl⟩⟩
    · rw [hw, hq]
      simp only [runsOne, List.length_cons]
      omega
    · show places p ⟨_, _, rest, .run p⟩ + _ + _ = places p (s.wkq i) + _ + _
      rw [places, places, hw, hq]
      simp [hasWork]
    · rw [hw]
      rfl
    · rw [places, places, hw, hq]
      simp [hasWork, Ne.symm hr]
    · rw [hw]
      rfl
  | @func p i hw =>
    refine h.moves (p := p) (i := i) (l := s.loc p) (Q := { s.wkq i with worker := .ran p })
      ⟨rfl, (Function.update_eq_self p s.loc).symm, fun _ _ => rfl, ?_, ?_, ?_, rfl,
        fun r hr => ⟨?_, ?_, rfl, Function.update_of_ne hr _ _, rfl, rfl⟩⟩
    · rw [hw]
      rfl
    · rw [places, places, hw]
      rfl
    · show Function.update s.runs p (s.runs p + 1) p + _ + _ + _ = _
      rw [Function.update_self, hw]
      simp [hasRun]
      omega
    · rw [places, places, hw]
      rfl
    · rw [hw]
      simp [hasRun, Ne.symm hr]
  | @dec p i hw =>
    refine h.moves (p := p) (i := i) (l := s.loc p)
      (Q := { s.wkq i with busy := (s.wkq i).busy - 1, worker := .complete p })
      ⟨rfl, (Function.update_eq_self p s.loc).symm, fun _ _ => rfl, ?_, ?_, ?_, rfl,
        fun r hr => ⟨?_, ?_, rfl, rfl, rfl, rfl⟩⟩
    · rw [hw]
      simp only [runsOne]
      push_cast
      omega
    · rw [places, places, hw]
      rfl
    · rw [hw]
      rfl
    · rw [places, places, hw]
      rfl
    · rw [hw]
      rfl
  | @complete p i hw =>
    -- its process waits, and has not been told yet
    have hone : s.comp p = false := by
      have hs := h.spots p
      have hle : places p (s.wkq i) ≤ tally s.wkq (places p) := le_tally s.wkq (places p) i
      have hpl : 1 ≤ places p (s.wkq i) := by
        rw [places, hw]
        simp [hasWork]
      have hwait : waits (s.loc p) ≤ 1 := by
        cases s.loc p <;> simp [waits]
      cases hc : s.comp p with
      | false => rfl
      | true =>
        rw [hc, Bool.toNat_true] at hs
        omega
    refine h.moves (p := p) (i := i) (l := s.loc p) (Q := { s.wkq i with worker := .idle })
      ⟨rfl, (Function.update_eq_self p s.loc).symm, fun _ _ => rfl, ?_, ?_, ?_, rfl,
        fun r hr => ⟨?_, ?_, Function.update_of_ne hr _ _, rfl, rfl, rfl⟩⟩
    · rw [hw]
      rfl
    · show _ + (Function.update s.comp p true p).toNat + _ = _
      rw [Function.update_self, hone, places, places, hw]
      simp [hasWork]
    · show _ = s.runs p + s.returns p + _ + (Function.update s.comp p true p).toNat
      rw [Function.update_self, hone, hw]
      simp [hasRun]
    · rw [places, places, hw]
      simp [hasWork, Ne.symm hr]
    · rw [hw]
      simp [hasRun, Ne.symm hr]

end Steps

/-! ## One process and one queue -/

/-- One queue, nobody there yet. -/
def oneQueue : Wkqs 1 (Fin 1) where
  wkq _ := ⟨0, 0, [], .idle⟩
  loc _ := .out
  comp _ := false
  calls _ := 0
  runs _ := 0
  returns _ := 0
  peak _ := 0

theorem oneQueue_started : Started oneQueue where
  wkq _ := rfl
  loc _ := rfl
  comp _ := rfl
  past _ := ⟨rfl, rfl, rfl⟩
  peak _ := rfl

/-- The process comes to wait. -/
theorem oneQueue_waits : ∃ (es : List (Ev 1 (Fin 1))) (s : Wkqs 1 (Fin 1)), Run WkqStep oneQueue es s ∧
    (s.wkq 0).worker = .idle ∧ (s.wkq 0).q = [0] ∧ s.loc 0 = .wait ∧ s.comp 0 = false ∧ s.calls 0 = 1 := by
  refine ⟨_, _, ((((((((Run.nil.snoc (.call (p := 0) rfl)).snoc (.probe (p := 0) rfl rfl)).snoc
    (.readBusy (p := 0) rfl)).snoc (.readMax (p := 0) rfl)).snoc (.swap (p := 0) rfl rfl)).snoc
    (.readBusy (p := 0) rfl)).snoc (.readMax (p := 0) rfl)).snoc (.queue (p := 0) rfl)), rfl, rfl, rfl, rfl, rfl⟩

/-- The thread does its work, and it returns. -/
theorem oneQueue_returns {s : Wkqs 1 (Fin 1)} (hw : (s.wkq 0).worker = .idle) (hq : (s.wkq 0).q = [0])
    (hl : s.loc 0 = .wait) :
    ∃ (es : List (Ev 1 (Fin 1))) (t : Wkqs 1 (Fin 1)), Run WkqStep s es t ∧ t.loc 0 = .out ∧ t.calls 0 = s.calls 0 := by
  obtain ⟨t1, h1, hw1, hl1, hc1⟩ : ∃ t, WkqStep s (.worker 0) t ∧ (t.wkq 0).worker = .run 0 ∧ t.loc 0 = .wait ∧
      t.calls 0 = s.calls 0 := ⟨_, .take hw hq, rfl, hl, rfl⟩
  obtain ⟨t2, h2, hw2, hl2, hc2⟩ : ∃ t, WkqStep t1 (.worker 0) t ∧ (t.wkq 0).worker = .ran 0 ∧ t.loc 0 = .wait ∧
      t.calls 0 = t1.calls 0 := ⟨_, .func hw1, rfl, hl1, rfl⟩
  obtain ⟨t3, h3, hw3, hl3, hc3⟩ : ∃ t, WkqStep t2 (.worker 0) t ∧ (t.wkq 0).worker = .complete 0 ∧ t.loc 0 = .wait ∧
      t.calls 0 = t2.calls 0 := ⟨_, .dec hw2, rfl, hl2, rfl⟩
  obtain ⟨t4, h4, hl4, hcomp, hc4⟩ : ∃ t, WkqStep t3 (.worker 0) t ∧ t.loc 0 = .wait ∧ t.comp 0 = true ∧
      t.calls 0 = t3.calls 0 := ⟨_, .complete hw3, hl3, rfl, rfl⟩
  refine ⟨_, _, (((Run.nil.snoc h1).snoc h2).snoc h3).snoc h4 |>.snoc (.ret hl4 hcomp), rfl, ?_⟩
  exact hc4.trans (hc3.trans (hc2.trans hc1))

/-! ## Whole runs -/

section Runs

variable [Fintype π] [NeZero n] {s0 s s' : Wkqs n π} {es es' : List (Ev n π)} {e : Ev n π}

theorem Accounts.of_run (h0 : Started s0) (h : Run WkqStep s0 es s) : Accounts s :=
  h.inv h0.accounts fun _ _ _ ha hs => ha.step hs

/-- **What a counter counts**, in any order of steps: the works on the queue, the one that the thread has not
    finished, and the processes that look at the queue or are about to put a work on it.  So a process that
    finds the counter at zero is alone. -/
theorem busy_accounts (h0 : Started s0) (h : Run WkqStep s0 es s) (i : Fin n) :
    (s.wkq i).busy = (tally s.loc (counts i) + (s.wkq i).q.length + runsOne (s.wkq i).worker : ℕ) ∧
    ((s.wkq i).busy = 0 →
      (s.wkq i).q = [] ∧ runsOne (s.wkq i).worker = 0 ∧ ∀ p, counts i (s.loc p) = 0) := by
  have hb := (Accounts.of_run h0 h).busy i
  refine ⟨hb, fun hz => ?_⟩
  have hsum : tally s.loc (counts i) = 0 ∧ (s.wkq i).q.length = 0 ∧ runsOne (s.wkq i).worker = 0 := by omega
  exact ⟨List.length_eq_zero_iff.mp hsum.2.1, hsum.2.2, tally_eq_zero.mp hsum.1⟩

theorem busy_accounts_one : ∃ s : Wkqs 1 (Fin 1), s.loc 0 = .wait ∧
    (s.wkq 0).busy = (tally s.loc (counts 0) + (s.wkq 0).q.length + runsOne (s.wkq 0).worker : ℕ) := by
  obtain ⟨_, s, hrun, -, -, hl, -⟩ := oneQueue_waits
  exact ⟨s, hl, (busy_accounts oneQueue_started hrun 0).1⟩

/-- **After `au_wkq_wait`.**  Of a process that is not in it, every call has returned and has had its function run
    once; and no queue and no thread has anything that is on its stack. -/
theorem wait_runs_once (h0 : Started s0) (h : Run WkqStep s0 es s) {p : π} (hout : s.loc p = .out) :
    s.returns p = s.calls p ∧ s.runs p = s.calls p ∧
      ∀ i, p ∉ (s.wkq i).q ∧ hasWork p (s.wkq i).worker = 0 := by
  have ha := Accounts.of_run h0 h
  have hcalls := ha.calls p
  have hspots := ha.spots p
  have hruns := ha.runs p
  rw [hout] at hcalls hspots
  simp only [inside, waits, Nat.add_eq_zero_iff] at hcalls hspots
  have hat : ∀ i, p ∉ (s.wkq i).q ∧ hasWork p (s.wkq i).worker = 0 := by
    intro i
    have hz := tally_eq_zero.mp hspots.1 i
    rw [places, Nat.add_eq_zero_iff] at hz
    exact ⟨List.count_eq_zero.mp hz.1, hz.2⟩
  have hran : tally s.wkq (fun Q => hasRun p Q.worker) = 0 := by
    refine tally_eq_zero.mpr fun i => ?_
    have hw := (hat i).2
    revert hw
    cases (s.wkq i).worker with
    | idle => exact fun _ => rfl
    | run r => exact fun _ => rfl
    | ran r => exact id
    | complete r => exact id
  refine ⟨by omega, by omega, hat⟩

theorem wait_runs_once_one : ∃ s : Wkqs 1 (Fin 1), s.calls 0 = 1 ∧ s.runs 0 = s.calls 0 := by
  obtain ⟨_, _, hrun, hw, hq, hl, -, hcalls⟩ := oneQueue_waits
  obtain ⟨_, t, hrun', hout, hsame⟩ := oneQueue_returns hw hq hl
  exact ⟨t, hsame.trans hcalls, (wait_runs_once oneQueue_started (hrun.append hrun') hout).2.1⟩

end Runs

/-! ## The highest value -/

/-- Nothing has been seen that the counter did not have. -/
structure Peaks (s : Wkqs n π) : Prop where
  busy : ∀ i, (s.wkq i).busy ≤ s.peak i
  zero : ∀ i, 0 ≤ s.peak i
  maxBusy : ∀ i, ((s.wkq i).maxBusy : Int) ≤ s.peak i
  read : ∀ {p i new}, s.loc p = .readMax i new → (new : Int) ≤ s.peak i
  swap : ∀ {p i new old}, s.loc p = .cmpxchg i new old → (new : Int) ≤ s.peak i ∧ old < new

section Peaks

variable {s0 s s' : Wkqs n π} {es es' : List (Ev n π)} {e : Ev n π}

omit [DecidableEq π] in
theorem Started.peaks (h : Started s) : Peaks s where
  busy i := by rw [h.wkq i, h.peak i]
  zero i := by rw [h.peak i]
  maxBusy i := by
    rw [h.wkq i, h.peak i]
    exact Int.le_refl 0
  read {p} _ _ hl := by
    rw [h.loc p] at hl
    cases hl
  swap {p} _ _ _ hl := by
    rw [h.loc p] at hl
    cases hl

/-- A step that raises peaks only, and moves the process where what it carries is below them. -/
theorem Peaks.moves (h : Peaks s) {p : π} {l : Loc n} (hpk : ∀ i, s.peak i ≤ s'.peak i)
    (hbusy : ∀ i, (s'.wkq i).busy ≤ s'.peak i) (hmax : ∀ i, ((s'.wkq i).maxBusy : Int) ≤ s'.peak i)
    (hloc : s'.loc = Function.update s.loc p l) (hread : ∀ i new, l = .readMax i new → (new : Int) ≤ s.peak i)
    (hswap : ∀ i new old, l = .cmpxchg i new old → (new : Int) ≤ s.peak i ∧ old < new) : Peaks s' where
  busy := hbusy
  zero i := Int.le_trans (h.zero i) (hpk i)
  maxBusy := hmax
  read {r i new} hl := by
    rw [hloc] at hl
    by_cases hr : r = p
    · rw [hr, Function.update_self] at hl
      exact Int.le_trans (hread i new hl) (hpk i)
    · rw [Function.update_of_ne hr] at hl
      exact Int.le_trans (h.read hl) (hpk i)
  swap {r i new old} hl := by
    rw [hloc] at hl
    by_cases hr : r = p
    · rw [hr, Function.update_self] at hl
      exact ⟨Int.le_trans (hswap i new old hl).1 (hpk i), (hswap i new old hl).2⟩
    · rw [Function.update_of_ne hr] at hl
      exact ⟨Int.le_trans (h.swap hl).1 (hpk i), (h.swap hl).2⟩

omit [DecidableEq π] in
/-- Nobody moves, and one queue changes. -/
theorem Peaks.setQ (h : Peaks s) {i : Fin n} {Q : AuWkq π} (hb : Q.busy ≤ s.peak i)
    (hm : (Q.maxBusy : Int) ≤ s.peak i) : Peaks (s.setQ i Q) where
  busy j := by
    show (Function.update s.wkq i Q j).busy ≤ s.peak j
    by_cases hj : j = i
    · rw [hj, Function.update_self]
      exact hb
    · rw [Function.update_of_ne hj]
      exact h.busy j
  zero := h.zero
  maxBusy j := by
    show ((Function.update s.wkq i Q j).maxBusy : Int) ≤ s.peak j
    by_cases hj : j = i
    · rw [hj, Function.update_self]
      exact hm
    · rw [Function.update_of_ne hj]
      exact h.maxBusy j
  read := h.read
  swap := h.swap

omit [DecidableEq π] in
/-- A counter is raised. -/
theorem Peaks.incBusy (h : Peaks s) (i : Fin n) : Peaks (s.incBusy i) := by
  have hpk : ∀ j, s.peak j ≤ (s.incBusy i).peak j := by
    intro j
    show s.peak j ≤ Function.update s.peak i (max (s.peak i) ((s.wkq i).busy + 1)) j
    by_cases hj : j = i
    · rw [hj, Function.update_self]
      exact Int.le_max_left _ _
    · rw [Function.update_of_ne hj]
  refine ⟨fun j => ?_, fun j => Int.le_trans (h.zero j) (hpk j), fun j => ?_,
    fun hl => Int.le_trans (h.read hl) (hpk _), fun hl => ⟨Int.le_trans (h.swap hl).1 (hpk _), (h.swap hl).2⟩⟩
  · by_cases hj : j = i
    · subst hj
      show (Function.update s.wkq j _ j).busy ≤ Function.update s.peak j _ j
      rw [Function.update_self, Function.update_self]
      exact Int.le_max_right _ _
    · show (Function.update s.wkq i _ j).busy ≤ Function.update s.peak i _ j
      rw [Function.update_of_ne hj, Function.update_of_ne hj]
      exact h.busy j
  · refine Int.le_trans ?_ (hpk j)
    show ((Function.update s.wkq i _ j).maxBusy : Int) ≤ s.peak j
    by_cases hj : j = i
    · subst hj
      rw [Function.update_self]
      exact h.maxBusy j
    · rw [Function.update_of_ne hj]
      exact h.maxBusy j

/-- A process moves. -/
theorem Peaks.goto (h : Peaks s) {p : π} {l : Loc n}
    (hread : ∀ i new, l = .readMax i new → (new : Int) ≤ s.peak i)
    (hswap : ∀ i new old, l = .cmpxchg i new old → (new : Int) ≤ s.peak i ∧ old < new) : Peaks (s.goto p l) :=
  h.moves (fun _ => Int.le_refl _) h.busy h.maxBusy rfl hread hswap

omit [DecidableEq π] in
/-- The completions and the past do not matter. -/
theorem Peaks.past (h : Peaks s) (comp : π → Bool) (calls runs returns : π → Nat) :
    Peaks { s with comp := comp, calls := calls, runs := runs, returns := returns } :=
  ⟨h.busy, h.zero, h.maxBusy, h.read, h.swap⟩

theorem next_ne (i idleIdx j : Fin n) (idle : Nat) :
    (∀ new, Loc.next i idle idleIdx ≠ .readMax j new) ∧ ∀ new old, Loc.next i idle idleIdx ≠ .cmpxchg j new old := by
  rw [Loc.next]
  split <;> simp

variable [NeZero n]

theorem Peaks.step (h : Peaks s) (hs : WkqStep s e s') : Peaks s' := by
  cases hs with
  | @call p hl => exact (h.goto (l := .probe 0 uintMax 0) (by simp) (by simp)).past _ _ _ _
  | @probe p i idleIdx idle k hl hk =>
    refine (h.incBusy i).goto (fun j new hr => ?_) fun j new old hr => ?_
    · split_ifs at hr
    · split_ifs at hr
  | @leave p i idleIdx idle hl =>
    have hb : (s.wkq i).busy - 1 ≤ s.peak i := Int.le_trans (Int.sub_le_self _ (by decide)) (h.busy i)
    have hq : Peaks (s.decBusy i) := h.setQ hb (h.maxBusy i)
    exact hq.goto (fun j new hr => absurd hr ((next_ne i idleIdx j idle).1 new))
      fun j new old hr => absurd hr ((next_ne i idleIdx j idle).2 new old)
  | @choose p i hl => exact (h.incBusy i).goto (by simp) (by simp)
  | @readBusy p i hl =>
    refine h.goto (fun j new hr => ?_) (by simp)
    cases hr
    have hb := h.busy i
    have hz := h.zero i
    omega
  | @readMax p i new hl =>
    have hnew := h.read hl
    refine h.goto (fun j new' hr => ?_) fun j new' old hr => ?_
    · split_ifs at hr
    · split_ifs at hr with hle
      cases hr
      exact ⟨hnew, Nat.lt_of_not_le hle⟩
  | @swap p i new old hl hm =>
    have hq : Peaks (s.setQ i { s.wkq i with maxBusy := new }) := h.setQ (h.busy i) (h.swap hl).1
    exact hq.goto (by simp) (by simp)
  | @giveUp p i new old hl hm => exact h.goto (by simp) (by simp)
  | @queue p i hl =>
    have hq : Peaks (s.setQ i { s.wkq i with q := (s.wkq i).q ++ [p] }) := h.setQ (h.busy i) (h.maxBusy i)
    exact hq.goto (by simp) (by simp)
  | @ret p hl hc => exact (h.goto (l := .out) (by simp) (by simp)).past _ _ _ _
  | @take p i rest hw hq => exact h.setQ (h.busy i) (h.maxBusy i)
  | @func p i hw =>
    have hq : Peaks (s.setQ i { s.wkq i with worker := .ran p }) := h.setQ (h.busy i) (h.maxBusy i)
    exact hq.past _ _ _ _
  | @dec p i hw =>
    have hb : (s.wkq i).busy - 1 ≤ s.peak i := Int.le_trans (Int.sub_le_self _ (by decide)) (h.busy i)
    exact h.setQ hb (h.maxBusy i)
  | @complete p i hw =>
    have hq : Peaks (s.setQ i { s.wkq i with worker := .idle }) := h.setQ (h.busy i) (h.maxBusy i)
    exact hq.past _ _ _ _

omit [DecidableEq π] [NeZero n] in
/-- The highest value of a queue that changes. -/
theorem maxBusy_update {f : Fin n → AuWkq π} {i : Fin n} {Q : AuWkq π} (hQ : (f i).maxBusy ≤ Q.maxBusy) (j : Fin n) :
    (f j).maxBusy ≤ (Function.update f i Q j).maxBusy := by
  by_cases hj : j = i
  · rw [hj, Function.update_self]
    exact hQ
  · rw [Function.update_of_ne hj]

/-- It is changed by a `cmpxchg` only, which makes it larger. -/
theorem maxBusy_step (h : Peaks s) (hs : WkqStep s e s') (j : Fin n) : (s.wkq j).maxBusy ≤ (s'.wkq j).maxBusy := by
  cases hs with
  | swap hl hm =>
    refine maxBusy_update ?_ j
    rw [hm]
    exact Nat.le_of_lt (h.swap hl).2
  | call _ | readBusy _ | readMax _ | giveUp _ _ | ret _ _ => exact Nat.le_refl _
  | probe _ _ | leave _ | choose _ | queue _ | take _ _ | func _ | dec _ | complete _ =>
    refine maxBusy_update ?_ j
    exact Nat.le_refl _

/-- **`max_busy`** only grows, and is no more than the counter has been. -/
theorem maxBusy_between (h0 : Started s0) (h : Run WkqStep s0 es s) (h' : Run WkqStep s es' s') (i : Fin n) :
    (s.wkq i).maxBusy ≤ (s'.wkq i).maxBusy ∧ ((s'.wkq i).maxBusy : Int) ≤ s'.peak i := by
  have hp : Peaks s := h.inv h0.peaks fun _ _ _ hi hs => hi.step hs
  have hboth := h'.inv (I := fun t => Peaks t ∧ (s.wkq i).maxBusy ≤ (t.wkq i).maxBusy) ⟨hp, Nat.le_refl _⟩
    fun _ _ _ hi hs => ⟨hi.1.step hs, Nat.le_trans hi.2 (maxBusy_step hi.1 hs i)⟩
  exact ⟨hboth.2, hboth.1.maxBusy i⟩

theorem maxBusy_between_one : ∃ s s' : Wkqs 1 (Fin 1), s.loc 0 = .wait ∧ s'.calls 0 = 1 ∧
    (s.wkq 0).maxBusy ≤ (s'.wkq 0).maxBusy ∧ ((s'.wkq 0).maxBusy : Int) ≤ s'.peak 0 := by
  obtain ⟨_, s, hrun, hw, hq, hl, -, hcalls⟩ := oneQueue_waits
  obtain ⟨_, s', hrun', -, hsame⟩ := oneQueue_returns hw hq hl
  exact ⟨s, s', hl, hsame.trans hcalls, maxBusy_between oneQueue_started hrun hrun' 0⟩

end Peaks

/-! ## How long a wait is -/

/-- The steps of the thread until it has done with the work it has. -/
def remain : Worker π → ℕ
  | .idle => 0
  | .run _ => 3
  | .ran _ => 2
  | .complete _ => 1

/-- The steps of the thread until the process is told, or zero if its work is not there. -/
def ahead (p : π) (Q : AuWkq π) : ℕ :=
  if hasWork p Q.worker = 1 then remain Q.worker
  else if p ∈ Q.q then remain Q.worker + 4 * Q.q.idxOf p + 4
  else 0

section Ahead

variable {s0 s s' : Wkqs n π} {es es' : List (Ev n π)} {e : Ev n π} {p : π} {i : Fin n}

theorem hasWork_le (p : π) (w : Worker π) : hasWork p w ≤ 1 := by
  cases w with
  | idle => exact Nat.zero_le 1
  | run r | ran r | complete r =>
    rw [hasWork]
    split <;> omega

/-- What is ahead of the process is not nothing iff its work is there. -/
theorem ahead_ne_zero {Q : AuWkq π} : ahead p Q ≠ 0 ↔ 0 < places p Q := by
  have hle := hasWork_le p Q.worker
  rw [ahead, places]
  by_cases hw : hasWork p Q.worker = 1
  · rw [if_pos hw]
    refine iff_of_true ?_ (by omega)
    revert hw
    cases Q.worker <;> simp [hasWork, remain]
  · rw [if_neg hw]
    by_cases hq : p ∈ Q.q
    · rw [if_pos hq]
      have hcount := List.count_pos_iff.mpr hq
      exact iff_of_true (by omega) (by omega)
    · rw [if_neg hq]
      have hcount := List.count_eq_zero.mpr hq
      exact iff_of_false (by simp) (by omega)

/-- Works added behind do not matter. -/
theorem ahead_append {Q : AuWkq π} {r : π} (hr : r ≠ p) : ahead p { Q with q := Q.q ++ [r] } = ahead p Q := by
  have hmem : p ∈ Q.q ++ [r] ↔ p ∈ Q.q := by simp [Ne.symm hr]
  show (if hasWork p Q.worker = 1 then remain Q.worker
    else if p ∈ Q.q ++ [r] then remain Q.worker + 4 * (Q.q ++ [r]).idxOf p + 4 else 0) = ahead p Q
  rw [ahead]
  by_cases hq : p ∈ Q.q
  · rw [if_pos (hmem.mpr hq), if_pos hq, List.idxOf_append_of_mem hq]
  · rw [if_neg (fun h => hq (hmem.mp h)), if_neg hq]

/-- The thread takes the next work. -/
theorem ahead_take {Q : AuWkq π} {r : π} {rest : List π} (hw : Q.worker = .idle) (hq : Q.q = r :: rest)
    (hp : ahead p Q ≠ 0) : ahead p { Q with q := rest, worker := .run r } + 1 = ahead p Q := by
  have hidle : ¬ hasWork p (Worker.idle : Worker π) = 1 := by simp [hasWork]
  have hnow : ahead p Q = if p ∈ r :: rest then 4 * (r :: rest).idxOf p + 4 else 0 := by
    rw [ahead, hw, hq, if_neg hidle]
    simp only [remain, Nat.zero_add]
  have hthen : ahead p { Q with q := rest, worker := .run r }
      = if hasWork p (.run r) = 1 then 3 else if p ∈ rest then 3 + 4 * rest.idxOf p + 4 else 0 := rfl
  rw [hnow] at hp
  rw [hnow, hthen]
  by_cases hr : r = p
  · subst hr
    rw [if_pos (by simp [hasWork]), if_pos List.mem_cons_self, List.idxOf_cons_self]
  · have hmem : p ∈ rest := by
      by_contra hno
      exact hp (if_neg (by simp [Ne.symm hr, hno]))
    rw [if_neg (by simp [hasWork, hr]), if_pos hmem, if_pos (List.mem_cons_of_mem r hmem), List.idxOf_cons_ne _ hr]
    omega

/-- The thread goes on with the work it has. -/
theorem ahead_goOn {Q : AuWkq π} {w : Worker π} {b : Int} (hsame : hasWork p w = hasWork p Q.worker)
    (hone : remain w + 1 = remain Q.worker) (hp : ahead p Q ≠ 0) :
    ahead p { Q with busy := b, worker := w } + 1 = ahead p Q := by
  show (if hasWork p w = 1 then remain w else if p ∈ Q.q then remain w + 4 * Q.q.idxOf p + 4 else 0) + 1 = _
  rw [hsame]
  rw [ahead] at hp ⊢
  by_cases hw : hasWork p Q.worker = 1
  · rw [if_pos hw, if_pos hw]
    exact hone
  · rw [if_neg hw] at hp
    have hq : p ∈ Q.q := by
      by_contra hno
      exact hp (if_neg hno)
    rw [if_neg hw, if_neg hw, if_pos hq, if_pos hq]
    omega

variable [Fintype π]

/-- A work is at one place only, and while it is there its process waits. -/
theorem Accounts.place (ha : Accounts s) (hp : ahead p (s.wkq i) ≠ 0) :
    s.loc p = .wait ∧ s.comp p = false ∧ places p (s.wkq i) = 1 := by
  have hs := ha.spots p
  have hle : places p (s.wkq i) ≤ tally s.wkq (places p) := le_tally s.wkq (places p) i
  have hpos := ahead_ne_zero.mp hp
  have hwait : waits (s.loc p) ≤ 1 := by
    cases s.loc p <;> simp [waits]
  have hcomp : (s.comp p).toNat = 0 := by omega
  refine ⟨?_, by simpa using hcomp, by omega⟩
  have hone : waits (s.loc p) = 1 := by omega
  revert hone
  cases s.loc p <;> simp [waits]

variable [NeZero n]

/-- **The thread moves.** -/
theorem ahead_worker (ha : Accounts s) (hs : WkqStep s (.worker i) s') (hp : ahead p (s.wkq i) ≠ 0) :
    s'.comp p = true ∨ ahead p (s'.wkq i) ≠ 0 ∧ ahead p (s'.wkq i) + 1 = ahead p (s.wkq i) := by
  cases hs with
  | @take r _ rest hw hq =>
    right
    have hgo := ahead_take hw hq hp
    show ahead p (Function.update s.wkq i _ i) ≠ 0 ∧ ahead p (Function.update s.wkq i _ i) + 1 = _
    rw [Function.update_self]
    refine ⟨ahead_ne_zero.mpr ?_, hgo⟩
    have hone := (ha.place hp).2.2
    rw [places, hw, hq, List.count_cons] at hone
    show 0 < rest.count p + hasWork p (.run r)
    by_cases hr : r = p
    · simp [hasWork, hr]
    · rw [if_neg (by simpa using hr)] at hone
      simpa [hasWork, hr] using Nat.lt_of_lt_of_eq Nat.zero_lt_one hone.symm
  | @func r _ hw =>
    right
    have hgo := ahead_goOn (b := (s.wkq i).busy) (w := .ran r) (by rw [hw]; rfl) (by rw [hw]; rfl) hp
    show ahead p (Function.update s.wkq i _ i) ≠ 0 ∧ ahead p (Function.update s.wkq i _ i) + 1 = _
    rw [Function.update_self]
    refine ⟨ahead_ne_zero.mpr ?_, hgo⟩
    have hpl := ahead_ne_zero.mp hp
    rw [places, hw] at hpl
    exact hpl
  | @dec r _ hw =>
    right
    have hgo := ahead_goOn (b := (s.wkq i).busy - 1) (w := .complete r) (by rw [hw]; rfl) (by rw [hw]; rfl) hp
    show ahead p (Function.update s.wkq i _ i) ≠ 0 ∧ ahead p (Function.update s.wkq i _ i) + 1 = _
    rw [Function.update_self]
    refine ⟨ahead_ne_zero.mpr ?_, hgo⟩
    have hpl := ahead_ne_zero.mp hp
    rw [places, hw] at hpl
    exact hpl
  | @complete r _ hw =>
    by_cases hr : r = p
    · left
      show Function.update s.comp r true p = true
      rw [hr, Function.update_self]
    · right
      have hgo := ahead_goOn (b := (s.wkq i).busy) (w := .idle) (by rw [hw]; simp [hasWork, hr]) (by rw [hw]; rfl) hp
      show ahead p (Function.update s.wkq i _ i) ≠ 0 ∧ ahead p (Function.update s.wkq i _ i) + 1 = _
      rw [Function.update_self]
      refine ⟨ahead_ne_zero.mpr ?_, hgo⟩
      have hpl := ahead_ne_zero.mp hp
      rw [places, hw] at hpl
      simpa [places, hasWork, hr] using hpl

/-- **Somebody else moves.** -/
theorem ahead_other (ha : Accounts s) (hs : WkqStep s e s') (he : e ≠ .worker i) (hp : ahead p (s.wkq i) ≠ 0) :
    ahead p (s'.wkq i) = ahead p (s.wkq i) := by
  have hkept : ∀ (j : Fin n) (Q : AuWkq π), ahead p Q = ahead p (s.wkq j) →
      ahead p (Function.update s.wkq j Q i) = ahead p (s.wkq i) := by
    intro j Q hQ
    by_cases hj : i = j
    · rw [hj, Function.update_self]
      exact hQ
    · rw [Function.update_of_ne hj]
  have hthread : ∀ (j : Fin n) (Q : AuWkq π), i ≠ j →
      ahead p (Function.update s.wkq j Q i) = ahead p (s.wkq i) := by
    intro j Q hj
    rw [Function.update_of_ne hj]
  cases hs with
  | call _ | readBusy _ | readMax _ | giveUp _ _ | ret _ _ => rfl
  | probe _ _ | leave _ | choose _ | swap _ _ => exact hkept _ _ rfl
  | queue hl =>
    refine hkept _ _ (ahead_append ?_)
    rintro rfl
    rw [(ha.place hp).1] at hl
    cases hl
  | take _ _ | func _ | dec _ | complete _ => exact hthread _ _ fun hj => he (hj ▸ rfl)

/-- A call that has been told of its end returns, and only such a one. -/
theorem told_step (ha : Accounts s) (hs : WkqStep s e s') (p : π) :
    s'.returns p = s.returns p ∧ (s.comp p = true → s'.comp p = true) ∨
      s.comp p = true ∧ s'.returns p = s.returns p + 1 := by
  cases hs with
  | @call r hl =>
    refine .inl ⟨rfl, fun hc => ?_⟩
    have hne : p ≠ r := by
      rintro rfl
      have hspots := ha.spots p
      rw [hl, hc] at hspots
      simp [waits] at hspots
    exact (Function.update_of_ne hne _ _).trans hc
  | @ret r hl hc =>
    by_cases hne : p = r
    · subst hne
      exact .inr ⟨hc, Function.update_self _ _ _⟩
    · exact .inl ⟨Function.update_of_ne hne _ _, (Function.update_of_ne hne _ _).trans⟩
  | @complete r i hw =>
    refine .inl ⟨rfl, fun hc => ?_⟩
    show Function.update s.comp r true p = true
    by_cases hne : p = r
    · rw [hne, Function.update_self]
    · rw [Function.update_of_ne hne]
      exact hc
  | probe _ _ | leave _ | choose _ | readBusy _ | readMax _ | swap _ _ | giveUp _ _ | queue _ | take _ _ | func _
  | dec _ => exact .inl ⟨rfl, id⟩

/-- It has been told, or has returned. -/
def Ended (s s' : Wkqs n π) (p : π) : Prop := s.returns p < s'.returns p ∨ s'.comp p = true ∧ s'.returns p = s.returns p

/-- What is ahead shrinks with every step of the thread, until the end. -/
theorem ahead_run (ha : Accounts s) (hp : ahead p (s.wkq i) ≠ 0) (h : Run WkqStep s es' s') :
    Accounts s' ∧ (Ended s s' p ∨ s'.returns p = s.returns p ∧ ahead p (s'.wkq i) ≠ 0 ∧
      ahead p (s'.wkq i) + es'.count (.worker i) = ahead p (s.wkq i)) := by
  induction h with
  | nil => exact ⟨ha, .inr ⟨rfl, hp, rfl⟩⟩
  | @snoc es t t' e _ hs ih =>
    obtain ⟨hat, hcase⟩ := ih
    refine ⟨hat.step hs, ?_⟩
    rcases hcase with hend | ⟨hret, hmore, hsum⟩
    · left
      rcases told_step hat hs p with ⟨hsame, hstay⟩ | ⟨hc, hone⟩
      · rcases hend with hlt | ⟨hc, heq⟩
        · exact .inl (hsame ▸ hlt)
        · exact .inr ⟨hstay hc, hsame.trans heq⟩
      · left
        rcases hend with hlt | ⟨-, heq⟩ <;> omega
    · have hcomp := (hat.place hmore).2.1
      have hret' : t'.returns p = s.returns p := by
        rcases told_step hat hs p with ⟨hsame, -⟩ | ⟨hc, -⟩
        · exact hsame.trans hret
        · rw [hcomp] at hc
          cases hc
      by_cases he : e = .worker i
      · subst he
        rcases ahead_worker hat hs hmore with hc | ⟨hmore', hdown⟩
        · exact .inl (.inr ⟨hc, hret'⟩)
        · refine .inr ⟨hret', hmore', ?_⟩
          rw [List.count_append, List.count_singleton_self]
          omega
      · have hsame := ahead_other hat hs he hmore
        refine .inr ⟨hret', by rwa [hsame], ?_⟩
        rw [hsame, List.count_append, List.count_singleton, if_neg (by simpa using he)]
        exact hsum

omit [Fintype π] in
/-- A thread whose queue has a work can go on. -/
theorem worker_moves (hp : ahead p (s.wkq i) ≠ 0) : ∃ t, WkqStep s (.worker i) t := by
  cases hw : (s.wkq i).worker with
  | run r => exact ⟨_, .func hw⟩
  | ran r => exact ⟨_, .dec hw⟩
  | complete r => exact ⟨_, .complete hw⟩
  | idle =>
    cases hq : (s.wkq i).q with
    | cons r rest => exact ⟨_, .take hw hq⟩
    | nil =>
      refine absurd ?_ hp
      rw [ahead, hw, hq]
      simp [hasWork]

/-- **A wait ends.**  The work of a process that waits is on one queue, whose thread can move; and in every run
    from here in which that thread makes as many steps as are ahead, the process has been told that its function
    is done, whatever the others do. -/
theorem wait_ends (h0 : Started s0) (h : Run WkqStep s0 es s) (hl : s.loc p = .wait) (hc : s.comp p = false) :
    ∃ i, (∃ t, WkqStep s (.worker i) t) ∧ ∀ {es' : List (Ev n π)} {s' : Wkqs n π}, Run WkqStep s es' s' →
      ahead p (s.wkq i) ≤ es'.count (.worker i) → Ended s s' p := by
  have ha := Accounts.of_run h0 h
  have hspots := ha.spots p
  rw [hl, hc] at hspots
  obtain ⟨i, hi⟩ := exists_of_tally (f := s.wkq) (w := places p) (by
    simp only [waits, Bool.toNat_false] at hspots
    omega)
  have hp := ahead_ne_zero.mpr hi
  refine ⟨i, worker_moves hp, fun hrun hlong => ?_⟩
  rcases (ahead_run ha hp hrun).2 with hend | ⟨-, hmore, hsum⟩
  · exact hend
  · omega

theorem wait_ends_one : ∃ s s' : Wkqs 1 (Fin 1), s.loc 0 = .wait ∧ s.comp 0 = false ∧ Ended s s' 0 := by
  obtain ⟨_, s, hrun, hw, hq, hl, hc, -⟩ := oneQueue_waits
  obtain ⟨t1, h1, hw1⟩ : ∃ t, WkqStep s (.worker 0) t ∧ (t.wkq 0).worker = .run 0 := ⟨_, .take hw hq, rfl⟩
  obtain ⟨t2, h2, hw2⟩ : ∃ t, WkqStep t1 (.worker 0) t ∧ (t.wkq 0).worker = .ran 0 := ⟨_, .func hw1, rfl⟩
  obtain ⟨t3, h3, hw3⟩ : ∃ t, WkqStep t2 (.worker 0) t ∧ (t.wkq 0).worker = .complete 0 := ⟨_, .dec hw2, rfl⟩
  obtain ⟨t4, h4⟩ : ∃ t, WkqStep t3 (.worker 0) t := ⟨_, .complete hw3⟩
  obtain ⟨i, -, hend⟩ := wait_ends oneQueue_started hrun hl hc
  obtain rfl : i = 0 := Subsingleton.elim i 0
  refine ⟨s, t4, hl, hc, hend ((((Run.nil.snoc h1).snoc h2).snoc h3).snoc h4) ?_⟩
  rw [ahead, hw, hq]
  decide

end Ahead

end KernelPatches.Aufs.Wkq
