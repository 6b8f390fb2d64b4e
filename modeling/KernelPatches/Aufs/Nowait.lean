/-
  aufs: the tasks nobody waits for, and those who wait for all of them.

  `au_wkq_nowait` hands a task to the system's work queue and goes on; the task takes the lock of the super block,
  does its work, says that it is done, `au_nwt_done`, and drops the lock.  An operation on the union first waits
  until no task is left, `au_nwt_flush`, and takes the lock then.  New tasks may have come in between, but those
  that were there when it began have done their work.

  The last `au_nwt_done` wakes those who wait.  When there is no memory for a task it is not counted any more
  either, but there nobody is woken.

  * `Task`, `Proc`, `NwtStep` — where a task and an operation can be, and their steps in any order;
  * `flush_barrier`          — who has the lock after a flush finds the work of all earlier tasks done;
  * `flush_woken`            — as long as no task fails for want of memory while it is the last one and somebody
                              sleeps, there is a task left for everybody who sleeps, and somebody can go on;
  * `nomem_strands`          — where one does, whoever sleeps goes on sleeping until there is a new task.
-/
import KernelPatches.Lib.Tally

namespace KernelPatches.Aufs.Nowait

open KernelPatches.Lib

/-! ## Tasks and operations -/

/-- How the lock of the super block is taken. -/
inductive Mode where
  | read
  | write
  deriving DecidableEq

/-- A task: none; counted in `nw_len`; on the queue; with the lock; with the lock and done. -/
inductive Task where
  | none
  | counted
  | queued
  | locked
  | ended
  deriving DecidableEq

/-- An operation: outside; in `au_nwt_flush`, about to look at `nw_len`; asleep there; through it; with the lock. -/
inductive Proc where
  | out
  | flush
  | asleep
  | flushed
  | holds (m : Mode)
  deriving DecidableEq

/-- `si_nowait.nw_len`, the tasks and the operations.  It is told of each flush which tasks were there when it
    began. -/
structure Nwt (τ π : Type) where
  nwLen : Int
  tasks : τ → Task
  procs : π → Proc
  before : π → τ → Bool

inductive Ev (τ π : Type) where
  | issue (t : τ)
  | nomem (t : τ)
  | enqueue (t : τ)
  | lock (t : τ)
  | done (t : τ)
  | unlock (t : τ)
  | flush (p : π)
  | check (p : π)
  | take (p : π) (m : Mode)
  | release (p : π)

section

variable {τ π : Type} [DecidableEq τ] [DecidableEq π]

namespace Nwt

def toTask (s : Nwt τ π) (t : τ) (l : Task) : Nwt τ π := { s with tasks := Function.update s.tasks t l }

def toProc (s : Nwt τ π) (p : π) (l : Proc) : Nwt τ π := { s with procs := Function.update s.procs p l }

/-- There is no such task any more. -/
def forget (s : Nwt τ π) (t : τ) : Nwt τ π :=
  { s.toTask t .none with before := fun p => Function.update (s.before p) t false }

/-- `wake_up_all` -/
def wakeUpAll (s : Nwt τ π) : Nwt τ π := { s with procs := fun p => if s.procs p = .asleep then .flush else s.procs p }

/-- `au_nwt_done` -/
def auNwtDone (s : Nwt τ π) : Nwt τ π :=
  let s := { s with nwLen := s.nwLen - 1 }
  if s.nwLen = 0 then s.wakeUpAll else s

end Nwt

/-- It is with the lock. -/
def Task.Holds (l : Task) : Prop := l = .locked ∨ l = .ended

/-- Nobody has the lock in a way that excludes this one. -/
structure CanLock (mode : τ → Mode) (s : Nwt τ π) (m : Mode) : Prop where
  tasks : ∀ t, (s.tasks t).Holds → m = .read ∧ mode t = .read
  procs : ∀ p m', s.procs p = .holds m' → m = .read ∧ m' = .read

/-- The steps; the task `t` takes the lock as `mode t`. -/
inductive NwtStep (mode : τ → Mode) : Nwt τ π → Ev τ π → Nwt τ π → Prop
  /-- `au_wkq_nowait` -/
  | issue {s : Nwt τ π} {t : τ} (ht : s.tasks t = .none) :
      NwtStep mode s (.issue t) { s.toTask t .counted with nwLen := s.nwLen + 1 }
  | nomem {s : Nwt τ π} {t : τ} (ht : s.tasks t = .counted) :
      NwtStep mode s (.nomem t) { s.forget t with nwLen := s.nwLen - 1 }
  | enqueue {s : Nwt τ π} {t : τ} (ht : s.tasks t = .counted) : NwtStep mode s (.enqueue t) (s.toTask t .queued)
  | lock {s : Nwt τ π} {t : τ} (ht : s.tasks t = .queued) (hc : CanLock mode s (mode t)) :
      NwtStep mode s (.lock t) (s.toTask t .locked)
  | done {s : Nwt τ π} {t : τ} (ht : s.tasks t = .locked) : NwtStep mode s (.done t) (s.toTask t .ended).auNwtDone
  | unlock {s : Nwt τ π} {t : τ} (ht : s.tasks t = .ended) : NwtStep mode s (.unlock t) (s.forget t)
  /-- `au_nwt_flush` -/
  | flush {s : Nwt τ π} {p : π} (hp : s.procs p = .out) :
      NwtStep mode s (.flush p)
        { s.toProc p .flush with before := Function.update s.before p fun t => decide (s.tasks t ≠ .none) }
  /-- `wait_event`, which goes to sleep only if it is not woken after it has looked -/
  | check {s : Nwt τ π} {p : π} (hp : s.procs p = .flush) :
      NwtStep mode s (.check p) (s.toProc p (if s.nwLen = 0 then .flushed else .asleep))
  /-- `si_noflush_read_lock`, `si_noflush_write_lock` -/
  | take {s : Nwt τ π} {p : π} (m : Mode) (hp : s.procs p = .flushed) (hc : CanLock mode s m) :
      NwtStep mode s (.take p m) (s.toProc p (.holds m))
  | release {s : Nwt τ π} {p : π} {m : Mode} (hp : s.procs p = .holds m) :
      NwtStep mode s (.release p) (s.toProc p .out)

/-- It is counted in `nw_len`. -/
def pending : Task → ℕ
  | .counted | .queued | .locked => 1
  | _ => 0

/-- It is through the flush. -/
def Proc.Through (l : Proc) : Prop := l = .flushed ∨ ∃ m, l = .holds m

variable [Fintype τ]

/-- The invariant: what `nw_len` counts; of the tasks that a flush found, those that are left are done once it is
    through; and who has the lock. -/
structure Flushes (mode : τ → Mode) (s : Nwt τ π) : Prop where
  count : s.nwLen = (tally s.tasks pending : ℕ)
  live : ∀ {p t}, s.before p t = true → s.tasks t ≠ .none
  through : ∀ {p t}, s.before p t = true → (s.procs p).Through → s.tasks t = .ended
  excl : ∀ {p t m}, s.procs p = .holds m → (s.tasks t).Holds → m = .read ∧ mode t = .read

/-- No task, and no operation. -/
structure Idle (s : Nwt τ π) : Prop where
  nwLen : s.nwLen = 0
  tasks : ∀ t, s.tasks t = .none
  procs : ∀ p, s.procs p = .out
  before : ∀ p t, s.before p t = false

/-! ## One task and one operation -/

/-- Nothing is going on. -/
def nothing : Nwt (Fin 1) (Fin 1) := ⟨0, fun _ => .none, fun _ => .out, fun _ _ => false⟩

theorem nothing_idle : Idle nothing := ⟨rfl, fun _ => rfl, fun _ => rfl, fun _ _ => rfl⟩

/-- A task is counted, and a flush begins. -/
theorem nothing_flush : ∃ s1 s2 : Nwt (Fin 1) (Fin 1), NwtStep (fun _ => .read) nothing (.issue 0) s1 ∧
    NwtStep (fun _ => .read) s1 (.flush 0) s2 ∧
    s2.nwLen = 1 ∧ s2.tasks 0 = .counted ∧ s2.procs 0 = .flush ∧ s2.before 0 0 = true :=
  ⟨_, _, .issue rfl, .flush rfl, rfl, rfl, rfl, rfl⟩

/-- It goes to sleep. -/
theorem nothing_sleeps (P : Nwt (Fin 1) (Fin 1) → Ev (Fin 1) (Fin 1) → Prop)
    (hP : ∀ s t, P s (.issue t) ∧ P s (.flush t) ∧ P s (.check t)) : ∃ s : Nwt (Fin 1) (Fin 1),
    Run (Guarded (NwtStep fun _ => .read) P) nothing ([.issue 0] ++ [.flush 0] ++ [.check 0]) s ∧
      s.nwLen = 1 ∧ s.tasks 0 = .counted ∧ s.procs 0 = .asleep := by
  obtain ⟨s1, s2, h1, h2, hlen, ht, hp, -⟩ := nothing_flush
  obtain ⟨s3, h3, hlen3, ht3, hp3⟩ : ∃ s3, NwtStep (fun _ => .read) s2 (.check 0) s3 ∧ s3.nwLen = 1 ∧
      s3.tasks 0 = .counted ∧ s3.procs 0 = .asleep := by
    refine ⟨_, .check hp, hlen, ht, ?_⟩
    rw [if_neg (by omega)]
    rfl
  exact ⟨s3, ((Run.nil.snoc ⟨(hP _ 0).1, h1⟩).snoc ⟨(hP _ 0).2.1, h2⟩).snoc ⟨(hP _ 0).2.2, h3⟩, hlen3, ht3, hp3⟩

/-- The task is done, and the operation has the lock with it. -/
theorem nothing_shares : ∃ (es : List (Ev (Fin 1) (Fin 1))) (s : Nwt (Fin 1) (Fin 1)),
    Run (NwtStep fun _ => .read) nothing es s ∧ s.procs 0 = .holds .read ∧ s.before 0 0 = true := by
  obtain ⟨s1, s2, h1, h2, hlen, ht, hp, hb⟩ := nothing_flush
  obtain ⟨s3, h3, hlen3, ht3, hp3, hb3⟩ : ∃ s3, NwtStep (fun _ => .read) s2 (.enqueue 0) s3 ∧ s3.nwLen = 1 ∧
      s3.tasks 0 = .queued ∧ s3.procs 0 = .flush ∧ s3.before 0 0 = true := ⟨_, .enqueue ht, hlen, rfl, hp, hb⟩
  have hfree : ∀ s : Nwt (Fin 1) (Fin 1), (∀ m, s.procs 0 ≠ .holds m) → CanLock (fun _ => .read) s .read := by
    refine fun s hno => ⟨fun _ _ => ⟨rfl, rfl⟩, fun q m hq => ?_⟩
    rw [Subsingleton.elim q 0] at hq
    exact absurd hq (hno m)
  obtain ⟨s4, h4, hlen4, ht4, hp4, hb4⟩ : ∃ s4, NwtStep (fun _ => .read) s3 (.lock 0) s4 ∧ s4.nwLen = 1 ∧
      s4.tasks 0 = .locked ∧ s4.procs 0 = .flush ∧ s4.before 0 0 = true :=
    ⟨_, .lock ht3 (hfree s3 (by rw [hp3]; simp)), hlen3, rfl, hp3, hb3⟩
  obtain ⟨s5, h5, hlen5, hp5, hb5⟩ : ∃ s5, NwtStep (fun _ => .read) s4 (.done 0) s5 ∧ s5.nwLen = 0 ∧
      s5.procs 0 = .flush ∧ s5.before 0 0 = true := by
    have hlast : s4.nwLen - 1 = 0 := by omega
    refine ⟨_, .done ht4, ?_⟩
    have hdone : (s4.toTask 0 .ended).auNwtDone
        = Nwt.wakeUpAll { s4.toTask 0 .ended with nwLen := s4.nwLen - 1 } := if_pos hlast
    rw [hdone]
    refine ⟨hlast, ?_, hb4⟩
    show (if s4.procs 0 = .asleep then Proc.flush else s4.procs 0) = .flush
    rw [hp4, if_neg (by simp)]
  obtain ⟨s6, h6, hp6, hb6⟩ : ∃ s6, NwtStep (fun _ => .read) s5 (.check 0) s6 ∧ s6.procs 0 = .flushed ∧
      s6.before 0 0 = true := by
    refine ⟨_, .check hp5, ?_, hb5⟩
    rw [if_pos hlen5]
    rfl
  refine ⟨_, _, (((((((Run.nil.snoc h1).snoc h2).snoc h3).snoc h4).snoc h5).snoc h6).snoc
    (.take .read hp6 (hfree s6 (by rw [hp6]; simp)))), rfl, hb6⟩

section Steps

variable {mode : τ → Mode} {s0 s s' : Nwt τ π} {es : List (Ev τ π)} {e : Ev τ π}

omit [DecidableEq τ] [DecidableEq π] in
theorem Idle.flushes (h : Idle s) : Flushes mode s where
  count := by
    have hz : tally s.tasks pending = 0 := tally_eq_zero.mpr fun t => by rw [h.tasks t]; rfl
    rw [hz, h.nwLen]
    rfl
  live {p t} hb := by
    rw [h.before p t] at hb
    cases hb
  through {p t} hb _ := by
    rw [h.before p t] at hb
    cases hb
  excl {p _ _} hp _ := by
    rw [h.procs p] at hp
    cases hp

omit [DecidableEq π] in
/-- A task goes on, and `nw_len` with it; if it comes to have the lock then it may. -/
theorem Flushes.toTask (h : Flushes mode s) {t : τ} {l : Task} {k : Int} {f : π → τ → Bool}
    (hk : k + pending (s.tasks t) = s.nwLen + pending l)
    (hbefore : ∀ p r, f p r = true → s.before p r = true ∧ (r = t → l ≠ .none ∧ (s.tasks t = .ended → l = .ended)))
    (hlock : l.Holds → (s.tasks t).Holds ∨ CanLock mode s (mode t)) :
    Flushes mode { s.toTask t l with nwLen := k, before := f } where
  count := by
    have ht := tally_update s.tasks pending t l
    have hold := h.count
    show k = (tally (Function.update s.tasks t l) pending : ℕ)
    omega
  live {p r} hb := by
    show Function.update s.tasks t l r ≠ .none
    obtain ⟨hb', hl⟩ := hbefore p r hb
    by_cases hr : r = t
    · rw [hr, Function.update_self]
      exact (hl hr).1
    · rw [Function.update_of_ne hr]
      exact h.live hb'
  through {p r} hb hp := by
    show Function.update s.tasks t l r = .ended
    obtain ⟨hb', hl⟩ := hbefore p r hb
    have hended := h.through hb' hp
    by_cases hr : r = t
    · rw [hr, Function.update_self]
      exact (hl hr).2 (hr ▸ hended)
    · rw [Function.update_of_ne hr]
      exact hended
  excl {p r m} hp hr := by
    have hr' : (Function.update s.tasks t l r).Holds := hr
    by_cases hrt : r = t
    · rw [hrt, Function.update_self] at hr'
      rcases hlock hr' with hold | hc
      · exact hrt ▸ h.excl hp hold
      · have hm := hc.procs p m hp
        exact ⟨hm.2, hrt ▸ hm.1⟩
    · rw [Function.update_of_ne hrt] at hr'
      exact h.excl hp hr'

omit [DecidableEq τ] [DecidableEq π] in
/-- Operations move, but none comes through a flush or takes the lock. -/
theorem Flushes.procs (h : Flushes mode s) {procs : π → Proc}
    (hp : ∀ p, (procs p).Through → procs p = s.procs p) : Flushes mode { s with procs := procs } where
  count := h.count
  live := h.live
  through {p _} hb hth := by
    refine h.through hb ?_
    rw [← hp p hth]
    exact hth
  excl {p _ m} hh hr := h.excl ((hp p (Or.inr ⟨m, hh⟩)).symm.trans hh) hr

omit [DecidableEq π] in
theorem Flushes.done (h : Flushes mode s) {t : τ} (ht : s.tasks t = .locked) :
    Flushes mode (s.toTask t .ended).auNwtDone := by
  have hstep : Flushes mode { s.toTask t .ended with nwLen := s.nwLen - 1, before := s.before } := by
    refine h.toTask ?_ (fun p r hb => ⟨hb, fun _ => ⟨by simp, fun _ => rfl⟩⟩) fun _ => .inl ?_
    · rw [ht]
      simp [pending]
    · rw [ht]
      exact .inl rfl
  show Flushes mode (if s.nwLen - 1 = 0 then _ else _)
  split
  · refine hstep.procs fun p hth => ?_
    split at hth
    · rcases hth with hth | ⟨m, hth⟩ <;> cases hth
    · rename_i hne
      exact if_neg hne
  · exact hstep

/-- **One step.** -/
theorem Flushes.step (h : Flushes mode s) (hs : NwtStep mode s e s') : Flushes mode s' := by
  cases hs with
  | @issue t ht =>
    refine h.toTask (f := s.before) ?_ (fun p r hb => ⟨hb, fun hr => absurd ht (hr ▸ h.live hb)⟩) ?_
    · rw [ht]
      simp [pending]
    · rintro (hl | hl) <;> cases hl
  | @nomem t ht =>
    refine h.toTask (l := .none) (f := fun p => Function.update (s.before p) t false) ?_ (fun p r hb => ?_) ?_
    · rw [ht]
      simp [pending]
    · by_cases hr : r = t
      · rw [hr, Function.update_self] at hb
        cases hb
      · rw [Function.update_of_ne hr] at hb
        exact ⟨hb, fun heq => absurd heq hr⟩
    · rintro (hl | hl) <;> cases hl
  | @enqueue t ht =>
    refine h.toTask (f := s.before) (k := s.nwLen) ?_
      (fun p r hb => ⟨hb, fun _ => ⟨by simp, fun hend => ?_⟩⟩) ?_
    · rw [ht]
      rfl
    · rw [ht] at hend
      cases hend
    · rintro (hl | hl) <;> cases hl
  | @lock t ht hc =>
    refine h.toTask (f := s.before) (k := s.nwLen) ?_
      (fun p r hb => ⟨hb, fun _ => ⟨by simp, fun hend => ?_⟩⟩) fun _ => .inr hc
    · rw [ht]
      rfl
    · rw [ht] at hend
      cases hend
  | done ht => exact h.done ht
  | @unlock t ht =>
    refine h.toTask (l := .none) (k := s.nwLen) (f := fun p => Function.update (s.before p) t false) ?_
      (fun p r hb => ?_) ?_
    · rw [ht]
      rfl
    · by_cases hr : r = t
      · rw [hr, Function.update_self] at hb
        cases hb
      · rw [Function.update_of_ne hr] at hb
        exact ⟨hb, fun heq => absurd heq hr⟩
    · rintro (hl | hl) <;> cases hl
  | @flush p hp =>
    have hnow : ∀ q t, Function.update s.before p (fun t => decide (s.tasks t ≠ .none)) q t = true →
        s.tasks t ≠ .none ∧ (q = p ∨ s.before q t = true) := by
      intro q t hb
      by_cases hq : q = p
      · rw [hq, Function.update_self] at hb
        exact ⟨of_decide_eq_true hb, .inl hq⟩
      · rw [Function.update_of_ne hq] at hb
        exact ⟨h.live hb, .inr hb⟩
    have hold : ∀ q, (Function.update s.procs p .flush q).Through →
        q ≠ p ∧ Function.update s.procs p .flush q = s.procs q := by
      intro q hth
      by_cases hq : q = p
      · rw [hq, Function.update_self] at hth
        rcases hth with hc | ⟨m, hc⟩ <;> cases hc
      · exact ⟨hq, Function.update_of_ne hq _ _⟩
    refine ⟨h.count, fun {q t} hb => (hnow q t hb).1, fun {q t} hb hth => ?_, fun {q t m} hh hr => ?_⟩
    · obtain ⟨hq, heq⟩ := hold q hth
      have hth' : (Function.update s.procs p .flush q).Through := hth
      rw [heq] at hth'
      exact h.through ((hnow q t hb).2.resolve_left hq) hth'
    · exact h.excl ((hold q (Or.inr ⟨m, hh⟩)).2.symm.trans hh) hr
  | @check p hp =>
    by_cases hz : s.nwLen = 0
    · -- nothing is left that is not done
      rw [if_pos hz]
      have hdone : ∀ t, pending (s.tasks t) = 0 := by
        have hcount := h.count
        rw [hz] at hcount
        exact tally_eq_zero.mp (by exact_mod_cast hcount.symm)
      refine ⟨h.count, h.live, fun {q t} hb hth => ?_, fun {q t m} hh hr => ?_⟩
      · have hlive := h.live hb
        have hpend := hdone t
        revert hlive hpend
        show _ → _ → s.tasks t = .ended
        cases s.tasks t <;> simp [pending]
      · have hh' : Function.update s.procs p .flushed q = .holds m := hh
        by_cases hq : q = p
        · rw [hq, Function.update_self] at hh'
          cases hh'
        · rw [Function.update_of_ne hq] at hh'
          exact h.excl hh' hr
    · rw [if_neg hz]
      refine h.procs fun q hth => ?_
      by_cases hq : q = p
      · rw [hq, Function.update_self] at hth
        rcases hth with hc | ⟨m, hc⟩ <;> cases hc
      · exact Function.update_of_ne hq _ _
  | @take p m hp hc =>
    refine ⟨h.count, h.live, fun {q t} hb hth => ?_, fun {q t m'} hh hr => ?_⟩
    · by_cases hq : q = p
      · exact h.through hb (hq ▸ Or.inl hp)
      · have hth' : (Function.update s.procs p (.holds m) q).Through := hth
        rw [Function.update_of_ne hq] at hth'
        exact h.through hb hth'
    · have hh' : Function.update s.procs p (.holds m) q = .holds m' := hh
      by_cases hq : q = p
      · rw [hq, Function.update_self] at hh'
        cases hh'
        exact hc.tasks t hr
      · rw [Function.update_of_ne hq] at hh'
        exact h.excl hh' hr
  | @release p m hp =>
    refine h.procs fun q hth => ?_
    by_cases hq : q = p
    · rw [hq, Function.update_self] at hth
      rcases hth with hc | ⟨m, hc⟩ <;> cases hc
    · exact Function.update_of_ne hq _ _

theorem Flushes.of_run (h0 : Idle s0) (h : Run (NwtStep mode) s0 es s) : Flushes mode s :=
  h.inv h0.flushes fun _ _ _ hi hs => hi.step hs

/-- **What a flush is for.**  When an operation has the lock, every task that was there when its flush began is
    gone or done; and one that is done and not gone shares the lock with it. -/
theorem flush_barrier (h0 : Idle s0) (h : Run (NwtStep mode) s0 es s) {p : π} {m : Mode} (hp : s.procs p = .holds m)
    {t : τ} (hb : s.before p t = true) : s.tasks t = .ended ∧ m = .read ∧ mode t = .read := by
  have hi := Flushes.of_run h0 h
  have hend := hi.through hb (Or.inr ⟨m, hp⟩)
  exact ⟨hend, hi.excl hp (Or.inr hend)⟩

theorem flush_barrier_shared : ∃ s : Nwt (Fin 1) (Fin 1), s.procs 0 = .holds .read ∧ s.tasks 0 = .ended := by
  obtain ⟨_, s, h, hp, hb⟩ := nothing_shares
  exact ⟨s, hp, (flush_barrier nothing_idle h hp hb).1⟩

/-! ## Who is woken -/

/-- A task that is not the last one, or nobody sleeps. -/
def MemLeft (s : Nwt τ π) : Ev τ π → Prop
  | .nomem _ => s.nwLen ≠ 1 ∨ ∀ p, s.procs p ≠ .asleep
  | _ => True

/-- A task goes on, or an operation drops the lock. -/
def Ev.GoesOn : Ev τ π → Prop
  | .enqueue _ | .lock _ | .done _ | .unlock _ | .release _ => True
  | _ => False

omit [DecidableEq τ] [Fintype τ] in
/-- Nobody comes to sleep who did not. -/
theorem asleep_toProc {p q : π} {l : Proc} (hl : l ≠ .asleep) (h : (s.toProc p l).procs q = .asleep) :
    s.procs q = .asleep := by
  have h' : Function.update s.procs p l q = .asleep := h
  by_cases hq : q = p
  · rw [hq, Function.update_self] at h'
    exact absurd h' hl
  · rwa [Function.update_of_ne hq] at h'

omit [DecidableEq τ] [DecidableEq π] [Fintype τ] in
/-- Who sleeps after the last task is done has slept before, and it was not the last. -/
theorem asleep_auNwtDone {q : π} (h : s.auNwtDone.procs q = .asleep) : s.procs q = .asleep ∧ s.auNwtDone.nwLen ≠ 0 := by
  rw [Nwt.auNwtDone] at h ⊢
  by_cases hz : s.nwLen - 1 = 0
  · simp only [if_pos hz, Nwt.wakeUpAll] at h
    split at h
    · cases h
    · rename_i hne
      exact absurd h hne
  · simp only [if_neg hz] at h ⊢
    exact ⟨h, hz⟩

/-- Whoever sleeps sleeps for a task. -/
theorem asleep_step (hi : Flushes mode s) (ha : ∀ p, s.procs p = .asleep → s.nwLen ≠ 0) (he : MemLeft s e)
    (hs : NwtStep mode s e s') : ∀ p, s'.procs p = .asleep → s'.nwLen ≠ 0 := by
  intro q hq
  cases hs with
  | issue ht =>
    have hc := hi.count
    show s.nwLen + 1 ≠ 0
    omega
  | nomem ht =>
    have hne : s.nwLen ≠ 1 := he.resolve_right fun hno => hno q hq
    show s.nwLen - 1 ≠ 0
    omega
  | enqueue _ | lock _ _ | unlock _ => exact ha q hq
  | done ht => exact (asleep_auNwtDone hq).2
  | flush hp => exact ha q (asleep_toProc (by simp) hq)
  | @check p hp =>
    show s.nwLen ≠ 0
    by_cases hz : s.nwLen = 0
    · rw [if_pos hz] at hq
      exact ha q (asleep_toProc (by simp) hq)
    · exact hz
  | take m hp hc => exact ha q (asleep_toProc (by simp) hq)
  | release hp => exact ha q (asleep_toProc (by simp) hq)

/-- While a task is counted, it or who has the lock can go on. -/
theorem goesOn (hi : Flushes mode s) (hlen : s.nwLen ≠ 0) :
    (∃ t, pending (s.tasks t) = 1) ∧ ∃ e s', e.GoesOn ∧ NwtStep mode s e s' := by
  have hpos : 0 < tally s.tasks pending := by
    have hc := hi.count
    omega
  obtain ⟨t, ht⟩ := exists_of_tally hpos
  have hmoves : (∃ t', (s.tasks t').Holds) ∨ (∃ p m, s.procs p = .holds m) ∨ CanLock mode s (mode t) := by
    by_contra hno
    push Not at hno
    exact hno.2.2 ⟨fun t' ht' => absurd ht' (hno.1 t'), fun p m hp => absurd hp (hno.2.1 p m)⟩
  cases htask : s.tasks t with
  | none =>
    rw [htask] at ht
    exact absurd ht (by simp [pending])
  | ended =>
    rw [htask] at ht
    exact absurd ht (by simp [pending])
  | counted => exact ⟨⟨t, by rw [htask]; rfl⟩, .enqueue t, _, trivial, .enqueue htask⟩
  | locked => exact ⟨⟨t, by rw [htask]; rfl⟩, .done t, _, trivial, .done htask⟩
  | queued =>
    refine ⟨⟨t, by rw [htask]; rfl⟩, ?_⟩
    rcases hmoves with ⟨t', hl | hl⟩ | ⟨p, m, hp⟩ | hfree
    · exact ⟨.done t', _, trivial, .done hl⟩
    · exact ⟨.unlock t', _, trivial, .unlock hl⟩
    · exact ⟨.release p, _, trivial, .release hp⟩
    · exact ⟨.lock t, _, trivial, .lock htask hfree⟩

/-- **Nobody sleeps for nothing**, as long as a task that there is no memory for is not the last one while somebody
    sleeps: there is a task left, and a task or who has the lock can go on. -/
theorem flush_woken (h0 : Idle s0) (h : Run (Guarded (NwtStep mode) MemLeft) s0 es s) {p : π}
    (hp : s.procs p = .asleep) :
    0 < s.nwLen ∧ (∃ t, pending (s.tasks t) = 1) ∧ ∃ e s', e.GoesOn ∧ NwtStep mode s e s' := by
  have hboth : Flushes mode s ∧ ∀ p, s.procs p = .asleep → s.nwLen ≠ 0 := by
    refine h.inv (I := fun s => Flushes mode s ∧ ∀ p, s.procs p = .asleep → s.nwLen ≠ 0)
      ⟨h0.flushes, fun q hq => ?_⟩ fun _ _ _ hi hs => ⟨hi.1.step hs.2, asleep_step hi.1 hi.2 hs.1 hs.2⟩
    rw [h0.procs q] at hq
    cases hq
  have hne := hboth.2 p hp
  have hc := hboth.1.count
  exact ⟨by omega, goesOn hboth.1 hne⟩

theorem flush_woken_one : ∃ s : Nwt (Fin 1) (Fin 1), s.procs 0 = .asleep ∧ 0 < s.nwLen := by
  obtain ⟨s, h, -, -, hp⟩ := nothing_sleeps MemLeft fun _ _ => ⟨trivial, trivial, trivial⟩
  exact ⟨s, hp, (flush_woken nothing_idle h hp).1⟩

/-- There is no new task. -/
def NoIssue (_ : Nwt τ π) : Ev τ π → Prop
  | .issue _ => False
  | _ => True

/-- Nothing is counted, and the operation sleeps. -/
structure Stranded (s : Nwt τ π) (p : π) : Prop where
  asleep : s.procs p = .asleep
  nwLen : s.nwLen = 0
  tasks : ∀ t, pending (s.tasks t) = 0

omit [Fintype τ] in
/-- A task that is gone is counted no more than before. -/
theorem pending_update {f : τ → Task} (h : ∀ t, pending (f t) = 0) (t : τ) (r : τ) :
    pending (Function.update f t .none r) = 0 := by
  by_cases hr : r = t
  · rw [hr, Function.update_self]
    rfl
  · rw [Function.update_of_ne hr]
    exact h r

/-- Who sleeps is not moved by a step of its own. -/
theorem asleep_update {f : π → Proc} {p q : π} (h : f p = .asleep) (hq : f q ≠ .asleep) (l : Proc) :
    Function.update f q l p = .asleep := by
  have hne : p ≠ q := by
    rintro rfl
    exact hq h
  rw [Function.update_of_ne hne]
  exact h

omit [Fintype τ] in
theorem Stranded.step {p : π} (h : Stranded s p) (he : NoIssue s e) (hs : NwtStep mode s e s') : Stranded s' p := by
  have hno : ∀ {t l}, s.tasks t = l → pending l = 0 := fun ht => ht ▸ h.tasks _
  cases hs with
  | issue ht => exact he.elim
  | nomem ht => exact absurd (hno ht) (by simp [pending])
  | enqueue ht => exact absurd (hno ht) (by simp [pending])
  | lock ht hc => exact absurd (hno ht) (by simp [pending])
  | done ht => exact absurd (hno ht) (by simp [pending])
  | @unlock t ht => exact ⟨h.asleep, h.nwLen, pending_update h.tasks t⟩
  | @flush q hq => exact ⟨asleep_update h.asleep (by rw [hq]; simp) _, h.nwLen, h.tasks⟩
  | @check q hq => exact ⟨asleep_update h.asleep (by rw [hq]; simp) _, h.nwLen, h.tasks⟩
  | @take q m hq hc => exact ⟨asleep_update h.asleep (by rw [hq]; simp) _, h.nwLen, h.tasks⟩
  | @release q m hq => exact ⟨asleep_update h.asleep (by rw [hq]; simp) _, h.nwLen, h.tasks⟩

/-- **Where one is stranded.**  A task that there is no memory for is the last one, and an operation sleeps: it
    sleeps on, with nothing to wait for, until there is a new task. -/
theorem nomem_strands {s1 s2 : Nwt τ π} {es' : List (Ev τ π)} (h0 : Idle s0) (h : Run (NwtStep mode) s0 es s) {p : π}
    {t : τ} (hp : s.procs p = .asleep) (hone : s.nwLen = 1) (hs : NwtStep mode s (.nomem t) s1)
    (h' : Run (Guarded (NwtStep mode) NoIssue) s1 es' s2) : s2.procs p = .asleep ∧ s2.nwLen = 0 := by
  have hstart : Stranded s1 p := by
    have hi := (Flushes.of_run h0 h).step hs
    have hlen : s1.nwLen = 0 ∧ s1.procs p = .asleep := by
      cases hs with
      | nomem ht => exact ⟨by show s.nwLen - 1 = 0; omega, hp⟩
    have hc := hi.count
    rw [hlen.1] at hc
    exact ⟨hlen.2, hlen.1, tally_eq_zero.mp (by exact_mod_cast hc.symm)⟩
  have hend := h'.inv (I := fun s => Stranded s p) hstart fun _ _ _ hi hs => hi.step hs.1 hs.2
  exact ⟨hend.asleep, hend.nwLen⟩

theorem nomem_strands_one : ∃ s : Nwt (Fin 1) (Fin 1), s.procs 0 = .asleep ∧ s.nwLen = 0 := by
  obtain ⟨s, h, hlen, ht, hp⟩ := nothing_sleeps (fun _ _ => True) fun _ _ => ⟨trivial, trivial, trivial⟩
  exact ⟨_, nomem_strands nothing_idle h.unguarded hp hlen (.nomem ht) .nil⟩

end Steps

end

end KernelPatches.Aufs.Nowait
