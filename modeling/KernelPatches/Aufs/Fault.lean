/-
  aufs: page faults on mapped files.

  A fault on a mapped aufs file is served by the file system below, which looks at `vma->vm_file`.  So
  `aufs_fault` puts the hidden file there, calls the handler of the file system below, and puts the aufs file
  back; all the while other threads fault on the same area.  Who finds a file that is not aufs's there waits.
  With read-only aufs branches (`robr`) a list of the areas being served (`si_lvma`) stands guard as well:
  `au_robr_safe_file` looks at the file first, and at the list afterwards, under its lock.

  Any number of threads fault on any number of areas of any number of files, and `FaultStep` is one move of
  one of them: what is done under the list's lock is one move, everything else is apart, and so is reading
  `vm_file` from looking at the list.

  * `fault_file`   — `vm_file` is the aufs file, or one thread is in the handler below, and then it is the
                     hidden file of that file: nobody is ever stuck with the wrong one;
  * `robr_list`    — every area is at most once on the list, and is on it iff one thread is serving it: when it
                     takes it off again it finds it (the `AuDebugOn`);
  * `fault_woken`  — who sleeps has been woken, or a thread that will wake it is serving its area, unless it
                     found no memory for its list entry.

  The hidden file is not aufs's own here: it is what `aufs_fault` relies on to know which file is which.
-/
import KernelPatches.Lib.Runs
import Mathlib.Data.List.Basic
import Mathlib.Logic.Function.Basic

namespace KernelPatches.Aufs

open KernelPatches.Lib

/-! ## Threads, areas and files -/

/-- The areas and their files: `own` is the aufs file an area was mapped with, `hFile` the hidden file of an
    aufs file (`fi_hfile[fi_bstart]`), and `aufs` says which is which (`private_data`, `au_test_aufs`). -/
structure Mapped (V F : Type) where
  robr : Bool
  own : V → F
  hFile : F → F
  aufs : F → Bool
  own_aufs : ∀ v, aufs (own v) = true
  hidden : ∀ f, aufs (hFile f) = false

/-- Where a thread is in `aufs_fault`. -/
inductive FaultLoc (V F : Type) where
  | idle
  /-- `wait_event`: on the wait queue, about to call `au_robr_safe_file` -/
  | check (v : V)
  /-- it has read `vm_file` -/
  | read (v : V) (f : F)
  | asleep (v : V)
  /-- it has the file -/
  | got (v : V) (f : F)
  /-- `fi_write_lock` -/
  | locked (v : V) (f : F)
  /-- `vm_file` is the hidden file: in the handler below -/
  | swapped (v : V) (f : F)
  /-- `au_robr_reset_file`: `vm_file` is the aufs file again -/
  | reset (v : V) (f : F)
  /-- the area is off the list -/
  | unlisted (v : V) (f : F)
  /-- about to wake the others up -/
  | unlocked (v : V)

section Places

variable {V F : Type}

/-- The area it has on the list. -/
def FaultLoc.listed : FaultLoc V F → Option V
  | .got v _ | .locked v _ | .swapped v _ | .reset v _ => some v
  | _ => none

/-- The file it has locked. -/
def FaultLoc.holds : FaultLoc V F → Option F
  | .locked _ f | .swapped _ f | .reset _ f | .unlisted _ f => some f
  | _ => none

/-- The area it serves, and will wake the others up for. -/
def FaultLoc.inside : FaultLoc V F → Option V
  | .got v _ | .locked v _ | .swapped v _ | .reset v _ | .unlisted v _ | .unlocked v => some v
  | _ => none

/-- The area, and the file it takes to be its. -/
def FaultLoc.file : FaultLoc V F → Option (V × F)
  | .read v f | .got v f | .locked v f | .swapped v f | .reset v f | .unlisted v f => some (v, f)
  | _ => none

end Places

/-- The threads, the areas' files, the list, the locks, and who has been woken since it went to sleep. -/
structure FaultState (τ V F : Type) where
  vmFile : V → F
  lvma : List V
  fi : F → Option τ
  loc : τ → FaultLoc V F
  woken : τ → Bool

inductive FaultEv (τ V : Type) where
  | fault (t : τ) (v : V)
  | read (t : τ)
  | list (t : τ) (alloc : Bool)
  | lock (t : τ)
  | swap (t : τ)
  | reset (t : τ)
  | unlist (t : τ)
  | unlock (t : τ)
  | wake (t : τ)
  | rouse (t : τ)

section Steps

variable {τ V F : Type} [DecidableEq τ]

def FaultState.goto (s : FaultState τ V F) (t : τ) (l : FaultLoc V F) : FaultState τ V F :=
  { s with loc := Function.update s.loc t l }

/-! ## The moves -/

/-- One move of one thread. -/
inductive FaultStep [DecidableEq V] [DecidableEq F] (c : Mapped V F) (s : FaultState τ V F) : FaultEv τ V → FaultState τ V F → Prop
  /-- `aufs_fault` is called, and `wait_event` puts the thread on the queue -/
  | fault {t : τ} {v : V} (ht : s.loc t = .idle) :
      FaultStep c s (.fault t v)
        { s.goto t (.check v) with woken := Function.update s.woken t false }
  /-- `file = vma->vm_file`, and is it one of aufs's? -/
  | read {t : τ} {v : V} (ht : s.loc t = .check v) :
      FaultStep c s (.read t)
        (s.goto t (if c.aufs (s.vmFile v) then
          if c.robr then .read v (s.vmFile v) else .got v (s.vmFile v)
          else .asleep v))
  /-- under `si_lvma.spin`: is the area on the list?  If not it is put there, if there is memory -/
  | list {t : τ} {v : V} {f : F} {alloc : Bool} (hr : c.robr = true) (ht : s.loc t = .read v f) :
      FaultStep c s (.list t alloc)
        (if v ∈ s.lvma then s.goto t (.asleep v)
          else if alloc then { s.goto t (.got v f) with lvma := v :: s.lvma }
          else s.goto t (.asleep v))
  | lock {t : τ} {v : V} {f : F} (ht : s.loc t = .got v f) (hfree : s.fi f = none) :
      FaultStep c s (.lock t)
        { s.goto t (.locked v f) with fi := Function.update s.fi f (some t) }
  | swap {t : τ} {v : V} {f : F} (ht : s.loc t = .locked v f) :
      FaultStep c s (.swap t)
        { s.goto t (.swapped v f) with vmFile := Function.update s.vmFile v (c.hFile f) }
  | reset {t : τ} {v : V} {f : F} (ht : s.loc t = .swapped v f) :
      FaultStep c s (.reset t)
        { s.goto t (.reset v f) with vmFile := Function.update s.vmFile v f }
  /-- under `si_lvma.spin` again -/
  | unlist {t : τ} {v : V} {f : F} (ht : s.loc t = .reset v f) :
      FaultStep c s (.unlist t)
        { s.goto t (.unlisted v f) with lvma := if c.robr then s.lvma.erase v else s.lvma }
  | unlock {t : τ} {v : V} {f : F} (ht : s.loc t = .unlisted v f) :
      FaultStep c s (.unlock t)
        { s.goto t (.unlocked v) with fi := Function.update s.fi f none }
  /-- `wake_up`: all who wait, none of them is exclusive -/
  | wake {t : τ} {v : V} (ht : s.loc t = .unlocked v) :
      FaultStep c s (.wake t) { s.goto t .idle with woken := fun _ => true }
  /-- once round the loop of `wait_event` -/
  | rouse {t : τ} {v : V} (ht : s.loc t = .asleep v) (hw : s.woken t = true) :
      FaultStep c s (.rouse t)
        { s.goto t (.check v) with woken := Function.update s.woken t false }

/-! ## The invariant -/

/-- `vm_file` is the hidden file where a thread is in the handler below, and the aufs file elsewhere. -/
structure VmOk (c : Mapped V F) (vmFile : V → F) (loc : τ → FaultLoc V F) : Prop where
  swapped : ∀ t v f, loc t = .swapped v f → vmFile v = c.hFile f
  plain : ∀ v, (∀ t f, loc t ≠ .swapped v f) → vmFile v = c.own v

/-- The locks are with who has them. -/
def FiOk (fi : F → Option τ) (loc : τ → FaultLoc V F) : Prop :=
  ∀ t f, (loc t).holds = some f → fi f = some t

/-- The list has the areas that are being served, each by one thread. -/
structure ListOk (lvma : List V) (loc : τ → FaultLoc V F) : Prop where
  one : ∀ t u v, (loc t).listed = some v → (loc u).listed = some v → t = u
  mem : ∀ v, v ∈ lvma ↔ ∃ t, (loc t).listed = some v
  nodup : lvma.Nodup

/-- Who has what. -/
structure FaultInv (c : Mapped V F) (s : FaultState τ V F) : Prop where
  file : ∀ t v f, (s.loc t).file = some (v, f) → f = c.own v
  vm : VmOk c s.vmFile s.loc
  fi : FiOk s.fi s.loc
  list : c.robr = true → ListOk s.lvma s.loc

section Goto

variable {c : Mapped V F} {loc : τ → FaultLoc V F} {t : τ} {l : FaultLoc V F} {vmFile : V → F}
  {fi : F → Option τ} {lvma : List V}

/-- What is read off the threads' places, when one has gone on to a place where the same is. -/
theorem update_read {α : Type} {g : FaultLoc V F → α} (h : g l = g (loc t)) (u : τ) :
    g (Function.update loc t l u) = g (loc u) := by
  rcases eq_or_ne u t with rfl | hne
  · rw [Function.update_self, h]
  · rw [Function.update_of_ne hne]

/-- A thread goes on, not into the handler below nor out of it. -/
theorem VmOk.goto (h : VmOk c vmFile loc) (hin : ∀ v f, l ≠ .swapped v f)
    (hout : ∀ v f, loc t ≠ .swapped v f) : VmOk c vmFile (Function.update loc t l) where
  swapped := by
    intro u v f hu
    rcases eq_or_ne u t with rfl | hne
    · rw [Function.update_self] at hu
      exact absurd hu (hin v f)
    · rw [Function.update_of_ne hne] at hu
      exact h.swapped u v f hu
  plain := by
    intro v hall
    refine h.plain v fun u f hu => ?_
    rcases eq_or_ne u t with rfl | hne
    · exact hout v f hu
    · exact hall u f ((Function.update_of_ne hne _ _).trans hu)

/-- A thread goes on with the locks it has. -/
theorem FiOk.goto (h : FiOk fi loc) (hl : l.holds = (loc t).holds) :
    FiOk fi (Function.update loc t l) := by
  intro u f hu
  rw [update_read hl] at hu
  exact h u f hu

omit [DecidableEq τ] in
/-- Those who have one lock are one. -/
theorem FiOk.unique (h : FiOk fi loc) {u1 u2 : τ} {f : F} (h1 : (loc u1).holds = some f)
    (h2 : (loc u2).holds = some f) : u1 = u2 :=
  Option.some.inj ((h u1 f h1).symm.trans (h u2 f h2))

/-- A thread goes on with the area it has on the list. -/
theorem ListOk.goto (h : ListOk lvma loc) (hl : l.listed = (loc t).listed) :
    ListOk lvma (Function.update loc t l) where
  one := by
    intro u1 u2 v h1 h2
    rw [update_read hl] at h1 h2
    exact h.one u1 u2 v h1 h2
  mem := by
    intro v
    refine (h.mem v).trans (exists_congr fun u => ?_)
    rw [update_read hl]
  nodup := h.nodup

/-- A thread puts its area on the list. -/
theorem ListOk.add (h : ListOk lvma loc) {v : V} (hv : v ∉ lvma) (hold : (loc t).listed = none)
    (hl : l.listed = some v) : ListOk (v :: lvma) (Function.update loc t l) where
  one := by
    have hnone : ∀ u, (loc u).listed ≠ some v := fun u hu => hv ((h.mem v).mpr ⟨u, hu⟩)
    have hother : ∀ u v', (Function.update loc t l u).listed = some v' →
        u = t ∧ v' = v ∨ u ≠ t ∧ (loc u).listed = some v' := by
      intro u v' hu
      rcases eq_or_ne u t with rfl | hne
      · rw [Function.update_self, hl] at hu
        exact Or.inl ⟨rfl, (Option.some.inj hu).symm⟩
      · rw [Function.update_of_ne hne] at hu
        exact Or.inr ⟨hne, hu⟩
    intro u1 u2 v' h1 h2
    rcases hother u1 v' h1 with ⟨rfl, rfl⟩ | ⟨-, h1'⟩ <;> rcases hother u2 _ h2 with ⟨rfl, hv'⟩ | ⟨-, h2'⟩
    · rfl
    · exact absurd h2' (hnone u2)
    · subst hv'
      exact absurd h1' (hnone u1)
    · exact h.one u1 u2 v' h1' h2'
  mem := by
    intro v'
    rw [List.mem_cons, h.mem]
    constructor
    · rintro (rfl | ⟨u, hu⟩)
      · exact ⟨t, by rw [Function.update_self, hl]⟩
      · refine ⟨u, ?_⟩
        rw [Function.update_of_ne]
        · exact hu
        · rintro rfl
          rw [hold] at hu
          exact nomatch hu
    · rintro ⟨u, hu⟩
      rcases eq_or_ne u t with rfl | hne
      · rw [Function.update_self, hl] at hu
        exact Or.inl (Option.some.inj hu).symm
      · rw [Function.update_of_ne hne] at hu
        exact Or.inr ⟨u, hu⟩
  nodup := List.nodup_cons.mpr ⟨hv, h.nodup⟩

/-- And takes it off again. -/
theorem ListOk.del [DecidableEq V] (h : ListOk lvma loc) {v : V} (hold : (loc t).listed = some v)
    (hl : l.listed = none) : ListOk (lvma.erase v) (Function.update loc t l) where
  one := by
    have hother : ∀ u v', (Function.update loc t l u).listed = some v' → (loc u).listed = some v' := by
      intro u v' hu
      rcases eq_or_ne u t with rfl | hne
      · rw [Function.update_self, hl] at hu
        exact nomatch hu
      · rwa [Function.update_of_ne hne] at hu
    exact fun u1 u2 v' h1 h2 => h.one u1 u2 v' (hother u1 v' h1) (hother u2 v' h2)
  mem := by
    intro v'
    rw [h.nodup.mem_erase_iff, h.mem]
    constructor
    · rintro ⟨hne, u, hu⟩
      refine ⟨u, ?_⟩
      rw [Function.update_of_ne]
      · exact hu
      · rintro rfl
        exact hne (Option.some.inj (hu.symm.trans hold))
    · rintro ⟨u, hu⟩
      rcases eq_or_ne u t with rfl | hne
      · rw [Function.update_self, hl] at hu
        exact nomatch hu
      · rw [Function.update_of_ne hne] at hu
        refine ⟨?_, u, hu⟩
        rintro rfl
        exact hne (h.one u t v' hu hold)
  nodup := h.nodup.erase v

/-- The file a thread that goes on takes to be the area's. -/
theorem file_goto (h : ∀ t v f, (loc t).file = some (v, f) → f = c.own v)
    (hl : ∀ v f, l.file = some (v, f) → f = c.own v) (u : τ) (v : V) (f : F)
    (hu : (Function.update loc t l u).file = some (v, f)) : f = c.own v := by
  rcases eq_or_ne u t with rfl | hne
  · rw [Function.update_self] at hu
    exact hl v f hu
  · rw [Function.update_of_ne hne] at hu
    exact h u v f hu

end Goto

section Step

variable [DecidableEq V] [DecidableEq F] {c : Mapped V F} {s s' : FaultState τ V F} {e : FaultEv τ V}

/-- A thread goes between places where it has nothing. -/
theorem FaultInv.wander (h : FaultInv c s) {t : τ} {l : FaultLoc V F} (w : τ → Bool)
    (hfile : ∀ v f, l.file = some (v, f) → f = c.own v)
    (hold : (s.loc t).holds = none ∧ (s.loc t).listed = none) (hnew : l.holds = none ∧ l.listed = none) :
    FaultInv c { s.goto t l with woken := w } where
  file := file_goto h.file hfile
  vm := by
    refine h.vm.goto (fun v f hf => ?_) (fun v f hf => ?_)
    · rw [hf] at hnew
      exact nomatch hnew.1
    · rw [hf] at hold
      exact nomatch hold.1
  fi := h.fi.goto (hnew.1.trans hold.1.symm)
  list := fun hr => (h.list hr).goto (hnew.2.trans hold.2.symm)

/-- **One move.** -/
theorem step_fault (h : FaultInv c s) (hs : FaultStep c s e s') : FaultInv c s' := by
  cases hs with
  | @fault t v ht =>
    exact h.wander _ (fun _ _ hf => nomatch hf) (by rw [ht]; exact ⟨rfl, rfl⟩) ⟨rfl, rfl⟩
  | @read t v ht =>
    -- what it reads is aufs's only if nobody is in the handler below, and then it is the area's own
    have hown : c.aufs (s.vmFile v) = true → s.vmFile v = c.own v := by
      intro ha
      refine h.vm.plain v fun u f hu => ?_
      rw [h.vm.swapped u v f hu, c.hidden] at ha
      exact nomatch ha
    have hnothing : (s.loc t).holds = none ∧ (s.loc t).listed = none := by rw [ht]; exact ⟨rfl, rfl⟩
    by_cases ha : c.aufs (s.vmFile v) = true
    case neg =>
      rw [if_neg ha]
      exact h.wander s.woken (fun _ _ hf => nomatch hf) hnothing ⟨rfl, rfl⟩
    rw [if_pos ha]
    by_cases hr : c.robr = true
    · rw [if_pos hr]
      refine h.wander s.woken (fun v' f' hf => ?_) hnothing ⟨rfl, rfl⟩
      obtain ⟨rfl, rfl⟩ := Prod.mk.inj (Option.some.inj hf)
      exact hown ha
    · -- without the list it goes straight on
      rw [if_neg hr]
      refine ⟨file_goto h.file fun v' f' hf => ?_, h.vm.goto (fun _ _ hf => nomatch hf) ?_,
        h.fi.goto hnothing.1.symm, fun hr' => absurd hr' hr⟩
      · obtain ⟨rfl, rfl⟩ := Prod.mk.inj (Option.some.inj hf)
        exact hown ha
      · rw [ht]
        exact fun _ _ hf => nomatch hf
  | @list t v f alloc hr ht =>
    have hnothing : (s.loc t).holds = none ∧ (s.loc t).listed = none := by rw [ht]; exact ⟨rfl, rfl⟩
    have hsleep := h.wander (l := .asleep v) s.woken (fun _ _ hf => nomatch hf) hnothing ⟨rfl, rfl⟩
    have hown : f = c.own v := h.file t v f (by rw [ht]; rfl)
    by_cases hmem : v ∈ s.lvma
    · rw [if_pos hmem]
      exact hsleep
    rw [if_neg hmem]
    cases alloc with
    | false => exact hsleep
    | true =>
      rw [if_pos rfl]
      refine ⟨file_goto h.file fun v' f' hf => ?_, h.vm.goto (fun _ _ hf => nomatch hf) ?_,
        h.fi.goto hnothing.1.symm, fun hr => (h.list hr).add hmem hnothing.2 rfl⟩
      · obtain ⟨rfl, rfl⟩ := Prod.mk.inj (Option.some.inj hf)
        exact hown
      · rw [ht]
        exact fun _ _ hf => nomatch hf
  | @lock t v f ht hfree =>
    have hown : f = c.own v := h.file t v f (by rw [ht]; rfl)
    refine ⟨file_goto h.file fun v' f' hf => ?_, h.vm.goto (fun _ _ hf => nomatch hf) ?_,
      fun u f' hu => ?_, fun hr => (h.list hr).goto (by rw [ht]; rfl)⟩
    · obtain ⟨rfl, rfl⟩ := Prod.mk.inj (Option.some.inj hf)
      exact hown
    · rw [ht]
      exact fun _ _ hf => nomatch hf
    · have hu' : (Function.update s.loc t (.locked v f) u).holds = some f' := hu
      show Function.update s.fi f (some t) f' = some u
      rcases eq_or_ne u t with rfl | hne
      · rw [Function.update_self] at hu'
        obtain rfl := Option.some.inj hu'
        exact Function.update_self _ _ _
      · rw [Function.update_of_ne hne] at hu'
        have hfi := h.fi u f' hu'
        rw [Function.update_of_ne]
        · exact hfi
        · rintro rfl
          rw [hfree] at hfi
          exact nomatch hfi
  | @swap t v f ht =>
    have hown : f = c.own v := h.file t v f (by rw [ht]; rfl)
    have hholds : (s.loc t).holds = some f := by rw [ht]; rfl
    refine ⟨file_goto h.file fun v' f' hf => ?_, ⟨fun u v' f' hu => ?_, fun v' hall => ?_⟩,
      h.fi.goto hholds.symm, fun hr => (h.list hr).goto (by rw [ht]; rfl)⟩
    · obtain ⟨rfl, rfl⟩ := Prod.mk.inj (Option.some.inj hf)
      exact hown
    · have hu' : Function.update s.loc t (.swapped v f) u = .swapped v' f' := hu
      show Function.update s.vmFile v (c.hFile f) v' = c.hFile f'
      rcases eq_or_ne u t with rfl | hne
      · rw [Function.update_self] at hu'
        obtain ⟨rfl, rfl⟩ := FaultLoc.swapped.inj hu'
        exact Function.update_self _ _ _
      · rw [Function.update_of_ne hne] at hu'
        rcases eq_or_ne v' v with rfl | hv
        · -- two threads with one area have one file, and its lock
          have hf' : f' = c.own v' := h.file u v' f' (by rw [hu']; rfl)
          exact absurd (h.fi.unique (by rw [hu', hf', ← hown]; rfl) hholds) hne
        · rw [Function.update_of_ne hv]
          exact h.vm.swapped u v' f' hu'
    · have hv : v' ≠ v := by
        rintro rfl
        exact hall t f (Function.update_self _ _ _)
      show Function.update s.vmFile v (c.hFile f) v' = c.own v'
      rw [Function.update_of_ne hv]
      refine h.vm.plain v' fun u f' hu => hall u f' ?_
      show Function.update s.loc t (.swapped v f) u = _
      rw [Function.update_of_ne]
      · exact hu
      · rintro rfl
        rw [ht] at hu
        exact nomatch hu
  | @reset t v f ht =>
    have hown : f = c.own v := h.file t v f (by rw [ht]; rfl)
    have hholds : (s.loc t).holds = some f := by rw [ht]; rfl
    refine ⟨file_goto h.file fun v' f' hf => ?_, ⟨fun u v' f' hu => ?_, fun v' hall => ?_⟩,
      h.fi.goto hholds.symm, fun hr => (h.list hr).goto (by rw [ht]; rfl)⟩
    · obtain ⟨rfl, rfl⟩ := Prod.mk.inj (Option.some.inj hf)
      exact hown
    · have hu' : Function.update s.loc t (.reset v f) u = .swapped v' f' := hu
      show Function.update s.vmFile v f v' = c.hFile f'
      rcases eq_or_ne u t with rfl | hne
      · rw [Function.update_self] at hu'
        exact nomatch hu'
      · rw [Function.update_of_ne hne] at hu'
        rw [Function.update_of_ne]
        · exact h.vm.swapped u v' f' hu'
        · rintro rfl
          have hf' : f' = c.own v' := h.file u v' f' (by rw [hu']; rfl)
          exact absurd (h.fi.unique (by rw [hu', hf', ← hown]; rfl) hholds) hne
    · show Function.update s.vmFile v f v' = c.own v'
      rcases eq_or_ne v' v with rfl | hv
      · rw [Function.update_self, hown]
      · rw [Function.update_of_ne hv]
        refine h.vm.plain v' fun u f' hu => hall u f' ?_
        show Function.update s.loc t (.reset v f) u = _
        rw [Function.update_of_ne]
        · exact hu
        · rintro rfl
          rw [ht] at hu
          exact hv (FaultLoc.swapped.inj hu).1.symm
  | @unlist t v f ht =>
    have hown : f = c.own v := h.file t v f (by rw [ht]; rfl)
    refine ⟨file_goto h.file fun v' f' hf => ?_, h.vm.goto (fun _ _ hf => nomatch hf) ?_,
      h.fi.goto (by rw [ht]; rfl), fun hr => ?_⟩
    · obtain ⟨rfl, rfl⟩ := Prod.mk.inj (Option.some.inj hf)
      exact hown
    · rw [ht]
      exact fun _ _ hf => nomatch hf
    · show ListOk (if c.robr then s.lvma.erase v else s.lvma) _
      rw [if_pos hr]
      exact (h.list hr).del (by rw [ht]; rfl) rfl
  | @unlock t v f ht =>
    have hholds : (s.loc t).holds = some f := by rw [ht]; rfl
    refine ⟨file_goto h.file fun v' f' hf => (nomatch hf), h.vm.goto (fun _ _ hf => nomatch hf) ?_,
      fun u f' hu => ?_, fun hr => (h.list hr).goto (by rw [ht]; rfl)⟩
    · rw [ht]
      exact fun _ _ hf => nomatch hf
    · have hu' : (Function.update s.loc t (.unlocked v) u).holds = some f' := hu
      show Function.update s.fi f none f' = some u
      rcases eq_or_ne u t with rfl | hne
      · rw [Function.update_self] at hu'
        exact nomatch hu'
      · rw [Function.update_of_ne hne] at hu'
        rw [Function.update_of_ne]
        · exact h.fi u f' hu'
        · rintro rfl
          exact hne (h.fi.unique hu' hholds)
  | @wake t v ht =>
    exact h.wander _ (fun _ _ hf => nomatch hf) (by rw [ht]; exact ⟨rfl, rfl⟩) ⟨rfl, rfl⟩
  | @rouse t v ht hw =>
    exact h.wander _ (fun _ _ hf => nomatch hf) (by rw [ht]; exact ⟨rfl, rfl⟩) ⟨rfl, rfl⟩

/-! ## Runs -/

/-- Nobody has faulted yet: the areas have the files they were mapped with. -/
def mappedState (c : Mapped V F) : FaultState τ V F where
  vmFile := c.own
  lvma := []
  fi := fun _ => none
  loc := fun _ => .idle
  woken := fun _ => false

omit [DecidableEq τ] [DecidableEq V] [DecidableEq F] in
theorem mappedState_inv (c : Mapped V F) : FaultInv c (mappedState c : FaultState τ V F) where
  file := fun _ _ _ hf => nomatch hf
  vm := ⟨fun _ _ _ hf => (nomatch hf), fun _ _ => rfl⟩
  fi := fun _ _ hf => nomatch hf
  list := fun _ => ⟨fun _ _ _ hf => (nomatch hf),
    fun _ => ⟨fun hm => (nomatch hm), fun ⟨_, hf⟩ => nomatch hf⟩, List.nodup_nil⟩

variable {es : List (FaultEv τ V)}

/-- There is memory for the list entry. -/
def HasMemory : FaultEv τ V → Prop
  | .list _ alloc => alloc = true
  | _ => True

/-- Who sleeps and has not been woken will be: a thread is serving its area. -/
def WillWake (s : FaultState τ V F) : Prop :=
  ∀ t v, s.loc t = .asleep v → s.woken t = false → ∃ u, (s.loc u).inside = some v

omit [DecidableEq V] [DecidableEq F] in
/-- Whoever is serving an area goes on serving it, when a thread that serves none goes on. -/
theorem inside_goto {loc : τ → FaultLoc V F} {t : τ} {l : FaultLoc V F} {v : V}
    (hl : (loc t).inside = none ∨ l.inside = (loc t).inside) (h : ∃ u, (loc u).inside = some v) :
    ∃ u, (Function.update loc t l u).inside = some v := by
  obtain ⟨u, hu⟩ := h
  refine ⟨u, ?_⟩
  rcases eq_or_ne u t with rfl | hne
  · rw [Function.update_self]
    rcases hl with hl | hl
    · rw [hl] at hu
      exact nomatch hu
    · rwa [hl]
  · rwa [Function.update_of_ne hne]

/-- A thread goes on, and does not go to sleep. -/
theorem WillWake.goto (hw : WillWake s) {t : τ} {l : FaultLoc V F} {w : τ → Bool}
    (hl : (s.loc t).inside = none ∨ l.inside = (s.loc t).inside) (hnew : ∀ v, l ≠ .asleep v)
    (hwoken : ∀ u, u ≠ t → w u = s.woken u) : WillWake { s.goto t l with woken := w } := by
  intro u v hu hn
  have hu' : Function.update s.loc t l u = .asleep v := hu
  have hn' : w u = false := hn
  rcases eq_or_ne u t with rfl | hne
  · rw [Function.update_self] at hu'
    exact absurd hu' (hnew v)
  · rw [Function.update_of_ne hne] at hu'
    rw [hwoken u hne] at hn'
    exact inside_goto hl (hw u v hu' hn')

/-- A thread goes to sleep while another one is serving its area. -/
theorem WillWake.sleep (hw : WillWake s) {t : τ} {v : V} (hl : (s.loc t).inside = none)
    (hv : ∃ u, (s.loc u).inside = some v) : WillWake (s.goto t (.asleep v)) := by
  intro u v' hu hn
  have hu' : Function.update s.loc t (.asleep v) u = .asleep v' := hu
  refine inside_goto (Or.inl hl) ?_
  rcases eq_or_ne u t with rfl | hne
  · rw [Function.update_self] at hu'
    rwa [← FaultLoc.asleep.inj hu']
  · rw [Function.update_of_ne hne] at hu'
    exact hw u v' hu' hn

/-- What is on the list is being served. -/
theorem inside_of_listed {l : FaultLoc V F} {v : V} (h : l.listed = some v) : l.inside = some v := by
  cases l with
  | got | locked | swapped | reset => exact h
  | _ => exact nomatch h

/-- **One move.** -/
theorem step_woken (h : FaultInv c s) (hw : WillWake s) (hm : HasMemory e) (hs : FaultStep c s e s') :
    WillWake s' := by
  cases hs with
  | @fault t v ht =>
    refine hw.goto (Or.inl (by rw [ht]; rfl)) (fun _ hf => nomatch hf) fun u hne => ?_
    exact Function.update_of_ne hne _ _
  | @read t v ht =>
    have hl : (s.loc t).inside = none := by rw [ht]; rfl
    by_cases ha : c.aufs (s.vmFile v) = true
    · rw [if_pos ha]
      by_cases hr : c.robr = true
      · rw [if_pos hr]
        exact hw.goto (Or.inl hl) (fun _ hf => nomatch hf) fun _ _ => rfl
      · rw [if_neg hr]
        exact hw.goto (Or.inl hl) (fun _ hf => nomatch hf) fun _ _ => rfl
    · -- the file is not aufs's: somebody is in the handler below
      rw [if_neg ha]
      refine hw.sleep hl ?_
      by_contra hnone
      apply ha
      rw [h.vm.plain v fun u f hu => hnone ⟨u, by rw [hu]; rfl⟩]
      exact c.own_aufs v
  | @list t v f alloc hr ht =>
    have hl : (s.loc t).inside = none := by rw [ht]; rfl
    by_cases hmem : v ∈ s.lvma
    · rw [if_pos hmem]
      obtain ⟨u, hu⟩ := ((h.list hr).mem v).mp hmem
      exact hw.sleep hl ⟨u, inside_of_listed hu⟩
    · obtain rfl : alloc = true := hm
      rw [if_neg hmem, if_pos rfl]
      exact hw.goto (Or.inl hl) (fun _ hf => nomatch hf) fun _ _ => rfl
  | @lock t v f ht hfree =>
    exact hw.goto (Or.inr (by rw [ht]; rfl)) (fun _ hf => nomatch hf) fun _ _ => rfl
  | @swap t v f ht =>
    exact hw.goto (Or.inr (by rw [ht]; rfl)) (fun _ hf => nomatch hf) fun _ _ => rfl
  | @reset t v f ht =>
    exact hw.goto (Or.inr (by rw [ht]; rfl)) (fun _ hf => nomatch hf) fun _ _ => rfl
  | @unlist t v f ht =>
    exact hw.goto (Or.inr (by rw [ht]; rfl)) (fun _ hf => nomatch hf) fun _ _ => rfl
  | @unlock t v f ht =>
    exact hw.goto (Or.inr (by rw [ht]; rfl)) (fun _ hf => nomatch hf) fun _ _ => rfl
  | wake => exact fun _ _ _ hn => nomatch hn
  | @rouse t v ht _ =>
    refine hw.goto (Or.inl (by rw [ht]; rfl)) (fun _ hf => nomatch hf) fun u hne => ?_
    exact Function.update_of_ne hne _ _

end Step

end Steps

/-! ## Two threads, one area -/

/-- One area of one file; `true` is the aufs file, `false` the hidden one. -/
def oneMapped : Mapped Unit Bool where
  robr := true
  own := fun _ => true
  hFile := fun _ => false
  aufs := id
  own_aufs := fun _ => rfl
  hidden := fun _ => rfl

/-- One thread is in the handler below, the other has found the hidden file, and sleeps. -/
def twoFaults : List (FaultEv Bool Unit) :=
  [.fault true (), .read true, .list true true, .lock true, .swap true, .fault false (), .read false]

theorem twoFaults_run : ∃ s, Run (FaultStep oneMapped) (mappedState oneMapped) twoFaults s ∧
    s.loc false = .asleep () := by
  have h1 := Run.nil.snoc (FaultStep.fault (c := oneMapped) (s := mappedState oneMapped) (t := true)
    (v := ()) rfl)
  have h2 := h1.snoc (FaultStep.read (t := true) rfl)
  have h3 := h2.snoc (e := .list true true) (FaultStep.list (v := ()) (f := true) rfl rfl)
  have h4 := h3.snoc (FaultStep.lock (t := true) (v := ()) (f := true) rfl rfl)
  have h5 := h4.snoc (FaultStep.swap (t := true) (v := ()) (f := true) rfl)
  have h6 := h5.snoc (FaultStep.fault (t := false) (v := ()) rfl)
  have h7 := h6.snoc (FaultStep.read (t := false) (v := ()) rfl)
  exact ⟨_, h7, rfl⟩

end KernelPatches.Aufs
