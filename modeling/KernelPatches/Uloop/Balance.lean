/-
  uloop: no request is lost.

  An answer does not tell whom it is for, only which block: a transfer takes any answer about its block.  So
  what is kept is a balance, block by block (`requests_balance`): the transfers that have asked for it, and
  those that have given up, are as many as the requests on the queue, the processes at work on one, the
  answers on the queue and in the hands of somebody who will put them back, and the requests that ended with
  a process.
-/
import KernelPatches.Uloop.Transfer
import KernelPatches.Lib.Tally

namespace KernelPatches.Uloop

open KernelPatches.Lib

variable {τ η : Type}

/-! ## Who is where -/

/-- It has asked for the block, and not been answered. -/
def asks (p : Req) : Loc η → ℕ
  | .posted x _ | .wait x | .hold x _ => if x.req = p then 1 else 0
  | _ => 0

/-- It has an answer about the block that it will put back. -/
def holds (p : Req) : Loc η → ℕ
  | .hold _ q => if q = p then 1 else 0
  | _ => 0

/-- It is at work on the block. -/
def works (p : Req) : Helper → ℕ
  | .got q | .stored q => if q = p then 1 else 0
  | _ => 0

namespace World

/-- The queues, while there is a device. -/
def ready (s : World τ η) : List η := (s.dev.map UloDev.ready).getD []
def rcvreq (s : World τ η) : List Req := (s.dev.map UloDev.rcvreq).getD []
def sndres (s : World τ η) : List Req := (s.dev.map UloDev.sndres).getD []

variable {s : World τ η} {d : UloDev η}

theorem ready_eq (h : s.dev = some d) : s.ready = d.ready := by simp [ready, h]
theorem rcvreq_eq (h : s.dev = some d) : s.rcvreq = d.rcvreq := by simp [rcvreq, h]
theorem sndres_eq (h : s.dev = some d) : s.sndres = d.sndres := by simp [sndres, h]

end World

variable [Fintype τ] [Fintype η] [DecidableEq τ] [DecidableEq η]

/-- The transfers that have asked for the block. -/
def waiting (p : Req) (s : World τ η) : ℕ := tally s.xfers (asks p)

/-- The requests and answers about it. -/
def requests (p : Req) (s : World τ η) : ℕ :=
  s.rcvreq.count p + tally s.helpers (works p) + s.sndres.count p + tally s.xfers (holds p)

/-- What a move loses: the transfers that give up, and the requests that end with a process. -/
def lost (p : Req) (s : World τ η) : Ev τ η → ℕ × ℕ
  | .interrupt t => (asks p (s.xfers t), 0)
  | .kill t false => (asks p (s.xfers t), 0)
  | .storeFailed h _ => (0, works p (s.helpers h))
  | .exit h => (0, works p (s.helpers h))
  | _ => (0, 0)

/-- The device is not let go. -/
def SameSession (_ : World τ η) : Ev τ η → Prop
  | .release _ => False
  | _ => True

section Balance

variable {target : File} {p : Req} {s s' : World τ η} {e : Ev τ η}

omit [Fintype η] [DecidableEq η] in
theorem waiting_goto (t : τ) (l : Loc η) :
    waiting p (s.goto t l) + asks p (s.xfers t) = waiting p s + asks p l :=
  tally_update _ _ _ _

omit [DecidableEq η] in
theorem requests_goto (t : τ) (l : Loc η) :
    requests p (s.goto t l) + holds p (s.xfers t) = requests p s + holds p l := by
  have h := tally_update s.xfers (holds p) t l
  show s.rcvreq.count p + tally s.helpers (works p) + s.sndres.count p
    + tally (Function.update s.xfers t l) (holds p) + _ = _
  rw [requests]
  omega

omit [DecidableEq τ] in
theorem requests_become (h : η) (l : Helper) :
    requests p (s.become h l) + works p (s.helpers h) = requests p s + works p l := by
  have hu := tally_update s.helpers (works p) h l
  show s.rcvreq.count p + tally (Function.update s.helpers h l) (works p) + s.sndres.count p
    + tally s.xfers (holds p) + _ = _
  rw [requests]
  omega

omit [DecidableEq τ] [DecidableEq η] in
theorem requests_setDev {d u : UloDev η} (hd : s.dev = some d) :
    requests p (s.setDev u) + (d.rcvreq.count p + d.sndres.count p)
      = requests p s + (u.rcvreq.count p + u.sndres.count p) := by
  rw [requests, requests, s.rcvreq_eq hd, s.sndres_eq hd]
  show u.rcvreq.count p + tally s.helpers (works p) + u.sndres.count p + tally s.xfers (holds p) + _
    = _
  omega

omit [DecidableEq η] in
/-- A transfer goes from one place to another. -/
theorem balance_goto (t : τ) (l : Loc η) :
    waiting p (s.goto t l) + requests p s + (asks p (s.xfers t) + holds p l)
      = waiting p s + requests p (s.goto t l) + (asks p l + holds p (s.xfers t)) := by
  have h1 := waiting_goto (p := p) (s := s) t l
  have h2 := requests_goto (p := p) (s := s) t l
  omega

omit [DecidableEq τ] in
/-- A process does. -/
theorem balance_become (h : η) (l : Helper) :
    waiting p (s.become h l) + requests p s + works p l
      = waiting p s + requests p (s.become h l) + works p (s.helpers h) := by
  have h1 : waiting p (s.become h l) = waiting p s := rfl
  have h2 := requests_become (p := p) (s := s) h l
  omega

omit [DecidableEq τ] [DecidableEq η] in
/-- The queues change. -/
theorem balance_setDev {d u : UloDev η} (hd : s.dev = some d) :
    waiting p (s.setDev u) + requests p s + (u.rcvreq.count p + u.sndres.count p)
      = waiting p s + requests p (s.setDev u) + (d.rcvreq.count p + d.sndres.count p) := by
  have h1 : waiting p (s.setDev u) = waiting p s := rfl
  have h2 := requests_setDev (p := p) (s := s) (u := u) hd
  omega

theorem count_cons_eq (q : Req) (l : List Req) :
    (q :: l).count p = l.count p + if q = p then 1 else 0 := by
  simp [List.count_cons]

theorem count_concat_eq (q : Req) (l : List Req) :
    (l ++ [q]).count p = l.count p + if q = p then 1 else 0 := by
  simp [List.count_append, List.count_cons]

/-- **One move**, and what it loses. -/
theorem step_balance (h : UloStep target s e s') (he : SameSession s e) :
    waiting p s' + requests p s + (lost p s e).1 = waiting p s + requests p s' + (lost p s e).2 := by
  cases h with
  | @start t d b realBlock size hd hb ht =>
    have h1 := balance_goto (p := p) (s := s) t
      (.test ⟨realBlock * 512, size, realBlock * 512, size⟩)
    rw [ht] at h1
    simpa [asks, holds, lost] using h1
  | @test t d b x w r e2 err hd hb ht hsz h =>
    have h1 := balance_setDev (p := p) hd
      (u := { d with bmp := some (testBlock b (x.pos / pageSize) w r e2).2.2 })
    have h2 := balance_goto (p := p)
      (s := s.setDev { d with bmp := some (testBlock b (x.pos / pageSize) w r e2).2.2 }) t
      (if err ≠ 0 then .idle
        else if (testBlock b (x.pos / pageSize) w r e2).2.1 then .test x.next else .begin x)
    have hxf : (s.setDev { d with bmp := some (testBlock b (x.pos / pageSize) w r e2).2.2 }).xfers t
      = .test x := ht
    have hasks : ∀ (c c' : Prop) [Decidable c] [Decidable c'],
        asks p (if c then Loc.idle else if c' then .test x.next else .begin x : Loc η) = 0 ∧
          holds p (if c then Loc.idle else if c' then .test x.next else .begin x : Loc η) = 0 := by
      intro c c' _ _
      split_ifs <;> exact ⟨rfl, rfl⟩
    rw [hxf, (hasks _ _).1, (hasks _ _).2] at h2
    simp only [asks, holds, lost] at h1 h2 ⊢
    omega
  | @take t d x pid rest hd ht hq =>
    have h1 := balance_setDev (p := p) hd (u := { d with ready := rest })
    have h2 := balance_goto (p := p) (s := s.setDev { d with ready := rest }) t (.taken x pid)
    have hxf : (s.setDev { d with ready := rest }).xfers t = .begin x := ht
    rw [hxf] at h2
    simp only [asks, holds, lost] at h1 h2 ⊢
    omega
  | @post t d x pid hd ht =>
    have h1 := balance_setDev (p := p) hd (u := { d with rcvreq := d.rcvreq ++ [x.req] })
    have h2 := balance_goto (p := p) (s := s.setDev { d with rcvreq := d.rcvreq ++ [x.req] }) t
      (.posted x pid)
    have hxf : (s.setDev { d with rcvreq := d.rcvreq ++ [x.req] }).xfers t = .taken x pid := ht
    rw [hxf] at h2
    simp only [asks, holds, lost, count_concat_eq] at h1 h2 ⊢
    omega
  | @kill t x pid ok ht hpid =>
    cases ok with
    | true =>
      have h2 := balance_goto (p := p) (s := s.signal pid true) t (.wait x)
      have hxf : (s.signal pid true).xfers t = .posted x pid := ht
      have hw : waiting p (s.signal pid true) = waiting p s := rfl
      have hr : requests p (s.signal pid true) = requests p s := rfl
      rw [hxf, hw, hr] at h2
      simp only [asks, holds, lost, if_true] at h2 ⊢
      omega
    | false =>
      have h2 := balance_goto (p := p) (s := s) t .idle
      rw [ht] at h2
      simpa [asks, holds, lost, ht] using h2
  | @takeRes t d x q rest hd ht hq =>
    have h1 := balance_setDev (p := p) hd (u := { d with sndres := rest })
    have hxf : (s.setDev { d with sndres := rest }).xfers t = .wait x := ht
    rw [hq, count_cons_eq] at h1
    by_cases hmine : q = x.req
    · have h2 := balance_goto (p := p) (s := s.setDev { d with sndres := rest }) t (.mark x)
      rw [hxf] at h2
      subst hmine
      simp only [asks, holds, lost, if_true] at h1 h2 ⊢
      omega
    · have h2 := balance_goto (p := p) (s := s.setDev { d with sndres := rest }) t (.hold x q)
      rw [hxf] at h2
      rw [if_neg hmine]
      simp only [asks, holds, lost] at h1 h2 ⊢
      omega
  | @putBack t d x q hd ht =>
    have h1 := balance_setDev (p := p) hd (u := { d with sndres := d.sndres ++ [q] })
    have h2 := balance_goto (p := p) (s := s.setDev { d with sndres := d.sndres ++ [q] }) t (.wait x)
    have hxf : (s.setDev { d with sndres := d.sndres ++ [q] }).xfers t = .hold x q := ht
    rw [hxf] at h2
    simp only [asks, holds, lost, count_concat_eq] at h1 h2 ⊢
    omega
  | @mark t d b x w r e2 err hd hb ht h =>
    have h1 := balance_setDev (p := p) hd
      (u := { d with bmp := some (setBlock b (x.pos / pageSize) w r e2).2 })
    have h2 := balance_goto (p := p)
      (s := s.setDev { d with bmp := some (setBlock b (x.pos / pageSize) w r e2).2 }) t
      (if err ≠ 0 then .idle else .test x.next)
    have hxf : (s.setDev { d with bmp := some (setBlock b (x.pos / pageSize) w r e2).2 }).xfers t
      = .mark x := ht
    have hasks : ∀ (c : Prop) [Decidable c],
        asks p (if c then Loc.idle else .test x.next : Loc η) = 0 ∧
          holds p (if c then Loc.idle else .test x.next : Loc η) = 0 := by
      intro c _
      split_ifs <;> exact ⟨rfl, rfl⟩
    rw [hxf, (hasks _).1, (hasks _).2] at h2
    simp only [asks, holds, lost] at h1 h2 ⊢
    omega
  | @serve t x ht hsz =>
    have h2 := balance_goto (p := p) (s := s) t .idle
    rw [ht] at h2
    show waiting p (s.goto t .idle) + requests p s + 0 = waiting p s + requests p (s.goto t .idle) + 0
    simp only [asks, holds] at h2
    omega
  | @interrupt t x ht =>
    have h2 := balance_goto (p := p) (s := s) t .idle
    rcases ht with ht | ht
    · rw [ht] at h2
      simpa [asks, holds, lost, ht] using h2
    · rw [ht] at h2
      simpa [asks, holds, lost, ht] using h2
  | @ready h d hd hh =>
    have h1 := balance_setDev (p := p) hd (u := { d with ready := d.ready ++ [h] })
    have h2 := balance_become (p := p) (s := s.setDev { d with ready := d.ready ++ [h] }) h .waiting
    have hxf : (s.setDev { d with ready := d.ready ++ [h] }).helpers h = .idle := hh
    rw [hxf] at h2
    simp only [works, lost] at h1 h2 ⊢
    omega
  | @wake h hh hp =>
    have h2 := balance_become (p := p) (s := s.signal h false) h .awake
    have hxf : (s.signal h false).helpers h = .waiting := hh
    have hw : waiting p (s.signal h false) = waiting p s := rfl
    have hr : requests p (s.signal h false) = requests p s := rfl
    rw [hxf, hw, hr] at h2
    simpa [works, lost] using h2
  | @rcvreq h d q rest hd hh hq =>
    have h1 := balance_setDev (p := p) hd (u := { d with rcvreq := rest })
    have h2 := balance_become (p := p) (s := s.setDev { d with rcvreq := rest }) h (.got q)
    have hxf : (s.setDev { d with rcvreq := rest }).helpers h = .awake := hh
    rw [hq, count_cons_eq] at h1
    rw [hxf] at h2
    simp only [works, lost] at h1 h2 ⊢
    omega
  | @rcvreqFault h d q rest hd hh hq =>
    have h1 := balance_setDev (p := p) hd (u := { d with rcvreq := rest ++ [q] })
    have h2 := balance_become (p := p) (s := s.setDev { d with rcvreq := rest ++ [q] }) h .exited
    have hxf : (s.setDev { d with rcvreq := rest ++ [q] }).helpers h = .awake := hh
    rw [hq, count_cons_eq] at h1
    rw [hxf] at h2
    simp only [works, lost, count_concat_eq] at h1 h2 ⊢
    omega
  | @store h q hh hcan =>
    have h2 := balance_become (p := p) (s := { s with cache := store target s.cache q }) h (.stored q)
    have hxf : ({ s with cache := store target s.cache q } : World τ η).helpers h = .got q := hh
    rw [hxf] at h2
    simp only [works, lost] at h2 ⊢
    exact Nat.add_right_cancel h2
  | @storeFailed h q copied hh hcan =>
    have h2 := balance_become (p := p)
      (s := { s with cache := if copied then store target s.cache q else s.cache }) h .exited
    have hxf : ({ s with cache := if copied then store target s.cache q else s.cache } :
      World τ η).helpers h = .got q := hh
    rw [hxf] at h2
    show _ = _ + works p (s.helpers h)
    rw [hh]
    exact h2
  | @sndres h d q hd hh =>
    have h1 := balance_setDev (p := p) hd (u := { d with sndres := d.sndres ++ [q] })
    have h2 := balance_become (p := p) (s := s.setDev { d with sndres := d.sndres ++ [q] }) h .idle
    have hxf : (s.setDev { d with sndres := d.sndres ++ [q] }).helpers h = .stored q := hh
    rw [hxf] at h2
    simp only [works, lost, count_concat_eq] at h1 h2 ⊢
    omega
  | @exit h => exact balance_become h .exited
  | release hd ht => exact he.elim
  | init hd hsz =>
    have hr : requests p s = requests p { s with dev := some ⟨[], [], [], none⟩ } := by
      simp only [requests, World.rcvreq, World.sndres, hd, Option.map_none, Option.map_some]
      rfl
    rw [← hr]
    rfl
  | @setbmp d arg hd hfile =>
    have h1 := balance_setDev (p := p) hd (u := { d with bmp := (uloCtlSetbmp d.bmp arg).2 })
    simp only [lost] at h1 ⊢
    omega

/-- A device just set up: nobody is under way, nothing is on a queue. -/
structure SetUp (s : World τ η) : Prop where
  dev : ∃ d, s.dev = some d ∧ d.ready = [] ∧ d.rcvreq = [] ∧ d.sndres = []
  xfers : ∀ t, s.xfers t = .idle
  helpers : ∀ h, s.helpers h = .idle
  pending : ∀ h, s.pending h = false

/-- **No request is lost, and none is made up.**  In every run of a session, however the moves are
    interleaved and whatever fails: of every block, the transfers that wait for it and those that have given
    up are as many as the requests and answers there are, and the requests that ended with a process. -/
theorem requests_balance {s0 : World τ η} {es : List (Ev τ η)} {n : ℕ × ℕ} (h0 : SetUp s0)
    (h : Run (Metered (Guarded (UloStep target) SameSession) (lost p)) (s0, 0) es (s, n)) :
    waiting p s + n.1 = requests p s + n.2 := by
  refine h.inv (I := fun sn => waiting p sn.1 + sn.2.1 = requests p sn.1 + sn.2.2) ?_ ?_
  · obtain ⟨d, hd, -, hrcv, hsnd⟩ := h0.dev
    have hx : ∀ w : Loc η → ℕ, w .idle = 0 → tally s0.xfers w = 0 := by
      intro w hw
      refine tally_eq_zero.mpr fun t => ?_
      rw [h0.xfers t]
      exact hw
    have hh : tally s0.helpers (works p) = 0 := by
      refine tally_eq_zero.mpr fun t => ?_
      rw [h0.helpers t]
      rfl
    simp only [waiting, requests, hx (asks p) rfl, hx (holds p) rfl, hh, s0.rcvreq_eq hd,
      s0.sndres_eq hd, hrcv, hsnd]
    rfl
  · rintro ⟨s1, n1⟩ e ⟨s2, n2⟩ hinv ⟨⟨hsame, hstep⟩, hn⟩
    have hstep' : waiting p s2 + requests p s1 + (lost p s1 e).1
        = waiting p s1 + requests p s2 + (lost p s1 e).2 := step_balance hstep hsame
    have hn1 : n2.1 = n1.1 + (lost p s1 e).1 := congrArg Prod.fst hn
    have hn2 : n2.2 = n1.2 + (lost p s1 e).2 := congrArg Prod.snd hn
    have hinv' : waiting p s1 + n1.1 = requests p s1 + n1.2 := hinv
    show waiting p s2 + n2.1 = requests p s2 + n2.2
    omega

end Balance

/-! ## When nobody fails -/

/-- Nobody fails: signals get through, processes go on, and requests get to them.  Reads may still be
    interrupted, and the files may still fail. -/
def Healthy (_ : World τ η) : Ev τ η → Prop
  | .kill _ ok => ok = true
  | .rcvreqFault _ | .storeFailed _ _ | .exit _ | .release _ => False
  | _ => True

section Healthy

variable {s : World τ η}

omit [Fintype τ] [Fintype η] [DecidableEq τ] [DecidableEq η] in
/-- Then no request is lost. -/
theorem Healthy.lost {e : Ev τ η} (he : Healthy s e) (p : Req) : (lost p s e).2 = 0 := by
  cases e with
  | kill t ok =>
    obtain rfl : ok = true := he
    rfl
  | rcvreqFault | storeFailed | exit | release => exact he.elim
  | _ => rfl

omit [Fintype τ] [Fintype η] [DecidableEq τ] [DecidableEq η] in
theorem Healthy.sameSession {e : Ev τ η} (he : Healthy s e) : SameSession s e := by
  cases e with
  | release => exact he.elim
  | _ => trivial

end Healthy

/-! ## A transfer that waits -/

/-- The device of the small world, with its bitmap. -/
def smallDev : UloDev Unit := ⟨[], [], [], some ⟨zeroPage, 0, fun _ => 0, 4096⟩⟩

theorem smallDev_setUp : SetUp (smallWorld (some smallDev)) :=
  ⟨⟨_, rfl, rfl, rfl, rfl⟩, fun _ => rfl, fun _ => rfl, fun _ => rfl⟩

/-- A read has missed its block, and has sent for it. -/
theorem waiting_run : ∃ es s x, Run (Guarded (UloStep oneBlock) Healthy) (smallWorld (some smallDev)) es s ∧
    s.xfers () = .wait x ∧ x.req = ⟨0, 4096⟩ := by
  have h0 : Run (Guarded (UloStep oneBlock) Healthy) (smallWorld (some smallDev)) [] _ := .nil
  have h1 := h0.go (e := .start () 0 512) (.start rfl rfl rfl) (by trivial)
  have h2 := h1.go (e := .test () (.fail 0) (.fail 0) (.fail 0)) (.test rfl rfl rfl (by decide) rfl)
    (by trivial)
  have h3 := h2.go (e := .ready ()) (.ready rfl rfl) (by trivial)
  have h4 := h3.go (e := .take ()) (.take rfl rfl rfl) (by trivial)
  have h5 := h4.go (e := .post ()) (.post rfl rfl) (by trivial)
  have h6 := h5.go (e := .kill () true)
    (.kill rfl fun _ => show Helper.waiting ≠ .exited from fun h => nomatch h) rfl
  exact ⟨_, _, _, h6, rfl, rfl⟩

theorem requests_balance_small : ∃ (s : World Unit Unit) (n : ℕ × ℕ), waiting ⟨0, 4096⟩ s = 1 ∧
    waiting ⟨0, 4096⟩ s + n.1 = requests ⟨0, 4096⟩ s + n.2 := by
  obtain ⟨es, s, x, hrun, hx, hreq⟩ := waiting_run
  obtain ⟨n, hrun'⟩ := (hrun.weaken fun _ _ he => he.sameSession).metered (lost ⟨0, 4096⟩)
  refine ⟨s, n, ?_, requests_balance smallDev_setUp hrun'⟩
  show asks ⟨0, 4096⟩ (s.xfers ()) = 1
  rw [hx]
  exact if_pos hreq

end KernelPatches.Uloop
