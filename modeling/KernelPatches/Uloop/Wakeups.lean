/-
  uloop: nobody waits for nothing.

  As long as nobody fails the signals are balanced (`Signals`): there are as many requests on the queue as
  there are processes signalled and transfers about to signal one.  With the balance of the requests it is
  enough for

  * `no_lost_wakeup` — a transfer that waits has its answer on the queue, or in somebody's hands, or a process
    at work on it, or its request is on the queue and a process has been woken, or is about to be;
  * `no_deadlock`    — as long as a transfer is under way, and there is a process at all, somebody can go on.

  Reads may be interrupted all the while, and the files may fail.
-/
import KernelPatches.Uloop.Balance

namespace KernelPatches.Uloop

open KernelPatches.Lib

variable {τ η : Type} [Fintype τ] [Fintype η] [DecidableEq τ] [DecidableEq η]

/-! ## Signals -/

/-- About to send a signal. -/
def signals : Loc η → ℕ
  | .posted _ _ => 1
  | _ => 0

/-- It has the ticket of the process `h`. -/
def hasTicket (h : η) : Loc η → ℕ
  | .taken _ pid | .posted _ pid => if pid = h then 1 else 0
  | _ => 0

/-- It has had its signal, and has not looked at the queue. -/
def woken : Helper → ℕ
  | .awake => 1
  | _ => 0

/-- It is waiting for its signal. -/
def awaits : Helper → ℕ
  | .waiting => 1
  | _ => 0

/-- As long as nobody fails: every process that waits for its signal has one ticket, on the queue, with a
    transfer, or turned into a signal; and every request on the queue has its signal. -/
structure Signals (s : World τ η) : Prop where
  dev : s.dev.isSome
  bmp : ∀ t, s.xfers t ≠ .idle → ∃ d b, s.dev = some d ∧ d.bmp = some b
  tickets : ∀ h, s.ready.count h + tally s.xfers (hasTicket h) + (s.pending h).toNat
    = awaits (s.helpers h)
  signalled : s.rcvreq.length
    = tally s.xfers signals + tally s.pending Bool.toNat + tally s.helpers woken

section Signals

variable {target : File} {s s' : World τ η} {e : Ev τ η}

omit [Fintype η] [DecidableEq η] in
theorem tally_goto (w : Loc η → ℕ) (t : τ) (l : Loc η) :
    tally (s.goto t l).xfers w + w (s.xfers t) = tally s.xfers w + w l := tally_update _ _ _ _

omit [Fintype τ] [DecidableEq τ] in
theorem tally_become (w : Helper → ℕ) (h : η) (l : Helper) :
    tally (s.become h l).helpers w + w (s.helpers h) = tally s.helpers w + w l := tally_update _ _ _ _

omit [Fintype τ] [DecidableEq τ] in
theorem tally_signal (h : η) (b : Bool) :
    tally (s.signal h b).pending Bool.toNat + (s.pending h).toNat
      = tally s.pending Bool.toNat + b.toNat := tally_update _ _ _ _

/-- A transfer goes between places that have nothing to do with signals. -/
theorem Signals.goto (hs : Signals s) {t : τ} {l : Loc η} (hold : signals (s.xfers t) = 0)
    (hold' : ∀ h, hasTicket h (s.xfers t) = 0) (hnew : signals l = 0)
    (hnew' : ∀ h, hasTicket h l = 0)
    (hbmp : l ≠ .idle → ∃ d b, s.dev = some d ∧ d.bmp = some b) : Signals (s.goto t l) where
  dev := hs.dev
  bmp := by
    intro t' ht'
    have ht'' : Function.update s.xfers t l t' ≠ .idle := ht'
    rcases eq_or_ne t' t with rfl | hne
    · rw [Function.update_self] at ht''
      exact hbmp ht''
    · rw [Function.update_of_ne hne] at ht''
      exact hs.bmp t' ht''
  tickets := by
    intro h
    have hu := tally_goto (s := s) (hasTicket h) t l
    rw [hold', hnew', Nat.add_zero, Nat.add_zero] at hu
    have ht := hs.tickets h
    show s.ready.count h + tally (s.goto t l).xfers (hasTicket h) + (s.pending h).toNat = _
    rw [hu]
    exact ht
  signalled := by
    have hu := tally_goto (s := s) signals t l
    rw [hold, hnew, Nat.add_zero, Nat.add_zero] at hu
    show s.rcvreq.length = tally (s.goto t l).xfers signals + _ + _
    rw [hu]
    exact hs.signalled

omit [DecidableEq τ] in
/-- The device has its answers, or its bitmap, in another way. -/
theorem Signals.setDev (hs : Signals s) {d u : UloDev η} (hd : s.dev = some d)
    (hready : u.ready = d.ready) (hrcv : u.rcvreq = d.rcvreq)
    (hbmp : d.bmp.isSome → u.bmp.isSome) : Signals (s.setDev u) where
  dev := rfl
  bmp := by
    intro t ht
    obtain ⟨d1, b, hd1, hb⟩ := hs.bmp t ht
    obtain rfl := Option.some.inj (hd.symm.trans hd1)
    obtain ⟨b', hb'⟩ := Option.isSome_iff_exists.mp (hbmp (by rw [hb]; rfl))
    exact ⟨u, b', rfl, hb'⟩
  tickets := by
    intro h
    have ht := hs.tickets h
    rw [s.ready_eq hd, ← hready] at ht
    exact ht
  signalled := by
    have hr := hs.signalled
    rw [s.rcvreq_eq hd, ← hrcv] at hr
    exact hr

omit [DecidableEq τ] in
/-- A process goes between places that have nothing to do with signals. -/
theorem Signals.become (hs : Signals s) {h : η} {l : Helper} (hold : woken (s.helpers h) = 0)
    (hold' : awaits (s.helpers h) = 0) (hnew : woken l = 0) (hnew' : awaits l = 0) :
    Signals (s.become h l) where
  dev := hs.dev
  bmp := hs.bmp
  tickets := by
    intro h'
    have ht := hs.tickets h'
    show _ = awaits (Function.update s.helpers h l h')
    rcases eq_or_ne h' h with rfl | hne
    · rw [hold'] at ht
      rw [Function.update_self, hnew']
      exact ht
    · rw [Function.update_of_ne hne]
      exact ht
  signalled := by
    have hu := tally_become (s := s) woken h l
    rw [hold, hnew, Nat.add_zero, Nat.add_zero] at hu
    show s.rcvreq.length = _ + _ + tally (s.become h l).helpers woken
    rw [hu]
    exact hs.signalled

omit [DecidableEq τ] in
/-- The transfers under way know that the device has a bitmap. -/
theorem Signals.bmp_of (hs : Signals s) {t : τ} {l : Loc η} (ht : s.xfers t = l)
    (hl : l ≠ .idle) : ∃ d b, s.dev = some d ∧ d.bmp = some b := hs.bmp t (by rwa [ht])

/-- **One move**, when nobody fails. -/
theorem step_signals (hs : Signals s) (he : Healthy s e) (h : UloStep target s e s') :
    Signals s' := by
  cases h with
  | @start t d b realBlock size hd hb ht =>
    refine hs.goto ?_ ?_ rfl (fun _ => rfl) fun _ => ⟨d, b, hd, hb⟩ <;> simp [ht, signals, hasTicket]
  | @test t d b x w r e2 err hd hb ht hsz h =>
    have hs1 := hs.setDev (u := { d with bmp := some (testBlock b (x.pos / pageSize) w r e2).2.2 })
      hd rfl rfl fun _ => rfl
    have hx : (s.setDev { d with bmp := some (testBlock b (x.pos / pageSize) w r e2).2.2 }).xfers t
      = .test x := ht
    refine hs1.goto ?_ ?_ ?_ ?_ fun _ => ⟨_, _, rfl, rfl⟩
    · rw [hx]
      rfl
    · intro h
      rw [hx]
      rfl
    · split_ifs <;> rfl
    · intro h
      split_ifs <;> rfl
  | @take t d x pid rest hd ht hq =>
    obtain ⟨d1, b, hd1, hb⟩ := hs.bmp_of ht (fun h => nomatch h)
    obtain rfl := Option.some.inj (hd.symm.trans hd1)
    refine ⟨rfl, fun t' ht' => ⟨_, b, rfl, hb⟩, fun h => ?_, ?_⟩
    · have hu := tally_goto (s := s.setDev { d with ready := rest }) (hasTicket h) t (.taken x pid)
      have hx : (s.setDev { d with ready := rest }).xfers t = .begin x := ht
      have ht := hs.tickets h
      rw [hx] at hu
      rw [s.ready_eq hd, hq, List.count_cons] at ht
      simp only [hasTicket, beq_iff_eq] at hu ht
      show rest.count h + tally ((s.setDev { d with ready := rest }).goto t (.taken x pid)).xfers
        (hasTicket h) + (s.pending h).toNat = awaits (s.helpers h)
      have hsame : tally (s.setDev { d with ready := rest }).xfers (hasTicket h)
        = tally s.xfers (hasTicket h) := rfl
      omega
    · have hu := tally_goto (s := s.setDev { d with ready := rest }) signals t (.taken x pid)
      have hx : (s.setDev { d with ready := rest }).xfers t = .begin x := ht
      have hr := hs.signalled
      rw [hx] at hu
      rw [s.rcvreq_eq hd] at hr
      show d.rcvreq.length = tally ((s.setDev { d with ready := rest }).goto t (.taken x pid)).xfers
        signals + tally s.pending Bool.toNat + tally s.helpers woken
      have hsame : tally (s.setDev { d with ready := rest }).xfers signals = tally s.xfers signals := rfl
      simp only [signals] at hu
      omega
  | @post t d x pid hd ht =>
    obtain ⟨d1, b, hd1, hb⟩ := hs.bmp_of ht (fun h => nomatch h)
    obtain rfl := Option.some.inj (hd.symm.trans hd1)
    have hx : (s.setDev { d with rcvreq := d.rcvreq ++ [x.req] }).xfers t = .taken x pid := ht
    refine ⟨rfl, fun t' ht' => ⟨_, b, rfl, hb⟩, fun h => ?_, ?_⟩
    · have hu := tally_goto (s := s.setDev { d with rcvreq := d.rcvreq ++ [x.req] }) (hasTicket h) t
        (.posted x pid)
      have ht := hs.tickets h
      rw [hx] at hu
      rw [s.ready_eq hd] at ht
      have hsame : tally ((s.setDev { d with rcvreq := d.rcvreq ++ [x.req] }).goto t
          (.posted x pid)).xfers (hasTicket h) = tally s.xfers (hasTicket h) := Nat.add_right_cancel hu
      show d.ready.count h + tally ((s.setDev { d with rcvreq := d.rcvreq ++ [x.req] }).goto t
        (.posted x pid)).xfers (hasTicket h) + (s.pending h).toNat = awaits (s.helpers h)
      rw [hsame]
      exact ht
    · have hu := tally_goto (s := s.setDev { d with rcvreq := d.rcvreq ++ [x.req] }) signals t
        (.posted x pid)
      have hr := hs.signalled
      rw [hx] at hu
      rw [s.rcvreq_eq hd] at hr
      show (d.rcvreq ++ [x.req]).length = tally ((s.setDev { d with
        rcvreq := d.rcvreq ++ [x.req] }).goto t (.posted x pid)).xfers signals
          + tally s.pending Bool.toNat + tally s.helpers woken
      have hsame : tally (s.setDev { d with rcvreq := d.rcvreq ++ [x.req] }).xfers signals
        = tally s.xfers signals := rfl
      rw [List.length_append]
      simp only [signals, List.length_cons, List.length_nil] at hu ⊢
      omega
  | @kill t x pid ok ht hpid =>
    obtain rfl : ok = true := he
    rw [if_pos rfl]
    have hx : (s.signal pid true).xfers t = .posted x pid := ht
    -- the ticket becomes the signal, and there was none before
    have hnone : s.pending pid = false := by
      have hticket := hs.tickets pid
      have hle := le_tally s.xfers (hasTicket pid) t
      rw [ht] at hle
      simp only [hasTicket, if_true] at hle
      have hmost : awaits (s.helpers pid) ≤ 1 := by
        cases s.helpers pid <;> simp [awaits]
      cases hp : s.pending pid with
      | false => rfl
      | true =>
        rw [hp] at hticket
        simp only [Bool.toNat_true] at hticket
        omega
    refine ⟨hs.dev, fun t' ht' => ?_, fun h => ?_, ?_⟩
    · exact hs.bmp_of ht (fun h => nomatch h)
    · have hu := tally_goto (s := s.signal pid true) (hasTicket h) t (.wait x)
      have hticket := hs.tickets h
      rw [hx] at hu
      simp only [hasTicket] at hu
      show s.ready.count h + tally ((s.signal pid true).goto t (.wait x)).xfers (hasTicket h)
        + (Function.update s.pending pid true h).toNat = awaits (s.helpers h)
      have hsame : tally (s.signal pid true).xfers (hasTicket h) = tally s.xfers (hasTicket h) := rfl
      by_cases hp : pid = h
      · subst hp
        rw [Function.update_self]
        rw [hnone] at hticket
        simp only [Bool.toNat_false, Bool.toNat_true, if_true] at hticket hu ⊢
        omega
      · rw [Function.update_of_ne (Ne.symm hp)]
        rw [if_neg hp] at hu
        omega
    · have hu := tally_goto (s := s.signal pid true) signals t (.wait x)
      have hsig := tally_signal (s := s) pid true
      have hr := hs.signalled
      rw [hx] at hu
      rw [hnone] at hsig
      simp only [signals, Bool.toNat_false, Bool.toNat_true] at hu hsig
      show s.rcvreq.length = tally ((s.signal pid true).goto t (.wait x)).xfers signals
        + tally (s.signal pid true).pending Bool.toNat + tally s.helpers woken
      have hsame : tally (s.signal pid true).xfers signals = tally s.xfers signals := rfl
      omega
  | @takeRes t d x q rest hd ht hq =>
    have hbmp := hs.bmp_of ht (fun h => nomatch h)
    have hx : (s.setDev { d with sndres := rest }).xfers t = .wait x := ht
    have hs1 := hs.setDev (u := { d with sndres := rest }) hd rfl rfl id
    refine hs1.goto ?_ ?_ ?_ ?_ fun _ => hs1.bmp_of hx (fun h => nomatch h)
    · rw [hx]
      rfl
    · intro h
      rw [hx]
      rfl
    · split_ifs <;> rfl
    · intro h
      split_ifs <;> rfl
  | @putBack t d x q hd ht =>
    have hx : (s.setDev { d with sndres := d.sndres ++ [q] }).xfers t = .hold x q := ht
    have hs1 := hs.setDev (u := { d with sndres := d.sndres ++ [q] }) hd rfl rfl id
    refine hs1.goto ?_ ?_ rfl (fun _ => rfl) fun _ => hs1.bmp_of hx (fun h => nomatch h)
    · rw [hx]
      rfl
    · intro h
      rw [hx]
      rfl
  | @mark t d b x w r e2 err hd hb ht h =>
    have hs1 := hs.setDev (u := { d with bmp := some (setBlock b (x.pos / pageSize) w r e2).2 })
      hd rfl rfl fun _ => rfl
    have hx : (s.setDev { d with bmp := some (setBlock b (x.pos / pageSize) w r e2).2 }).xfers t
      = .mark x := ht
    refine hs1.goto ?_ ?_ ?_ ?_ fun _ => ⟨_, _, rfl, rfl⟩
    · rw [hx]
      rfl
    · intro h
      rw [hx]
      rfl
    · split_ifs <;> rfl
    · intro h
      split_ifs <;> rfl
  | @serve t x ht hsz =>
    have hg := hs.goto (t := t) (l := .idle) (by rw [ht]; rfl) (fun h => by rw [ht]; rfl) rfl
      (fun _ => rfl) fun h => absurd rfl h
    exact ⟨hg.dev, hg.bmp, hg.tickets, hg.signalled⟩
  | @interrupt t x ht =>
    refine hs.goto ?_ ?_ rfl (fun _ => rfl) fun h => absurd rfl h
    · rcases ht with ht | ht <;> rw [ht] <;> rfl
    · intro h
      rcases ht with ht | ht <;> rw [ht] <;> rfl
  | @ready h d hd hh =>
    refine ⟨rfl, fun t' ht' => ?_, fun h' => ?_, ?_⟩
    · obtain ⟨d1, b, hd1, hb⟩ := hs.bmp t' ht'
      obtain rfl := Option.some.inj (hd.symm.trans hd1)
      exact ⟨_, b, rfl, hb⟩
    · have hticket := hs.tickets h'
      rw [s.ready_eq hd] at hticket
      show (d.ready ++ [h]).count h' + tally s.xfers (hasTicket h') + (s.pending h').toNat
        = awaits (Function.update s.helpers h .waiting h')
      rw [List.count_append, List.count_singleton]
      rcases eq_or_ne h' h with rfl | hne
      · rw [hh] at hticket
        rw [Function.update_self]
        simp only [awaits, BEq.rfl, if_true] at hticket ⊢
        omega
      · rw [Function.update_of_ne hne]
        simp only [beq_iff_eq, Ne.symm hne, if_false]
        omega
    · have hu := tally_become (s := s.setDev { d with ready := d.ready ++ [h] }) woken h .waiting
      have hx : (s.setDev { d with ready := d.ready ++ [h] }).helpers h = .idle := hh
      have hr := hs.signalled
      rw [hx] at hu
      rw [s.rcvreq_eq hd] at hr
      rw [show woken .idle = 0 from rfl, show woken .waiting = 0 from rfl, Nat.add_zero,
        Nat.add_zero] at hu
      show d.rcvreq.length = tally s.xfers signals + tally s.pending Bool.toNat
        + tally ((s.setDev { d with ready := d.ready ++ [h] }).become h .waiting).helpers woken
      rw [hu]
      exact hr
  | @wake h hh hp =>
    refine ⟨hs.dev, hs.bmp, fun h' => ?_, ?_⟩
    · have hticket := hs.tickets h'
      show s.ready.count h' + tally s.xfers (hasTicket h')
        + (Function.update s.pending h false h').toNat
          = awaits (Function.update s.helpers h .awake h')
      rcases eq_or_ne h' h with rfl | hne
      · rw [hh, hp] at hticket
        rw [Function.update_self, Function.update_self]
        simp only [awaits, Bool.toNat_true, Bool.toNat_false] at hticket ⊢
        omega
      · rw [Function.update_of_ne hne, Function.update_of_ne hne]
        exact hticket
    · have hsig := tally_signal (s := s) h false
      have hu := tally_become (s := s.signal h false) woken h .awake
      have hx : (s.signal h false).helpers h = .waiting := hh
      have hr := hs.signalled
      rw [hx] at hu
      rw [hp] at hsig
      simp only [woken, Bool.toNat_true, Bool.toNat_false] at hu hsig
      show s.rcvreq.length = tally s.xfers signals + tally (s.signal h false).pending Bool.toNat
        + tally ((s.signal h false).become h .awake).helpers woken
      have hsame : tally (s.signal h false).helpers woken = tally s.helpers woken := rfl
      omega
  | @rcvreq h d q rest hd hh hq =>
    refine ⟨rfl, fun t' ht' => ?_, fun h' => ?_, ?_⟩
    · obtain ⟨d1, b, hd1, hb⟩ := hs.bmp t' ht'
      obtain rfl := Option.some.inj (hd.symm.trans hd1)
      exact ⟨_, b, rfl, hb⟩
    · have hticket := hs.tickets h'
      rw [s.ready_eq hd] at hticket
      show d.ready.count h' + tally s.xfers (hasTicket h') + (s.pending h').toNat
        = awaits (Function.update s.helpers h (.got q) h')
      rcases eq_or_ne h' h with rfl | hne
      · rw [hh] at hticket
        rw [Function.update_self]
        exact hticket
      · rw [Function.update_of_ne hne]
        exact hticket
    · have hu := tally_become (s := s.setDev { d with rcvreq := rest }) woken h (.got q)
      have hx : (s.setDev { d with rcvreq := rest }).helpers h = .awake := hh
      have hr := hs.signalled
      rw [hx] at hu
      rw [s.rcvreq_eq hd, hq, List.length_cons] at hr
      simp only [woken] at hu
      show rest.length = tally s.xfers signals + tally s.pending Bool.toNat
        + tally ((s.setDev { d with rcvreq := rest }).become h (.got q)).helpers woken
      have hsame : tally (s.setDev { d with rcvreq := rest }).helpers woken = tally s.helpers woken :=
        rfl
      omega
  | @rcvreqFault h d q rest hd hh hq => exact he.elim
  | @store h q hh hcan =>
    have hs1 : Signals ({ s with cache := store target s.cache q } : World τ η) :=
      ⟨hs.dev, hs.bmp, hs.tickets, hs.signalled⟩
    have hx : ({ s with cache := store target s.cache q } : World τ η).helpers h = .got q := hh
    exact hs1.become (by rw [hx]; rfl) (by rw [hx]; rfl) rfl rfl
  | @storeFailed h q copied hh hcan => exact he.elim
  | @sndres h d q hd hh =>
    have hx : (s.setDev { d with sndres := d.sndres ++ [q] }).helpers h = .stored q := hh
    exact (hs.setDev (u := { d with sndres := d.sndres ++ [q] }) hd rfl rfl id).become
      (by rw [hx]; rfl) (by rw [hx]; rfl) rfl rfl
  | @exit h => exact he.elim
  | release hd ht => exact he.elim
  | init hd hsz =>
    have hdev := hs.dev
    rw [hd] at hdev
    exact nomatch hdev
  | @setbmp d arg hd hfile =>
    refine hs.setDev (u := { d with bmp := (uloCtlSetbmp d.bmp arg).2 }) hd rfl rfl fun hsome => ?_
    rcases uloCtlSetbmp_cases d.bmp arg with ⟨-, hsame⟩ | ⟨f, rw', buf, -, heq, -⟩
    · show (uloCtlSetbmp d.bmp arg).2.isSome
      rwa [hsame]
    · show (uloCtlSetbmp d.bmp arg).2.isSome
      rw [heq]
      rfl

omit [Fintype τ] [Fintype η] in
/-- No process has ended. -/
theorem step_alive (ha : ∀ h, s.helpers h ≠ .exited) (he : Healthy s e)
    (h : UloStep target s e s') : ∀ h, s'.helpers h ≠ .exited := by
  have hbecome : ∀ (p : η) (l : Helper), l ≠ .exited →
      ∀ h, Function.update s.helpers p l h ≠ .exited := by
    intro p l hl h
    rcases eq_or_ne h p with rfl | hne
    · rwa [Function.update_self]
    · rw [Function.update_of_ne hne]
      exact ha h
  cases h with
  | @kill t x pid ok ht hpid =>
    obtain rfl : ok = true := he
    exact ha
  | ready => exact hbecome _ _ (fun h => nomatch h)
  | wake => exact hbecome _ _ (fun h => nomatch h)
  | rcvreq => exact hbecome _ _ (fun h => nomatch h)
  | store => exact hbecome _ _ (fun h => nomatch h)
  | sndres => exact hbecome _ _ (fun h => nomatch h)
  | rcvreqFault | storeFailed | exit | release => exact he.elim
  | _ => exact ha

end Signals

/-! ## Nobody waits for nothing -/

section Healthy

variable {target : File} {s s0 : World τ η} {es : List (Ev τ η)}

/-- What holds while nobody fails: the signals are balanced, there is a request or an answer for everybody
    who waits, and all processes go on. -/
theorem healthy_run (h0 : SetUp s0) (h : Run (Guarded (UloStep target) Healthy) s0 es s) :
    Signals s ∧ (∀ p, waiting p s ≤ requests p s) ∧ ∀ h, s.helpers h ≠ .exited := by
  refine h.inv (I := fun s => Signals s ∧ (∀ p, waiting p s ≤ requests p s) ∧
    ∀ h, s.helpers h ≠ .exited) ⟨?_, fun p => ?_, fun h => ?_⟩ ?_
  · obtain ⟨d, hd, hready, hrcv, -⟩ := h0.dev
    have hx : ∀ w : Loc η → ℕ, w .idle = 0 → tally s0.xfers w = 0 := by
      intro w hw
      refine tally_eq_zero.mpr fun t => ?_
      rw [h0.xfers t]
      exact hw
    refine ⟨by rw [hd]; rfl, fun t ht => absurd (h0.xfers t) ht, fun h => ?_, ?_⟩
    · rw [s0.ready_eq hd, hready, hx (hasTicket h) rfl, h0.pending, h0.helpers]
      rfl
    · have hp : tally s0.pending Bool.toNat = 0 := by
        refine tally_eq_zero.mpr fun h => ?_
        rw [h0.pending]
        rfl
      have hw : tally s0.helpers woken = 0 := by
        refine tally_eq_zero.mpr fun h => ?_
        rw [h0.helpers]
        rfl
      rw [s0.rcvreq_eq hd, hrcv, hx signals rfl, hp, hw]
      rfl
  · have hw : waiting p s0 = 0 := by
      refine tally_eq_zero.mpr fun t => ?_
      rw [h0.xfers t]
      rfl
    omega
  · rw [h0.helpers]
    exact fun h => nomatch h
  · rintro s1 e s2 ⟨hsig, hle, ha⟩ ⟨he, hstep⟩
    refine ⟨step_signals hsig he hstep, fun p => ?_, step_alive ha he hstep⟩
    have hb := step_balance (p := p) hstep he.sameSession
    have hl := he.lost p
    have hle' := hle p
    omega

omit [DecidableEq τ] in
/-- A process that has a signal waiting is waiting for it. -/
theorem Signals.waiting_of_pending (hs : Signals s) {h : η} (hp : s.pending h = true) :
    s.helpers h = .waiting := by
  have ht := hs.tickets h
  rw [hp] at ht
  cases hh : s.helpers h with
  | waiting => rfl
  | _ =>
    rw [hh] at ht
    simp only [awaits, Bool.toNat_true] at ht
    omega

omit [DecidableEq τ] in
/-- Somebody has been woken for a request on the queue, or is about to be. -/
theorem Signals.woken_of_rcvreq (hs : Signals s) (hr : 0 < s.rcvreq.length) :
    (∃ t x pid, s.xfers t = .posted x pid) ∨ (∃ h, s.helpers h = .awake) ∨
      ∃ h, s.helpers h = .waiting ∧ s.pending h = true := by
  have hsum := hs.signalled
  by_cases h1 : 0 < tally s.xfers signals
  · obtain ⟨t, ht⟩ := exists_of_tally h1
    left
    cases hl : s.xfers t with
    | posted x pid => exact ⟨t, x, pid, hl⟩
    | _ => exact absurd ht (by rw [hl]; exact Nat.lt_irrefl 0)
  by_cases h2 : 0 < tally s.helpers woken
  · obtain ⟨h, hh⟩ := exists_of_tally h2
    right; left
    cases hl : s.helpers h with
    | awake => exact ⟨h, hl⟩
    | _ => exact absurd hh (by rw [hl]; exact Nat.lt_irrefl 0)
  · obtain ⟨h, hh⟩ := exists_of_tally (f := s.pending) (w := Bool.toNat) (by omega)
    right; right
    have hp : s.pending h = true := by
      cases hb : s.pending h with
      | true => rfl
      | false => exact absurd hh (by rw [hb]; exact Nat.lt_irrefl 0)
    exact ⟨h, hs.waiting_of_pending hp, hp⟩

omit [DecidableEq τ] in
/-- Who waits, when there is a request or an answer for everybody. -/
theorem wait_cases (hs : Signals s) {t : τ} {x : Xfer} (hle : waiting x.req s ≤ requests x.req s)
    (ht : s.xfers t = .wait x) :
    x.req ∈ s.sndres ∨ (∃ t' x', s.xfers t' = .hold x' x.req) ∨
      (∃ h, s.helpers h = .got x.req ∨ s.helpers h = .stored x.req) ∨
      (x.req ∈ s.rcvreq ∧ ((∃ t' x' pid, s.xfers t' = .posted x' pid) ∨
        (∃ h, s.helpers h = .awake) ∨ ∃ h, s.helpers h = .waiting ∧ s.pending h = true)) := by
  have hone := le_tally s.xfers (asks x.req) t
  rw [ht] at hone
  simp only [asks, if_true] at hone
  have hpos : 0 < requests x.req s := Nat.lt_of_lt_of_le hone hle
  rw [requests] at hpos
  by_cases h1 : 0 < s.sndres.count x.req
  · exact Or.inl (List.count_pos_iff.mp h1)
  by_cases h2 : 0 < tally s.xfers (holds x.req)
  · obtain ⟨t', ht'⟩ := exists_of_tally h2
    right; left
    cases hl : s.xfers t' with
    | hold x' q =>
      rw [hl] at ht'
      have hq : q = x.req := by
        by_contra hne
        exact absurd ht' (by simp [holds, hne])
      exact ⟨t', x', by rw [hl, hq]⟩
    | _ => exact absurd ht' (by rw [hl]; exact Nat.lt_irrefl 0)
  by_cases h3 : 0 < tally s.helpers (works x.req)
  · obtain ⟨h, hh⟩ := exists_of_tally h3
    right; right; left
    cases hl : s.helpers h with
    | got q =>
      rw [hl] at hh
      have hq : q = x.req := by
        by_contra hne
        exact absurd hh (by simp [works, hne])
      exact ⟨h, Or.inl (by rw [hl, hq])⟩
    | stored q =>
      rw [hl] at hh
      have hq : q = x.req := by
        by_contra hne
        exact absurd hh (by simp [works, hne])
      exact ⟨h, Or.inr (by rw [hl, hq])⟩
    | _ => exact absurd hh (by rw [hl]; exact Nat.lt_irrefl 0)
  · right; right; right
    have hmem : x.req ∈ s.rcvreq := List.count_pos_iff.mp (by omega)
    exact ⟨hmem, hs.woken_of_rcvreq (List.length_pos_of_mem hmem)⟩

/-- **No wake-up is lost.**  As long as nobody fails, whatever the interleaving and however many reads are
    interrupted: a transfer that waits has its answer on the queue or in the hands of one who puts it back, or a
    process at work on its block, or its request on the queue, and then a process has been woken or is about
    to be. -/
theorem no_lost_wakeup (h0 : SetUp s0) (h : Run (Guarded (UloStep target) Healthy) s0 es s) {t : τ}
    {x : Xfer} (ht : s.xfers t = .wait x) :
    x.req ∈ s.sndres ∨ (∃ t' x', s.xfers t' = .hold x' x.req) ∨
      (∃ h, s.helpers h = .got x.req ∨ s.helpers h = .stored x.req) ∨
      (x.req ∈ s.rcvreq ∧ ((∃ t' x' pid, s.xfers t' = .posted x' pid) ∨
        (∃ h, s.helpers h = .awake) ∨ ∃ h, s.helpers h = .waiting ∧ s.pending h = true)) := by
  obtain ⟨hs, hle, -⟩ := healthy_run h0 h
  exact wait_cases hs (hle _) ht

/-- A move of the protocol itself: no new read, no interrupt, nothing done to the device. -/
def Proper : Ev τ η → Prop
  | .test .. | .take _ | .post _ | .takeRes _ | .putBack _ | .mark .. | .serve _ => True
  | .kill _ ok => ok = true
  | .ready _ | .wake _ | .rcvreq _ | .store _ | .sndres _ => True
  | _ => False

/-- Somebody can go on. -/
def CanMove (target : File) (s : World τ η) : Prop :=
  ∃ e s', Proper e ∧ UloStep target s e s'

/-- A process that is at work goes on, unless its `store` refuses the block. -/
theorem helper_moves (hs : Signals s) {h : η} (hidle : s.helpers h ≠ .waiting)
    (hawake : s.helpers h = .awake → 0 < s.rcvreq.length) (ha : s.helpers h ≠ .exited) :
    CanMove target s ∨ ∃ q, s.helpers h = .got q ∧ ¬ CanStore target s.cache q := by
  obtain ⟨d, hd⟩ := Option.isSome_iff_exists.mp hs.dev
  cases hh : s.helpers h with
  | idle => exact Or.inl ⟨.ready h, _, trivial, .ready hd hh⟩
  | waiting => exact absurd hh hidle
  | awake =>
    have hpos := hawake hh
    rw [s.rcvreq_eq hd] at hpos
    obtain ⟨q, rest, hq⟩ := List.exists_cons_of_length_pos hpos
    exact Or.inl ⟨.rcvreq h, _, trivial, .rcvreq hd hh hq⟩
  | got q =>
    by_cases hcan : CanStore target s.cache q
    · exact Or.inl ⟨.store h, _, trivial, .store hh hcan⟩
    · exact Or.inr ⟨q, rfl, hcan⟩
  | stored q => exact Or.inl ⟨.sndres h, _, trivial, .sndres hd hh⟩
  | exited => exact absurd hh ha

omit [Fintype τ] [Fintype η] in
/-- A transfer that has a process sends it its signal. -/
theorem posted_moves {t : τ} {x : Xfer} {pid : η} (ht : s.xfers t = .posted x pid)
    (ha : ∀ h, s.helpers h ≠ .exited) : CanMove target s :=
  ⟨.kill t true, _, rfl, .kill ht fun _ => ha pid⟩

/-- **No deadlock.**  As long as nobody fails and there is a process, a transfer that is under way never leaves
    everybody stuck: somebody can make a move, or a process holds a request for a block its `store` refuses. -/
theorem no_deadlock [Nonempty η] (h0 : SetUp s0)
    (h : Run (Guarded (UloStep target) Healthy) s0 es s) {t : τ} (ht : s.xfers t ≠ .idle) :
    CanMove target s ∨ ∃ h q, s.helpers h = .got q ∧ ¬ CanStore target s.cache q := by
  obtain ⟨hs, hle, ha⟩ := healthy_run h0 h
  obtain ⟨d, b, hd, hb⟩ := hs.bmp t ht
  have hhelper : ∀ h, s.helpers h ≠ .waiting →
      CanMove target s ∨ ∃ h q, s.helpers h = .got q ∧ ¬ CanStore target s.cache q := by
    intro h hne
    have hrcv : s.helpers h = .awake → 0 < s.rcvreq.length := by
      intro hw
      have hone := le_tally s.helpers woken h
      rw [hw] at hone
      have hsum := hs.signalled
      have hone' : 1 ≤ tally s.helpers woken := hone
      omega
    rcases helper_moves hs hne hrcv (ha h) with hc | ⟨q, hq⟩
    · exact Or.inl hc
    · exact Or.inr ⟨h, q, hq⟩
  cases hl : s.xfers t with
  | idle => exact absurd hl ht
  | test x =>
    by_cases hsz : x.sz = 0
    · exact Or.inl ⟨.serve t, _, trivial, .serve hl hsz⟩
    · obtain ⟨err, herr⟩ := uloBmpPindex_failing b (x.pos / pageSize / bmpPageBytes) (.fail 0) (.fail 0)
      exact Or.inl ⟨.test t (.fail 0) (.fail 0) (.fail 0), _, trivial,
        .test hd hb hl (Nat.pos_of_ne_zero hsz) herr⟩
  | begin x =>
    obtain ⟨h⟩ := ‹Nonempty η›
    by_cases hw : s.helpers h = .waiting
    · -- its ticket is on the queue, with a transfer, or has become its signal
      have hticket := hs.tickets h
      rw [hw] at hticket
      by_cases h1 : 0 < s.ready.count h
      · have hmem : h ∈ s.ready := List.count_pos_iff.mp h1
        rw [s.ready_eq hd] at hmem
        obtain ⟨pid, rest, hq⟩ := List.exists_cons_of_length_pos (List.length_pos_of_mem hmem)
        exact Or.inl ⟨.take t, _, trivial, .take hd hl hq⟩
      by_cases h2 : 0 < tally s.xfers (hasTicket h)
      · obtain ⟨t', ht'⟩ := exists_of_tally h2
        cases hl' : s.xfers t' with
        | taken x' pid => exact Or.inl ⟨.post t', _, trivial, .post hd hl'⟩
        | posted x' pid => exact Or.inl (posted_moves hl' ha)
        | _ => exact absurd ht' (by rw [hl']; exact Nat.lt_irrefl 0)
      · have hp : s.pending h = true := by
          cases hb' : s.pending h with
          | true => rfl
          | false =>
            rw [hb'] at hticket
            simp only [awaits, Bool.toNat_false] at hticket
            omega
        exact Or.inl ⟨.wake h, _, trivial, .wake hw hp⟩
    · exact hhelper h hw
  | taken x pid => exact Or.inl ⟨.post t, _, trivial, .post hd hl⟩
  | posted x pid => exact Or.inl (posted_moves hl ha)
  | wait x =>
    rcases wait_cases hs (hle _) hl with hres | ⟨t', x', hl'⟩ | ⟨h, hh⟩ | ⟨-, hposted | ⟨h, hh⟩ | ⟨h, hw, hp⟩⟩
    · rw [s.sndres_eq hd] at hres
      obtain ⟨q, rest, hq⟩ := List.exists_cons_of_length_pos (List.length_pos_of_mem hres)
      exact Or.inl ⟨.takeRes t, _, trivial, .takeRes hd hl hq⟩
    · exact Or.inl ⟨.putBack t', _, trivial, .putBack hd hl'⟩
    · refine hhelper h ?_
      rcases hh with hh | hh <;> rw [hh] <;> exact fun h => nomatch h
    · obtain ⟨t', x', pid, hl'⟩ := hposted
      exact Or.inl (posted_moves hl' ha)
    · exact hhelper h (by rw [hh]; exact fun h => nomatch h)
    · exact Or.inl ⟨.wake h, _, trivial, .wake hw hp⟩
  | hold x q => exact Or.inl ⟨.putBack t, _, trivial, .putBack hd hl⟩
  | mark x =>
    obtain ⟨err, herr⟩ := uloBmpPindex_failing b (x.pos / pageSize / bmpPageBytes) (.fail 0) (.fail 0)
    exact Or.inl ⟨.mark t (.fail 0) (.fail 0) (.fail 0), _, trivial, .mark hd hb hl herr⟩

end Healthy

/-! ## The transfer that waits -/

theorem no_lost_wakeup_small : ∃ (s : World Unit Unit) (x : Xfer), s.xfers () = .wait x ∧
    (x.req ∈ s.sndres ∨ (∃ t' x', s.xfers t' = .hold x' x.req) ∨
      (∃ h, s.helpers h = .got x.req ∨ s.helpers h = .stored x.req) ∨
      (x.req ∈ s.rcvreq ∧ ((∃ t' x' pid, s.xfers t' = .posted x' pid) ∨
        (∃ h, s.helpers h = .awake) ∨ ∃ h, s.helpers h = .waiting ∧ s.pending h = true))) := by
  obtain ⟨es, s, x, hrun, hx, -⟩ := waiting_run
  exact ⟨s, x, hx, no_lost_wakeup smallDev_setUp hrun hx⟩

theorem no_deadlock_small : ∃ s : World Unit Unit, (∃ x, s.xfers () = .wait x) ∧
    (CanMove oneBlock s ∨ ∃ h q, s.helpers h = .got q ∧ ¬ CanStore oneBlock s.cache q) := by
  obtain ⟨es, s, x, hrun, hx, -⟩ := waiting_run
  exact ⟨s, ⟨x, hx⟩, no_deadlock (t := ()) smallDev_setUp hrun (by rw [hx]; exact fun h => nomatch h)⟩

end KernelPatches.Uloop
