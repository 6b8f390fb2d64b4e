/-
  uloop: the transfer of blocks between the loop device and the processes that fetch them.

  A read of the loop device is a transfer (`uloop_xfer`).  For every block of it that is not in the cache
  the transfer takes a process from the READY queue, puts the request on the RCVREQ queue, sends the process
  its signal, and waits for the answer on the SNDRES queue; there an answer is recognised by its start and
  size, and an answer to somebody else is put back.  A process (`ulo_loop`) says it is ready, waits for the
  signal, takes a request, fetches the block into the cache (`store`), and answers.

  Any number of transfers and of processes run at once: `UloStep` is one move of one of them.  What is done
  under one lock is one move, everything else is apart.  A transfer may be interrupted where it sleeps, a
  signal may not get through, a process may end at any point, and what a process takes from a queue may not
  get to it.  The device may be let go and set up again, with the bitmap file as it was left.

  * `Loc`, `Helper`  — where a transfer, and a process, is;
  * `World`          — the device, its queues and its bitmap, the two files, and everybody;
  * `UloStep`        — the moves.
-/
import KernelPatches.Uloop.BitmapRuns

namespace KernelPatches.Uloop

open KernelPatches.Lib

/-! ## The parties -/

/-- `struct ulo_ctl_rcvreq`, and `struct ulo_ctl_sndres`. -/
structure Req where
  start : Nat
  size : Nat
  deriving DecidableEq, Repr

/-- The locals of `uloop_xfer`: the request as it came, and what is left of it. -/
structure Xfer where
  start : Nat
  size : Nat
  pos : Nat
  sz : Nat

/-- The bottom of its loop: `sz -= PAGE_SIZE`, `pos += PAGE_SIZE`. -/
def Xfer.next (x : Xfer) : Xfer := { x with sz := x.sz - pageSize, pos := x.pos + pageSize }

/-- What `ulo_xfer_begin` asks for. -/
def Xfer.req (x : Xfer) : Req := ⟨x.pos, pageSize⟩

variable {τ η : Type}

/-- Where a transfer is. -/
inductive Loc (η : Type) where
  | idle
  /-- `uloop_xfer`, at the top of its loop -/
  | test (x : Xfer)
  /-- `ulo_xfer_begin`, waiting for a process that is ready -/
  | begin (x : Xfer)
  /-- it has one -/
  | taken (x : Xfer) (pid : η)
  /-- the request is on the queue, the signal is to be sent -/
  | posted (x : Xfer) (pid : η)
  /-- `ulo_xfer_end`, waiting for an answer -/
  | wait (x : Xfer)
  /-- "this is not what I want. return it" -/
  | hold (x : Xfer) (q : Req)
  /-- the answer is there, the bitmap is to be set -/
  | mark (x : Xfer)

/-- Where a process is in `ulo_loop`. -/
inductive Helper where
  | idle
  /-- it has said it is ready: `sigwaitinfo` -/
  | waiting
  /-- it has had its signal -/
  | awake
  /-- it has a request: `store` -/
  | got (q : Req)
  /-- it is to send the answer -/
  | stored (q : Req)
  | exited

/-- `struct ulo_dev`: the queues (of a ready process its `pid` is kept), and the bitmap. -/
structure UloDev (η : Type) where
  ready : List η
  rcvreq : List Req
  sndres : List Req
  bmp : Option Bmp

/-- What a transfer has delivered. -/
structure Served where
  start : Nat
  size : Nat
  data : Nat → UInt8

/-- Everybody, and the files. -/
structure World (τ η : Type) where
  /-- `loop->private_data` -/
  dev : Option (UloDev η)
  /-- the bitmap file, while no device has it -/
  disk : File
  /-- the cache file -/
  cache : File
  xfers : τ → Loc η
  helpers : η → Helper
  /-- the processes that have a signal waiting -/
  pending : η → Bool
  served : List Served

namespace World

variable [DecidableEq τ] [DecidableEq η]

def setDev (s : World τ η) (d : UloDev η) : World τ η := { s with dev := some d }

def goto (s : World τ η) (t : τ) (l : Loc η) : World τ η :=
  { s with xfers := Function.update s.xfers t l }

def become (s : World τ η) (h : η) (l : Helper) : World τ η :=
  { s with helpers := Function.update s.helpers h l }

def signal (s : World τ η) (h : η) (b : Bool) : World τ η :=
  { s with pending := Function.update s.pending h b }

end World

/-! ## Filling the cache -/

/-- `store`, the part that is copied: where it starts, and how long it is. -/
def storeRange (tsize start size : Nat) : Nat × Nat :=
  let m := start % pageSize
  let start := start - m
  let size := size + m
  (start, if tsize < start + size then tsize - start else size)

/-- `store`: the block, from the device that is cached into the cache. -/
def store (target cache : File) (q : Req) : File :=
  let (start, size) := storeRange target.size q.start q.size
  cache.write start size fun k => target.data (start + k)

/-- What `store` needs to come to the copy: its `assert`, something to copy, and the pages of both files. -/
def CanStore (target cache : File) (q : Req) : Prop :=
  q.start + q.size ≤ (uloInit target.size pageSize).1 ∧
    0 < (storeRange target.size q.start q.size).2 ∧
    (storeRange target.size q.start q.size).1 + (storeRange target.size q.start q.size).2 ≤ cache.size

instance (target cache : File) (q : Req) : Decidable (CanStore target cache q) :=
  inferInstanceAs (Decidable (_ ∧ _ ∧ _))

/-! ## The moves -/

/-- The moves, with what the world around decides in them: whether a write or a read comes to its end, a
    signal gets through, a process goes on. -/
inductive Ev (τ η : Type) where
  | start (t : τ) (realBlock size : Nat)
  | test (t : τ) (w r e2 : Vfs)
  | take (t : τ)
  | post (t : τ)
  | kill (t : τ) (ok : Bool)
  | takeRes (t : τ)
  | putBack (t : τ)
  | mark (t : τ) (w r e2 : Vfs)
  | serve (t : τ)
  | interrupt (t : τ)
  | ready (h : η)
  | wake (h : η)
  | rcvreq (h : η)
  | rcvreqFault (h : η)
  | store (h : η)
  | storeFailed (h : η) (copied : Bool)
  | sndres (h : η)
  | exit (h : η)
  | release (w : Vfs)
  | init
  | setbmp (arg : SetbmpArg)

variable [DecidableEq τ] [DecidableEq η]

/-- One move. -/
inductive UloStep (target : File) (s : World τ η) : Ev τ η → World τ η → Prop
  /-- `uloop_xfer` is called: the device is there, and has a bitmap -/
  | start {t : τ} {d : UloDev η} {b : Bmp} {realBlock size : Nat} (hd : s.dev = some d)
      (hb : d.bmp = some b) (ht : s.xfers t = .idle) :
      UloStep target s (.start t realBlock size)
        (s.goto t (.test ⟨realBlock * 512, size, realBlock * 512, size⟩))
  /-- test bitmap -/
  | test {t : τ} {d : UloDev η} {b : Bmp} {x : Xfer} {w r e2 : Vfs} {err : Int}
      (hd : s.dev = some d) (hb : d.bmp = some b) (ht : s.xfers t = .test x) (hsz : 0 < x.sz)
      (h : (testBlock b (x.pos / pageSize) w r e2).1 = .done err) :
      UloStep target s (.test t w r e2)
        ((s.setDev { d with bmp := some (testBlock b (x.pos / pageSize) w r e2).2.2 }).goto t
          (if err ≠ 0 then .idle
            else if (testBlock b (x.pos / pageSize) w r e2).2.1 then .test x.next else .begin x))
  | take {t : τ} {d : UloDev η} {x : Xfer} {pid : η} {rest : List η} (hd : s.dev = some d)
      (ht : s.xfers t = .begin x) (hq : d.ready = pid :: rest) :
      UloStep target s (.take t) ((s.setDev { d with ready := rest }).goto t (.taken x pid))
  | post {t : τ} {d : UloDev η} {x : Xfer} {pid : η} (hd : s.dev = some d)
      (ht : s.xfers t = .taken x pid) :
      UloStep target s (.post t)
        ((s.setDev { d with rcvreq := d.rcvreq ++ [x.req] }).goto t (.posted x pid))
  /-- wake up the user process -/
  | kill {t : τ} {x : Xfer} {pid : η} {ok : Bool} (ht : s.xfers t = .posted x pid)
      (hpid : ok = true → s.helpers pid ≠ .exited) :
      UloStep target s (.kill t ok)
        (if ok then (s.signal pid true).goto t (.wait x) else s.goto t .idle)
  | takeRes {t : τ} {d : UloDev η} {x : Xfer} {q : Req} {rest : List Req} (hd : s.dev = some d)
      (ht : s.xfers t = .wait x) (hq : d.sndres = q :: rest) :
      UloStep target s (.takeRes t)
        ((s.setDev { d with sndres := rest }).goto t (if q = x.req then .mark x else .hold x q))
  | putBack {t : τ} {d : UloDev η} {x : Xfer} {q : Req} (hd : s.dev = some d)
      (ht : s.xfers t = .hold x q) :
      UloStep target s (.putBack t)
        ((s.setDev { d with sndres := d.sndres ++ [q] }).goto t (.wait x))
  /-- set bitmap -/
  | mark {t : τ} {d : UloDev η} {b : Bmp} {x : Xfer} {w r e2 : Vfs} {err : Int}
      (hd : s.dev = some d) (hb : d.bmp = some b) (ht : s.xfers t = .mark x)
      (h : (setBlock b (x.pos / pageSize) w r e2).1 = .done err) :
      UloStep target s (.mark t w r e2)
        ((s.setDev { d with bmp := some (setBlock b (x.pos / pageSize) w r e2).2 }).goto t
          (if err ≠ 0 then .idle else .test x.next))
  /-- satisfy the request: `raw_page` is the page of the cache file -/
  | serve {t : τ} {x : Xfer} (ht : s.xfers t = .test x) (hsz : x.sz = 0) :
      UloStep target s (.serve t)
        { s.goto t .idle with
          served := s.served ++ [⟨x.start, x.size, fun k => s.cache.data (x.start + k)⟩] }
  /-- a signal to who reads, in `ulo_wait` -/
  | interrupt {t : τ} {x : Xfer} (ht : s.xfers t = .begin x ∨ s.xfers t = .wait x) :
      UloStep target s (.interrupt t) (s.goto t .idle)
  | ready {h : η} {d : UloDev η} (hd : s.dev = some d) (hh : s.helpers h = .idle) :
      UloStep target s (.ready h) ((s.setDev { d with ready := d.ready ++ [h] }).become h .waiting)
  | wake {h : η} (hh : s.helpers h = .waiting) (hp : s.pending h = true) :
      UloStep target s (.wake h) ((s.signal h false).become h .awake)
  | rcvreq {h : η} {d : UloDev η} {q : Req} {rest : List Req} (hd : s.dev = some d)
      (hh : s.helpers h = .awake) (hq : d.rcvreq = q :: rest) :
      UloStep target s (.rcvreq h) ((s.setDev { d with rcvreq := rest }).become h (.got q))
  /-- the request does not get to the process, and goes to the end of the queue -/
  | rcvreqFault {h : η} {d : UloDev η} {q : Req} {rest : List Req} (hd : s.dev = some d)
      (hh : s.helpers h = .awake) (hq : d.rcvreq = q :: rest) :
      UloStep target s (.rcvreqFault h)
        ((s.setDev { d with rcvreq := rest ++ [q] }).become h .exited)
  | store {h : η} {q : Req} (hh : s.helpers h = .got q) (hcan : CanStore target s.cache q) :
      UloStep target s (.store h)
        ({ s with cache := Uloop.store target s.cache q }.become h (.stored q))
  /-- it fails, before the copy or after it -/
  | storeFailed {h : η} {q : Req} {copied : Bool} (hh : s.helpers h = .got q)
      (hcan : copied = true → CanStore target s.cache q) :
      UloStep target s (.storeFailed h copied)
        ({ s with cache := if copied then Uloop.store target s.cache q else s.cache }.become h .exited)
  | sndres {h : η} {d : UloDev η} {q : Req} (hd : s.dev = some d) (hh : s.helpers h = .stored q) :
      UloStep target s (.sndres h) ((s.setDev { d with sndres := d.sndres ++ [q] }).become h .idle)
  | exit {h : η} : UloStep target s (.exit h) (s.become h .exited)
  /-- no transfer is under way: the loop thread has ended -/
  | release {d : UloDev η} {w : Vfs} (hd : s.dev = some d) (ht : ∀ t, s.xfers t = .idle) :
      UloStep target s (.release w)
        { s with dev := none, disk := (d.bmp.map fun b => uloopRelease b w).getD s.disk }
  | init (hd : s.dev = none) (hsz : s.cache.size % pageSize = 0) :
      UloStep target s .init { s with dev := some ⟨[], [], [], none⟩ }
  /-- the bitmap file is the one that was left -/
  | setbmp {d : UloDev η} {arg : SetbmpArg} (hd : s.dev = some d)
      (hfile : ∀ f rw, arg.file = some (f, rw) → f = s.disk) :
      UloStep target s (.setbmp arg) (s.setDev { d with bmp := (uloCtlSetbmp d.bmp arg).2 })

/-! ## A small world -/

/-- A device of one block, all of it ones. -/
def oneBlock : File := ⟨4096, fun i => if i < 4096 then 1 else 0, fun i hi => if_neg (by omega)⟩

/-- A page of zeros: its bitmap, and its cache. -/
def zeroPage : File := ⟨4096, fun _ => 0, fun _ _ => rfl⟩

/-- One transfer and one process, and nothing done. -/
def smallWorld (dev : Option (UloDev Unit)) : World Unit Unit where
  dev := dev
  disk := zeroPage
  cache := zeroPage
  xfers := fun _ => .idle
  helpers := fun _ => .idle
  pending := fun _ => false
  served := []

end KernelPatches.Uloop
