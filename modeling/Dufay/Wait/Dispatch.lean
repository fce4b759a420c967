import Dufay.Framework.Lts
import Dufay.Framework.Tailq
import Dufay.Sched.Thread

/-! # Waiting on dispatch objects as a transition system

`wait_any` and `try_satisfy_dispatch_object` of `core/wait.c`, with
their callers `mutex_lock`, `mutex_unlock` (`core/mutex.c`),
`semaphore_release` (`core/semaphore.c`) and the expiry of timers
(`core/timer.c`), for any number of threads and objects.

Granularity: a step is one critical section of an object's lock or one
atomic access to a thread's wait status.

* The critical sections of `wait_any` hold one compare-and-swap at most,
  so each is one step, enabled while the lock is free.
* `try_satisfy_dispatch_object` performs several compare-and-swaps with
  the lock held, and `timer_stop` spins with the lock held. `lock o`
  records who is inside and where, and other threads move in between.

The links between waitblocks are modelled as pointers (`Tailq.Links`),
since a waitblock that is removed twice follows stale ones.

Each execution of `wait_any` has its own `struct ktimer timer` and
`timer_wb`, named by the number of the execution. A started timer may
expire at any later moment. A thread that has committed its wait does
nothing until it is woken.

Left out, because no function here reads it: `waitblock::object`, the
names of objects and the interrupt priority level.
-/

open Lts Tailq Function

namespace Wait

open Ule (WaitStatus)

/-! ### Objects, waitblocks and calls -/

/-- `enum waitblock_status`. -/
inductive WaitblockStatus where
  | active
  | inactive
  | signaled
  deriving DecidableEq

/-- `enum dispatch_object_type`. -/
inductive DispatchObjectType where
  | notification
  | synchronization
  deriving DecidableEq

/-- `enum timer_state`. -/
inductive TimerState where
  | running
  | pending
  | stopped
  deriving DecidableEq

/-- The structures that embed a dispatch header. -/
inductive ObjectKind where
  | mutex
  | semaphore
  | timer
  deriving DecidableEq

/-- The type that `mutex_init`, `semaphore_init` and `timer_init` give. -/
def ObjectKind.type : ObjectKind → DispatchObjectType
  | .mutex => .synchronization
  | .semaphore => .synchronization
  | .timer => .notification

/-- The dispatch headers: those of numbered objects, and that of the
timeout timer in one execution of `wait_any`. -/
inductive Oid where
  | obj (k : Nat)
  | timeout (t : Nat) (call : Nat)
  deriving DecidableEq

/-- The waitblocks: `thread->waitblocks[i]`, and `timer_wb` in one
execution of `wait_any`. -/
inductive Waitblock where
  | internal (t : Nat) (i : Nat)
  | timer (t : Nat) (call : Nat)
  deriving DecidableEq

/-- `waitblock::thread`. -/
def Waitblock.thread : Waitblock → Nat
  | .internal t _ => t
  | .timer t _ => t

def INTERNAL_WAITBLOCKS_N : Nat := 4

/-- What called `wait_any`. -/
inductive Caller where
  | wait_any
  | mutex_lock (m : Nat)
  deriving DecidableEq

/-- The arguments of one execution of `wait_any`. -/
structure Call where
  objects : List Nat
  timeout : UInt64
  caller : Caller
  /-- The number of this execution among those of its thread. -/
  id : Nat
  deriving DecidableEq

/-- Neither `0` (do not wait) nor `-1UL` (wait indefinitely). -/
def Call.timed (c : Call) : Bool := c.timeout != 0 && c.timeout != -1

/-- `count`, after the timer was added to it. -/
def Call.count (c : Call) : Nat := c.objects.length + if c.timed then 1 else 0

/-- `timer_i`, with `none` for `-1`. -/
def Call.timer_i (c : Call) : Option Nat := if c.timed then some c.objects.length else none

/-- `is_timer ? &timer.hdr : objects[i]` -/
def Call.object (c : Call) (t i : Nat) : Oid :=
  if c.timer_i = some i then .timeout t c.id else .obj (c.objects.getD i 0)

/-- `is_timer ? &timer_wb : &thread->waitblocks[i]` -/
def Call.waitblock (c : Call) (t i : Nat) : Waitblock :=
  if c.timer_i = some i then .timer t c.id else .internal t i

/-! ### Program counters -/

/-- Where a thread stands. A satisfier `none` is `-1` in the source. -/
inductive Pc where
  | idle
  /-- About to lock object `i` in the first loop of `wait_any`. -/
  | scan (c : Call) (i : Nat)
  /-- Behind the first loop. -/
  | check (c : Call) (satisfier : Option Nat)
  /-- Backing out: about to remove waitblock `i`. -/
  | backout (c : Call) (satisfier i : Nat)
  /-- About to start the timeout timer. -/
  | start (c : Call)
  /-- About to commit the wait. -/
  | commit (c : Call)
  /-- In `sched_wait`. -/
  | blocked (c : Call)
  /-- `timer_stop`: about to take the lock, spinning, about to store. -/
  | stopEnter (c : Call)
  | stopSpin (c : Call)
  | stopStore (c : Call)
  /-- About to lock object `i` in the final loop. -/
  | final (c : Call) (i : Nat) (satisfier : Option Nat)
  /-- `wait_any` has returned. -/
  | returned (c : Call) (result : Option Nat)
  /-- In `mutex_unlock` or `semaphore_release` of an object. -/
  | signalling (o : Oid)
  deriving DecidableEq

/-- The callers of `try_satisfy_dispatch_object`. -/
inductive Signaller where
  | mutex_unlock (t : Nat)
  | semaphore_release (t : Nat)
  | timer_handle_expiry
  deriving DecidableEq

/-- The thread that runs the caller; an expiry runs in a DPC. -/
def Signaller.thread : Signaller → Option Nat
  | .mutex_unlock t => some t
  | .semaphore_release t => some t
  | .timer_handle_expiry => none

/-- Where a signaller stands in `try_satisfy_dispatch_object`. -/
inductive SignalPc where
  /-- At the condition of the loop. -/
  | loop
  /-- The waitblock is removed; case 1, 2 or 3 is tried next. -/
  | case1 (wb : Waitblock)
  | case2 (wb : Waitblock)
  | case3 (wb : Waitblock)
  /-- Returned; back in the caller. -/
  | done (ret : Option Nat)
  deriving DecidableEq

/-- Who holds an object's lock from one step to the next. -/
inductive Holder where
  | signal (who : Signaller) (pc : SignalPc)
  | timer_stop
  deriving DecidableEq

/-- The two panics of `wait_any`. -/
inductive Panic where
  | notSatisfied
  | multipleSatisfiers
  deriving DecidableEq

structure Config where
  kind : Nat → ObjectKind
  /-- The count that `semaphore_init` is called with. -/
  initial : Nat → Int
  initial_range : ∀ k, -2 ^ 31 ≤ initial k ∧ initial k < 2 ^ 31

/-- `dispatch_header::type`. -/
def Config.type (cfg : Config) : Oid → DispatchObjectType
  | .obj k => (cfg.kind k).type
  | .timeout _ _ => .notification

/-- The whole state. The last five fields are history that no step reads. -/
structure State where
  pc : Nat → Pc
  /-- `thread::wait_status` -/
  status : Nat → WaitStatus
  /-- `waitblock::status` -/
  wb_status : Waitblock → WaitblockStatus
  /-- `dispatch_header::waitblocks` and `waitblock::queue_hook` -/
  links : Links Oid Waitblock
  signaled_count : Oid → Int
  /-- `dispatch_header::lock` -/
  lock : Oid → Option Holder
  /-- `mutex::owner` -/
  owner : Nat → Option Nat
  /-- `ktimer::state` -/
  timer_state : Oid → TimerState
  /-- An expiry handler has made this timer `RUNNING` and wants its lock. -/
  expiring : Oid → Bool
  /-- The number of executions of `wait_any` that a thread has begun. -/
  calls : Nat → Nat
  panic : Option Panic
  /-- The thread has returned from `mutex_lock` and not called `mutex_unlock`. -/
  held : Nat → Nat → Bool
  /-- The signals delivered to a thread's latest wait: the object, and the
      waitblock that was set to `SIGNALED` if it came through one. -/
  delivered : Nat → List (Oid × Option Waitblock)
  /-- The objects whose count was decremented for a thread's latest wait. -/
  decremented : Nat → List Oid
  /-- Completed calls of `semaphore_release`. -/
  released : Oid → Nat
  /-- Waits that consumed a signal of a synchronization object. -/
  consumed : Oid → Nat

/-- The value that a 32-bit `int` holds after an arithmetic operation. -/
def toInt32 (x : Int) : Int := x.bmod (2 ^ 32)

@[simps -fullyApplied] def State.setPc (s : State) (t : Nat) (pc : Pc) : State :=
  { s with pc := update s.pc t pc }

/-- Take, pass on or release an object's lock. -/
@[simps -fullyApplied] def State.setLock (s : State) (o : Oid) (h : Option Holder) : State :=
  { s with lock := update s.lock o h }

/-! ### Signals -/

/-- `dispatch_object_consume`, for the wait of thread `t`. -/
def dispatch_object_consume (cfg : Config) (s : State) (o : Oid) (t : Nat) : State :=
  match cfg.type o with
  -- object remains signaled
  | .notification => s
  | .synchronization =>
    { s with
      signaled_count := update s.signaled_count o (toInt32 (s.signaled_count o - 1))
      decremented := update s.decremented t (s.decremented t ++ [o])
      consumed := update s.consumed o (s.consumed o + 1) }

/-- A compare-and-swap has satisfied the wait of thread `t`. -/
def satisfy (s : State) (t : Nat) (o : Oid) (via : Option Waitblock) : State :=
  { s with
    status := update s.status t .satisfied
    delivered := update s.delivered t (s.delivered t ++ [(o, via)]) }

/-- Where a thread goes on when its wait is over. -/
def after_wait (c : Call) : Pc := if c.timed then .stopEnter c else .final c 0 none

/-- `sched_wake`: a thread that is blocked goes on. -/
def sched_wake (s : State) (t : Nat) : State :=
  match s.pc t with
  | .blocked c => s.setPc t (after_wait c)
  | _ => s

/-- Behind the three cases: a synchronization object satisfies one wait. -/
def next_waitblock (cfg : Config) (o : Oid) (wb : Waitblock) : SignalPc :=
  match cfg.type o with
  | .notification => .loop
  | .synchronization => .done (some wb.thread)

/-- Satisfy the wait that a waitblock, just removed, belongs to. -/
def satisfy_waitblock (cfg : Config) (s : State) (o : Oid) (who : Signaller) (wb : Waitblock) :
    State :=
  let s := satisfy s wb.thread o (some wb)
  let s := { s with wb_status := update s.wb_status wb .signaled }
  let s := dispatch_object_consume cfg s o wb.thread
  s.setLock o (some (.signal who (next_waitblock cfg o wb)))

/-- What the callers do after `try_satisfy_dispatch_object`. -/
def release (s : State) (o : Oid) (who : Signaller) (ret : Option Nat) : State :=
  match who with
  | .mutex_unlock t =>
    let owner :=
      match o with
      | .obj m => update s.owner m ret
      | .timeout _ _ => s.owner
    ({ s with owner := owner }.setLock o none).setPc t .idle
  | .semaphore_release t =>
    ({ s with released := update s.released o (s.released o + 1) }.setLock o none).setPc
      t .idle
  | .timer_handle_expiry =>
    { s with timer_state := update s.timer_state o .stopped }.setLock o none

/-- One step of the signaller inside the critical section of `o`:
`try_satisfy_dispatch_object` and the return to its caller. -/
def try_satisfy_dispatch_object (cfg : Config) (s : State) (o : Oid) (who : Signaller) :
    SignalPc → State
  | .loop =>
    match s.links.first o with
    | some wb =>
      if 0 < s.signaled_count o then
        { s with links := s.links.remove o wb }.setLock o (some (.signal who (.case1 wb)))
      else s.setLock o (some (.signal who (.done none)))
    | none => s.setLock o (some (.signal who (.done none)))
  | .case1 wb =>
    -- the wait was still preparing
    if s.status wb.thread = .inProgress then satisfy_waitblock cfg s o who wb
    else s.setLock o (some (.signal who (.case2 wb)))
  | .case2 wb =>
    -- the wait is committed and the thread is blocked
    if s.status wb.thread = .committed then
      sched_wake (satisfy_waitblock cfg s o who wb) wb.thread
    else s.setLock o (some (.signal who (.case3 wb)))
  | .case3 wb =>
    -- someone else satisfied the wait
    if s.status wb.thread = .satisfied then
      { s with wb_status := update s.wb_status wb .inactive }.setLock o
        (some (.signal who .loop))
    else s.setLock o (some (.signal who (next_waitblock cfg o wb)))
  | .done ret => release s o who ret

/-! ### Waiting -/

/-- The entry of `wait_any`: the wait status is reset, and the timeout timer
is initialised if there is one. -/
def begin_wait (s : State) (t : Nat) (c : Call) : State :=
  let s := { s with
    status := update s.status t .inProgress
    calls := update s.calls t (s.calls t + 1)
    delivered := update s.delivered t []
    decremented := update s.decremented t [] }
  let s :=
    if c.timed then
      let o := .timeout t c.id
      { s with
        -- `timer_init`
        links := s.links.init o
        signaled_count := update s.signaled_count o 0
        lock := update s.lock o none
        timer_state := update s.timer_state o .stopped
        -- `timer_wb = { 0 }`
        wb_status := update s.wb_status (.timer t c.id) .active }
    else s
  s.setPc t (.scan c 0)

/-- One round of the first loop. -/
def scan (cfg : Config) (s : State) (t : Nat) (c : Call) (i : Nat) : Option State :=
  if i < c.count then
    let o := c.object t i
    let wb := c.waitblock t i
    if s.lock o ≠ none then none
    else if 0 < s.signaled_count o then
      if s.status t = .inProgress then
        -- already signaled, consume the signal and abort
        let s := dispatch_object_consume cfg (satisfy s t o none) o t
        some (s.setPc t (.check c (some i)))
      else
        -- satisfied in the meantime (case #1), abort
        some (s.setPc t (.check c (some i)))
    else
      let s := { s with
        links := s.links.insertTail o wb
        wb_status := update s.wb_status wb .active }
      some (s.setPc t (.scan c (i + 1)))
  else some (s.setPc t (.check c none))

/-- Behind the first loop: back out, or go on to wait. -/
def check (s : State) (t : Nat) (c : Call) (satisfier : Option Nat) : State :=
  if satisfier ≠ none ∨ c.timeout = 0 then
    if s.status t ≠ .satisfied then { s with panic := some .notSatisfied }
    else
      match satisfier with
      | some n => s.setPc t (.backout c n 0)
      | none => s.setPc t (.returned c none)
  else if c.timed then s.setPc t (.start c)
  else s.setPc t (.commit c)

/-- One round of the back-out loop, which looks at no status. -/
def backout (s : State) (t : Nat) (c : Call) (n i : Nat) : Option State :=
  if i < n then
    let o := .obj (c.objects.getD i 0)
    let wb := .internal t i
    if s.lock o ≠ none then none
    else
      let s := { s with
        wb_status := update s.wb_status wb .inactive
        links := s.links.remove o wb }
      some (s.setPc t (.backout c n (i + 1)))
  else some (s.setPc t (.returned c (some n)))

/-- `timer_start` of a timer, while its lock is free. -/
def timer_start (s : State) (o : Oid) : State :=
  if s.timer_state o = .stopped then
    { s with timer_state := update s.timer_state o .pending }
  else s

/-- One round of the final loop. -/
def final_scan (s : State) (t : Nat) (c : Call) (i : Nat) (satisfier : Option Nat) : Option State :=
  if i < c.count then
    let o := c.object t i
    let wb := c.waitblock t i
    if s.lock o ≠ none then none
    else
      -- still active, remove it from the list
      let s := if s.wb_status wb = .active then { s with links := s.links.remove o wb } else s
      if s.wb_status wb = .signaled then
        if satisfier ≠ none then some { s with panic := some .multipleSatisfiers }
        else some (s.setPc t (.final c (i + 1) (some i)))
      else some (s.setPc t (.final c (i + 1) satisfier))
  else some (s.setPc t (.returned c (if satisfier = c.timer_i then none else satisfier)))

/-- The return to the caller; `mutex_lock` writes the owner. -/
def return_to (s : State) (t : Nat) : Caller → State
  | .wait_any => s.setPc t .idle
  | .mutex_lock m =>
    { s with
      owner := update s.owner m (some t)
      held := update s.held t (update (s.held t) m true) }.setPc t .idle

/-- The next step of a thread inside `wait_any`. -/
def run (cfg : Config) (s : State) (t : Nat) : Option State :=
  match s.pc t with
  | .scan c i => scan cfg s t c i
  | .check c satisfier => some (check s t c satisfier)
  | .backout c n i => backout s t c n i
  | .start c =>
    if s.lock (.timeout t c.id) ≠ none then none
    else some ((timer_start s (.timeout t c.id)).setPc t (.commit c))
  | .commit c =>
    if s.status t = .inProgress then
      some ({ s with status := update s.status t .committed }.setPc t (.blocked c))
    else some (s.setPc t (after_wait c))
  | .stopEnter c =>
    let o := .timeout t c.id
    if s.lock o ≠ none then none
    else if s.timer_state o = .stopped then some (s.setPc t (.final c 0 none))
    else some ((s.setLock o (some .timer_stop)).setPc t (.stopSpin c))
  | .stopSpin c =>
    if s.timer_state (.timeout t c.id) = .running then none
    else some (s.setPc t (.stopStore c))
  | .stopStore c =>
    let o := .timeout t c.id
    let s := { s with timer_state := update s.timer_state o .stopped }
    some ((s.setLock o none).setPc t (.final c 0 none))
  | .final c i satisfier => final_scan s t c i satisfier
  | .returned c _ => some (return_to s t c.caller)
  | .idle | .blocked _ | .signalling _ => none

/-! ### The transition system -/

inductive Action where
  | wait_any (t : Nat) (objects : List Nat) (timeout : UInt64)
  | mutex_lock (t m : Nat) (timeout : UInt64)
  | mutex_unlock (t m : Nat)
  | semaphore_release (t k : Nat)
  /-- Someone starts timer `k`. -/
  | timer_start (k : Nat)
  /-- `timer_handle_expiry` makes a pending timer `RUNNING`. -/
  | expire (o : Oid)
  /-- It takes the timer's lock and signals the timer. -/
  | expiry (o : Oid)
  /-- The signaller that holds the lock of `o` takes its next step. -/
  | signal (o : Oid)
  /-- A thread inside `wait_any` takes its next step. -/
  | run (t : Nat)
  deriving DecidableEq

/-- Enter the critical section of `o` with a new signal. -/
def enter (s : State) (o : Oid) (who : Signaller) (count : Int) : State :=
  { s with signaled_count := update s.signaled_count o count }.setLock o
    (some (.signal who .loop))

/-- The steps, as long as the system has not panicked. -/
def move (cfg : Config) (s : State) : Action → Option State
  | .wait_any t objects timeout =>
    if s.pc t = .idle ∧ 0 < objects.length ∧ objects.length ≤ INTERNAL_WAITBLOCKS_N then
      some (begin_wait s t ⟨objects, timeout, .wait_any, s.calls t⟩)
    else none
  | .mutex_lock t m timeout =>
    if s.pc t = .idle ∧ cfg.kind m = .mutex then
      some (begin_wait s t ⟨[m], timeout, .mutex_lock m, s.calls t⟩)
    else none
  | .mutex_unlock t m =>
    if s.pc t = .idle ∧ cfg.kind m = .mutex ∧ s.lock (.obj m) = none then
      let s := { s with held := update s.held t (update (s.held t) m false) }
      some ((enter s (.obj m) (.mutex_unlock t) 1).setPc t (.signalling (.obj m)))
    else none
  | .semaphore_release t k =>
    if s.pc t = .idle ∧ cfg.kind k = .semaphore ∧ s.lock (.obj k) = none then
      some ((enter s (.obj k) (.semaphore_release t)
        (toInt32 (s.signaled_count (.obj k) + 1))).setPc t (.signalling (.obj k)))
    else none
  | .timer_start k =>
    if cfg.kind k = .timer ∧ s.lock (.obj k) = none then some (timer_start s (.obj k)) else none
  | .expire o =>
    if s.timer_state o = .pending ∧ s.expiring o = false then
      some { s with
        timer_state := update s.timer_state o .running
        expiring := update s.expiring o true }
    else none
  | .expiry o =>
    if s.expiring o = true ∧ s.lock o = none then
      some (enter { s with expiring := update s.expiring o false } o
        .timer_handle_expiry 1)
    else none
  | .signal o =>
    match s.lock o with
    | some (.signal who pc) => some (try_satisfy_dispatch_object cfg s o who pc)
    | _ => none
  | .run t => run cfg s t

/-- A panic stops the system. -/
def step (cfg : Config) (s : State) (a : Action) : Option State :=
  match s.panic with
  | some _ => none
  | none => move cfg s a

/-- The count that an object starts with. -/
def Config.initial_count (cfg : Config) : Oid → Int
  | .obj k =>
    match cfg.kind k with
    | .mutex => 1
    | .semaphore => cfg.initial k
    | .timer => 0
  | .timeout _ _ => 0

/-- After the objects were initialised: every thread is idle, and nothing is
linked, locked or started. -/
structure Init (cfg : Config) (s : State) : Prop where
  pc : ∀ t, s.pc t = .idle
  fwd : ∀ sl, s.links.fwd sl = none
  last : ∀ o, s.links.last o = .first o
  signaled_count : ∀ o, s.signaled_count o = cfg.initial_count o
  lock : ∀ o, s.lock o = none
  timer_state : ∀ o, s.timer_state o = .stopped
  expiring : ∀ o, s.expiring o = false
  panic : s.panic = none
  held : ∀ t m, s.held t m = false
  delivered : ∀ t, s.delivered t = []
  decremented : ∀ t, s.decremented t = []
  released : ∀ o, s.released o = 0
  consumed : ∀ o, s.consumed o = 0

def boot (cfg : Config) : State where
  pc := fun _ => .idle
  status := fun _ => .inProgress
  wb_status := fun _ => .active
  links := ⟨fun _ => none, fun o => .first o, fun wb => .next wb⟩
  signaled_count := cfg.initial_count
  lock := fun _ => none
  owner := fun _ => none
  timer_state := fun _ => .stopped
  expiring := fun _ => false
  calls := fun _ => 0
  panic := none
  held := fun _ _ => false
  delivered := fun _ => []
  decremented := fun _ => []
  released := fun _ => 0
  consumed := fun _ => 0

theorem boot_init (cfg : Config) : Init cfg (boot cfg) := by
  constructor <;> intros <;> rfl

/-- Any number of threads over the objects of `cfg`. -/
def system (cfg : Config) : System State Action where
  init := Init cfg
  step := step cfg

end Wait
