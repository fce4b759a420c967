import Mathlib.Data.Fintype.Basic
import Dufay.Wait.Dispatch

/-! # Kernel timers as a transition system

`timer_init`, `timer_start`, `timer_stop` and `timer_handle_expiry` of
`core/timer.c` and the tick of `hardclock` (`core/clock.c`), for any
number of timers on `n` CPUs.

Granularity: a step is one operation on `hdr.lock`, one atomic access
to the timer's state, or one critical section of a CPU's `timers_lock`.
The latter hold no other lock and touch the heap only, so nothing can
be observed in between.

Each CPU runs one of these functions at a time: they raise the IPL to
`IPL_DISPATCH` or run in a DPC. Only the clock interrupts them.

The pairing heap is modelled by what it holds. Its top is any timer that
no other is earlier than under `timer_compare`; ties are left open.
Removing a timer that is not there does nothing here and corrupts the
heap in the source. A compare-and-swap fails only if the value differs.

Of the waits on a timer the model keeps which threads have a waitblock
in its list.
-/

open Lts Function

namespace Timer

open Wait (TimerState)

/-! ### Time -/

def NANOSECONDS_PER_SECOND : UInt64 := 1000000000

def HZ : UInt64 := 100

def TICKS_TO_NS (ticks : UInt64) : UInt64 := ticks * (NANOSECONDS_PER_SECOND / HZ)

/-- The time of a CPU, as an exact number of nanoseconds. -/
def time (ticks : Nat) : Nat := ticks * 10 ^ 7

/-- What a CPU is doing, with the timer. -/
inductive Pc where
  | idle
  /-- `timer_start`, with the lock: about to compare-and-swap the state. -/
  | startCas (t : Nat) (ns : UInt64)
  /-- The timer is pending: about to read the clock. -/
  | startArm (t : Nat) (ns : UInt64)
  /-- About to insert it. -/
  | startInsert (t : Nat)
  | startRelease (t : Nat)
  /-- `timer_stop`, with the lock: about to compare the state with
      `TIMER_STOPPED`, and then with `TIMER_PENDING`. -/
  | stopCheck (t : Nat)
  | stopRead (t : Nat)
  /-- About to remove the timer from the heap. -/
  | stopRemove (t : Nat)
  | stopSpin (t : Nat)
  | stopStore (t : Nat)
  | stopRelease (t : Nat)
  /-- `timer_handle_expiry`, at the head of the loop. -/
  | expiryLoop
  /-- The timer is popped: about to compare-and-swap its state. -/
  | expiryCas (t : Nat)
  /-- The timer is `RUNNING`: about to take its lock. -/
  | expiryLock (t : Nat)
  /-- With the lock: about to signal, to store, and to release. -/
  | expirySignal (t : Nat)
  | expiryStore (t : Nat)
  | expiryRelease (t : Nat)
  deriving DecidableEq

/-- The timer that a CPU works on. -/
def Pc.timer : Pc → Option Nat
  | .idle | .expiryLoop => none
  | .startCas t _ | .startArm t _ | .startInsert t | .startRelease t => some t
  | .stopCheck t | .stopRead t | .stopRemove t | .stopSpin t | .stopStore t | .stopRelease t =>
    some t
  | .expiryCas t | .expiryLock t | .expirySignal t | .expiryStore t | .expiryRelease t => some t

/-- The timer whose lock a CPU holds. -/
def Pc.holds : Pc → Option Nat
  | .expiryCas _ | .expiryLock _ => none
  | pc => pc.timer

structure State (n : Nat) where
  pc : Fin n → Pc
  /-- The number of ticks on a CPU; `cpu_local::ticks` holds it modulo 2^64. -/
  ticks : Fin n → Nat
  /-- `cpu_local::timers` -/
  timers : Fin n → List Nat
  /-- `ktimer::state` -/
  state : Nat → TimerState
  /-- `ktimer::deadline` -/
  deadline : Nat → UInt64
  /-- `ktimer::cpu` -/
  cpu : Nat → Option (Fin n)
  /-- `hdr.lock`, with the CPU that holds it. -/
  lock : Nat → Option (Fin n)
  /-- `hdr.signaled_count` -/
  signaled_count : Nat → Int
  /-- The threads with a waitblock in `hdr.waitblocks`. -/
  waiting : Nat → List Nat
  /-- History that no step reads: the time of the `timer_start` that armed
      the timer last, and its argument. -/
  armed : Nat → Option (Nat × UInt64)

variable {n : Nat}

@[simps -fullyApplied] def State.setPc (s : State n) (c : Fin n) (pc : Pc) : State n :=
  { s with pc := update s.pc c pc }

@[simps -fullyApplied] def State.setState (s : State n) (t : Nat) (st : TimerState) : State n :=
  { s with state := update s.state t st }

/-- Take or release a timer's lock. -/
@[simps -fullyApplied] def State.setLock (s : State n) (t : Nat) (holder : Option (Fin n)) : State n :=
  { s with lock := update s.lock t holder }

/-! ### The heap -/

section
variable (s : State n) (c : Fin n) (t : Nat)

def pairing_heap_insert : State n :=
  { s with timers := update s.timers c (t :: s.timers c) }

def pairing_heap_remove : State n :=
  { s with timers := update s.timers c ((s.timers c).erase t) }

/-- `t` may be what `pairing_heap_top` returns. -/
def IsTop : Prop := t ∈ s.timers c ∧ ∀ u ∈ s.timers c, ¬ s.deadline u < s.deadline t

end

instance (s : State n) (c : Fin n) (t : Nat) : Decidable (IsTop s c t) :=
  inferInstanceAs (Decidable (_ ∧ _))

/-- The time that `timer_start` and `timer_handle_expiry` read. -/
def State.now (s : State n) (c : Fin n) : UInt64 := TICKS_TO_NS (UInt64.ofNat (s.ticks c))

def timer_init (s : State n) (t : Nat) : State n :=
  { s with
    state := update s.state t .stopped
    deadline := update s.deadline t 0
    cpu := update s.cpu t none
    -- `dispatch_object_init`
    lock := update s.lock t none
    signaled_count := update s.signaled_count t 0
    waiting := update s.waiting t []
    armed := update s.armed t none }

/-- The next step of `timer_start`, `timer_stop` or `timer_handle_expiry`. -/
def run (s : State n) (c : Fin n) : Option (State n) :=
  match s.pc c with
  | .idle => none
  | .startCas t ns =>
    -- `TIMER_STOPPED -> TIMER_PENDING`; a timer that is already started is left alone
    if s.state t = .stopped then some ((s.setState t .pending).setPc c (.startArm t ns))
    else some (s.setPc c (.startRelease t))
  | .startArm t ns =>
    some ({ s with
      deadline := update s.deadline t (s.now c + ns)
      cpu := update s.cpu t (some c)
      armed := update s.armed t (some (time (s.ticks c), ns)) }.setPc c (.startInsert t))
  | .startInsert t => some ((pairing_heap_insert s c t).setPc c (.startRelease t))
  | .startRelease t => some ((s.setLock t none).setPc c .idle)
  | .stopCheck t =>
    -- the timer was already stopped
    if s.state t = .stopped then some (s.setPc c (.stopRelease t))
    else some (s.setPc c (.stopRead t))
  | .stopRead t =>
    -- the state is read again: the handler may have moved it in between
    if s.state t = .pending then some (s.setPc c (.stopRemove t))
    else some (s.setPc c (.stopSpin t))
  | .stopRemove t =>
    -- `dequeue_timer`
    match s.cpu t with
    | some k => some ((pairing_heap_remove s k t).setPc c (.stopSpin t))
    | none => none
  | .stopSpin t =>
    -- the timer is currently running, wait until it's done
    if s.state t = .running then none
    else some (s.setPc c (.stopStore t))
  | .stopStore t => some ((s.setState t .stopped).setPc c (.stopRelease t))
  | .stopRelease t => some ((s.setLock t none).setPc c .idle)
  | .expiryLoop =>
    -- no timers, or none that should expire yet
    if ∀ t ∈ s.timers c, s.now c < s.deadline t then some (s.setPc c .idle) else none
  | .expiryCas t =>
    if s.state t = .pending then some ((s.setState t .running).setPc c (.expiryLock t))
    else
      -- timer was canceled
      some (s.setPc c .expiryLoop)
  | .expiryLock t =>
    -- `hdr.lock` is taken after the timer became `RUNNING`
    if s.lock t = none then some ((s.setLock t (some c)).setPc c (.expirySignal t)) else none
  | .expirySignal t =>
    -- wake whoever was waiting on the timer to expire
    some ({ s with
      signaled_count := update s.signaled_count t 1
      waiting := update s.waiting t [] }.setPc c (.expiryStore t))
  | .expiryStore t => some ((s.setState t .stopped).setPc c (.expiryRelease t))
  | .expiryRelease t => some ((s.setLock t none).setPc c .expiryLoop)

/-! ### The transition system -/

inductive Action (n : Nat) where
  | timer_init (t : Nat)
  /-- A call of `timer_start` or `timer_stop` takes the timer's lock. -/
  | timer_start (c : Fin n) (t : Nat) (ns : UInt64)
  | timer_stop (c : Fin n) (t : Nat)
  /-- The timer DPC of a CPU begins. -/
  | timer_handle_expiry (c : Fin n)
  /-- It pops timer `t`, which has expired. -/
  | pop (c : Fin n) (t : Nat)
  /-- Any other step of what the CPU is doing. -/
  | run (c : Fin n)
  | tick (c : Fin n)
  /-- The scan of a wait on timer `t` by thread `th`, and its end. -/
  | wait (th t : Nat)
  | unwait (th t : Nat)
  deriving DecidableEq

/-- Nobody uses the timer. -/
def Unused (s : State n) (t : Nat) : Prop :=
  s.state t = .stopped ∧ s.lock t = none ∧ s.waiting t = [] ∧
    ∀ c, (s.pc c).timer ≠ some t ∧ t ∉ s.timers c

instance (s : State n) (t : Nat) : Decidable (Unused s t) :=
  inferInstanceAs (Decidable (_ ∧ _ ∧ _ ∧ _))

/-- The steps. A timer is initialised only while nobody uses it. -/
def step (s : State n) : Action n → Option (State n)
  | .timer_init t => if Unused s t then some (timer_init s t) else none
  | .timer_start c t ns =>
    if s.pc c = .idle ∧ s.lock t = none then
      some ((s.setLock t (some c)).setPc c (.startCas t ns))
    else none
  | .timer_stop c t =>
    if s.pc c = .idle ∧ s.lock t = none then
      some ((s.setLock t (some c)).setPc c (.stopCheck t))
    else none
  | .timer_handle_expiry c => if s.pc c = .idle then some (s.setPc c .expiryLoop) else none
  | .pop c t =>
    if s.pc c = .expiryLoop ∧ IsTop s c t ∧ s.deadline t ≤ s.now c then
      some ((pairing_heap_remove s c t).setPc c (.expiryCas t))
    else none
  | .run c => run s c
  | .tick c => some { s with ticks := update s.ticks c (s.ticks c + 1) }
  | .wait th t =>
    if s.lock t = none then
      -- already signaled, or a waitblock is installed
      if 0 < s.signaled_count t then some s
      else some { s with waiting := update s.waiting t (th :: s.waiting t) }
    else none
  | .unwait th t =>
    if s.lock t = none then
      some { s with waiting := update s.waiting t ((s.waiting t).erase th) }
    else none

/-- After every timer was initialised. -/
structure Init (s : State n) : Prop where
  pc : ∀ c, s.pc c = .idle
  timers : ∀ c, s.timers c = []
  state : ∀ t, s.state t = .stopped
  lock : ∀ t, s.lock t = none
  signaled_count : ∀ t, s.signaled_count t = 0
  waiting : ∀ t, s.waiting t = []
  armed : ∀ t, s.armed t = none

def boot (n : Nat) : State n where
  pc := fun _ => .idle
  ticks := fun _ => 0
  timers := fun _ => []
  state := fun _ => .stopped
  deadline := fun _ => 0
  cpu := fun _ => none
  lock := fun _ => none
  signaled_count := fun _ => 0
  waiting := fun _ => []
  armed := fun _ => none

theorem boot_init (n : Nat) : Init (boot n) := by
  constructor <;> intros <;> rfl

def system (n : Nat) : System (State n) (Action n) where
  init := Init
  step := step

/-! ### What one step can do -/

/-- The steps of a CPU inside one of the functions, with their guards and
results. -/
inductive Runs (s : State n) (c : Fin n) : State n → Prop where
  | start_pending {t : Nat} {ns : UInt64} : s.pc c = .startCas t ns → s.state t = .stopped →
      Runs s c ((s.setState t .pending).setPc c (.startArm t ns))
  | start_busy {t : Nat} {ns : UInt64} :
      s.pc c = .startCas t ns → s.state t ≠ .stopped → Runs s c (s.setPc c (.startRelease t))
  | start_arm {t : Nat} {ns : UInt64} : s.pc c = .startArm t ns → Runs s c ({ s with
        deadline := update s.deadline t (s.now c + ns)
        cpu := update s.cpu t (some c)
        armed := update s.armed t (some (time (s.ticks c), ns)) }.setPc c (.startInsert t))
  | start_insert {t : Nat} :
      s.pc c = .startInsert t → Runs s c ((pairing_heap_insert s c t).setPc c (.startRelease t))
  | start_release {t : Nat} : s.pc c = .startRelease t → Runs s c ((s.setLock t none).setPc c .idle)
  | stop_stopped {t : Nat} :
      s.pc c = .stopCheck t → s.state t = .stopped → Runs s c (s.setPc c (.stopRelease t))
  | stop_check {t : Nat} :
      s.pc c = .stopCheck t → s.state t ≠ .stopped → Runs s c (s.setPc c (.stopRead t))
  | stop_pending {t : Nat} :
      s.pc c = .stopRead t → s.state t = .pending → Runs s c (s.setPc c (.stopRemove t))
  | stop_other {t : Nat} :
      s.pc c = .stopRead t → s.state t ≠ .pending → Runs s c (s.setPc c (.stopSpin t))
  | stop_remove {t : Nat} {k : Fin n} : s.pc c = .stopRemove t → s.cpu t = some k →
      Runs s c ((pairing_heap_remove s k t).setPc c (.stopSpin t))
  | stop_spin {t : Nat} :
      s.pc c = .stopSpin t → s.state t ≠ .running → Runs s c (s.setPc c (.stopStore t))
  | stop_store {t : Nat} :
      s.pc c = .stopStore t → Runs s c ((s.setState t .stopped).setPc c (.stopRelease t))
  | stop_release {t : Nat} : s.pc c = .stopRelease t → Runs s c ((s.setLock t none).setPc c .idle)
  | expiry_end : s.pc c = .expiryLoop → Runs s c (s.setPc c .idle)
  | expiry_running {t : Nat} : s.pc c = .expiryCas t → s.state t = .pending →
      Runs s c ((s.setState t .running).setPc c (.expiryLock t))
  | expiry_canceled {t : Nat} :
      s.pc c = .expiryCas t → s.state t ≠ .pending → Runs s c (s.setPc c .expiryLoop)
  | expiry_lock {t : Nat} : s.pc c = .expiryLock t → s.lock t = none →
      Runs s c ((s.setLock t (some c)).setPc c (.expirySignal t))
  | expiry_signal {t : Nat} : s.pc c = .expirySignal t → Runs s c ({ s with
        signaled_count := update s.signaled_count t 1
        waiting := update s.waiting t [] }.setPc c (.expiryStore t))
  | expiry_store {t : Nat} :
      s.pc c = .expiryStore t → Runs s c ((s.setState t .stopped).setPc c (.expiryRelease t))
  | expiry_release {t : Nat} :
      s.pc c = .expiryRelease t → Runs s c ((s.setLock t none).setPc c .expiryLoop)

/-- **Inversion**: every step of a CPU is one of `Runs`. -/
theorem runs_of_run (h : run s c = some s') : Runs s c s' := by
  unfold run at h
  split at h
  · cases h
  · next t ns hpc =>
    split at h
    · next hst =>
      cases h
      exact .start_pending hpc hst
    · next hst =>
      cases h
      exact .start_busy hpc hst
  · next t ns hpc =>
    cases h
    exact .start_arm hpc
  · next t hpc =>
    cases h
    exact .start_insert hpc
  · next t hpc =>
    cases h
    exact .start_release hpc
  · next t hpc =>
    split at h
    · next hst =>
      cases h
      exact .stop_stopped hpc hst
    · next hst =>
      cases h
      exact .stop_check hpc hst
  · next t hpc =>
    split at h
    · next hst =>
      cases h
      exact .stop_pending hpc hst
    · next hst =>
      cases h
      exact .stop_other hpc hst
  · next t hpc =>
    split at h
    · next k hk =>
      cases h
      exact .stop_remove hpc hk
    · cases h
  · next t hpc =>
    split at h
    · cases h
    · next hst =>
      cases h
      exact .stop_spin hpc hst
  · next t hpc =>
    cases h
    exact .stop_store hpc
  · next t hpc =>
    cases h
    exact .stop_release hpc
  · next hpc =>
    split at h
    · cases h
      exact .expiry_end hpc
    · cases h
  · next t hpc =>
    split at h
    · next hst =>
      cases h
      exact .expiry_running hpc hst
    · next hst =>
      cases h
      exact .expiry_canceled hpc hst
  · next t hpc =>
    obtain ⟨hlock, rfl⟩ := of_guard h
    exact .expiry_lock hpc hlock
  · next t hpc =>
    cases h
    exact .expiry_signal hpc
  · next t hpc =>
    cases h
    exact .expiry_store hpc
  · next t hpc =>
    cases h
    exact .expiry_release hpc

inductive Moves (s : State n) : Action n → State n → Prop where
  | timer_init {t : Nat} : Unused s t → Moves s (.timer_init t) (timer_init s t)
  | timer_start {c : Fin n} {t : Nat} {ns : UInt64} : s.pc c = .idle → s.lock t = none →
      Moves s (.timer_start c t ns) ((s.setLock t (some c)).setPc c (.startCas t ns))
  | timer_stop {c : Fin n} {t : Nat} : s.pc c = .idle → s.lock t = none →
      Moves s (.timer_stop c t) ((s.setLock t (some c)).setPc c (.stopCheck t))
  | timer_handle_expiry {c : Fin n} :
      s.pc c = .idle → Moves s (.timer_handle_expiry c) (s.setPc c .expiryLoop)
  | pop {c : Fin n} {t : Nat} : s.pc c = .expiryLoop → t ∈ s.timers c → s.deadline t ≤ s.now c →
      Moves s (.pop c t) ((pairing_heap_remove s c t).setPc c (.expiryCas t))
  | run {c : Fin n} {s' : State n} : Runs s c s' → Moves s (.run c) s'
  | tick {c : Fin n} :
      Moves s (.tick c) { s with ticks := update s.ticks c (s.ticks c + 1) }
  | wait {th t : Nat} {waiting : Nat → List Nat} :
      Moves s (.wait th t) { s with waiting := waiting }
  | unwait {th t : Nat} {waiting : Nat → List Nat} :
      Moves s (.unwait th t) { s with waiting := waiting }

/-- **Inversion**: every step is one of `Moves`. -/
theorem moves_of_step (h : step s a = some s') : Moves s a s' := by
  cases a with
  | run c => exact .run (runs_of_run h)
  | timer_init t =>
    simp only [step] at h
    obtain ⟨hen, rfl⟩ := of_guard h
    exact .timer_init hen
  | timer_start c t ns =>
    simp only [step] at h
    obtain ⟨hen, rfl⟩ := of_guard h
    exact .timer_start hen.1 hen.2
  | timer_stop c t =>
    simp only [step] at h
    obtain ⟨hen, rfl⟩ := of_guard h
    exact .timer_stop hen.1 hen.2
  | timer_handle_expiry c =>
    simp only [step] at h
    obtain ⟨hen, rfl⟩ := of_guard h
    exact .timer_handle_expiry hen
  | pop c t =>
    simp only [step] at h
    obtain ⟨hen, rfl⟩ := of_guard h
    exact .pop hen.1 hen.2.1.1 hen.2.2
  | tick c =>
    cases h
    exact .tick
  | wait th t =>
    simp only [step] at h
    split at h
    · split at h
      all_goals
        cases h
        exact .wait
    · cases h
  | unwait th t =>
    simp only [step] at h
    split at h
    · cases h
      exact .unwait
    · cases h

end Timer
