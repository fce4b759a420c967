import Mathlib.Data.Fin.Basic
import Mathlib.Tactic.Linarith

/-! # Threads of the ULE scheduler

The scheduling attributes of `struct thread` (`core/sched.h`) and the
functions of `core/sched/ule.c` that compute them: the interactivity
score, the decay of the run and sleep times, and the priority of a
timeshared thread.

The machine integers of the source keep their width (`UInt64` for the
times and tick counts, `Int8` for the niceness). A priority is an index
into the `RUNQUEUES_N = PRIO_MAX + 1` run queues, so it is a `Fin 64`
and no thread with a priority outside the queues can be built.
-/

namespace Ule

/-! ### Constants -/

/-- There are run queues. Numerals of `Fin 64` refer to this by name. -/
instance neZero_runqueues : NeZero (64 : Nat) := ⟨by decide⟩

/-- The same for the CPU of a system with one. -/
instance neZero_one_cpu : NeZero (1 : Nat) := ⟨by decide⟩

def PRIO_IDLE : Nat := 0
def PRIO_LOW_BATCH : Nat := 1
def PRIO_HIGH_BATCH : Nat := 32
def PRIO_BATCH_RANGE : Nat := PRIO_HIGH_BATCH - PRIO_LOW_BATCH + 1
def PRIO_REALTIME : Nat := 33
def PRIO_INTERACTIVE : Nat := 20
def SCALING_FACTOR : UInt64 := 50
def INTERACTIVITY_THRESHOLD : Int := 30
def HZ : UInt64 := 100

def TICKS_TO_MS (ticks : UInt64) : UInt64 := (ticks * 1000) / HZ

def PRIO_IS_BATCH (prio : UInt8) : Bool :=
  PRIO_LOW_BATCH ≤ prio.toNat && prio.toNat ≤ PRIO_HIGH_BATCH

/-! ### Thread state -/

/-- The three priority classes that `thread::priority_class` holds
(`PRIO_REALTIME`, `PRIO_LOW_BATCH` and `PRIO_IDLE`). -/
inductive PriorityClass where
  | realtime
  | batch
  | idle
  deriving DecidableEq

/-- `enum thread_state`. -/
inductive ThreadState where
  | ready
  | running
  | waiting
  | zombie
  | terminated
  deriving DecidableEq

/-- `enum wait_status`, the part of a wait that the scheduler's callers
see: a thread is woken only after its wait was committed. -/
inductive WaitStatus where
  | inProgress
  | committed
  | satisfied
  deriving DecidableEq

/-- Which run queue `thread::runq` points to. -/
inductive RunqKind where
  | realtime
  | calendar
  deriving DecidableEq

/-- The names of threads: the idle thread embedded in each of the `n + 1`
CPUs, and any number of other threads. -/
inductive Tid (n : Nat) where
  | idle (c : Fin (n + 1))
  | thread (k : Nat)
  deriving DecidableEq

/-- `struct thread`, as far as the scheduler reads or writes it.

`committing` is the thread's own program counter between the
compare-and-swap that commits its wait and its call of `sched_wait`.
`readied` records that `sched_ready` was called on the new thread. -/
structure Thread (n : Nat) where
  nice : Int8
  priority : Fin 64
  priority_class : PriorityClass
  sleep_start : UInt64
  sleeptime : UInt64
  runtime : UInt64
  ticks : UInt64
  interactive : Bool
  pinned : Bool
  state : ThreadState
  runq : Option (Fin (n + 1) × RunqKind)
  last_cpu : Option (Fin (n + 1))
  wait_status : WaitStatus
  committing : Bool
  readied : Bool

variable {n : Nat}

/-! ### Interactivity -/

/-- `interactive_score`: a low score means that the thread sleeps a lot
compared to what it runs. -/
def interactive_score (td : Thread n) : Int :=
  if td.sleeptime = 0 then 100
  else if td.runtime = 0 then 0
  else
    let penalty : Int :=
      if td.runtime < td.sleeptime then
        (SCALING_FACTOR / (td.sleeptime / td.runtime)).toNat
      else
        (SCALING_FACTOR / (td.runtime / td.sleeptime) + SCALING_FACTOR).toNat
    penalty + td.nice.toInt

theorem interactive_score_ge (td : Thread n) : -128 ≤ interactive_score td := by
  have hnice : -128 ≤ td.nice.toInt := Int8.le_toInt td.nice
  unfold interactive_score
  split
  · omega
  · split
    · omega
    · dsimp only
      split <;> omega

/-- `sched_clamp_time`: keep the history of a thread to about five
seconds. -/
def sched_clamp_time (td : Thread n) : Thread n :=
  let max : UInt64 := 5 * 1000
  let sum := td.runtime + td.sleeptime
  if sum < max then td
  else if max * 2 < sum then
    if td.sleeptime < td.runtime then { td with runtime := max, sleeptime := 1 }
    else { td with sleeptime := max, runtime := 1 }
  else if (max / 5) * 6 < sum then
    { td with runtime := td.runtime / 2, sleeptime := td.sleeptime / 2 }
  else
    { td with runtime := (td.runtime / 5) * 4, sleeptime := (td.sleeptime / 5) * 4 }

def sched_update_interactivity (td : Thread n) : Thread n :=
  let td := sched_clamp_time td
  { td with interactive := decide (interactive_score td < INTERACTIVITY_THRESHOLD) }

/-! ### Priority of timeshared threads -/

def DIV_ROUND_UP (n d : UInt64) : UInt64 := (n + d - 1) / d

/-- The unclamped priority of a non-interactive thread, as the `uint8_t`
field receives it. -/
def batch_priority (cpu_ticks : UInt64) (td : Thread n) : UInt8 :=
  -- `td->ticks` is 0 when a thread went to sleep at once and just woke up
  let ticks := if td.ticks = 0 then 1 else td.ticks
  (DIV_ROUND_UP cpu_ticks (ticks * UInt64.ofNat (PRIO_BATCH_RANGE / 2))
    - td.nice.toInt64.toUInt64).toUInt8

/-- The clamp of a timeshared priority to `PRIO_LOW_BATCH .. PRIO_HIGH_BATCH`. -/
def clamp_batch (p : UInt8) : Fin 64 :=
  if p.toNat < PRIO_LOW_BATCH then 1
  else if h : PRIO_HIGH_BATCH < p.toNat then 32
  else ⟨p.toNat, by simp only [PRIO_HIGH_BATCH] at h; omega⟩

/-- `sched_recompute_priority`, with `cpu_ticks` the ticks of the CPU it
runs on. -/
def sched_recompute_priority (cpu_ticks : UInt64) (td : Thread n) : Thread n :=
  if interactive_score td < INTERACTIVITY_THRESHOLD then
    { td with
      priority := ⟨(PRIO_INTERACTIVE +
        (INTERACTIVITY_THRESHOLD - interactive_score td) / 4).toNat, by
          have := interactive_score_ge td
          simp only [PRIO_INTERACTIVE, INTERACTIVITY_THRESHOLD]; omega⟩
      interactive := true }
  else
    { td with priority := clamp_batch (batch_priority cpu_ticks td), interactive := false }

/-! ### Frame lemmas

The attribute computations touch only the attributes: the state of the
thread and its wait are left as they were. -/

/-- The thread, up to its priority, its interactivity and its times. -/
def Thread.Rated (t t' : Thread n) : Prop :=
  ∃ priority interactive sleeptime runtime ticks, t' = { t with
    priority := priority
    interactive := interactive
    sleeptime := sleeptime
    runtime := runtime
    ticks := ticks }

theorem Thread.Rated.refl (t : Thread n) : t.Rated t :=
  ⟨t.priority, t.interactive, t.sleeptime, t.runtime, t.ticks, rfl⟩

theorem Thread.Rated.trans {t : Thread n} (h : t.Rated t') (h' : t'.Rated t'') : t.Rated t'' := by
  obtain ⟨_, _, _, _, _, rfl⟩ := h
  obtain ⟨priority, interactive, sleeptime, runtime, ticks, rfl⟩ := h'
  exact ⟨priority, interactive, sleeptime, runtime, ticks, rfl⟩

theorem sched_update_interactivity_rated (t : Thread n) :
    t.Rated (sched_update_interactivity t) := by
  have hclamp : t.Rated (sched_clamp_time t) := by
    unfold sched_clamp_time
    dsimp only
    repeat' split
    all_goals exact ⟨_, _, _, _, _, rfl⟩
  exact hclamp.trans ⟨_, _, _, _, _, rfl⟩

theorem sched_recompute_priority_rated (cpu_ticks : UInt64) (t : Thread n) :
    t.Rated (sched_recompute_priority cpu_ticks t) := by
  unfold sched_recompute_priority
  split
  all_goals exact ⟨_, _, _, _, _, rfl⟩

/-- `f` leaves everything of a thread alone but its scheduling attributes. -/
structure KeepsPlacement (f : Thread n → Thread n) : Prop where
  state : ∀ td, (f td).state = td.state
  wait_status : ∀ td, (f td).wait_status = td.wait_status
  committing : ∀ td, (f td).committing = td.committing
  readied : ∀ td, (f td).readied = td.readied

theorem KeepsPlacement.of_rated (h : ∀ td : Thread n, td.Rated (f td)) : KeepsPlacement f := by
  constructor
  all_goals
    intro td
    obtain ⟨_, _, _, _, _, hf⟩ := h td
    rw [hf]

end Ule
