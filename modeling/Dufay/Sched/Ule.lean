import Dufay.Framework.Lts
import Dufay.Sched.Runqueue

/-! # The ULE scheduler as a transition system

The operations of `core/sched/ule.c` on the state of all CPUs and
threads, with the parts of `core/ipl.c` (`dispatch_dpc`) and
`core/clock.c` (`hardclock`) that drive them.

Granularity: an operation that runs under a thread lock and a run-queue
lock is one step. Two operations are split where the source gives other
CPUs room:

* `sched_wait` drops the thread lock between marking the thread
  `WAITING` and `sched_yield`; the two halves are separate steps, and
  the compare-and-swap of `wait_any` that commits the wait is a step of
  its own before them;
* `dispatch_dpc` loads the preemption reason, runs the DPC queue,
  reschedules, and only then switches; those are three steps, between
  which DPCs of this CPU and anything on other CPUs may run.

Left out, because nothing here reads it: the pending software interrupt
bits and the IPIs (`dispatch_dpc` may run at any time here), the context
switch proper and the timers.
-/

open Lts

namespace Ule

/-! ### State -/

/-- `enum preemption_reason`. -/
inductive PreemptionReason where
  | none
  | quantumEnd
  | higherPriority
  | migration
  deriving DecidableEq

/-- Where a CPU stands in `dispatch_dpc`. -/
inductive DpcPhase where
  /-- Not in `dispatch_dpc`. -/
  | out
  /-- Running the DPC queue; the reason was loaded on entry. -/
  | queue (reason : PreemptionReason)
  /-- About to test `next_thread`. -/
  | switch
  deriving DecidableEq

/-- `struct cpu_local`, as far as the scheduler uses it. -/
structure CpuLocal (n : Nat) where
  ticks : UInt64
  current_thread : Tid n
  /-- One bit of interactivity and seven bits of priority. -/
  current_thread_status : UInt8
  next_thread : Option (Tid n)
  preemption_reason : PreemptionReason
  sched_data : SchedPercpu (Tid n)
  dpc : DpcPhase

/-- All CPUs (`logical_processor_locales`, one at least) and all threads. -/
structure State (n : Nat) where
  cpus : Fin (n + 1) → CpuLocal n
  threads : Tid n → Thread n

variable {n : Nat}

def CpuLocal.setQueues (cpu : CpuLocal n) (sd : SchedPercpu (Tid n)) : CpuLocal n :=
  { cpu with sched_data := sd }

def CpuLocal.setNext (cpu : CpuLocal n) (next : Option (Tid n)) : CpuLocal n :=
  { cpu with next_thread := next }

section
variable (s : State n)

def setCpu (c : Fin (n + 1)) (cpu : CpuLocal n) : State n :=
  { s with cpus := Function.update s.cpus c cpu }

def setThread (td : Tid n) (t : Thread n) : State n :=
  { s with threads := Function.update s.threads td t }

@[simp] theorem setCpu_threads (c : Fin (n + 1)) (cpu : CpuLocal n) :
    (setCpu s c cpu).threads = s.threads := rfl

@[simp] theorem setCpu_self (c : Fin (n + 1)) (cpu : CpuLocal n) :
    (setCpu s c cpu).cpus c = cpu := by
  simp [setCpu]

@[simp] theorem setCpu_ne (cpu : CpuLocal n) (h : d ≠ c) : (setCpu s c cpu).cpus d = s.cpus d := by
  simp [setCpu, h]

/-- What the new CPU has of the old one is as before on every CPU. -/
theorem setCpu_congr {α : Type*} (f : CpuLocal n → α) (h : f cpu = f (s.cpus c))
    (d : Fin (n + 1)) : f ((setCpu s c cpu).cpus d) = f (s.cpus d) := by
  by_cases hd : d = c
  · rw [hd, setCpu_self, h]
  · rw [setCpu_ne s cpu hd]

@[simp] theorem setThread_cpus (td : Tid n) (t : Thread n) :
    (setThread s td t).cpus = s.cpus := rfl

@[simp] theorem setThread_self (td : Tid n) (t : Thread n) : (setThread s td t).threads td = t := by
  simp [setThread]

@[simp] theorem setThread_ne (t : Thread n) (h : x ≠ td) :
    (setThread s td t).threads x = s.threads x := by
  simp [setThread, h]

theorem setThread_congr {α : Type*} (f : Thread n → α) (h : f t = f (s.threads td)) (x : Tid n) :
    f ((setThread s td t).threads x) = f (s.threads x) := by
  by_cases hx : x = td
  · rw [hx, setThread_self, h]
  · rw [setThread_ne s t hx]

/-- The `pinned` flags, as the pick functions read them. -/
def State.pinned (td : Tid n) : Bool := (s.threads td).pinned

end

/-- What `sched_select_thread` reads of the thread it is given. -/
def Thread.filter (t : Thread n) : SchedPercpu.Filter :=
  ⟨t.priority, t.priority_class, t.interactive⟩

/-! ### Queueing and preemption -/

/-- The write of `thread::runq` in `sched_insert_in_queue`; the idle queue
has none, and the field keeps its value there. -/
def runq_of (t : Thread n) (c : Fin (n + 1)) : Option (Fin (n + 1) × RunqKind) :=
  if t.priority_class = .realtime || t.interactive then some (c, .realtime)
  else if t.priority_class = .batch then some (c, .calendar)
  else t.runq

def sched_insert_in_queue (s : State n) (c : Fin (n + 1)) (td : Tid n) : State n :=
  let t := s.threads td
  let cpu := s.cpus c
  let s := setCpu s c (cpu.setQueues
    (cpu.sched_data.insert td t.priority_class t.interactive t.priority))
  setThread s td { t with state := .ready, runq := runq_of t c }

/-- `should_preempt`: decided from the published status byte alone. -/
def should_preempt (td : Thread n) (cpu : CpuLocal n) : Bool :=
  let prio := (cpu.current_thread_status >>> 1) &&& 0x7F
  let interact := cpu.current_thread_status &&& 1 != 0
  -- always preempt idle threads
  if prio.toNat = PRIO_IDLE then true
  -- interactive threads always preempt timeshared ones
  else if PRIO_IS_BATCH prio && !interact && td.interactive then true
  else decide (PRIO_REALTIME ≤ td.priority.val) && decide (prio.toNat < td.priority.val)

/-- `sched_try_preempt`: make `td` the next thread of the CPU, putting a
next thread that was already there into a queue, or queue `td`. -/
def sched_try_preempt (s : State n) (c : Fin (n + 1)) (td : Tid n) : State n :=
  let cpu := s.cpus c
  if should_preempt (s.threads td) cpu then
    let s := setCpu s c { cpu.setNext (some td) with preemption_reason := .higherPriority }
    match cpu.next_thread with
    | some next => sched_insert_in_queue s c next
    | none => s
  else sched_insert_in_queue s c td

theorem sched_try_preempt_of_not (h : should_preempt (s.threads td) (s.cpus c) = false) :
    sched_try_preempt s c td = sched_insert_in_queue s c td := by
  unfold sched_try_preempt
  dsimp only
  rw [h]
  rfl

def pick_cpu (s : State n) (td : Thread n) : Fin (n + 1) :=
  let least (best : Option (Fin (n + 1))) (c : Fin (n + 1)) : Option (Fin (n + 1)) :=
    match best with
    | none => some c
    | some b =>
      if (s.cpus c).sched_data.load < (s.cpus b).sched_data.load then some c else some b
  let search : Fin (n + 1) :=
    let all := List.finRange (n + 1)
    let preemptible := all.filter (fun c => should_preempt td (s.cpus c))
    match preemptible.foldl least none with
    | some c => c
    | none => (all.foldl least none).getD 0
  match td.last_cpu with
  | some c => if should_preempt td (s.cpus c) || td.pinned then c else search
  | none => search

def sched_ready (s : State n) (td : Tid n) : State n :=
  sched_try_preempt s (pick_cpu s (s.threads td)) td

/-! ### Switching -/

/-- The byte that `sched_switch` publishes. -/
def status_byte (t : Thread n) : UInt8 :=
  ((UInt8.ofNat t.priority.val &&& 0x7F) <<< 1) ||| (if t.interactive then 1 else 0)

section
variable (s : State n) (c : Fin (n + 1))

/-- The first half of `sched_switch`: a thread that is still running goes
back into a queue. -/
def put_back (cur : Tid n) : State n :=
  if cur ≠ .idle c ∧ (s.threads cur).state = .running then sched_insert_in_queue s c cur
  else s

/-- The second half of `sched_switch`: whatever `next_thread` held is
cleared. -/
def switch_to (next : Tid n) : State n :=
  let t := { s.threads next with state := .running, last_cpu := some c }
  setCpu (setThread s next t) c { s.cpus c with
    current_thread := next, next_thread := none, current_thread_status := status_byte t }

def sched_switch (cur next : Tid n) : State n := switch_to (put_back s c cur) c next

/-- `sched_yield` (with `sched_yield_locked`). -/
def sched_yield : State n :=
  let cpu := s.cpus c
  let td := cpu.current_thread
  match cpu.sched_data.sched_select_thread s.pinned (some (s.threads td).filter) false with
  | some (next, sd) => sched_switch (setCpu s c (cpu.setQueues sd)) c td next
  -- nothing to run, go idle
  | none => sched_switch s c td (.idle c)

end

/-- What `sched_yield` selects. -/
abbrev yield_selection (s : State n) (c : Fin (n + 1)) : Option (Tid n × SchedPercpu (Tid n)) :=
  (s.cpus c).sched_data.sched_select_thread s.pinned
    (some (s.threads (s.cpus c).current_thread).filter) false

theorem sched_yield_some (h : yield_selection s c = some (next, sd)) :
    sched_yield s c = sched_switch (setCpu s c ((s.cpus c).setQueues sd)) c
      (s.cpus c).current_thread next := by
  unfold yield_selection at h
  simp only [sched_yield, h]

theorem sched_yield_none (h : yield_selection s c = none) :
    sched_yield s c = sched_switch s c (s.cpus c).current_thread (.idle c) := by
  unfold yield_selection at h
  simp only [sched_yield, h]

/-- The first half of `sched_wait`, before its call of `sched_yield`. -/
def sched_wait (s : State n) (c : Fin (n + 1)) : State n :=
  let td := (s.cpus c).current_thread
  setThread s td { s.threads td with
    state := .waiting
    sleep_start := TICKS_TO_MS (s.cpus c).ticks
    committing := false }

/-- The attribute updates of `sched_wake` on the CPU with `cpu_ticks` ticks. -/
def wake_attributes (cpu_ticks : UInt64) (t : Thread n) : Thread n :=
  let t := { t with sleeptime := TICKS_TO_MS cpu_ticks - t.sleep_start }
  sched_recompute_priority cpu_ticks (sched_update_interactivity t)

/-- `sched_wake`, run by CPU `c`; its caller has just satisfied the wait. -/
def sched_wake (s : State n) (c : Fin (n + 1)) (td : Tid n) : State n :=
  let t := { s.threads td with wait_status := .satisfied }
  sched_ready (setThread s td (wake_attributes (s.cpus c).ticks t)) td

/-! ### Ticks -/

/-- The insert index of the calendar queue is kept apart from the run
index on every tick. -/
def advance_insidx (sd : SchedPercpu (Tid n)) : SchedPercpu (Tid n) :=
  if sd.calendar_queue_runidx = sd.calendar_queue_insidx then
    { sd with calendar_queue_insidx := sd.calendar_queue_insidx + 1 }
  else sd

/-- A timeshared thread is charged one tick and reclassified. -/
def charge_tick (cpu_ticks : UInt64) (t : Thread n) : Thread n :=
  if t.priority_class = .batch then
    let t := { t with runtime := t.runtime + TICKS_TO_MS 1, ticks := t.ticks + 1 }
    sched_recompute_priority cpu_ticks (sched_update_interactivity t)
  else t

/-- `sched_reschedule`: a thread that is selected becomes `next_thread`. -/
def sched_reschedule (s : State n) (c : Fin (n + 1)) : State n :=
  let cpu := s.cpus c
  let td := cpu.current_thread
  let sd := advance_insidx cpu.sched_data
  let t := charge_tick cpu.ticks (s.threads td)
  let s := setThread s td t
  match sd.sched_select_thread s.pinned (some t.filter) false with
  | some (newtd, sd') => setCpu s c ((cpu.setQueues sd').setNext (some newtd))
  | none => setCpu s c (cpu.setQueues sd)

/-- `hardclock`: the idle thread does not take a quantum end. -/
def hardclock (s : State n) (c : Fin (n + 1)) : State n :=
  let cpu := s.cpus c
  setCpu s c { cpu with
    ticks := cpu.ticks + 1
    preemption_reason :=
      if cpu.current_thread ≠ .idle c then .quantumEnd else cpu.preemption_reason }

/-! ### Balancing -/

def LOAD_BALANCE_LIMIT : Nat := 16
def STEAL_THRESHOLD : UInt64 := 1

/-- `find_most_and_least_loaded_cpu`: the pair `(most, least)`. -/
def find_most_and_least_loaded_cpu (s : State n) : Fin (n + 1) × Fin (n + 1) :=
  (List.finRange (n + 1)).foldl (fun acc c =>
    let load := fun c => (s.cpus c).sched_data.load
    (if load acc.1 < load c then c else acc.1, if load c < load acc.2 then c else acc.2))
    (0, 0)

/-- Take an unpinned thread off CPU `most` and move it to CPU `dest`. -/
def migrate_thread (s : State n) (most dest : Fin (n + 1)) : Option (State n) :=
  let cpu := s.cpus most
  match cpu.sched_data.sched_select_thread s.pinned none true with
  | some (td, sd) => some (sched_try_preempt (setCpu s most (cpu.setQueues sd)) dest td)
  | none => none

/-- The loop of `balance_load`, at most `cnt` more rounds. -/
def balance_load_loop : Nat → State n → State n
  | 0, s => s
  | cnt + 1, s =>
    let p := find_most_and_least_loaded_cpu s
    let load_diff := ((s.cpus p.1).sched_data.load - (s.cpus p.2).sched_data.load).toInt64
    if load_diff < 1 then s
    else
      match migrate_thread s p.1 p.2 with
      | some s' => if load_diff = 1 then s' else balance_load_loop cnt s'
      | none => s

def balance_load (s : State n) : State n := balance_load_loop LOAD_BALANCE_LIMIT s

/-- One round of `idle_thread` on CPU `c`: steal from the most loaded CPU. -/
def idle_steal (s : State n) (c : Fin (n + 1)) : State n :=
  let most := (find_most_and_least_loaded_cpu s).1
  if most = c then s
  else if (s.cpus most).sched_data.load < STEAL_THRESHOLD then s
  else (migrate_thread s most c).getD s

section

variable {P : State n → Prop} {s : State n}
  (hmigrate : ∀ {s s' most dest}, P s → migrate_thread s most dest = some s' → P s')

include hmigrate

theorem balance_load_loop_keeps (h : P s) (cnt : Nat) : P (balance_load_loop cnt s) := by
  induction cnt generalizing s with
  | zero => exact h
  -- the loop stops when loads are even, nothing can move, or the limit is reached
  | succ cnt ih =>
    rw [balance_load_loop]
    split
    · exact h
    · split
      · next hsome =>
        split
        · exact hmigrate h hsome
        · exact ih (hmigrate h hsome)
      · exact h

theorem idle_steal_keeps (h : P s) (c : Fin (n + 1)) : P (idle_steal s c) := by
  unfold idle_steal
  dsimp only
  split
  · exact h
  · split
    · exact h
    · cases hsome : migrate_thread s (find_most_and_least_loaded_cpu s).1 c with
      | none => exact h
      | some s' => exact hmigrate h hsome

end

inductive Action (n : Nat) where
  /-- `sched_ready` of the new thread `k`. -/
  | sched_ready (k : Nat)
  /-- The current thread of `c` commits its wait. -/
  | commit_wait (c : Fin (n + 1))
  /-- The current thread of `c`, having committed, enters `sched_wait`. -/
  | sched_wait (c : Fin (n + 1))
  /-- `sched_yield` on `c`, called directly or at the end of `sched_wait`. -/
  | sched_yield (c : Fin (n + 1))
  /-- CPU `c` satisfies the committed wait of `k` and wakes it. -/
  | sched_wake (c : Fin (n + 1)) (k : Nat)
  | hardclock (c : Fin (n + 1))
  /-- `dispatch_dpc` is entered and loads the preemption reason. -/
  | dispatch_enter (c : Fin (n + 1))
  /-- The DPC queue has been run: reschedule if the reason asks for it. -/
  | dispatch_reschedule (c : Fin (n + 1))
  /-- Switch to `next_thread`, if there is one. -/
  | dispatch_switch (c : Fin (n + 1))
  /-- The balance DPC, which CPU 0 runs. -/
  | balance_load
  /-- A round of the idle thread of `c`. -/
  | idle_steal (c : Fin (n + 1))
  deriving DecidableEq

/-- Thread-level operations need a CPU that is not inside `dispatch_dpc`. -/
def step (s : State n) : Action n → Option (State n)
  | .sched_ready k =>
    let t := s.threads (.thread k)
    if t.readied then none
    else some (sched_ready (setThread s (.thread k) { t with readied := true }) (.thread k))
  | .commit_wait c =>
    let td := (s.cpus c).current_thread
    let t := s.threads td
    if (s.cpus c).dpc = .out ∧ td ≠ .idle c ∧ t.state = .running ∧ t.committing = false then
      some (setThread s td { t with wait_status := .committed, committing := true })
    else none
  | .sched_wait c =>
    if (s.cpus c).dpc = .out ∧ (s.threads (s.cpus c).current_thread).committing = true then
      some (sched_wait s c)
    else none
  | .sched_yield c =>
    if (s.cpus c).dpc = .out then some (sched_yield s c) else none
  | .sched_wake c k =>
    if (s.threads (.thread k)).wait_status = .committed then
      some (sched_wake s c (.thread k))
    else none
  | .hardclock c => some (hardclock s c)
  | .dispatch_enter c =>
    let cpu := s.cpus c
    if cpu.dpc = .out then
      some (setCpu s c { cpu with dpc := .queue cpu.preemption_reason })
    else none
  | .dispatch_reschedule c =>
    match (s.cpus c).dpc with
    | .queue reason =>
      let s :=
        if reason = .quantumEnd ∨ reason = .migration then sched_reschedule s c else s
      some (setCpu s c { s.cpus c with preemption_reason := .none, dpc := .switch })
    | _ => none
  | .dispatch_switch c =>
    let cpu := s.cpus c
    if cpu.dpc = .switch then
      let s :=
        match cpu.next_thread with
        | some next => sched_switch s c cpu.current_thread next
        | none => s
      some (setCpu s c { s.cpus c with dpc := .out })
    else none
  | .balance_load =>
    match (s.cpus 0).dpc with
    | .queue _ => some (balance_load s)
    | _ => none
  | .idle_steal c =>
    if (s.cpus c).dpc = .out ∧ (s.cpus c).current_thread = .idle c then some (idle_steal s c)
    else none

/-- The steps one by one, with what is known when one is taken and the state
after it. -/
inductive Steps (s : State n) : Action n → State n → Prop where
  | sched_ready {k : Nat} (hnew : (s.threads (.thread k)).readied = false) :
      Steps s (.sched_ready k) (Ule.sched_ready
        (setThread s (.thread k) { s.threads (.thread k) with readied := true }) (.thread k))
  | commit_wait {c : Fin (n + 1)} (hcur : (s.cpus c).current_thread ≠ .idle c)
      (hrun : (s.threads (s.cpus c).current_thread).state = .running) :
      Steps s (.commit_wait c) (setThread s (s.cpus c).current_thread
        { s.threads (s.cpus c).current_thread with
          wait_status := .committed
          committing := true })
  | sched_wait {c : Fin (n + 1)}
      (hcommit : (s.threads (s.cpus c).current_thread).committing = true) :
      Steps s (.sched_wait c) (Ule.sched_wait s c)
  | sched_yield {c : Fin (n + 1)} : Steps s (.sched_yield c) (Ule.sched_yield s c)
  | sched_wake {c : Fin (n + 1)} {k : Nat}
      (hwait : (s.threads (.thread k)).wait_status = .committed) :
      Steps s (.sched_wake c k) (Ule.sched_wake s c (.thread k))
  | hardclock {c : Fin (n + 1)} : Steps s (.hardclock c) (Ule.hardclock s c)
  | dispatch_enter {c : Fin (n + 1)} : Steps s (.dispatch_enter c)
      (setCpu s c { s.cpus c with dpc := .queue (s.cpus c).preemption_reason })
  | reschedule {c : Fin (n + 1)} {reason : PreemptionReason} (hdpc : (s.cpus c).dpc = .queue reason)
      (hreason : reason = .quantumEnd ∨ reason = .migration) :
      Steps s (.dispatch_reschedule c) (setCpu (sched_reschedule s c) c
        { (sched_reschedule s c).cpus c with preemption_reason := .none, dpc := .switch })
  | no_reschedule {c : Fin (n + 1)} : Steps s (.dispatch_reschedule c)
      (setCpu s c { s.cpus c with preemption_reason := .none, dpc := .switch })
  | switch {c : Fin (n + 1)} {next : Tid n} (hnext : (s.cpus c).next_thread = some next) :
      Steps s (.dispatch_switch c) (setCpu (sched_switch s c (s.cpus c).current_thread next) c
          { (sched_switch s c (s.cpus c).current_thread next).cpus c with dpc := .out })
  | no_switch {c : Fin (n + 1)} :
      Steps s (.dispatch_switch c) (setCpu s c { s.cpus c with dpc := .out })
  | balance_load : Steps s .balance_load (Ule.balance_load s)
  | idle_steal {c : Fin (n + 1)} : Steps s (.idle_steal c) (Ule.idle_steal s c)

theorem steps_of_step (h : step s a = some s') : Steps s a s' := by
  cases a with
  | sched_ready k =>
    simp only [step] at h
    split at h
    · cases h
    · next hnew =>
      cases h
      exact .sched_ready (Bool.not_eq_true _ ▸ hnew)
  | commit_wait c =>
    simp only [step] at h
    obtain ⟨hen, rfl⟩ := of_guard h
    exact .commit_wait hen.2.1 hen.2.2.1
  | sched_wait c =>
    simp only [step] at h
    obtain ⟨hen, rfl⟩ := of_guard h
    exact .sched_wait hen.2
  | sched_yield c =>
    simp only [step] at h
    split at h
    · cases h
      exact .sched_yield
    · cases h
  | sched_wake c k =>
    simp only [step] at h
    obtain ⟨hwait, rfl⟩ := of_guard h
    exact .sched_wake hwait
  | hardclock c =>
    cases h
    exact .hardclock
  | dispatch_enter c =>
    simp only [step] at h
    split at h
    · cases h
      exact .dispatch_enter
    · cases h
  | dispatch_reschedule c =>
    simp only [step] at h
    split at h
    · next reason hdpc =>
      cases h
      by_cases hreason : reason = .quantumEnd ∨ reason = .migration
      · rw [if_pos hreason]
        exact .reschedule hdpc hreason
      · rw [if_neg hreason]
        exact .no_reschedule
    · cases h
  | dispatch_switch c =>
    simp only [step] at h
    split at h
    · cases h
      split
      · next next hnext => exact .switch hnext
      · exact .no_switch
    · cases h
  | balance_load =>
    simp only [step] at h
    split at h
    · cases h
      exact .balance_load
    · cases h
  | idle_steal c =>
    simp only [step] at h
    split at h
    · cases h
      exact .idle_steal
    · cases h

/-! ### Boot -/

/-- `make_kernel_thread`: a zeroed thread in the middle of the timeshared
range. -/
def make_kernel_thread : Thread n where
  nice := 0
  priority := 16
  priority_class := .batch
  sleep_start := 0
  sleeptime := 0
  runtime := 0
  ticks := 0
  interactive := false
  pinned := false
  state := .ready
  runq := none
  last_cpu := none
  wait_status := .inProgress
  committing := false
  readied := false

/-- The idle thread as `sched_cpu_init` makes it. -/
def idle_thread : Thread n :=
  { make_kernel_thread with priority := 0, priority_class := .idle }

/-- The queues as `sched_cpu_init` leaves them. -/
def emptyQueues : SchedPercpu (Tid n) where
  load := 0
  realtime_runq := ⟨0, fun _ => []⟩
  calendar_queue := ⟨0, fun _ => []⟩
  calendar_queue_runidx := 0
  calendar_queue_insidx := 0
  idle_queue := []

theorem emptyQueues_wf : (emptyQueues (n := n)).Wf :=
  ⟨fun i => by simp [emptyQueues, Runqueue.bit], fun i => by simp [emptyQueues, Runqueue.bit]⟩

theorem emptyQueues_count (td : Tid n) : (emptyQueues (n := n)).count td = 0 := by
  simp [emptyQueues, SchedPercpu.count, Runqueue.count]

/-- `sched_cpu_init` on CPU `c`, which has counted some ticks by then. -/
def sched_cpu_init (ticks : UInt64) (c : Fin (n + 1)) : CpuLocal n where
  ticks := ticks
  current_thread := .idle c
  current_thread_status := 0
  next_thread := none
  preemption_reason := .none
  sched_data := emptyQueues
  dpc := .out

/-- A thread that was made but not readied yet, with any attributes. -/
structure Fresh (t : Thread n) : Prop where
  state : t.state = .ready
  wait_status : t.wait_status = .inProgress
  committing : t.committing = false
  readied : t.readied = false

/-- After boot: every CPU runs its idle thread, and the other threads are
fresh. -/
structure Init (s : State n) : Prop where
  cpu : ∀ c, ∃ ticks, s.cpus c = sched_cpu_init ticks c
  idle : ∀ c, s.threads (.idle c) = idle_thread
  fresh : ∀ k, Fresh (s.threads (.thread k))

def system (n : Nat) : System (State n) (Action n) where
  init := Init
  step := step

def bootAll : State n where
  cpus := sched_cpu_init 0
  threads := fun td =>
    match td with
    | .idle _ => idle_thread
    | .thread _ => make_kernel_thread

theorem bootAll_init : Init (bootAll (n := n)) where
  cpu _ := ⟨0, rfl⟩
  idle _ := rfl
  fresh _ := ⟨rfl, rfl, rfl, rfl⟩

/-- CPU `c` runs thread 0, and the others their idle threads. -/
def oneRuns (c : Fin (n + 1)) : State n := switch_to bootAll c (.thread 0)

/-- CPU `d` runs thread 1. -/
def bothRun (c d : Fin (n + 1)) : State n := switch_to (oneRuns c) d (.thread 1)

/-- `dispatch_dpc` on a CPU. -/
def dispatchRun (c : Fin (n + 1)) : List (Action n) :=
  [.dispatch_enter c, .dispatch_reschedule c, .dispatch_switch c]

/-- Thread 0 is readied, runs, waits for a tick and is woken. It has slept
and not run, so it is interactive. -/
def wokenRun (c : Fin (n + 1)) : List (Action n) := .sched_ready 0 :: dispatchRun c ++
    [.commit_wait c, .sched_wait c, .sched_yield c, .hardclock c, .sched_wake c 0] ++ dispatchRun c

end Ule
