import Dufay.Sched.Ule
import Dufay.Timer.Ktimer

/-! # Deferred procedure calls

`dpc_enqueue` and `dispatch_dpc_queue` of `core/dpc.c` and `hardclock`
of `core/clock.c`, on one CPU and at the level of the queue's pointers.

A tick runs with interrupts off, and so does every critical section of
`dpc_queue_lock`, which no other CPU takes. Between two sections of
`dispatch_dpc_queue` the clock may tick any number of times: DPCs run
with interrupts on. The dispatcher may also not run for any number of
ticks, while the CPU stays at or above `IPL_DISPATCH`. The two DPCs are
embedded in `cpu_local`, and `hardclock` enqueues them whether or not
they are still in the queue.
-/

open Lts Tailq Function

namespace Dpc

inductive DpcId where
  | timer_dpc
  | balance_dpc
  deriving DecidableEq

structure Call where
  dpc : DpcId
  arg1 : Nat
  arg2 : Nat
  deriving DecidableEq

/-- Where a CPU is in `dispatch_dpc_queue`. -/
inductive Pc where
  | out
  /-- At the head of the loop. -/
  | loop
  /-- The DPC is taken off the queue, about to call its routine. -/
  | routine (call : Call)
  deriving DecidableEq

/-- The call that is about to be made. -/
def Pc.taken : Pc → List Call
  | .out | .loop => []
  | .routine call => [call]

/-- `struct cpu_local`, as far as the clock and the DPC queue use it. -/
structure CpuLocal where
  core_id : Int
  /-- `CONFIG_SCHED_ULE` -/
  config_sched_ule : Bool
  pending_softints : UInt8
  ticks : UInt64
  /-- The deadlines of the timers in the heap `timers`. -/
  timers : List UInt64
  /-- Whether `current_thread` is `&idle_thread`. -/
  idle : Bool
  preemption_reason : Ule.PreemptionReason
  /-- `dpc_queue` and the `queue_hook`s. -/
  links : Links Unit DpcId
  arg1 : DpcId → Nat
  arg2 : DpcId → Nat
  pc : Pc
  /-- History that no step reads: the DPCs that have been enqueued and not
      taken off since, all calls enqueued, and all calls made. -/
  queued : List DpcId
  enqueued : List Call
  ran : List Call

/-! ### The queue -/

def IPL_DISPATCH : UInt8 := 1

def set_softint_pending (cpu : CpuLocal) (ipl : UInt8) : CpuLocal :=
  { cpu with pending_softints := cpu.pending_softints ||| (1 <<< ipl) }

def dpc_enqueue (cpu : CpuLocal) (dpc : DpcId) (arg1 arg2 : Nat) : CpuLocal := set_softint_pending
    { cpu with
      arg1 := update cpu.arg1 dpc arg1
      arg2 := update cpu.arg2 dpc arg2
      links := cpu.links.insertTail () dpc
      queued := cpu.queued ++ [dpc]
      enqueued := cpu.enqueued ++ [⟨dpc, arg1, arg2⟩] }
    IPL_DISPATCH

/-- The critical section of `dispatch_dpc_queue`: take the first DPC off and
load its arguments. -/
def take (cpu : CpuLocal) : Option (Call × CpuLocal) :=
  match cpu.links.first () with
  | some dpc =>
    some (⟨dpc, cpu.arg1 dpc, cpu.arg2 dpc⟩,
      { cpu with
        links := cpu.links.remove () dpc
        queued := cpu.queued.erase dpc })
  | none => none

/-- `dpc->routine(arg1, arg2)`, as far as it is observed here. -/
def callRoutine (cpu : CpuLocal) (call : Call) : CpuLocal :=
  { cpu with ran := cpu.ran ++ [call] }

/-- `dispatch_dpc_queue` without an interrupt in between, for `fuel` rounds
of its loop. -/
def dispatch_dpc_queue : Nat → CpuLocal → Option CpuLocal
  | 0, _ => none
  | fuel + 1, cpu =>
    match take cpu with
    | some (call, cpu') => dispatch_dpc_queue fuel (callRoutine cpu' call)
    | none => some cpu

/-! ### The clock -/

section
variable (cpu : CpuLocal)

/-- The deadline of `pairing_heap_top`. -/
def pairing_heap_top : Option UInt64 := cpu.timers.min?

/-- `timer_expired` of `hardclock`, with `ticks` already counted up. -/
def timer_expired : Bool :=
  match pairing_heap_top cpu with
  | some deadline => decide (deadline ≤ cpu.ticks * (Timer.NANOSECONDS_PER_SECOND / Timer.HZ))
  | none => false

/-- Whether `hardclock` enqueues `balance_dpc`. -/
def balance_due : Bool :=
  cpu.config_sched_ule && decide (cpu.core_id = 0) && decide (cpu.ticks % Timer.HZ = 0)

def countTick : CpuLocal := { cpu with ticks := cpu.ticks + 1 }

def hardclock : CpuLocal :=
  let cpu := countTick cpu
  let cpu := if timer_expired cpu then dpc_enqueue cpu .timer_dpc 0 0 else cpu
  let cpu := if balance_due cpu then dpc_enqueue cpu .balance_dpc 0 0 else cpu
  let cpu := if cpu.idle then cpu else { cpu with preemption_reason := .quantumEnd }
  set_softint_pending cpu IPL_DISPATCH

end

/-! ### The system -/

inductive Action where
  /-- The clock interrupts. -/
  | hardclock
  /-- Timers are started, stopped or expire, and another thread may run. -/
  | others (timers : List UInt64) (idle : Bool)
  /-- `dispatch_dpc_queue` is called. -/
  | dispatch
  /-- The next step of `dispatch_dpc_queue`. -/
  | run
  deriving DecidableEq

def step (cpu : CpuLocal) : Action → Option CpuLocal
  | .hardclock => some (hardclock cpu)
  | .others timers idle => some { cpu with timers := timers, idle := idle }
  | .dispatch =>
    match cpu.pc with
    | .out => some { cpu with pc := .loop }
    | .loop | .routine _ => none
  | .run =>
    match cpu.pc with
    | .out => none
    | .loop =>
      match take cpu with
      | some (call, cpu') => some { cpu' with pc := .routine call }
      | none => some { cpu with pc := .out }
    | .routine call => some { callRoutine cpu call with pc := .loop }

/-- After `TAILQ_INIT`, with nothing enqueued yet. -/
structure Init (cpu : CpuLocal) : Prop where
  links : ∃ L : Links Unit DpcId, cpu.links = L.init ()
  pc : cpu.pc = .out
  queued : cpu.queued = []
  enqueued : cpu.enqueued = []
  ran : cpu.ran = []

def system : System CpuLocal Action where
  init := Init
  step := step

/-- The tick enqueues no DPC that is still in the queue. -/
def Unlinked (cpu : CpuLocal) : Action → Prop
  | .hardclock =>
    (timer_expired (countTick cpu) = true → .timer_dpc ∉ cpu.queued) ∧
      (balance_due (countTick cpu) = true → .balance_dpc ∉ cpu.queued)
  | .others _ _ | .dispatch | .run => True

instance (cpu : CpuLocal) (a : Action) : Decidable (Unlinked cpu a) := by
  cases a <;> unfold Unlinked <;> infer_instance

/-! ### The queue is a list -/

variable {cpu cpu' : CpuLocal} {a : Action}

/-- The pointers spell out what is queued, and every call enqueued has been
made, is about to be made, or waits in the queue, in this order. -/
structure QueueOk (cpu : CpuLocal) : Prop where
  links : Represents cpu.links (fun _ => cpu.queued)
  fifo : cpu.enqueued = cpu.ran ++ cpu.pc.taken ++
    cpu.queued.map fun dpc => ⟨dpc, cpu.arg1 dpc, cpu.arg2 dpc⟩

theorem QueueOk.nodup (h : QueueOk cpu) : cpu.queued.Nodup := h.links.nodup ()

theorem QueueOk.congr (h : QueueOk cpu) (hlinks : cpu'.links = cpu.links)
    (hqueued : cpu'.queued = cpu.queued) (harg1 : cpu'.arg1 = cpu.arg1)
    (harg2 : cpu'.arg2 = cpu.arg2) (henq : cpu'.enqueued = cpu.enqueued)
    (hran : cpu'.ran ++ cpu'.pc.taken = cpu.ran ++ cpu.pc.taken) : QueueOk cpu' := by
  constructor
  · rw [hlinks, hqueued]
    exact h.links
  · rw [henq, hran, hqueued, harg1, harg2]
    exact h.fifo

theorem QueueOk.dpc_enqueue (h : QueueOk cpu) (hdpc : dpc ∉ cpu.queued)
    (arg1 arg2 : Nat) : QueueOk (dpc_enqueue cpu dpc arg1 arg2) := by
  constructor
  · have hins := h.links.insertTail (h := ()) (e := dpc) (fun _ => hdpc)
    have hq : update (fun _ : Unit => cpu.queued) () (cpu.queued ++ [dpc]) =
        fun _ => cpu.queued ++ [dpc] := by
      funext u
      simp
    rw [hq] at hins
    exact hins
  · -- the arguments of the DPCs in the queue stay
    have hsame : (cpu.queued.map fun d => (⟨d, update cpu.arg1 dpc arg1 d,
        update cpu.arg2 dpc arg2 d⟩ : Call)) =
        cpu.queued.map fun d => ⟨d, cpu.arg1 d, cpu.arg2 d⟩ := by
      apply List.map_congr_left
      intro d hd
      have hne : d ≠ dpc := fun heq => hdpc (heq ▸ hd)
      simp [hne]
    have henq : (Dpc.dpc_enqueue cpu dpc arg1 arg2).enqueued =
        cpu.enqueued ++ [⟨dpc, arg1, arg2⟩] := rfl
    rw [henq, h.fifo]
    simp [Dpc.dpc_enqueue, set_softint_pending, hsame]

theorem take_eq (h : Represents cpu.links (fun _ => cpu.queued)) : take cpu = match cpu.queued with
      | [] => none
      | dpc :: rest =>
        some (⟨dpc, cpu.arg1 dpc, cpu.arg2 dpc⟩,
          { cpu with links := cpu.links.remove () dpc, queued := rest }) := by
  have hfirst : cpu.links.first () = cpu.queued.head? := h.first_eq ()
  unfold take
  rw [hfirst]
  cases hq : cpu.queued with
  | nil => rfl
  | cons dpc rest => simp

theorem represents_tail
    (h : Represents cpu.links (fun _ => cpu.queued)) (hq : cpu.queued = dpc :: rest) :
    Represents (cpu.links.remove () dpc) (fun _ => rest) := by
  have hrem := h.remove (h := ()) (e := dpc) (by rw [hq]; simp)
  have hrest : update (fun _ : Unit => cpu.queued) () (cpu.queued.erase dpc) =
      fun _ => rest := by
    funext u
    simp [hq]
  rw [hrest] at hrem
  exact hrem

theorem QueueOk.hardclock (h : QueueOk cpu) (hok : Unlinked cpu .hardclock) :
    QueueOk (hardclock cpu) := by
  obtain ⟨htimer, hbalance⟩ := hok
  have hcount : QueueOk (countTick cpu) := h.congr rfl rfl rfl rfl rfl rfl
  -- after the first test, with what it leaves of the second
  have hexp : ∃ cpu₁ : CpuLocal,
      (if timer_expired (countTick cpu) then Dpc.dpc_enqueue (countTick cpu) .timer_dpc 0 0
        else countTick cpu) = cpu₁ ∧
      QueueOk cpu₁ ∧ (balance_due cpu₁ = true → .balance_dpc ∉ cpu₁.queued) := by
    cases hte : timer_expired (countTick cpu) with
    | true =>
      refine ⟨_, rfl, hcount.dpc_enqueue (htimer hte) 0 0, ?_⟩
      intro hdue hmem
      rcases List.mem_append.mp hmem with hmem | hmem
      · exact hbalance hdue hmem
      · simp at hmem
    | false => exact ⟨_, rfl, hcount, hbalance⟩
  obtain ⟨cpu₁, heq, hok₁, hbal₁⟩ := hexp
  have hbal : ∃ cpu₂ : CpuLocal,
      (if balance_due cpu₁ then Dpc.dpc_enqueue cpu₁ .balance_dpc 0 0 else cpu₁) = cpu₂ ∧
      QueueOk cpu₂ := by
    refine ⟨_, rfl, ?_⟩
    split
    · next hdue => exact hok₁.dpc_enqueue (hbal₁ hdue) 0 0
    · exact hok₁
  obtain ⟨cpu₂, heq₂, hok₂⟩ := hbal
  simp only [Dpc.hardclock, heq, heq₂]
  -- the rest of the tick leaves the queue alone
  split
  all_goals exact hok₂.congr rfl rfl rfl rfl rfl rfl

theorem QueueOk.run (h : QueueOk cpu) (hst : system.step cpu .run = some cpu') : QueueOk cpu' := by
  simp only [system, step] at hst
  split at hst
  · cases hst
  · next hpc =>
    rw [take_eq h.links] at hst
    cases hq : cpu.queued with
    | nil =>
      simp only [hq] at hst
      cases hst
      exact h.congr rfl hq.symm rfl rfl rfl (by simp [hpc, Pc.taken])
    | cons dpc rest =>
      simp only [hq] at hst
      cases hst
      refine ⟨represents_tail h.links hq, ?_⟩
      have hfifo := h.fifo
      simp only [hq, hpc, Pc.taken, List.append_nil, List.map_cons] at hfifo
      simp [hfifo, Pc.taken]
  · next call hpc =>
    cases hst
    exact h.congr rfl rfl rfl rfl rfl (by simp [hpc, callRoutine, Pc.taken])

theorem QueueOk.step (h : QueueOk cpu) (hok : Unlinked cpu a)
    (hst : system.step cpu a = some cpu') : QueueOk cpu' := by
  cases a with
  | hardclock =>
    cases hst
    exact h.hardclock hok
  | others timers idle =>
    cases hst
    exact h.congr rfl rfl rfl rfl rfl rfl
  | dispatch =>
    simp only [system, Dpc.step] at hst
    split at hst
    · next hpc =>
      cases hst
      exact h.congr rfl rfl rfl rfl rfl (by simp [hpc, Pc.taken])
    all_goals cases hst
  | run => exact h.run hst

theorem QueueOk.init (h : Init cpu) : QueueOk cpu := by
  constructor
  · obtain ⟨L, hL⟩ := h.links
    rw [hL, h.queued]
    constructor
    · intro u
      simp [Seg, Links.init]
    · intro u
      exact List.nodup_nil
    · intro u u' d hd
      cases hd
  · simp [h.enqueued, h.ran, h.pc, h.queued, Pc.taken]

theorem queueOk_of_unlinked (hs : ReachableBy system Unlinked cpu) : QueueOk cpu :=
  ReachableBy.invariant (fun _ h => .init h) (fun _ _ _ h hok hst => h.step hok hst) hs

/-! ### The dispatcher -/

/-- **`dispatch_dpc_queue` terminates** on a queue that is a list, one round
for each DPC, and has then run the DPCs of the list in order. -/
theorem dispatch_dpc_queue_eq :
    ∀ {cpu : CpuLocal} {fuel : Nat}, Represents cpu.links (fun _ => q) → cpu.queued = q →
      q.length < fuel →
      ∃ cpu', dispatch_dpc_queue fuel cpu = some cpu' ∧
        Represents cpu'.links (fun _ => []) ∧ cpu'.queued = [] ∧
        cpu'.ran = cpu.ran ++ q.map fun dpc => ⟨dpc, cpu.arg1 dpc, cpu.arg2 dpc⟩ := by
  induction q with
  | nil =>
    intro cpu fuel hrep hq hfuel
    obtain ⟨fuel, rfl⟩ := Nat.exists_eq_add_of_lt hfuel
    refine ⟨cpu, ?_, hrep, hq, by simp⟩
    have hrep' : Represents cpu.links (fun _ => cpu.queued) := by rw [hq]; exact hrep
    have htake := take_eq hrep'
    simp only [hq] at htake
    simp [dispatch_dpc_queue, htake]
  | cons dpc rest ih =>
    intro cpu fuel hrep hq hfuel
    obtain ⟨fuel, rfl⟩ : ∃ k, fuel = k + 1 := Nat.exists_eq_add_one.mpr (by omega)
    have hrep' : Represents cpu.links (fun _ => cpu.queued) := by rw [hq]; exact hrep
    have htake := take_eq hrep'
    simp only [hq] at htake
    simp only [dispatch_dpc_queue, htake]
    have hlen : rest.length < fuel := by simpa using hfuel
    obtain ⟨cpu', hrun, hend, hempty, hran⟩ := @ih (callRoutine
      { cpu with links := cpu.links.remove () dpc, queued := rest }
      ⟨dpc, cpu.arg1 dpc, cpu.arg2 dpc⟩) fuel (represents_tail hrep' hq) rfl hlen
    exact ⟨cpu', hrun, hend, hempty, by simpa [callRoutine] using hran⟩

/-- **The DPC queue is a list**, in every run of ticks and dispatches in
which no tick enqueues a DPC that is still in the queue: the pointers
spell out a list without duplicates, every call that was enqueued has
been made, is about to be made or waits in the list, in order, and
`dispatch_dpc_queue` terminates and runs each DPC of the list once. -/
theorem dpc_queue_wellFormed (hs : ReachableBy system Unlinked cpu) :
    ∃ q : List DpcId, Represents cpu.links (fun _ => q) ∧ q.Nodup ∧
      cpu.enqueued = cpu.ran ++ cpu.pc.taken ++
        (q.map fun dpc => ⟨dpc, cpu.arg1 dpc, cpu.arg2 dpc⟩) ∧
      ∀ fuel, q.length < fuel → ∃ cpu', dispatch_dpc_queue fuel cpu = some cpu' ∧
        cpu'.links.first () = none ∧
        cpu'.ran = cpu.ran ++ q.map fun dpc => ⟨dpc, cpu.arg1 dpc, cpu.arg2 dpc⟩ := by
  have h := queueOk_of_unlinked hs
  refine ⟨cpu.queued, h.links, h.nodup, h.fifo, ?_⟩
  intro fuel hfuel
  obtain ⟨cpu', hrun, hend, -, hran⟩ := dispatch_dpc_queue_eq h.links rfl hfuel
  exact ⟨cpu', hrun, hend.first_eq (), hran⟩

/-- CPU 0 with one timer that is due, before any tick. -/
def boot : CpuLocal where
  core_id := 0
  config_sched_ule := true
  pending_softints := 0
  ticks := 0
  timers := [0]
  idle := false
  preemption_reason := .none
  links := { fwd := fun _ => none, last := fun _ => .first (), prev := fun _ => .first () }
  arg1 := fun _ => 0
  arg2 := fun _ => 0
  pc := .out
  queued := []
  enqueued := []
  ran := []

theorem boot_init : system.init boot := by
  refine ⟨⟨boot.links, ?_⟩, rfl, rfl, rfl, rfl⟩
  simp [boot, Links.init]

/-- The timer expires at a tick and is dispatched, and expires again before
the dispatcher has looked for more. -/
theorem dpc_queue_wellFormed_dispatched :
    ∃ cpu, execBy system Unlinked boot [.hardclock, .dispatch, .run, .hardclock] = some cpu ∧
      ∃ q : List DpcId, Represents cpu.links (fun _ => q) ∧ q.Nodup ∧
        cpu.enqueued = cpu.ran ++ cpu.pc.taken ++
          (q.map fun dpc => ⟨dpc, cpu.arg1 dpc, cpu.arg2 dpc⟩) ∧
        ∀ fuel, q.length < fuel → ∃ cpu', dispatch_dpc_queue fuel cpu = some cpu' ∧
          cpu'.links.first () = none ∧
          cpu'.ran = cpu.ran ++ q.map fun dpc => ⟨dpc, cpu.arg1 dpc, cpu.arg2 dpc⟩ := by
  refine run_imp (fun _ => True) ⟨_, rfl, trivial⟩ fun cpu hcpu _ => ?_
  exact dpc_queue_wellFormed (.of_execBy (.init boot_init) hcpu)

/-! ### A DPC that is enqueued again -/

/-- `timer_dpc` is first in the queue and its own successor. -/
structure Ring (cpu : CpuLocal) : Prop where
  first : cpu.links.fwd (.first ()) = some .timer_dpc
  next : cpu.links.fwd (.next .timer_dpc) = some .timer_dpc
  prev : cpu.links.prev .timer_dpc = .next .timer_dpc

theorem Ring.not_represents (h : Ring cpu) : ¬ Represents cpu.links q := by
  intro hrep
  have hseg := hrep.seg ()
  have hnodup := hrep.nodup ()
  cases hq : q () with
  | nil =>
    rw [hq] at hseg
    have hfirst := hseg.1
    rw [h.first] at hfirst
    cases hfirst
  | cons d rest =>
    rw [hq] at hseg hnodup
    obtain ⟨hd, -, htail⟩ := hseg
    rw [h.first] at hd
    cases hd
    -- the successor of the head is the head
    cases rest with
    | nil =>
      have hnext := htail.1
      rw [h.next] at hnext
      cases hnext
    | cons e rest =>
      have hnext := htail.1
      rw [h.next] at hnext
      cases hnext
      simp at hnodup

theorem Ring.take (h : Ring cpu) : ∃ call cpu', take cpu = some (call, cpu') ∧ Ring cpu' := by
  have hfirst : cpu.links.first () = some .timer_dpc := h.first
  refine ⟨_, _, by simp only [Dpc.take, hfirst]; rfl, ?_⟩
  constructor
  · simp [Links.remove, h.prev, h.first]
  all_goals simp [Links.remove, h.prev, h.next]

theorem dispatch_dpc_queue_diverges :
    ∀ {cpu : CpuLocal}, Ring cpu → dispatch_dpc_queue fuel cpu = none := by
  induction fuel with
  | zero =>
    intro cpu _
    rfl
  | succ fuel ih =>
    intro cpu h
    obtain ⟨call, cpu', htake, hring⟩ := h.take
    simp only [dispatch_dpc_queue, htake]
    exact ih ⟨hring.first, hring.next, hring.prev⟩

/-- **Two ticks without a dispatch in between make the queue a ring**: a
timer is due, and `timer_dpc` is enqueued again while it is in the
queue. The pointers spell out no list, and `dispatch_dpc_queue` does not
terminate. -/
theorem dpc_queue_not_a_list : ∃ cpu : CpuLocal, Reachable system cpu ∧
      (∀ q : List DpcId, ¬ Represents cpu.links (fun _ => q)) ∧
      ∀ fuel, dispatch_dpc_queue fuel cpu = none := by
  obtain ⟨cpu, hcpu, hring⟩ : ∃ cpu, exec system boot [.hardclock, .hardclock] = some cpu ∧
      Ring cpu := ⟨_, rfl, rfl, rfl, rfl⟩
  refine ⟨cpu, .of_exec boot_init hcpu, fun q => hring.not_represents, fun fuel => ?_⟩
  exact dispatch_dpc_queue_diverges hring

end Dpc
