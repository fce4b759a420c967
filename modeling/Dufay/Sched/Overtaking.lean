import Dufay.Sched.Calendar
import Dufay.Sched.CpuPlaces
import Dufay.Sched.Published

/-! # Overtaking in the calendar queue

One CPU with timeshared threads of fixed priorities. Every tick ends the
quantum of the thread that runs: `sched_reschedule` of
`core/sched/ule.c` picks another one, and the switch puts the first back
into the calendar queue.

The insert index only advances with the run index, and the run index only
when a queue is emptied. Threads that are put back into the queue that was
just picked from keep it from becoming empty. As long as that does not
happen, a tick is a step of the `Wheel`.
-/

open Lts

namespace Ule

open Attributes

variable {n : Nat}

/-! ### One tick -/

/-- A clock interrupt and the `dispatch_dpc` after it. -/
def tickRun (c : Fin (n + 1)) : List (Action n) := .hardclock c :: dispatchRun c

/-- The thread that runs, charged with the tick. -/
def charged (s : State n) (c : Fin (n + 1)) : Thread n :=
  charge_tick ((s.cpus c).ticks + 1) (s.threads (s.cpus c).current_thread)

def selection (s : State n) (c : Fin (n + 1)) : Option (Tid n × SchedPercpu (Tid n)) :=
  (advance_insidx (s.cpus c).sched_data).sched_select_thread
    (setThread s (s.cpus c).current_thread (charged s c)).pinned (some (charged s c).filter) false

variable {s : State n}

theorem exec_tickRun (hdpc : (s.cpus c).dpc = .out) :
    exec (system n) s (tickRun c) = some (dispatch_dpc (hardclock s c) c) := by
  have hout : ((hardclock s c).cpus c).dpc = .out := by
    unfold hardclock
    rw [setCpu_self]
    exact hdpc
  have hstep : (system n).step s (.hardclock c) = some (hardclock s c) := rfl
  unfold tickRun
  rw [exec_cons hstep]
  exact dispatch_dpc_steps hout

theorem hardclock_cpus (hcur : (s.cpus c).current_thread ≠ .idle c) :
    (hardclock s c).cpus c = { s.cpus c with
      ticks := (s.cpus c).ticks + 1, preemption_reason := .quantumEnd } := by
  unfold hardclock
  rw [setCpu_self, if_pos hcur]

/-- The CPU when `sched_reschedule` has selected a thread or none. -/
def CpuLocal.rescheduled (cpu : CpuLocal n) : Option (Tid n × SchedPercpu (Tid n)) → CpuLocal n
  | some (next, sd) => { cpu with sched_data := sd, next_thread := some next }
  | none => { cpu with sched_data := advance_insidx cpu.sched_data }

theorem reschedule_of_hardclock (hcur : (s.cpus c).current_thread ≠ .idle c) :
    sched_reschedule (hardclock s c) c =
      setCpu (setThread s (s.cpus c).current_thread (charged s c)) c
        (CpuLocal.rescheduled { s.cpus c with
          ticks := (s.cpus c).ticks + 1, preemption_reason := .quantumEnd } (selection s c)) := by
  have hforget : ∀ cpu, setCpu (setThread (hardclock s c) (s.cpus c).current_thread (charged s c)) c
      cpu = setCpu (setThread s (s.cpus c).current_thread (charged s c)) c cpu :=
    fun cpu => setCpu_setCpu (setThread s (s.cpus c).current_thread (charged s c)) c _ cpu
  unfold sched_reschedule
  rw [hardclock_cpus hcur]
  dsimp only
  split
  · next newtd sd heq =>
    have hsel : selection s c = some (newtd, sd) := heq
    rw [hsel]
    exact hforget _
  · next heq =>
    have hsel : selection s c = none := heq
    rw [hsel]
    exact hforget _

/-- The state in which the switch of a tick is made. -/
def beforeSwitch (s : State n) (c : Fin (n + 1)) : State n :=
  setCpu (setThread s (s.cpus c).current_thread (charged s c)) c
    (CpuLocal.rescheduled { s.cpus c with
      ticks := (s.cpus c).ticks + 1, preemption_reason := .none } (selection s c))

theorem tick_eq (hcur : (s.cpus c).current_thread ≠ .idle c) :
    dispatch_dpc (hardclock s c) c = switch_next (beforeSwitch s c) c := by
  unfold dispatch_dpc
  rw [hardclock_cpus hcur]
  dsimp only
  rw [if_pos (.inl rfl), reschedule_of_hardclock hcur]
  unfold clear_reason beforeSwitch
  rw [setCpu_setCpu, setCpu_self]
  cases selection s c with
  | none => rfl
  | some p => rfl

/-! ### Runs with a history -/

/-- A timeshared thread that is not interactive. -/
structure Timeshared (t : Thread n) : Prop where
  priority_class : t.priority_class = .batch
  interactive : t.interactive = false
  low : 1 ≤ t.priority.val
  high : t.priority.val ≤ 32

inductive Event where
  /-- The new thread `k` is readied. -/
  | ready (k : Nat)
  /-- A tick, with the reschedule and the switch that it causes. -/
  | tick
  deriving DecidableEq

/-- The scheduler on one CPU, and how often the second thread was picked
since the first was put into the calendar queue. -/
structure Watched where
  state : State 0
  overtakes : Tid 0 → Tid 0 → Nat

/-- The tick leaves the priority of the thread that runs as it is. -/
def FixedPriority (s : State n) (c : Fin (n + 1)) : Prop :=
  (charged s c).rank = (s.threads (s.cpus c).current_thread).rank

instance FixedPriority.decidable (s : State n) (c : Fin (n + 1)) : Decidable (FixedPriority s c) :=
  inferInstanceAs (Decidable (_ = _))

/-- The history after a tick that ends in `s`. -/
def Watched.pick (x : Watched) (c : Fin (0 + 1)) (s : State 0) : Tid 0 → Tid 0 → Nat :=
  let cur := (x.state.cpus c).current_thread
  let next := (s.cpus c).current_thread
  if next = cur then x.overtakes
  else fun td y => if td = cur then 0 else x.overtakes td y + if y = next then 1 else 0

def Watched.step (c : Fin (0 + 1)) (x : Watched) : Event → Option Watched
  | .ready k =>
    (Ule.step x.state (.sched_ready k)).map fun s =>
      ⟨s, fun td y => if td = .thread k then 0 else x.overtakes td y⟩
  | .tick =>
    if FixedPriority x.state c then
      (exec (system 0) x.state (tickRun c)).map fun s => ⟨s, x.pick c s⟩
    else none

/-- After boot a timeshared thread has been readied and runs, and so are all
the other threads that may be readied. -/
structure Watched.Init (c : Fin (0 + 1)) (x : Watched) : Prop where
  boot : ∃ s k, Ule.Init s ∧ (∀ j, Timeshared (s.threads (.thread j))) ∧
    exec (system 0) s (.sched_ready k :: dispatchRun c) = some x.state
  overtakes : ∀ td y, x.overtakes td y = 0

/-- Runs of ticks on one CPU, with timeshared threads of fixed priorities. -/
def calendarSystem (c : Fin (0 + 1)) : System Watched Event where
  init := Watched.Init c
  step := Watched.step c

/-- The thread that the tick puts back does not go behind others into the
queue that the tick picks from. -/
def Spreads (c : Fin (0 + 1)) (x : Watched) : Event → Prop
  | .tick =>
    let sd := (x.state.cpus c).sched_data
    let t := x.state.threads (x.state.cpus c).current_thread
    ∀ i ∈ sd.front, 1 < (sd.calendar_queue.queues i).length →
      (advance_insidx sd).calendar_queue_insidx + (32 - t.priority) ≠ i
  | .ready _ => True

instance Spreads.decidable (c : Fin (0 + 1)) (x : Watched) (e : Event) :
    Decidable (Spreads c x e) := by
  cases e <;> unfold Spreads <;> infer_instance

/-! ### What the threads keep -/

theorem Timeshared.of_attributes (h : Timeshared t)
    (hattr : t'.attributes = t.attributes) : Timeshared t' := by
  have hclass : t'.priority_class = t.priority_class := congrArg Attributes.priority_class hattr
  have hinteractive : t'.interactive = t.interactive := congrArg Attributes.interactive hattr
  have hpriority : t'.priority = t.priority := congrArg priority hattr
  constructor
  · exact hclass.trans h.priority_class
  · exact hinteractive.trans h.interactive
  · rw [hpriority]
    exact h.low
  · rw [hpriority]
    exact h.high

theorem FixedPriority.attributes {c : Fin (n + 1)} (h : FixedPriority s c) :
    (charged s c).attributes = (s.threads (s.cpus c).current_thread).attributes := by
  obtain hattr | ⟨-, _, _, _, -, hattr⟩ := charge_tick_attributes ((s.cpus c).ticks + 1)
    (s.threads (s.cpus c).current_thread)
  · exact hattr
  · -- the recomputation changes nothing but the rank
    have hrank := Prod.mk.inj h
    unfold Thread.attributes
    rw [mk.injEq]
    exact ⟨hrank.1, hrank.2, congrArg nice hattr,
      congrArg priority_class hattr, congrArg pinned hattr⟩

theorem sched_switch_cpus {c : Fin (n + 1)} (next : Tid n) (hcur : cur ≠ .idle c)
    (hrun : (s.threads cur).state = .running) : ((sched_switch s c cur next).cpus c).sched_data =
        (s.cpus c).sched_data.insert cur (s.threads cur).priority_class
          (s.threads cur).interactive (s.threads cur).priority ∧
      ((sched_switch s c cur next).cpus c).current_thread = next ∧
      ((sched_switch s c cur next).cpus c).next_thread = none ∧
      ((sched_switch s c cur next).cpus c).dpc = (s.cpus c).dpc := by
  unfold sched_switch switch_to put_back
  rw [if_pos ⟨hcur, hrun⟩, setCpu_self]
  unfold sched_insert_in_queue
  rw [setThread_cpus, setCpu_self]
  exact ⟨rfl, rfl, rfl, rfl⟩

theorem sched_switch_running (s : State n) (c : Fin (n + 1)) (cur next : Tid n) :
    ((sched_switch s c cur next).threads next).state = .running := by
  unfold sched_switch switch_to
  rw [setCpu_threads, setThread_self]

theorem Relocates.readied (h : Relocates s s') (td : Tid n) :
    (s'.threads td).readied = (s.threads td).readied := by
  obtain ⟨_, _, _, ht⟩ := h td
  rw [ht]

/-! ### The CPU -/

/-- The CPU runs a timeshared thread, and only timeshared threads are
queued. -/
structure Calendared (s : State n) (c : Fin (n + 1)) : Prop where
  dpc : (s.cpus c).dpc = .out
  next : (s.cpus c).next_thread = none
  current : ∃ k, (s.cpus c).current_thread = .thread k
  running : (s.threads (s.cpus c).current_thread).state = .running
  published : ∀ d, Published s d
  timeshared : ∀ k, Timeshared (s.threads (.thread k))
  queues : BatchOnly (s.cpus c).sched_data
  insidx : (s.cpus c).sched_data.calendar_queue_insidx =
    (s.cpus c).sched_data.calendar_queue_runidx ∨ Leads (s.cpus c).sched_data
  readied : (s.threads (s.cpus c).current_thread).readied = true
  queued : ∀ td i, td ∈ (s.cpus c).sched_data.calendar_queue.queues i →
    (∃ k, td = .thread k) ∧ (s.threads td).readied = true

variable {s : State n} {c : Fin (n + 1)}

theorem Calendared.current_ne_idle (h : Calendared s c) : (s.cpus c).current_thread ≠ .idle c := by
  obtain ⟨k, hk⟩ := h.current
  rw [hk]
  exact nofun

theorem Calendared.timeshared_current (h : Calendared s c) :
    Timeshared (s.threads (s.cpus c).current_thread) := by
  obtain ⟨k, hk⟩ := h.current
  rw [hk]
  exact h.timeshared k

theorem Calendared.selection_cases (h : Calendared s c) (hfixed : FixedPriority s c) :
    (s.cpus c).sched_data.front = none ∧ selection s c = none ∨
      ∃ i next rest, (s.cpus c).sched_data.front = some i ∧
        (s.cpus c).sched_data.calendar_queue.queues i = next :: rest ∧
        selection s c = some (next,
          { (advance_insidx (s.cpus c).sched_data).took i next with
            load := ((advance_insidx (s.cpus c).sched_data).took i next).load - 1 }) := by
  have hqueues := h.queues.advance_insidx
  have hcharged := h.timeshared_current.of_attributes hfixed.attributes
  have hfront := advance_insidx_front (s.cpus c).sched_data
  have hcalendar := (advance_insidx_calendar (s.cpus c).sched_data).1
  cases hi : (s.cpus c).sched_data.front with
  | none =>
    rw [hi] at hfront
    exact .inl ⟨rfl, select_none hqueues hfront _ _⟩
  | some i =>
    rw [hi] at hfront
    obtain ⟨next, rest, hq⟩ := List.exists_cons_of_ne_nil (SchedPercpu.front_nearest hi).1
    refine .inr ⟨i, next, rest, rfl, hq, ?_⟩
    rw [← hcalendar] at hq
    exact select_front hqueues hfront hq _ hcharged.priority_class hcharged.interactive

theorem beforeSwitch_self :
    (beforeSwitch s c).threads (s.cpus c).current_thread = charged s c := setThread_self ..

theorem FixedPriority.keepsAttributes (hfixed : FixedPriority s c) :
    KeepsAttributes s (beforeSwitch s c) :=
  fun td => setThread_attributes td hfixed.attributes

theorem beforeSwitch_cpus (hsel : selection s c = sel) :
    (beforeSwitch s c).cpus c = CpuLocal.rescheduled { s.cpus c with
      ticks := (s.cpus c).ticks + 1, preemption_reason := .none } sel := by
  rw [← hsel]
  exact setCpu_self ..

theorem Calendared.tick_of_none (h : Calendared s c) (hsel : selection s c = none) :
    dispatch_dpc (hardclock s c) c = beforeSwitch s c := by
  rw [tick_eq h.current_ne_idle]
  unfold switch_next
  rw [beforeSwitch_cpus hsel]
  dsimp only [CpuLocal.rescheduled]
  rw [h.next]

theorem Calendared.tick_of_some (h : Calendared s c) {next : Tid n}
    (hsel : selection s c = some (next, sd)) : dispatch_dpc (hardclock s c) c =
      sched_switch (beforeSwitch s c) c (s.cpus c).current_thread next := by
  rw [tick_eq h.current_ne_idle]
  unfold switch_next
  rw [beforeSwitch_cpus hsel]
  rfl

theorem beforeSwitch_readied (s : State n) (c : Fin (n + 1)) (td : Tid n) :
    ((beforeSwitch s c).threads td).readied = (s.threads td).readied := by
  by_cases htd : td = (s.cpus c).current_thread
  · rw [htd, beforeSwitch_self]
    exact (charge_tick_keeps _).readied _
  · exact congrArg Thread.readied (setThread_ne _ _ htd)

theorem Calendared.beforeSwitch_running (h : Calendared s c) :
    ((beforeSwitch s c).threads (s.cpus c).current_thread).state = .running := by
  rw [beforeSwitch_self]
  exact ((charge_tick_keeps _).state _).trans h.running

theorem Calendared.beforeSwitch_published (h : Calendared s c) (hfixed : FixedPriority s c)
    (d : Fin (n + 1)) : Published (beforeSwitch s c) d := by
  unfold beforeSwitch
  refine .setCpu ((h.published d).setThread hfixed.attributes) ?_ ?_
  all_goals
    cases selection s c with
    | none => rfl
    | some _ => rfl

def turned (s : State n) (c : Fin (n + 1)) (i : Fin 64) (next : Tid n) : SchedPercpu (Tid n) :=
  ((advance_insidx (s.cpus c).sched_data).took i next).insert (s.cpus c).current_thread .batch false
    (s.threads (s.cpus c).current_thread).priority

/-- What a tick does to the CPU. -/
inductive Turns (s s' : State n) (c : Fin (n + 1)) : Prop where
  /-- Nobody waits, and the thread runs on. -/
  | runs_on (hcurrent : (s'.cpus c).current_thread = (s.cpus c).current_thread)
      (hdata : (s'.cpus c).sched_data = advance_insidx (s.cpus c).sched_data)
  /-- The first thread of the front is switched to. -/
  | switches {i : Fin 64} {next : Tid n} {rest : List (Tid n)}
      (hfront : (s.cpus c).sched_data.front = some i)
      (hq : (s.cpus c).sched_data.calendar_queue.queues i = next :: rest)
      (hcurrent : (s'.cpus c).current_thread = next)
      (hqueues : (s'.cpus c).sched_data.calendar_queue = (turned s c i next).calendar_queue)
      (hindex : (s'.cpus c).sched_data.calendar_queue_runidx =
        (turned s c i next).calendar_queue_runidx)

section

variable (h : Calendared s c) (hfixed : FixedPriority s c)

include h hfixed

theorem Calendared.runs_on (hsel : selection s c = none) :
    Calendared (beforeSwitch s c) c := by
  have hcpu := beforeSwitch_cpus hsel
  dsimp only [CpuLocal.rescheduled] at hcpu
  have hattr := hfixed.keepsAttributes
  constructor
  · rw [hcpu]
    exact h.dpc
  · rw [hcpu]
    exact h.next
  · rw [hcpu]
    exact h.current
  · rw [hcpu]
    exact h.beforeSwitch_running
  · exact h.beforeSwitch_published hfixed
  · exact fun k => (h.timeshared k).of_attributes (hattr (.thread k))
  · rw [hcpu]
    exact h.queues.advance_insidx
  · rw [hcpu]
    exact .inr (advance_insidx_leads h.insidx)
  · rw [hcpu, beforeSwitch_readied]
    exact h.readied
  · intro td i
    rw [hcpu]
    rw [(advance_insidx_calendar (s.cpus c).sched_data).1, beforeSwitch_readied]
    exact h.queued td i

theorem Calendared.switched_queues (next : Tid n) :
    ((sched_switch (beforeSwitch s c) c (s.cpus c).current_thread next).cpus c).sched_data =
      ((beforeSwitch s c).cpus c).sched_data.insert (s.cpus c).current_thread .batch false
        (s.threads (s.cpus c).current_thread).priority := by
  have hattr := hfixed.keepsAttributes (s.cpus c).current_thread
  have hshared := h.timeshared_current.of_attributes hattr
  have hpriority : ((beforeSwitch s c).threads (s.cpus c).current_thread).priority =
      (s.threads (s.cpus c).current_thread).priority := congrArg priority hattr
  rw [(sched_switch_cpus next h.current_ne_idle h.beforeSwitch_running).1, hshared.priority_class,
    hshared.interactive, hpriority]

theorem Calendared.switches {i : Fin 64} {next : Tid n} {rest : List (Tid n)}
    (hq : (s.cpus c).sched_data.calendar_queue.queues i = next :: rest)
    (hsel : selection s c = some (next,
      { (advance_insidx (s.cpus c).sched_data).took i next with
        load := ((advance_insidx (s.cpus c).sched_data).took i next).load - 1 })) :
    Calendared (sched_switch (beforeSwitch s c) c (s.cpus c).current_thread next) c := by
  have hcpu := beforeSwitch_cpus hsel
  dsimp only [CpuLocal.rescheduled] at hcpu
  have hdata := h.switched_queues hfixed next
  rw [hcpu] at hdata
  obtain ⟨-, hcurrent, hnext, hdpc⟩ := sched_switch_cpus next h.current_ne_idle
    h.beforeSwitch_running
  have hreloc := sched_switch_relocates (beforeSwitch s c) c (s.cpus c).current_thread next
  have hreadied : ∀ td, ((sched_switch (beforeSwitch s c) c (s.cpus c).current_thread next).threads
      td).readied = (s.threads td).readied := fun td =>
    (hreloc.readied td).trans (beforeSwitch_readied s c td)
  have hleads := advance_insidx_leads h.insidx
  have hcalendar := (advance_insidx_calendar (s.cpus c).sched_data).1
  have hq' : (advance_insidx (s.cpus c).sched_data).calendar_queue.queues i = next :: rest := by
    rw [hcalendar]
    exact hq
  have htook := h.queues.advance_insidx.took hleads hq'
  have hmem : next ∈ (s.cpus c).sched_data.calendar_queue.queues i := by
    rw [hq]
    exact List.mem_cons_self
  constructor
  · rw [hdpc, hcpu]
    exact h.dpc
  · exact hnext
  · rw [hcurrent]
    exact (h.queued next i hmem).1
  · rw [hcurrent]
    exact sched_switch_running (beforeSwitch s c) c (s.cpus c).current_thread next
  · exact .sched_switch (h.beforeSwitch_published hfixed) c _ next
  · intro k
    refine (h.timeshared k).of_attributes ?_
    exact (hreloc.attributes (.thread k)).trans (hfixed.keepsAttributes (.thread k))
  · rw [hdata]
    refine .insert ?_ _ _
    exact ⟨⟨htook.wf.realtime, htook.wf.calendar⟩, htook.realtime, htook.idle⟩
  · rw [hdata]
    exact .inr (hleads.took hq')
  · rw [hcurrent, hreadied]
    exact (h.queued next i hmem).2
  · intro td j htd
    rw [hdata] at htd
    rw [hreadied]
    obtain rfl | htd := mem_of_insert htd
    · exact ⟨h.current, h.readied⟩
    · have hold := mem_of_took hleads hq' htd
      rw [hcalendar] at hold
      exact h.queued td j hold

theorem Calendared.tick {s' : State n} (hs' : dispatch_dpc (hardclock s c) c = s') :
    Calendared s' c ∧ KeepsAttributes s s' ∧ Turns s s' c := by
  obtain ⟨-, hsel⟩ | ⟨i, next, rest, hfront, hq, hsel⟩ := h.selection_cases hfixed
  · rw [h.tick_of_none hsel] at hs'
    subst hs'
    refine ⟨h.runs_on hfixed hsel, hfixed.keepsAttributes, .runs_on ?_ ?_⟩
    all_goals
      rw [beforeSwitch_cpus hsel]
      rfl
  · have hdata := h.switched_queues hfixed next
    have hreloc := sched_switch_relocates (beforeSwitch s c) c (s.cpus c).current_thread next
    rw [beforeSwitch_cpus hsel] at hdata
    rw [h.tick_of_some hsel] at hs'
    subst hs'
    refine ⟨h.switches hfixed hq hsel, fun td => ?_, .switches hfront hq ?_ ?_ ?_⟩
    · exact (hreloc.attributes td).trans (hfixed.keepsAttributes td)
    · exact (sched_switch_cpus next h.current_ne_idle h.beforeSwitch_running).2.1
    all_goals
      rw [hdata]
      rfl

end

/-! ### Readying a thread -/

theorem Timeshared.not_preempts (h : Timeshared t) (hcur : Timeshared cur) :
    t.preempts cur = false := by
  have hlow := hcur.low
  have hhigh := h.high
  unfold Thread.preempts
  have hidle : cur.priority.val ≠ PRIO_IDLE := by
    unfold PRIO_IDLE
    omega
  have hrealtime : ¬ PRIO_REALTIME ≤ t.priority.val := by
    unfold PRIO_REALTIME
    omega
  rw [if_neg hidle, h.interactive, Bool.and_false, decide_eq_false hrealtime]
  rfl

theorem only_cpu (c d : Fin (0 + 1)) : d = c := by
  exact Fin.ext (by omega)

theorem sched_ready_inserts {s : State 0} {c : Fin (0 + 1)} (hpublished : Published s c)
    (hcur : Timeshared (s.threads (s.cpus c).current_thread)) (htd : Timeshared (s.threads td)) :
    sched_ready s td = sched_insert_in_queue s c td := by
  have hpreempt : should_preempt (s.threads td) (s.cpus c) = false :=
    (hpublished.should_preempt _).trans (htd.not_preempts hcur)
  unfold sched_ready
  rw [only_cpu c (pick_cpu s (s.threads td))]
  exact sched_try_preempt_of_not hpreempt

/-- The state in which the thread counts as readied. -/
def marked (s : State n) (k : Nat) : State n :=
  setThread s (.thread k) { s.threads (.thread k) with readied := true }

theorem marked_keepsAttributes (s : State n) (k : Nat) : KeepsAttributes s (marked s k) :=
  fun td => setThread_attributes td rfl

theorem marked_self (s : State n) (k : Nat) : ((marked s k).threads (.thread k)).readied = true :=
  congrArg Thread.readied (setThread_self ..)

theorem marked_readied (k : Nat) (h : (s.threads td).readied = true) :
    ((marked s k).threads td).readied = true := by
  by_cases hk : td = .thread k
  · rw [hk]
    exact marked_self s k
  · exact (congrArg Thread.readied (setThread_ne _ _ hk)).trans h

theorem marked_state (s : State n) (k : Nat) (td : Tid n) :
    ((marked s k).threads td).state = (s.threads td).state := by
  by_cases hk : td = .thread k
  · rw [hk]
    show ((setThread s (.thread k) _).threads (.thread k)).state = _
    rw [setThread_self]
  · exact congrArg Thread.state (setThread_ne _ _ hk)

theorem Calendared.marked (h : Calendared s c) (k : Nat) : Calendared (marked s k) c where
  dpc := h.dpc
  next := h.next
  current := h.current
  running := (marked_state s k _).trans h.running
  published d := (h.published d).setThread rfl
  timeshared j := (h.timeshared j).of_attributes (marked_keepsAttributes s k (.thread j))
  queues := h.queues
  insidx := h.insidx
  readied := marked_readied k h.readied
  queued td i htd := ⟨(h.queued td i htd).1, marked_readied k (h.queued td i htd).2⟩

section

variable {s s' : State 0} {c : Fin (0 + 1)}

theorem Calendared.sched_ready_cpu (h : Calendared s c) (k : Nat) :
    (sched_ready s (.thread k)).cpus c = (s.cpus c).setQueues
      ((s.cpus c).sched_data.insert (.thread k) .batch false (s.threads (.thread k)).priority) := by
  have hshared := h.timeshared k
  rw [sched_ready_inserts (h.published c) h.timeshared_current hshared]
  unfold sched_insert_in_queue
  rw [setThread_cpus, setCpu_self, hshared.priority_class, hshared.interactive]

theorem Calendared.sched_ready (h : Calendared s c) {k : Nat}
    (hreadied : (s.threads (.thread k)).readied = true)
    (hne : (s.cpus c).current_thread ≠ .thread k) : Calendared (sched_ready s (.thread k)) c := by
  have hcpu := h.sched_ready_cpu k
  have hframe := sched_ready_frame s (.thread k)
  constructor
  · rw [hcpu]
    exact h.dpc
  · rw [hcpu]
    exact h.next
  · rw [hcpu]
    exact h.current
  · rw [hframe.current_thread,
      sched_ready_inserts (h.published c) h.timeshared_current (h.timeshared k)]
    unfold sched_insert_in_queue
    rw [setThread_ne _ _ hne, setCpu_threads]
    exact h.running
  · exact fun d => (h.published d).frame hframe
  · exact fun j => (h.timeshared j).of_attributes (hframe.relocates.attributes (.thread j))
  · rw [hcpu]
    exact h.queues.insert _ _
  · rw [hcpu]
    exact h.insidx
  · rw [hcpu, hframe.relocates.readied]
    exact h.readied
  · intro td i htd
    rw [hcpu] at htd
    rw [hframe.relocates.readied]
    obtain rfl | hold := mem_of_insert htd
    · exact ⟨⟨k, rfl⟩, hreadied⟩
    · exact h.queued td i hold

theorem Calendared.ready (h : Calendared s c) (hstep : step s (.sched_ready k) = some s') :
    Calendared s' c ∧ KeepsAttributes s s' ∧ (s.threads (.thread k)).readied = false ∧
      (s'.cpus c).current_thread = (s.cpus c).current_thread ∧
      (s'.cpus c).sched_data = (s.cpus c).sched_data.insert (.thread k) .batch false
        (s.threads (.thread k)).priority := by
  cases steps_of_step hstep with
  | sched_ready hnew =>
    have hmarked := h.marked k
    have hattr := marked_keepsAttributes s k
    -- the thread that runs was readied before
    have hne : (s.cpus c).current_thread ≠ .thread k := by
      intro heq
      have hreadied := h.readied
      rw [heq, hnew] at hreadied
      exact absurd hreadied nofun
    have hcpu := hmarked.sched_ready_cpu k
    have hpriority : ((Ule.marked s k).threads (.thread k)).priority =
        (s.threads (.thread k)).priority := congrArg priority (hattr (.thread k))
    rw [hpriority] at hcpu
    have hframe := sched_ready_frame (Ule.marked s k) (.thread k)
    refine ⟨hmarked.sched_ready (marked_self s k) hne, fun td => ?_, hnew,
      hframe.current_thread c, ?_⟩
    · exact (hframe.relocates.attributes td).trans (hattr td)
    · show ((Ule.sched_ready (Ule.marked s k) (.thread k)).cpus c).sched_data = _
      rw [hcpu]
      rfl

/-! ### The first thread -/

/-- The CPU to which the first thread is given. -/
def CpuLocal.given (cpu : CpuLocal n) (td : Tid n) : CpuLocal n :=
  { cpu.setNext (some td) with preemption_reason := .higherPriority }

theorem Init.sched_ready (h : Init s) (k : Nat) :
    Ule.sched_ready (marked s k) (.thread k) =
      setCpu (marked s k) c ((s.cpus c).given (.thread k)) := by
  obtain ⟨ticks, hcpu⟩ := h.cpu c
  have hpublished : Published (marked s k) c := (h.published c).setThread rfl
  have hidle : (marked s k).threads ((marked s k).cpus c).current_thread = idle_thread := by
    show (marked s k).threads (s.cpus c).current_thread = idle_thread
    rw [hcpu]
    have hne : Tid.idle c ≠ .thread k := nofun
    exact (setThread_ne _ _ hne).trans (h.idle c)
  have hpreempt : should_preempt ((marked s k).threads (.thread k)) ((marked s k).cpus c) =
      true := by
    rw [hpublished.should_preempt, hidle]
    rfl
  have hnext : ((marked s k).cpus c).next_thread = none := by
    show (s.cpus c).next_thread = none
    rw [hcpu]
    rfl
  unfold Ule.sched_ready
  rw [only_cpu c (pick_cpu (marked s k) ((marked s k).threads (.thread k)))]
  unfold sched_try_preempt
  dsimp only
  rw [hpreempt, hnext]
  rfl

theorem dispatch_dpc_of_idle (hreason : (s.cpus c).preemption_reason = .higherPriority)
    (hcur : (s.cpus c).current_thread = .idle c) (hnext : (s.cpus c).next_thread = some next) :
    dispatch_dpc s c = switch_to (clear_reason s c) c next := by
  have hcur' : ((clear_reason s c).cpus c).current_thread = .idle c := by
    rw [clear_reason_cpus]
    exact hcur
  have hnext' : ((clear_reason s c).cpus c).next_thread = some next := by
    rw [clear_reason_cpus]
    exact hnext
  unfold dispatch_dpc
  dsimp only
  rw [hreason, if_neg nofun]
  unfold switch_next
  rw [hnext']
  unfold sched_switch put_back
  rw [hcur', if_neg fun hc => hc.1 rfl]

theorem Init.exec_ready (h : Init s) (k : Nat) :
    exec (system 0) s (.sched_ready k :: dispatchRun c) =
      some (dispatch_dpc (Ule.sched_ready (marked s k) (.thread k)) c) := by
  obtain ⟨ticks, hcpu⟩ := h.cpu c
  have hstep : (system 0).step s (.sched_ready k) =
      some (Ule.sched_ready (marked s k) (.thread k)) := by
    show step s (.sched_ready k) = _
    unfold step
    dsimp only
    rw [(h.fresh k).readied]
    rfl
  have hout : ((Ule.sched_ready (marked s k) (.thread k)).cpus c).dpc = .out := by
    rw [h.sched_ready (c := c) k, setCpu_self, hcpu]
    rfl
  rw [exec_cons hstep]
  exact dispatch_dpc_steps hout

theorem Init.calendared (h : Init s) (hshared : ∀ j, Timeshared (s.threads (.thread j)))
    (hexec : exec (system 0) s (.sched_ready k :: dispatchRun c) = some s') :
    Calendared s' c ∧ ∀ i, (s'.cpus c).sched_data.calendar_queue.queues i = [] := by
  obtain ⟨ticks, hcpu⟩ := h.cpu c
  let s₂ := setCpu (marked s k) c ((s.cpus c).given (.thread k))
  have hswitch : dispatch_dpc s₂ c = switch_to (clear_reason s₂ c) c (.thread k) := by
    apply dispatch_dpc_of_idle
    · rw [setCpu_self]
      rfl
    · rw [setCpu_self, hcpu]
      rfl
    · rw [setCpu_self]
      rfl
  rw [h.exec_ready k, h.sched_ready (c := c) k, hswitch] at hexec
  obtain rfl := Option.some.inj hexec
  have hcpu' : (switch_to (clear_reason s₂ c) c (.thread k)).cpus c =
      { sched_cpu_init ticks c with
        current_thread := .thread k
        current_thread_status := status_byte { (clear_reason s₂ c).threads (.thread k) with
          state := .running, last_cpu := some c } } := by
    unfold switch_to
    rw [setCpu_self, clear_reason_cpus, setCpu_self, hcpu]
    rfl
  have hreloc : Relocates (marked s k) (switch_to (clear_reason s₂ c) c (.thread k)) :=
    .setThread ⟨.running, _, some c, rfl⟩
  have hkeeps : KeepsAttributes s (switch_to (clear_reason s₂ c) c (.thread k)) := fun td =>
    (hreloc.attributes td).trans (marked_keepsAttributes s k td)
  constructor
  · constructor
    · rw [hcpu']
      rfl
    · rw [hcpu']
      rfl
    · rw [hcpu']
      exact ⟨k, rfl⟩
    · rw [hcpu']
      exact congrArg Thread.state (setThread_self ..)
    · intro d
      rw [only_cpu c d]
      unfold Published
      rw [hcpu']
      exact congrArg status_byte (setThread_self ..).symm
    · exact fun j => (hshared j).of_attributes (hkeeps (.thread j))
    · rw [hcpu']
      exact ⟨emptyQueues_wf, fun _ => rfl, rfl⟩
    · rw [hcpu']
      exact .inl rfl
    · rw [hcpu', hreloc.readied]
      exact marked_self s k
    · intro td i htd
      rw [hcpu'] at htd
      exact absurd htd List.not_mem_nil
  · intro i
    rw [hcpu']
    rfl

/-! ### The wheel -/

end

/-- The distance at which a thread is put back. -/
def reach (s : State n) (td : Tid n) : Nat := 33 - (s.threads td).priority.val

theorem KeepsAttributes.reach {s' : State n} (h : KeepsAttributes s s') : reach s' = reach s := by
  funext td
  have hpriority : (s'.threads td).priority = (s.threads td).priority := congrArg priority (h td)
  unfold Ule.reach
  rw [hpriority]

theorem reach_le (s : State n) (td : Tid n) : reach s td ≤ 63 := by
  unfold reach
  omega

/-- The wheel is the calendar queue with its history. -/
structure Shows (c : Fin (0 + 1)) (x : Watched) (w : Wheel (Tid 0)) : Prop where
  turn : w.turn = (x.state.cpus c).current_thread
  overtakes : w.overtakes = x.overtakes
  arranged : Arranged (x.state.cpus c).sched_data.calendar_queue.queues
    (x.state.cpus c).sched_data.calendar_queue_runidx w.place

/-- The invariant: the CPU is calendared, and the wheel is fair. -/
structure Watched.Inv (c : Fin (0 + 1)) (x : Watched) : Prop where
  calendared : Calendared x.state c
  wheel : ∃ w, Shows c x w ∧ w.Fair (reach x.state) 63

section
variable {c : Fin (0 + 1)} {x : Watched}

theorem Watched.Inv.of_step {w : Wheel (Tid 0)}
    (hcalendared : Calendared x'.state c) (hkeeps : KeepsAttributes x.state x'.state)
    (hfair : w.Fair (Ule.reach x.state) 63) (hstep : w.Step (Ule.reach x.state) w')
    (hshows : Shows c x' w') : x'.Inv c := by
  refine ⟨hcalendared, w', hshows, ?_⟩
  rw [hkeeps.reach]
  exact hfair.step (reach_le x.state) hstep

theorem Watched.Init.inv (h : x.Init c) : x.Inv c := by
  obtain ⟨s, k, hinit, hshared, hexec⟩ := h.boot
  obtain ⟨hcalendared, hempty⟩ := hinit.calendared hshared hexec
  refine ⟨hcalendared, ⟨fun _ => none, (x.state.cpus c).current_thread, x.overtakes⟩, ⟨rfl, rfl, ?_⟩, ?_⟩
  · constructor
    · intro i
      rw [hempty]
      exact List.nodup_nil
    · intro td i
      rw [hempty]
      exact ⟨fun hmem => absurd hmem List.not_mem_nil, nofun⟩
    · exact nofun
  · exact ⟨rfl, nofun, nofun, nofun⟩

theorem Watched.Inv.ready (h : x.Inv c) {s' : State 0}
    (hstep : Ule.step x.state (.sched_ready k) = some s') :
    Watched.Inv c ⟨s', fun td y => if td = .thread k then 0 else x.overtakes td y⟩ := by
  obtain ⟨hcalendared, hkeeps, hnew, hcurrent, hdata⟩ := h.calendared.ready hstep
  obtain ⟨w, hshows, hfair⟩ := h.wheel
  have hshared := h.calendared.timeshared k
  -- it was neither waiting nor running
  have hplace : w.place (.thread k) = none := by
    cases hd : w.place (.thread k) with
    | none => rfl
    | some d =>
      obtain ⟨i, -, hmem⟩ := hshows.arranged.queued hd
      have hreadied := (h.calendared.queued _ i hmem).2
      rw [hnew] at hreadied
      exact absurd hreadied nofun
  have hturn : Tid.thread k ≠ w.turn := by
    intro heq
    have hreadied := h.calendared.readied
    rw [← hshows.turn, ← heq, hnew] at hreadied
    exact absurd hreadied nofun
  let sd := (x.state.cpus c).sched_data
  let p := (x.state.threads (.thread k)).priority
  have hdist : distance sd.calendar_queue_runidx (sd.calendar_queue_insidx + (32 - p)) ≤
      reach x.state (.thread k) :=
    distance_insert_le h.calendared.insidx hshared.low hshared.high
  have hinserted := hshows.arranged.insert hplace (sd.calendar_queue_insidx + (32 - p))
  have hjoin := Wheel.Step.join hplace hturn hdist
  refine .of_step hcalendared hkeeps hfair hjoin ⟨hshows.turn.trans hcurrent.symm, ?_, ?_⟩
  · rw [hshows.overtakes]
  · rw [hdata]
    exact hinserted

theorem Watched.Inv.tick (h : x.Inv c)
    (hfixed : FixedPriority x.state c) (hspreads : Spreads c x .tick) :
    Watched.Inv c ⟨dispatch_dpc (hardclock x.state c) c,
      x.pick c (dispatch_dpc (hardclock x.state c) c)⟩ := by
  obtain ⟨w, hshows, hfair⟩ := h.wheel
  generalize hs' : dispatch_dpc (hardclock x.state c) c = s'
  obtain ⟨hcalendared, hkeeps, hturns⟩ := h.calendared.tick hfixed hs'
  obtain ⟨hcalendar, hrunidx⟩ := advance_insidx_calendar (x.state.cpus c).sched_data
  cases hturns with
  | runs_on hcurrent hdata =>
    refine ⟨hcalendared, w, ⟨hshows.turn.trans hcurrent.symm, ?_, ?_⟩, ?_⟩
    · exact hshows.overtakes.trans (if_pos hcurrent).symm
    · rw [hdata, hcalendar, hrunidx]
      exact hshows.arranged
    · rw [hkeeps.reach]
      exact hfair
  | @switches i next rest hfront hq hcurrent hqueues hindex =>
    have hshared := h.calendared.timeshared_current
    have hrep := hshows.arranged
    rw [← hcalendar, ← hrunidx] at hrep
    have hfront' := (advance_insidx_front (x.state.cpus c).sched_data).trans hfront
    have hq' : (advance_insidx (x.state.cpus c).sched_data).calendar_queue.queues i =
        next :: rest := by
      rw [hcalendar]
      exact hq
    have hreach : reach x.state w.turn =
        33 - (x.state.threads (x.state.cpus c).current_thread).priority.val := by
      unfold reach
      rw [hshows.turn]
    have hspread : rest ≠ [] → (advance_insidx (x.state.cpus c).sched_data).calendar_queue_insidx +
        (32 - (x.state.threads (x.state.cpus c).current_thread).priority) ≠ i := by
      intro hrest
      refine hspreads i hfront ?_
      rw [hq, List.length_cons]
      have hpos := List.length_pos_of_ne_nil hrest
      omega
    obtain ⟨place, hturn, hrep'⟩ := calendar_turn (advance_insidx_leads h.calendared.insidx) hrep
      hfair.turn hfront' hq' hshared.low hshared.high hreach hspread
    -- the thread that is picked was waiting
    have hne : (s'.cpus c).current_thread ≠ (x.state.cpus c).current_thread := by
      have hmem : next ∈ (x.state.cpus c).sched_data.calendar_queue.queues i := by
        rw [hq]
        exact List.mem_cons_self
      rw [hshows.arranged.mem] at hmem
      rw [hcurrent, ← hshows.turn]
      exact hfair.next_ne_turn hmem
    refine .of_step hcalendared hkeeps hfair hturn ⟨hcurrent.symm, ?_, ?_⟩
    · refine Eq.trans ?_ (if_neg hne).symm
      rw [hcurrent, ← hshows.turn, ← hshows.overtakes]
      rfl
    · rw [hqueues, hindex]
      unfold turned
      rw [← hshows.turn]
      rw [← hshows.turn] at hrep'
      exact hrep'

end

theorem Watched.Inv.step {c : Fin (0 + 1)} {x x' : Watched} {e : Event} (h : x.Inv c)
    (hspreads : Spreads c x e) (hstep : x.step c e = some x') : x'.Inv c := by
  cases e with
  | ready k =>
    obtain ⟨s', hs', rfl⟩ := Option.map_eq_some_iff.mp hstep
    exact h.ready hs'
  | tick =>
    unfold Watched.step at hstep
    by_cases hfixed : FixedPriority x.state c
    · rw [if_pos hfixed, exec_tickRun h.calendared.dpc] at hstep
      obtain rfl := Option.some.inj hstep
      exact h.tick hfixed hspreads
    · rw [if_neg hfixed] at hstep
      exact absurd hstep nofun

/-- **Bounded overtaking**: if no tick puts its thread back behind others
into the queue it picks from, then no thread is picked more than 64 times
while another one stays in the calendar queue. -/
theorem overtaking_bounded {c : Fin (0 + 1)} {x : Watched}
    (hx : ReachableBy (calendarSystem c) (Spreads c) x) {td : Tid 0} {i : Fin 64}
    (htd : td ∈ (x.state.cpus c).sched_data.calendar_queue.queues i) (y : Tid 0) :
    x.overtakes td y ≤ 64 := by
  have hinv : x.Inv c := ReachableBy.invariant (fun (x : Watched) (h : x.Init c) => h.inv)
      (fun x e x' h hspreads hstep => Watched.Inv.step h hspreads hstep) hx
  obtain ⟨w, hshows, hfair⟩ := hinv.wheel
  rw [hshows.arranged.mem] at htd
  rw [← hshows.overtakes]
  exact hfair.overtakes_le htd y

/-- After boot: thread 3 has priority 1, and the others have a priority and
a niceness that keep them at priority 6 while they run. -/
def bootNice : State 0 where
  cpus := sched_cpu_init 0
  threads := fun td =>
    match td with
    | .idle _ => idle_thread
    | .thread k =>
      { make_kernel_thread with
        nice := if k = 3 then 0 else -5
        priority := if k = 3 then 1 else 6 }

theorem bootNice_init : Init bootNice where
  cpu _ := ⟨0, rfl⟩
  idle _ := rfl
  fresh _ := ⟨rfl, rfl, rfl, rfl⟩

theorem bootNice_timeshared (k : Nat) : Timeshared (bootNice.threads (.thread k)) := by
  have hpriority : (bootNice.threads (.thread k)).priority = if k = 3 then 1 else 6 := rfl
  refine ⟨rfl, rfl, ?_, ?_⟩
  all_goals
    rw [hpriority]
    split
    · decide
    · decide

/-- Thread 0 has been readied and runs. -/
def firstRuns (c : Fin (0 + 1)) : Watched where
  state := dispatch_dpc (sched_ready (setThread bootNice (.thread 0)
    { bootNice.threads (.thread 0) with readied := true }) (.thread 0)) c
  overtakes := fun _ _ => 0

theorem firstRuns_init (c : Fin (0 + 1)) : (firstRuns c).Init c := by
  refine ⟨⟨bootNice, 0, bootNice_init, bootNice_timeshared, ?_⟩, fun _ _ => rfl⟩
  exact bootNice_init.exec_ready 0

/-- Thread 3 waits while threads 0 and 1 take turns. Every pick empties a
queue. -/
def turnsRun : List Event := [.ready 1, .ready 3, .tick, .tick, .tick]

theorem overtaking_bounded_turnsRun :
    ∃ x, execBy (calendarSystem 0) (Spreads 0) (firstRuns 0) turnsRun = some x ∧
      .thread 3 ∈ (x.state.cpus 0).sched_data.calendar_queue.queues 31 ∧
      x.overtakes (.thread 3) (.thread 1) = 2 ∧ x.overtakes (.thread 3) (.thread 1) ≤ 64 := by
  refine run_imp (fun x => .thread 3 ∈ (x.state.cpus 0).sched_data.calendar_queue.queues 31 ∧
      x.overtakes (.thread 3) (.thread 1) = 2)
    (by decide +kernel) fun x hx ⟨hwaits, hovertakes⟩ => ⟨hwaits, hovertakes, ?_⟩
  exact overtaking_bounded (.of_execBy (.init (firstRuns_init 0)) hx) hwaits (.thread 1)

/-- Threads 1, 2 and 3 are readied after the first tick. From then on threads
0, 1 and 2 are put back into the one queue that they are picked from. -/
def starvingRun : List Event :=
  .tick :: .ready 1 :: .ready 2 :: .ready 3 :: List.replicate 193 .tick

/-- Thread 3 waits, and thread 1 has been picked 65 times. -/
theorem overtaking_unbounded : ∃ x, exec (calendarSystem 0) (firstRuns 0) starvingRun = some x ∧
      Reachable (calendarSystem 0) x ∧
      .thread 3 ∈ (x.state.cpus 0).sched_data.calendar_queue.queues 32 ∧
      x.overtakes (.thread 3) (.thread 1) = 65 := by
  refine run_imp (fun x => .thread 3 ∈ (x.state.cpus 0).sched_data.calendar_queue.queues 32 ∧
      x.overtakes (.thread 3) (.thread 1) = 65)
    (by decide +kernel) fun x hx h => ⟨Reachable.of_exec (firstRuns_init 0) hx, h⟩

end Ule
