import Dufay.Sched.Places

/-! # Does yielding ever idle over ready work?

`sched_yield` hands the outgoing thread to `sched_select_thread`, which
uses its priority, class and interactivity as a preemption filter. On a
yield the outgoing thread leaves the CPU in any case, so a queued thread
that the filter rejects stays queued while the CPU goes idle. Neither the
idle loop (which steals from other CPUs only) nor `hardclock` looks at the
CPU's own queues afterwards.
-/

namespace Ule

open SchedPercpu

variable {n : Nat}

/-- The run queues of CPU `c` are well formed: the bitmaps agree with the
queues, and the idle threads, which are never queued, are in none. -/
structure QueuesWf (s : State n) (c : Fin (n + 1)) : Prop where
  wf : (s.cpus c).sched_data.Wf
  no_idle : ∀ d, (s.cpus c).sched_data.count (.idle d) = 0

/-- Yielding on `c` switches to the idle thread of `c` only if the queues of
`c` are all empty afterwards. -/
def WorkConserving (s : State n) (c : Fin (n + 1)) : Prop :=
  ((sched_yield s c).cpus c).current_thread = .idle c → ((sched_yield s c).cpus c).sched_data.Empty

theorem sched_switch_current : ((sched_switch s c cur next).cpus c).current_thread = next := by
  simp [sched_switch, switch_to]

theorem sched_switch_queues (s : State n) (c : Fin (n + 1)) (cur next : Tid n) :
    ((sched_switch s c cur next).cpus c).sched_data =
      if cur ≠ .idle c ∧ (s.threads cur).state = .running then
        (s.cpus c).sched_data.insert cur (s.threads cur).priority_class
          (s.threads cur).interactive (s.threads cur).priority
      else (s.cpus c).sched_data := by
  unfold sched_switch put_back
  split
  · simp [switch_to, sched_insert_in_queue_cpus, CpuLocal.setQueues]
  · simp [switch_to]

/-! ### The exact condition -/

theorem sched_yield_current_of_eligible (hq : QueuesWf s c)
    (h : (s.cpus c).sched_data.Eligible (s.threads (s.cpus c).current_thread).filter) :
    ((sched_yield s c).cpus c).current_thread ≠ .idle c := by
  have hsel := sched_select_thread_eq_none hq.wf s.pinned
    (s.threads (s.cpus c).current_thread).filter
  cases hs : yield_selection s c with
  | none => exact absurd h (hsel.mp hs)
  | some p =>
    obtain ⟨next, sd⟩ := p
    rw [sched_yield_some hs, sched_switch_current]
    intro hidle
    -- the selected thread was queued, and idle threads are not
    have hc := (sched_select_thread_takes hs).count next
    rw [hidle, hq.no_idle c] at hc
    simp at hc

theorem sched_yield_of_not_eligible (hq : QueuesWf s c)
    (h : ¬ (s.cpus c).sched_data.Eligible (s.threads (s.cpus c).current_thread).filter) :
    sched_yield s c = sched_switch s c (s.cpus c).current_thread (.idle c) := by
  apply sched_yield_none
  exact (sched_select_thread_eq_none hq.wf s.pinned _).mpr h

/-- **Yielding, exactly.** It is work conserving if and only if some queued
thread passes the outgoing thread's own preemption filter, or nothing is
queued and the outgoing thread is not requeued. -/
theorem workConserving_iff (hq : QueuesWf s c) : WorkConserving s c ↔
      ((s.cpus c).sched_data.Eligible (s.threads (s.cpus c).current_thread).filter ∨
        ((s.cpus c).sched_data.Empty ∧ ¬ Requeued s c)) := by
  by_cases hel : (s.cpus c).sched_data.Eligible (s.threads (s.cpus c).current_thread).filter
  · have hne := sched_yield_current_of_eligible hq hel
    constructor
    · exact fun _ => .inl hel
    · exact fun _ hidle => absurd hidle hne
  · have hyield := sched_yield_of_not_eligible hq hel
    unfold WorkConserving
    rw [hyield, sched_switch_current, sched_switch_queues]
    simp only [true_implies, hel, false_or]
    by_cases hr : Requeued s c
    · -- the requeued thread itself is what is left behind
      have hne := (s.cpus c).sched_data.not_empty_insert (s.cpus c).current_thread
        (s.threads (s.cpus c).current_thread).priority_class
        (s.threads (s.cpus c).current_thread).interactive
        (s.threads (s.cpus c).current_thread).priority
      have hr' := hr
      unfold Requeued at hr'
      rw [if_pos hr']
      constructor
      · exact fun h => absurd h hne
      · exact fun h => absurd hr h.2
    · have hr' := hr
      unfold Requeued at hr'
      rw [if_neg hr']
      exact ⟨fun h => ⟨h, hr⟩, fun h => h.1⟩

/-! ### Nobody else looks -/

theorem sched_try_preempt_count_le (s : State n) (c : Fin (n + 1)) (x td : Tid n) :
    (s.cpus c).sched_data.count td ≤ ((sched_try_preempt s c x).cpus c).sched_data.count td := by
  obtain h | ⟨y, _, _, _, h⟩ := sched_try_preempt_sched_data s c x
  · rw [h]
  · rw [h, count_insert]
    exact Nat.le_add_right _ _

theorem idle_steal_count_le (s : State n) (c : Fin (n + 1)) (td : Tid n) :
    (s.cpus c).sched_data.count td ≤ ((idle_steal s c).cpus c).sched_data.count td := by
  unfold idle_steal
  dsimp only
  split
  · exact le_refl _
  · next hne =>
    split
    · exact le_refl _
    · unfold migrate_thread
      dsimp only
      split
      · next x sd _ =>
        have hle := sched_try_preempt_count_le (setCpu s (find_most_and_least_loaded_cpu s).1
            ((s.cpus (find_most_and_least_loaded_cpu s).1).setQueues sd)) c x td
        rw [setCpu_ne _ _ (Ne.symm hne)] at hle
        exact hle
      · exact le_refl _

/-- **Work conservation.** A yield is work conserving under exactly the
condition of `workConserving_iff`; and where it is not, neither a clock
tick nor a round of the idle loop takes the stranded threads out of the
queues of this CPU. -/
theorem sched_yield_workConserving_iff (s : State n) (c : Fin (n + 1)) (hq : QueuesWf s c) :
    (WorkConserving s c ↔
      ((s.cpus c).sched_data.Eligible (s.threads (s.cpus c).current_thread).filter ∨
        ((s.cpus c).sched_data.Empty ∧ ¬ Requeued s c))) ∧
    ((hardclock s c).cpus c).sched_data = (s.cpus c).sched_data ∧
    ∀ td, (s.cpus c).sched_data.count td ≤ ((idle_steal s c).cpus c).sched_data.count td := by
  refine ⟨workConserving_iff hq, ?_, idle_steal_count_le s c⟩
  unfold hardclock
  rw [setCpu_self]

/-! ### A run that strands a thread

A realtime thread that blocks while a timeshared thread is queued. -/

/-- One CPU: thread 0 runs, thread 1 is a timeshared thread in the calendar
queue. -/
def oneQueued (current : Thread 0) : State 0 where
  cpus := fun c => { sched_cpu_init 0 c with
    current_thread := .thread 0
    current_thread_status := status_byte current
    sched_data := emptyQueues.insert (.thread 1) .batch false 16 }
  threads := fun td =>
    match td with
    | .idle _ => idle_thread
    | .thread 0 => current
    | .thread _ => { make_kernel_thread with readied := true }

theorem oneQueued_wf : QueuesWf (oneQueued current) c where
  wf := emptyQueues_wf.insert _ _ _ _
  no_idle := fun d => by
    simp only [oneQueued]
    rw [count_insert, emptyQueues_count]
    simp

/-- A timeshared thread that yields. -/
def yieldingBatch : Thread 0 :=
  { make_kernel_thread with state := .running, readied := true, last_cpu := some (0 : Fin 1) }

/-- A realtime thread that has entered `sched_wait`. -/
def blockingRealtime : Thread 0 :=
  { make_kernel_thread with
    priority := 40, priority_class := .realtime, state := .waiting,
    wait_status := .committed, readied := true, last_cpu := some (0 : Fin 1) }

/-- A timeshared thread yields to the other one. -/
theorem sched_yield_workConserving_batch : WorkConserving (oneQueued yieldingBatch) 0 :=
  (sched_yield_workConserving_iff _ 0 (oneQueued_wf)).1.mpr (.inl (by decide +kernel))

/-- **Yielding is not work conserving**: when the realtime thread blocks,
the CPU goes idle with a thread in its calendar queue. -/
theorem sched_yield_not_workConserving :
    ¬ ∀ (n : Nat) (s : State n) (c : Fin (n + 1)), QueuesWf s c →
      ((s.threads (s.cpus c).current_thread).state = .running ∨
        (s.threads (s.cpus c).current_thread).state = .waiting) →
      WorkConserving s c := by
  intro h
  have hwc := h 0 (oneQueued blockingRealtime) 0 (oneQueued_wf) (.inr rfl)
  rw [workConserving_iff (oneQueued_wf)] at hwc
  revert hwc
  decide +kernel

end Ule
