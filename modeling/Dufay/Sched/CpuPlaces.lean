import Dufay.Sched.Bookkeeping
import Dufay.Sched.Classes

/-! # The places of one CPU

What an operation of the scheduler does to the places of the CPU that it
works on: `Moves` says which threads come and which go, that the bitmaps
stay right, and that the load counter is as far from the number of queued
threads as it was (`defect`). `dispatch_dpc` of `core/ipl.c` is one step
here, with nothing in the DPC queue.
-/

open Lts

namespace Ule

open SchedPercpu

variable {n : Nat}

/-! ### Counting on one CPU -/

/-- The places of a CPU that hold `td`, its current thread included. -/
def CpuLocal.holds (cpu : CpuLocal n) (td : Tid n) : Nat := cpu.on td + cpu.off td

theorem CpuLocal.current_ne_of_on {cpu : CpuLocal n} (h : cpu.on td = 0) :
    cpu.current_thread ≠ td := by
  intro hcur
  unfold CpuLocal.on at h
  rw [if_pos hcur] at h
  omega

theorem CpuLocal.current_ne_of_holds {cpu : CpuLocal n} (h : cpu.holds td = 0) :
    cpu.current_thread ≠ td := by
  apply CpuLocal.current_ne_of_on
  unfold CpuLocal.holds at h
  omega

theorem CpuLocal.next_ne_of_holds {cpu : CpuLocal n} (h : cpu.holds td = 0) :
    cpu.next_thread ≠ some td := by
  intro hnext
  unfold CpuLocal.holds CpuLocal.off at h
  rw [CpuLocal.next_eq hnext, if_pos rfl] at h
  omega

theorem CpuLocal.holds_pos_of_current {cpu : CpuLocal n}
    (h : cpu.current_thread = td) : 0 < cpu.holds td := by
  rw [Nat.pos_iff_ne_zero]
  intro hzero
  exact CpuLocal.current_ne_of_holds hzero h

/-- How far the load counter is from the number of queued threads. -/
def SchedPercpu.defect (sd : SchedPercpu (Tid n)) : UInt64 := sd.load - UInt64.ofNat sd.size

theorem SchedPercpu.defect_eq_zero {sd : SchedPercpu (Tid n)} :
    sd.defect = 0 ↔ sd.load = UInt64.ofNat sd.size := by
  unfold defect
  constructor
  · intro h
    exact (UInt64.sub_eq_iff_eq_add.mp h).trans (UInt64.zero_add _)
  · intro h
    rw [h, UInt64.sub_self]

/-- From `cpu` to `cpu'`, the threads of `gain` come and those of `loss` go.
Idle threads, which a CPU falls back to, are not counted. -/
structure Moves (cpu cpu' : CpuLocal n) (gain loss : Tid n → Nat) : Prop where
  holds : ∀ k, cpu'.holds (.thread k) + loss (.thread k) = cpu.holds (.thread k) + gain (.thread k)
  wf : cpu.sched_data.Wf → cpu'.sched_data.Wf
  defect : cpu'.sched_data.defect = cpu.sched_data.defect

theorem Moves.refl (cpu : CpuLocal n) : Moves cpu cpu (fun _ => 0) (fun _ => 0) :=
  ⟨fun _ => rfl, id, rfl⟩

theorem Moves.trans {gain loss : Tid n → Nat} (h₁ : Moves cpu₁ cpu₂ gain₁ loss₁)
    (h₂ : Moves cpu₂ cpu₃ gain₂ loss₂)
    (hnet : ∀ k, loss (.thread k) + gain₁ (.thread k) + gain₂ (.thread k) =
      gain (.thread k) + loss₁ (.thread k) + loss₂ (.thread k)) : Moves cpu₁ cpu₃ gain loss := by
  refine ⟨fun k => ?_, fun hwf => h₂.wf (h₁.wf hwf), h₂.defect.trans h₁.defect⟩
  have h₁ := h₁.holds k
  have h₂ := h₂.holds k
  have hnet := hnet k
  omega

theorem Moves.net {gain loss : Tid n → Nat} (h : Moves cpu cpu' gain₁ loss₁)
    (hnet : ∀ k, loss (.thread k) + gain₁ (.thread k) = gain (.thread k) + loss₁ (.thread k)) :
    Moves cpu cpu' gain loss := (Moves.refl cpu).trans h hnet

theorem SchedPercpu.defect_insert (sd : SchedPercpu (Tid n)) (td : Tid n) (cl : PriorityClass)
    (interactive : Bool) (priority : Fin 64) :
    (sd.insert td cl interactive priority).defect = sd.defect := by
  obtain ⟨hsize, hload⟩ := sd.size_insert td cl interactive priority
  unfold defect
  rw [hsize, hload, UInt64.ofNat_add]
  grind

theorem SchedPercpu.defect_select {sd : SchedPercpu (Tid n)}
    (h : sd.sched_select_thread pinned cur migrate = some (td, sd')) : sd'.defect = sd.defect := by
  obtain ⟨-, hsize, hload⟩ := sched_select_thread_shrinks h
  unfold defect
  rw [← hsize, hload, UInt64.ofNat_add]
  grind

/-! ### Inserting and preempting -/

section Inserting

variable (s : State n) (c : Fin (n + 1)) (x : Tid n)

variable {d : Fin (n + 1)}

theorem sched_insert_in_queue_cpus_ne (hd : d ≠ c) :
    (sched_insert_in_queue s c x).cpus d = s.cpus d := by
  simp [sched_insert_in_queue, hd]

theorem sched_insert_in_queue_moves :
    Moves (s.cpus c) ((sched_insert_in_queue s c x).cpus c) (fun td => if td = x then 1 else 0)
      (fun _ => 0) := by
  rw [sched_insert_in_queue_cpus]
  refine ⟨fun k => ?_, fun hwf => hwf.insert _ _ _ _, defect_insert _ _ _ _ _⟩
  have hcount := (s.cpus c).sched_data.count_insert x (.thread k) (s.threads x).priority_class
    (s.threads x).interactive (s.threads x).priority
  unfold CpuLocal.holds
  rw [CpuLocal.on_setQueues, CpuLocal.off_setQueues, hcount, CpuLocal.off]
  omega

theorem sched_try_preempt_cpus_ne (hd : d ≠ c) : (sched_try_preempt s c x).cpus d = s.cpus d := by
  unfold sched_try_preempt
  dsimp only
  split
  · split
    · rw [sched_insert_in_queue_cpus_ne _ _ _ hd, setCpu_ne _ _ hd]
    · rw [setCpu_ne _ _ hd]
  · exact sched_insert_in_queue_cpus_ne s c x hd

theorem sched_try_preempt_moves :
    Moves (s.cpus c) ((sched_try_preempt s c x).cpus c) (fun td => if td = x then 1 else 0)
      (fun _ => 0) := by
  unfold sched_try_preempt
  dsimp only
  split
  · generalize hcpu : { (s.cpus c).setNext (some x) with
      preemption_reason := .higherPriority } = cpu
    have hon : ∀ td, cpu.on td = (s.cpus c).on td := by
      intro td
      rw [← hcpu]
      rfl
    have hqueues : cpu.sched_data = (s.cpus c).sched_data := by
      rw [← hcpu]
      rfl
    have hnext' : cpu.next_thread = some x := by
      rw [← hcpu]
      rfl
    have hset : Moves (s.cpus c) cpu (fun td => if td = x then 1 else 0) (s.cpus c).next := by
      refine ⟨fun k => ?_, fun hwf => hqueues ▸ hwf, by rw [hqueues]⟩
      unfold CpuLocal.holds CpuLocal.off
      rw [hon, hqueues, CpuLocal.next_eq hnext']
      omega
    cases hnext : (s.cpus c).next_thread with
    | none =>
      rw [setCpu_self]
      exact hset.net fun k => by rw [CpuLocal.next_eq_zero hnext]; omega
    | some y =>
      have hins := sched_insert_in_queue_moves (setCpu s c cpu) c y
      rw [setCpu_self] at hins
      exact hset.trans hins fun k => by rw [CpuLocal.next_eq hnext]; omega
  · exact sched_insert_in_queue_moves s c x

end Inserting

/-! ### Switching -/

/-- The thread of `c` that a switch leaves without a place: it is not running
any more, since it is going to sleep or was queued elsewhere. -/
def leaves (s : State n) (c : Fin (n + 1)) (td : Tid n) : Nat :=
  if td = (s.cpus c).current_thread ∧ ¬ Requeued s c then 1 else 0

theorem leaves_congr {s s' : State n} {c : Fin (n + 1)}
    (hcur : (s'.cpus c).current_thread = (s.cpus c).current_thread)
    (hstate : (s'.threads (s.cpus c).current_thread).state =
      (s.threads (s.cpus c).current_thread).state) (td : Tid n) :
    leaves s' c td = leaves s c td := by
  have hr : Requeued s' c ↔ Requeued s c := by
    unfold Requeued
    rw [hcur, hstate]
  unfold leaves
  simp only [hcur, hr]

theorem switch_to_moves (s : State n) (c : Fin (n + 1)) (next : Tid n) :
    Moves (s.cpus c) ((switch_to s c next).cpus c) (fun td => if td = next then 1 else 0)
      (fun td => (s.cpus c).next td + (s.cpus c).on td) := by
  have hcpu : (switch_to s c next).cpus c = { s.cpus c with
      current_thread := next, next_thread := none,
      current_thread_status :=
        status_byte { s.threads next with state := .running, last_cpu := some c } } := by
    simp [switch_to]
  rw [hcpu]
  refine ⟨fun k => ?_, id, rfl⟩
  show (if next = .thread k then 1 else 0) + (0 + (s.cpus c).sched_data.count (.thread k)) + _ = _
  unfold CpuLocal.holds CpuLocal.off
  simp only [eq_comm]
  omega

theorem sched_switch_cpus_ne (s : State n) (cur next : Tid n) (hd : d ≠ c) :
    (sched_switch s c cur next).cpus d = s.cpus d := by
  unfold sched_switch put_back
  rw [switch_to, setCpu_ne _ _ hd]
  split
  · exact sched_insert_in_queue_cpus_ne s c cur hd
  · rfl

theorem sched_switch_moves (s : State n) (c : Fin (n + 1)) (next : Tid n) :
    Moves (s.cpus c) ((sched_switch s c (s.cpus c).current_thread next).cpus c)
      (fun td => if td = next then 1 else 0)
      (fun td => (s.cpus c).next td + leaves s c td) := by
  unfold sched_switch
  by_cases hr : Requeued s c
  · rw [put_back_of_requeued hr]
    have hins := sched_insert_in_queue_moves s c (s.cpus c).current_thread
    have hsw := switch_to_moves (sched_insert_in_queue s c (s.cpus c).current_thread) c next
    have hnext := sched_insert_in_queue_next s c (s.cpus c).current_thread
    refine hins.trans hsw fun k => ?_
    have hon : ((sched_insert_in_queue s c (s.cpus c).current_thread).cpus c).on (.thread k) =
        if .thread k = (s.cpus c).current_thread then 1 else 0 := by
      rw [sched_insert_in_queue_cpus, CpuLocal.on_setQueues, CpuLocal.on]
      simp only [eq_comm]
    have hleaves : leaves s c (.thread k) = 0 := if_neg fun h => h.2 hr
    rw [hnext, hon, hleaves]
    omega
  · rw [put_back_of_not_requeued hr]
    refine (switch_to_moves s c next).net fun k => ?_
    have hleaves : leaves s c (.thread k) = (s.cpus c).on (.thread k) := by
      unfold leaves CpuLocal.on
      simp only [hr, not_false_eq_true, and_true, eq_comm]
    rw [hleaves, Nat.add_comm]

/-! ### Selecting -/

theorem select_moves {s : State n} {c : Fin (n + 1)} {pinned : Tid n → Bool}
    {cur : Option Filter} {migrate : Bool} {x : Tid n} {sd : SchedPercpu (Tid n)}
    (h : (s.cpus c).sched_data.sched_select_thread pinned cur migrate = some (x, sd)) :
    Moves (s.cpus c) ((s.cpus c).setQueues sd) (fun _ => 0) (fun td => if td = x then 1 else 0) :=
      by
  have htakes := sched_select_thread_takes h
  refine ⟨fun k => ?_, htakes.wf, defect_select h⟩
  have hcount := htakes.count (.thread k)
  unfold CpuLocal.holds
  rw [CpuLocal.on_setQueues, CpuLocal.off_setQueues, CpuLocal.off]
  omega

theorem sched_yield_cpus_ne (s : State n) (hd : d ≠ c) : (sched_yield s c).cpus d = s.cpus d := by
  unfold sched_yield
  dsimp only
  split
  · rw [sched_switch_cpus_ne _ _ _ hd, setCpu_ne _ _ hd]
  · exact sched_switch_cpus_ne s _ _ hd

theorem sched_switch_moves_setQueues {s : State n}
    (h : Moves (s.cpus c) ((s.cpus c).setQueues sd) (fun _ => 0)
      (fun td => if td = x then 1 else 0)) :
    Moves (s.cpus c) ((sched_switch (setCpu s c ((s.cpus c).setQueues sd)) c
        (s.cpus c).current_thread x).cpus c) (fun _ => 0)
      (fun td => (s.cpus c).next td + leaves s c td) := by
  have hsw := sched_switch_moves (setCpu s c ((s.cpus c).setQueues sd)) c x
  have hleaves := @leaves_congr n s (setCpu s c ((s.cpus c).setQueues sd)) c
    (current_setQueues s c c sd) rfl
  rw [setCpu_self] at hsw
  refine h.trans hsw fun k => ?_
  rw [hleaves, show ((s.cpus c).setQueues sd).next = (s.cpus c).next from rfl]
  omega

theorem sched_yield_moves (s : State n) (c : Fin (n + 1)) :
    Moves (s.cpus c) ((sched_yield s c).cpus c) (fun _ => 0)
      (fun td => (s.cpus c).next td + leaves s c td) := by
  match hsel : yield_selection s c with
  | some (next, sd) =>
    rw [sched_yield_some hsel]
    exact sched_switch_moves_setQueues (select_moves hsel)
  | none =>
    rw [sched_yield_none hsel]
    exact (sched_switch_moves s c (.idle c)).net fun k => Nat.add_comm _ _

/-! ### Rescheduling and dispatching -/

/-- The filter that `sched_reschedule` selects with: the current thread after
it was charged a tick. -/
def chargedFilter (s : State n) (c : Fin (n + 1)) : Filter :=
  (charge_tick (s.cpus c).ticks (s.threads (s.cpus c).current_thread)).filter

theorem advance_insidx_moves (cpu : CpuLocal n) :
    Moves cpu (cpu.setQueues (advance_insidx cpu.sched_data)) (fun _ => 0) (fun _ => 0) := by
  obtain ⟨hrt, hcal, hidle, hload⟩ := advance_insidx_queues cpu.sched_data
  refine ⟨fun k => ?_, advance_insidx_wf, ?_⟩
  · unfold CpuLocal.holds CpuLocal.off
    show cpu.on (.thread k) + (cpu.next (.thread k) + (advance_insidx cpu.sched_data).count _) = _
    rw [advance_insidx_count]
    rfl
  · show (advance_insidx cpu.sched_data).defect = cpu.sched_data.defect
    unfold defect size
    rw [hrt, hcal, hidle, hload]

/-- Some thread of `c` passes the filter of its charged current thread. -/
def Replaceable (s : State n) (c : Fin (n + 1)) : Prop :=
  (s.cpus c).sched_data.Eligible (chargedFilter s c)

instance (s : State n) (c : Fin (n + 1)) : Decidable (Replaceable s c) :=
  inferInstanceAs (Decidable (Eligible _ _))

/-- `sched_reschedule` selects a thread. -/
def Selects (s : State n) (c : Fin (n + 1)) : Prop :=
  ((advance_insidx (s.cpus c).sched_data).sched_select_thread (setThread s (s.cpus c).current_thread
      (charge_tick (s.cpus c).ticks (s.threads (s.cpus c).current_thread))).pinned
    (some (chargedFilter s c)) false).isSome = true

instance (s : State n) (c : Fin (n + 1)) : Decidable (Selects s c) :=
  inferInstanceAs (Decidable (_ = true))

theorem selects_iff (hwf : (s.cpus c).sched_data.Wf) : Selects s c ↔ Replaceable s c := by
  have hnone := sched_select_thread_eq_none ((advance_insidx_moves (s.cpus c)).wf hwf)
    (setThread s (s.cpus c).current_thread
      (charge_tick (s.cpus c).ticks (s.threads (s.cpus c).current_thread))).pinned
    (chargedFilter s c)
  rw [show ((s.cpus c).setQueues (advance_insidx (s.cpus c).sched_data)).sched_data =
    advance_insidx (s.cpus c).sched_data from rfl, advance_insidx_eligible] at hnone
  unfold Selects Replaceable
  rw [Option.isSome_iff_ne_none, Ne, hnone, not_not]

/-- What `sched_reschedule` does to its CPU: if it selects a thread, that
becomes the next thread, and the one that was it is lost. -/
structure Reschedules (s s' : State n) (c : Fin (n + 1)) : Prop where
  ne : ∀ d, d ≠ c → s'.cpus d = s.cpus d
  moves : Moves (s.cpus c) (s'.cpus c) (fun _ => 0)
    (fun td => if Selects s c then (s.cpus c).next td else 0)
  current : (s'.cpus c).current_thread = (s.cpus c).current_thread
  next_isSome : Selects s c → (s'.cpus c).next_thread.isSome
  next_eq : ¬ Selects s c → (s'.cpus c).next_thread = (s.cpus c).next_thread

section
variable (s : State n) (c : Fin (n + 1))

theorem sched_reschedule_reschedules : Reschedules s (sched_reschedule s c) c := by
  have hadvance := advance_insidx_moves (s.cpus c)
  unfold sched_reschedule
  dsimp only
  split
  · next newtd sd hsel =>
    have hselects : Selects s c := by
      unfold Selects chargedFilter
      rw [hsel]
      rfl
    -- selected from the queues with the new insert index
    have hmoves : Moves (s.cpus c) ((s.cpus c).setQueues sd) (fun _ => 0)
        (fun td => if td = newtd then 1 else 0) := by
      have hsel' := @select_moves n (setCpu s c ((s.cpus c).setQueues
        (advance_insidx (s.cpus c).sched_data))) c _ _ _ newtd sd (by rw [setCpu_self]; exact hsel)
      rw [setCpu_self] at hsel'
      exact hadvance.trans hsel' fun k => Nat.add_comm _ _
    refine ⟨fun d hd => ?_, ?_, ?_, fun _ => ?_, fun hno => absurd hselects hno⟩
    · rw [setCpu_ne _ _ hd, setThread_cpus]
    · rw [setCpu_self]
      refine ⟨fun k => ?_, hmoves.wf, hmoves.defect⟩
      have h := hmoves.holds k
      simp only [hselects, if_true]
      unfold CpuLocal.holds CpuLocal.off at h ⊢
      rw [CpuLocal.on_setNext, @CpuLocal.next_eq n (((s.cpus c).setQueues sd).setNext (some newtd))
        newtd rfl]
      have hnext : ((s.cpus c).setQueues sd).next (.thread k) = (s.cpus c).next (.thread k) := rfl
      rw [hnext] at h
      show _ + (_ + ((s.cpus c).setQueues sd).sched_data.count _) + _ = _
      omega
    all_goals
      rw [setCpu_self]
      rfl
  · next hsel =>
    have hselects : ¬ Selects s c := by
      unfold Selects chargedFilter
      rw [hsel]
      exact Bool.false_ne_true
    refine ⟨fun d hd => ?_, ?_, ?_, fun hyes => absurd hyes hselects, fun _ => ?_⟩
    · rw [setCpu_ne _ _ hd, setThread_cpus]
    · rw [setCpu_self]
      simp only [hselects, if_false]
      exact hadvance
    all_goals
      rw [setCpu_self]
      rfl

/-- `CORE_LOCAL->preemption_reason = PREEMPT_NONE` in `dispatch_dpc`. -/
def clear_reason : State n :=
  setCpu s c { s.cpus c with preemption_reason := .none }

/-- The switch at the end of `dispatch_dpc`. -/
def switch_next : State n :=
  match (s.cpus c).next_thread with
  | some next => sched_switch s c (s.cpus c).current_thread next
  | none => s

/-- `dispatch_dpc`, with nothing in the DPC queue. -/
def dispatch_dpc : State n :=
  let preempt_reason := (s.cpus c).preemption_reason
  let s :=
    if preempt_reason = .quantumEnd ∨ preempt_reason = .migration then sched_reschedule s c else s
  switch_next (clear_reason s c) c

/-- The dispatch reschedules. -/
def Asks : Prop :=
  (s.cpus c).preemption_reason = .quantumEnd ∨ (s.cpus c).preemption_reason = .migration

end

instance (s : State n) (c : Fin (n + 1)) : Decidable (Asks s c) :=
  inferInstanceAs (Decidable (_ ∨ _))

/-- What a dispatch does to its CPU. It switches if there is a next thread or
if it reschedules and selects one; in the second case a next thread that
was there before is lost. -/
structure Dispatches (s s' : State n) (c : Fin (n + 1)) : Prop where
  ne : ∀ d, d ≠ c → s'.cpus d = s.cpus d
  moves : Moves (s.cpus c) (s'.cpus c) (fun _ => 0) (fun td =>
    (if Asks s c ∧ Selects s c then (s.cpus c).next td else 0) +
    (if (Asks s c ∧ Selects s c) ∨ (s.cpus c).next_thread ≠ none then leaves s c td
      else 0))

theorem switch_next_cpus_ne (s : State n) (hd : d ≠ c) : (switch_next s c).cpus d = s.cpus d := by
  unfold switch_next
  split
  · exact sched_switch_cpus_ne s _ _ hd
  · rfl

section
variable (s : State n) (c : Fin (n + 1))

theorem switch_next_moves : Moves (s.cpus c) ((switch_next s c).cpus c) (fun _ => 0)
      (fun td => if (s.cpus c).next_thread ≠ none then leaves s c td else 0) := by
  unfold switch_next
  cases hnext : (s.cpus c).next_thread with
  | none =>
    simp only [ne_eq, not_true_eq_false, if_false]
    exact .refl _
  | some x =>
    refine (sched_switch_moves s c x).net fun k => ?_
    rw [CpuLocal.next_eq hnext]
    simp only [ne_eq, reduceCtorEq, not_false_eq_true, if_true]
    omega

theorem clear_reason_cpus :
    (clear_reason s c).cpus c = { s.cpus c with preemption_reason := .none } := setCpu_self _ _ _

theorem dispatch_dpc_dispatches : Dispatches s (dispatch_dpc s c) c := by
  -- after the reschedule, if there is one
  have hfirst : ∃ s₁ : State n, (if Asks s c then sched_reschedule s c else s) = s₁ ∧
      (∀ d, d ≠ c → s₁.cpus d = s.cpus d) ∧
      Moves (s.cpus c) (s₁.cpus c) (fun _ => 0)
        (fun td => if Asks s c ∧ Selects s c then (s.cpus c).next td else 0) ∧
      (∀ td, leaves s₁ c td = leaves s c td) ∧
      ((s₁.cpus c).next_thread ≠ none ↔
        (Asks s c ∧ Selects s c) ∨ (s.cpus c).next_thread ≠ none) := by
    by_cases hasks : Asks s c
    · have hre := sched_reschedule_reschedules s c
      refine ⟨sched_reschedule s c, if_pos hasks, hre.ne, ?_, ?_, ?_⟩
      · simp only [hasks, true_and]
        exact hre.moves
      · apply leaves_congr hre.current
        rw [sched_reschedule_threads, Function.update_self]
        exact (charge_tick_keeps _).state _
      · by_cases hselects : Selects s c
        · have hsome := hre.next_isSome hselects
          simp only [hasks, hselects, true_and, true_or, iff_true]
          intro hnone
          rw [hnone] at hsome
          cases hsome
        · rw [hre.next_eq hselects]
          simp [hselects]
    · refine ⟨s, if_neg hasks, fun _ _ => rfl, ?_, fun _ => rfl, by simp [hasks]⟩
      simp only [hasks, false_and, if_false]
      exact .refl _
  obtain ⟨s₁, hs₁, hne, hmoves, hleaves, hnext⟩ := hfirst
  have heq : dispatch_dpc s c = switch_next (clear_reason s₁ c) c := by
    rw [← hs₁]
    rfl
  have hswitch := switch_next_moves (clear_reason s₁ c) c
  have hleaves' := @leaves_congr n s₁ (clear_reason s₁ c) c (by rw [clear_reason_cpus]) rfl
  rw [heq]
  rw [clear_reason_cpus] at hswitch
  constructor
  · intro d hd
    rw [switch_next_cpus_ne _ hd, clear_reason, setCpu_ne _ _ hd, hne d hd]
  · refine ⟨fun k => ?_, fun hwf => hswitch.wf (hmoves.wf hwf), hswitch.defect.trans hmoves.defect⟩
    have h1 := hmoves.holds k
    have h2 : ((switch_next (clear_reason s₁ c) c).cpus c).holds (.thread k) +
        (if (s₁.cpus c).next_thread ≠ none then leaves s c (.thread k) else 0) =
        (s₁.cpus c).holds (.thread k) := by
      rw [← hleaves, ← hleaves']
      exact hswitch.holds k
    simp only [hnext] at h2
    omega

end

/-! ### The three steps of a dispatch -/

section
variable (s : State n) (c : Fin (n + 1))

theorem setCpu_setCpu (cpu cpu' : CpuLocal n) :
    setCpu (setCpu s c cpu) c cpu' = setCpu s c cpu' := by
  simp [setCpu]

/-- The state with CPU `c` at another place in `dispatch_dpc`. -/
def setDpc (dpc : DpcPhase) : State n :=
  setCpu s c { s.cpus c with dpc := dpc }

theorem setDpc_cpus (dpc : DpcPhase) :
    (setDpc s c dpc).cpus c = { s.cpus c with dpc := dpc } := setCpu_self _ _ _

theorem setDpc_setDpc (x y : DpcPhase) : setDpc (setDpc s c x) c y = setDpc s c y := by
  unfold setDpc
  rw [setCpu_setCpu, setCpu_self]

end

theorem setDpc_eq (h : (s.cpus c).dpc = x) : setDpc s c x = s := by
  subst h
  unfold setDpc setCpu
  rw [Function.update_eq_self]

section
variable (s : State n) (c : Fin (n + 1)) (x : DpcPhase)

theorem setCpu_setDpc (td : Tid n) (t : Thread n)
    (cpu : CpuLocal n) : setCpu (setThread (setDpc s c x) td t) c { cpu with dpc := x } =
      setDpc (setCpu (setThread s td t) c cpu) c x := by
  have hthread : ∀ cpu', setThread (setCpu s c cpu') td t = setCpu (setThread s td t) c cpu' :=
    fun _ => rfl
  unfold setDpc
  rw [hthread, setCpu_setCpu, setCpu_setCpu, setCpu_self]

theorem sched_reschedule_setDpc :
    sched_reschedule (setDpc s c x) c = setDpc (sched_reschedule s c) c x := by
  have hthreads : (setDpc s c x).threads = s.threads := rfl
  have hpinned : ∀ td t, (setThread (setDpc s c x) td t).pinned = (setThread s td t).pinned :=
    fun _ _ => rfl
  unfold sched_reschedule
  rw [setDpc_cpus, hthreads]
  dsimp only
  rw [hpinned]
  split
  · exact setCpu_setDpc s c x _ _ (((s.cpus c).setQueues _).setNext (some _))
  · exact setCpu_setDpc s c x _ _ ((s.cpus c).setQueues _)

theorem sched_insert_in_queue_setDpc (td : Tid n) :
    sched_insert_in_queue (setDpc s c x) c td = setDpc (sched_insert_in_queue s c td) c x := by
  have hthreads : (setDpc s c x).threads = s.threads := rfl
  unfold sched_insert_in_queue
  rw [setDpc_cpus, hthreads]
  exact setCpu_setDpc s c x td _ ((s.cpus c).setQueues _)

theorem sched_switch_setDpc (cur next : Tid n) :
    sched_switch (setDpc s c x) c cur next = setDpc (sched_switch s c cur next) c x := by
  have hto : ∀ s : State n, switch_to (setDpc s c x) c next = setDpc (switch_to s c next) c x := by
    intro s
    have hthreads : (setDpc s c x).threads = s.threads := rfl
    unfold switch_to
    rw [setDpc_cpus, hthreads]
    exact setCpu_setDpc s c x next _ { s.cpus c with
      current_thread := next
      next_thread := none
      current_thread_status :=
        status_byte { s.threads next with state := .running, last_cpu := some c } }
  have hback : put_back (setDpc s c x) c cur = setDpc (put_back s c cur) c x := by
    unfold put_back
    by_cases hr : cur ≠ .idle c ∧ (s.threads cur).state = .running
    · have hr' : cur ≠ .idle c ∧ ((setDpc s c x).threads cur).state = .running := hr
      rw [if_pos hr, if_pos hr', sched_insert_in_queue_setDpc]
    · have hr' : ¬ (cur ≠ .idle c ∧ ((setDpc s c x).threads cur).state = .running) := hr
      rw [if_neg hr, if_neg hr']
  unfold sched_switch
  rw [hback, hto]

theorem switch_next_setDpc : switch_next (setDpc s c x) c = setDpc (switch_next s c) c x := by
  unfold switch_next
  rw [setDpc_cpus]
  dsimp only
  split
  · exact sched_switch_setDpc s c x _ _
  · rfl

theorem clear_reason_setDpc : clear_reason (setDpc s c x) c = setDpc (clear_reason s c) c x := by
  unfold clear_reason
  rw [setDpc_cpus]
  unfold setDpc
  rw [setCpu_setCpu, setCpu_setCpu, setCpu_self]

end

theorem dispatch_dpc_steps (h : (s.cpus c).dpc = .out) :
    exec (system n) s [.dispatch_enter c, .dispatch_reschedule c, .dispatch_switch c] =
      some (dispatch_dpc s c) := by
  have henter : step s (.dispatch_enter c) =
      some (setDpc s c (.queue (s.cpus c).preemption_reason)) := by
    unfold step
    dsimp only
    rw [if_pos h]
    rfl
  let s₁ := if Asks s c then sched_reschedule s c else s
  have hre : step (setDpc s c (.queue (s.cpus c).preemption_reason)) (.dispatch_reschedule c) =
      some (setDpc (clear_reason s₁ c) c .switch) := by
    unfold step
    dsimp only
    rw [setDpc_cpus]
    dsimp only
    have hif : (if (s.cpus c).preemption_reason = .quantumEnd ∨
          (s.cpus c).preemption_reason = .migration
        then sched_reschedule (setDpc s c (.queue (s.cpus c).preemption_reason)) c
        else setDpc s c (.queue (s.cpus c).preemption_reason)) =
        setDpc s₁ c (.queue (s.cpus c).preemption_reason) := by
      rw [sched_reschedule_setDpc]
      by_cases hasks : (s.cpus c).preemption_reason = .quantumEnd ∨
          (s.cpus c).preemption_reason = .migration
      · rw [if_pos hasks, show s₁ = sched_reschedule s c from if_pos hasks]
      · rw [if_neg hasks, show s₁ = s from if_neg hasks]
    rw [hif, setDpc_cpus]
    unfold setDpc clear_reason
    rw [setCpu_setCpu, setCpu_setCpu, setCpu_self]
  have hsw : step (setDpc (clear_reason s₁ c) c .switch) (.dispatch_switch c) =
      some (setDpc (switch_next (clear_reason s₁ c) c) c .out) := by
    unfold step
    dsimp only
    rw [if_pos (by rw [setDpc_cpus])]
    show some (setDpc (switch_next (setDpc (clear_reason s₁ c) c .switch) c) c .out) = _
    rw [switch_next_setDpc, setDpc_setDpc]
  -- the CPU was outside before, and nothing else writes where it is
  have hs : setDpc s c .out = s := setDpc_eq h
  have hs₁ : setDpc s₁ c .out = s₁ := by
    by_cases hasks : Asks s c
    · rw [show s₁ = sched_reschedule s c from if_pos hasks, ← sched_reschedule_setDpc, hs]
    · rw [show s₁ = s from if_neg hasks, hs]
  have hout : setDpc (switch_next (clear_reason s₁ c) c) c .out =
      switch_next (clear_reason s₁ c) c := by
    rw [← switch_next_setDpc, ← clear_reason_setDpc, hs₁]
  have hrun : exec (system n) s [.dispatch_enter c, .dispatch_reschedule c, .dispatch_switch c] =
      some (setDpc (switch_next (clear_reason s₁ c) c) c .out) := by
    simp only [exec, execBy, if_true, system, henter, hre, hsw]
  rw [hrun, hout]
  rfl

end Ule
