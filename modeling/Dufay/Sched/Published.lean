import Dufay.Sched.Classes

/-! # The published status of a CPU

`sched_switch` of `core/sched/ule.c` stashes the priority and the
interactivity of the thread it switches to in `current_thread_status`,
so that other CPUs can decide on a preemption without a look at the
thread. Only a switch writes the byte, but two operations write what it
was made from: the tick recomputes the priority of the thread that is
running, and `sched_wake` that of the thread it wakes, which may still be
running between its commit and its wait.
-/

open Lts

namespace Ule

variable {n : Nat} {s s' : State n} {c : Fin (n + 1)}

/-! ### The byte -/

/-- What `sched_switch` publishes of a thread. -/
def Thread.rank (t : Thread n) : Fin 64 × Bool := (t.priority, t.interactive)

theorem rank_of_attributes {t t' : Thread n} (h : t'.attributes = t.attributes) :
    t'.rank = t.rank := by
  have hpriority : t'.priority = t.priority := congrArg Attributes.priority h
  have hinteractive : t'.interactive = t.interactive := congrArg Attributes.interactive h
  unfold Thread.rank
  rw [hpriority, hinteractive]

/-- The byte for a priority and an interactivity. -/
def encode (rank : Fin 64 × Bool) : UInt8 :=
  ((UInt8.ofNat rank.1.val &&& 0x7F) <<< 1) ||| (if rank.2 then 1 else 0)

theorem status_byte_eq : status_byte t = encode t.rank := rfl

theorem encode_decode : ∀ rank : Fin 64 × Bool,
    ((encode rank >>> 1) &&& 0x7F).toNat = rank.1.val ∧ (encode rank &&& 1 != 0) = rank.2 := by
  decide +kernel

theorem status_byte_inj (t t' : Thread n) : status_byte t = status_byte t' ↔ t.rank = t'.rank := by
  rw [status_byte_eq, status_byte_eq]
  constructor
  · intro h
    obtain ⟨hpriority, hinteractive⟩ := encode_decode t.rank
    obtain ⟨hpriority', hinteractive'⟩ := encode_decode t'.rank
    rw [h] at hpriority hinteractive
    exact Prod.ext (Fin.ext (hpriority.symm.trans hpriority'))
      (hinteractive.symm.trans hinteractive')
  · exact congrArg encode

/-! ### Preemption -/

/-- The byte of the CPU is that of the thread it runs. -/
def Published (s : State n) (c : Fin (n + 1)) : Prop :=
  (s.cpus c).current_thread_status = status_byte (s.threads (s.cpus c).current_thread)

/-- Whether `td` should preempt a CPU that runs `current`: an idle thread
always, a timeshared thread if `td` is interactive, and otherwise with a
realtime priority above that of `current`. -/
def Thread.preempts (td current : Thread n) : Bool :=
  let prio := current.priority.val
  let batch := PRIO_LOW_BATCH ≤ prio && prio ≤ PRIO_HIGH_BATCH
  if prio = PRIO_IDLE then true
  else if batch && !current.interactive && td.interactive then true
  else decide (PRIO_REALTIME ≤ td.priority.val) && decide (prio < td.priority.val)

theorem Published.should_preempt (h : Published s c) (td : Thread n) :
    should_preempt td (s.cpus c) = td.preempts (s.threads (s.cpus c).current_thread) := by
  obtain ⟨hpriority, hinteractive⟩ := encode_decode (s.threads (s.cpus c).current_thread).rank
  unfold Ule.should_preempt PRIO_IS_BATCH
  rw [h, status_byte_eq]
  simp only [hpriority, hinteractive]
  rfl

/-! ### Publishing -/

theorem Published.frame (h : Published s d) (hframe : Frame s s') : Published s' d := by
  unfold Published
  rw [hframe.current_thread, hframe.current_thread_status, h, status_byte_inj]
  exact (rank_of_attributes (hframe.relocates.attributes _)).symm

theorem Published.setThread (h : Published s d)
    (ht : t.attributes = (s.threads td).attributes) : Published (setThread s td t) d := by
  unfold Published
  rw [setThread_cpus, h, status_byte_inj]
  exact (rank_of_attributes (setThread_attributes _ ht)).symm

theorem Published.sched_switch (h : ∀ d, Published s d) (c : Fin (n + 1)) (cur next : Tid n)
    (d : Fin (n + 1)) : Published (sched_switch s c cur next) d := by
  have hattr := (sched_switch_relocates s c cur next).attributes
  have hback := put_back_frame s c cur
  by_cases hd : d = c
  · subst hd
    unfold Published Ule.sched_switch switch_to
    rw [setCpu_self, setCpu_threads, setThread_self]
  · have hcpu : (Ule.sched_switch s c cur next).cpus d = (put_back s c cur).cpus d := setCpu_ne _ _ hd
    unfold Published
    rw [hcpu, hback.current_thread, hback.current_thread_status, h d, status_byte_inj]
    exact (rank_of_attributes (hattr _)).symm

/-- The thread that a tick is charged to, or that is woken while it still
runs, keeps its priority and its interactivity. -/
def KeepsRank (s : State n) : Action n → Prop
  | .dispatch_reschedule c =>
    (s.cpus c).dpc = .queue .quantumEnd ∨ (s.cpus c).dpc = .queue .migration →
      let t := s.threads (s.cpus c).current_thread
      (charge_tick (s.cpus c).ticks t).rank = t.rank
  | .sched_wake c k =>
    (∃ d, (s.cpus d).current_thread = .thread k) →
      let t := s.threads (.thread k)
      (wake_attributes (s.cpus c).ticks { t with wait_status := .satisfied }).rank = t.rank
  | _ => True

theorem sched_reschedule_current (s : State n) (c d : Fin (n + 1)) :
    ((sched_reschedule s c).cpus d).current_thread = (s.cpus d).current_thread ∧
      ((sched_reschedule s c).cpus d).current_thread_status = (s.cpus d).current_thread_status := by
  unfold sched_reschedule
  dsimp only
  by_cases hd : d = c
  · subst hd
    split
    all_goals
      rw [setCpu_self]
      exact ⟨rfl, rfl⟩
  · split
    all_goals
      rw [setCpu_ne _ _ hd]
      exact ⟨rfl, rfl⟩

theorem published_reschedule_iff (h : ∀ d, Published s d) (c : Fin (n + 1)) :
    (∀ d, Published (sched_reschedule s c) d) ↔
      (charge_tick (s.cpus c).ticks (s.threads (s.cpus c).current_thread)).rank =
        (s.threads (s.cpus c).current_thread).rank := by
  have hcur := sched_reschedule_current s c
  have hiff : ∀ d, Published (sched_reschedule s c) d ↔ (s.threads (s.cpus d).current_thread).rank =
        ((sched_reschedule s c).threads (s.cpus d).current_thread).rank := by
    intro d
    unfold Published
    rw [(hcur d).1, (hcur d).2, h d, status_byte_inj]
  simp only [hiff, sched_reschedule_threads]
  constructor
  · intro hall
    have hc := hall c
    rw [Function.update_self] at hc
    exact hc.symm
  · intro hrank d
    by_cases hd : (s.cpus d).current_thread = (s.cpus c).current_thread
    · rw [hd, Function.update_self]
      exact hrank.symm
    · rw [Function.update_of_ne hd]

theorem published_wake_iff (h : ∀ d, Published s d) :
    (∀ d, Published (sched_wake s c (.thread k)) d) ↔ KeepsRank s (.sched_wake c k) := by
  let t := wake_attributes (s.cpus c).ticks { s.threads (.thread k) with wait_status := .satisfied }
  have hframe : Frame (setThread s (.thread k) t) (sched_wake s c (.thread k)) :=
    sched_ready_frame _ _
  have hiff : ∀ d, Published (sched_wake s c (.thread k)) d ↔
      (s.threads (s.cpus d).current_thread).rank =
        ((setThread s (.thread k) t).threads (s.cpus d).current_thread).rank := by
    intro d
    unfold Published
    rw [hframe.current_thread, hframe.current_thread_status, setThread_cpus, h d, status_byte_inj,
      rank_of_attributes (hframe.relocates.attributes _)]
  simp only [hiff]
  constructor
  · intro hall ⟨d, hd⟩
    have hrank := hall d
    rw [hd, setThread_self] at hrank
    exact hrank.symm
  · intro hkeeps d
    by_cases hd : (s.cpus d).current_thread = .thread k
    · rw [hd, setThread_self]
      exact (hkeeps ⟨d, hd⟩).symm
    · rw [setThread_ne _ _ hd]

theorem published_setCpu_iff (hcur : cpu.current_thread = (s.cpus c).current_thread)
    (hstatus : cpu.current_thread_status = (s.cpus c).current_thread_status) :
    Published (setCpu s c cpu) d ↔ Published s d := by
  unfold Published
  rw [setCpu_threads, setCpu_congr s (·.current_thread) hcur,
    setCpu_congr s (·.current_thread_status) hstatus]

theorem Published.setCpu (h : Published s d) (hcur : cpu.current_thread = (s.cpus c).current_thread)
    (hstatus : cpu.current_thread_status = (s.cpus c).current_thread_status) :
    Published (setCpu s c cpu) d :=
  (published_setCpu_iff hcur hstatus).mpr h

theorem published_dispatch_iff (h : ∀ d, Published s d)
    (hstep : step s (.dispatch_reschedule c) = some s') :
    (∀ d, Published s' d) ↔ KeepsRank s (.dispatch_reschedule c) := by
  simp only [step] at hstep
  split at hstep
  · next reason hdpc =>
    obtain rfl := Option.some.inj hstep
    by_cases hreason : reason = .quantumEnd ∨ reason = .migration
    · have hcharged : (s.cpus c).dpc = .queue .quantumEnd ∨ (s.cpus c).dpc = .queue .migration := by
        rw [hdpc]
        exact hreason.imp (congrArg _) (congrArg _)
      rw [if_pos hreason]
      simp only [published_setCpu_iff]
      rw [published_reschedule_iff h c]
      exact ⟨fun hrank _ => hrank, fun hkeeps => hkeeps hcharged⟩
    · rw [if_neg hreason]
      refine iff_of_true (fun d => (h d).setCpu rfl rfl) ?_
      intro hcharged
      rw [hdpc] at hcharged
      exact absurd (hcharged.imp DpcPhase.queue.inj DpcPhase.queue.inj) hreason
  · exact absurd hstep (Option.some_ne_none _).symm

/-- **One step**: it keeps what is published exactly if it keeps the rank of
the threads that run. -/
theorem published_step_iff (h : ∀ d, Published s d) (hstep : step s a = some s') :
    (∀ d, Published s' d) ↔ KeepsRank s a := by
  cases a with
  | sched_wake c k =>
    cases steps_of_step hstep
    exact published_wake_iff h
  | dispatch_reschedule c => exact published_dispatch_iff h hstep
  | sched_ready k =>
    cases steps_of_step hstep
    have hset : ∀ d, Published (setThread s (.thread k)
        { s.threads (.thread k) with readied := true }) d := fun d => (h d).setThread rfl
    exact iff_of_true (fun d => (hset d).frame (sched_ready_frame _ _)) trivial
  | commit_wait c =>
    cases steps_of_step hstep
    exact iff_of_true (fun d => (h d).setThread rfl) trivial
  | sched_wait c =>
    cases steps_of_step hstep
    exact iff_of_true (fun d => (h d).setThread rfl) trivial
  | sched_yield c =>
    cases steps_of_step hstep
    refine iff_of_true (fun d => ?_) trivial
    unfold Ule.sched_yield
    dsimp only
    split
    · refine .sched_switch (fun d => ?_) c _ _ d
      exact (h d).setCpu rfl rfl
    · exact .sched_switch h c _ _ d
  | hardclock c =>
    cases steps_of_step hstep
    exact iff_of_true (fun d => (h d).setCpu rfl rfl) trivial
  | dispatch_enter c =>
    cases steps_of_step hstep
    exact iff_of_true (fun d => (h d).setCpu rfl rfl) trivial
  | dispatch_switch c =>
    refine iff_of_true (fun d => ?_) trivial
    cases steps_of_step hstep with
    | switch _ => exact (Published.sched_switch h c _ _ d).setCpu rfl rfl
    | no_switch => exact (h d).setCpu rfl rfl
  | balance_load =>
    cases steps_of_step hstep
    exact iff_of_true (fun d => (h d).frame (balance_load_frame s)) trivial
  | idle_steal c =>
    cases steps_of_step hstep
    exact iff_of_true (fun d => (h d).frame (idle_steal_frame s c)) trivial

/-! ### Every run -/

theorem Init.published (h : Init s) (d : Fin (n + 1)) : Published s d := by
  obtain ⟨ticks, hcpu⟩ := h.cpu d
  unfold Published
  rw [hcpu]
  show 0 = status_byte (s.threads (.idle d))
  rw [h.idle, status_byte_eq]
  show 0 = encode (0, false)
  decide

/-- **The published status is that of the current thread**, in every run in
which the threads that run keep their rank, and `should_preempt` decides
with the priority and the interactivity of the thread that runs. The
first step that does not meet the condition breaks it. -/
theorem published_of_keepsRank (hs : ReachableBy (system n) KeepsRank s) : (∀ c, Published s c) ∧
      (∀ c td, should_preempt td (s.cpus c) = td.preempts (s.threads (s.cpus c).current_thread)) ∧
      ∀ a s', step s a = some s' → ((∀ c, Published s' c) ↔ KeepsRank s a) := by
  have hall : ∀ c, Published s c := by
    refine ReachableBy.invariant (fun (s : State n) (h : Init s) => h.published) ?_ hs
    exact fun s a s' h hok hstep => (published_step_iff h hstep).mpr hok
  exact ⟨hall, fun c td => (hall c).should_preempt td, fun a s' => published_step_iff hall⟩

instance KeepsRank.decidable (s : State n) (a : Action n) : Decidable (KeepsRank s a) :=
  match a with
  | .sched_ready .. | .commit_wait .. | .sched_wait .. | .sched_yield .. | .sched_wake ..
  | .hardclock .. | .dispatch_enter .. | .dispatch_reschedule .. | .dispatch_switch ..
  | .balance_load | .idle_steal .. => by
    unfold KeepsRank
    infer_instance

theorem published_of_keepsRank_wokenRun :
    ∃ s : State 0, execBy (system 0) KeepsRank bootAll (wokenRun 0) = some s ∧
      (s.threads (s.cpus 0).current_thread).interactive = true ∧ Published s 0 := by
  refine run_imp (fun s => (s.threads (s.cpus 0).current_thread).interactive = true)
    (by decide +kernel) fun s hs hinteractive => ⟨hinteractive, ?_⟩
  exact (published_of_keepsRank (.of_execBy (.init bootAll_init) hs)).1 0

/-- Thread 0, which is interactive, has run for a tick and is timeshared
again. Its CPU still publishes an interactive thread, so an interactive
thread does not preempt it. -/
theorem published_stale : ∃ s : State 0, exec (system 0) bootAll
        (wokenRun 0 ++ [.hardclock 0, .dispatch_enter 0, .dispatch_reschedule 0]) = some s ∧
      Reachable (system 0) s ∧ ¬ Published s 0 ∧
      ∃ td : Thread 0, should_preempt td (s.cpus 0) = false ∧
        td.preempts (s.threads (s.cpus 0).current_thread) = true := by
  let td : Thread 0 := { make_kernel_thread with priority := 27, interactive := true }
  refine run_imp (fun s => should_preempt td (s.cpus 0) = false ∧
      td.preempts (s.threads (s.cpus 0).current_thread) = true)
    (by decide +kernel) fun s hs h => ⟨.of_exec bootAll_init hs, ?_, td, h⟩
  intro hpublished
  rw [hpublished.should_preempt, h.2] at h
  exact absurd h.1 nofun

end Ule
