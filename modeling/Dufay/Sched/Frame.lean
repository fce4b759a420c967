import Dufay.Sched.Ule

/-! # What moving threads leaves alone

Queueing, preempting and balancing change the queues and the next threads
of CPUs. They do not touch the clocks and what the CPUs run (`Frame`), and
of a thread they change its place only: `state`, `runq` and, in a switch,
`last_cpu` (`Relocates`).
-/

namespace Ule

variable {n : Nat} {s s' : State n} {c : Fin (n + 1)}

/-! ### Threads -/

/-- The thread, up to where it is. -/
def Thread.Relocated (t t' : Thread n) : Prop :=
  ∃ state runq last_cpu, t' = { t with state := state, runq := runq, last_cpu := last_cpu }

theorem Thread.Relocated.refl (t : Thread n) : t.Relocated t := ⟨t.state, t.runq, t.last_cpu, rfl⟩

theorem Thread.Relocated.trans {t : Thread n} (h : t.Relocated t') (h' : t'.Relocated t'') :
    t.Relocated t'' := by
  obtain ⟨_, _, _, rfl⟩ := h
  obtain ⟨state, runq, last_cpu, rfl⟩ := h'
  exact ⟨state, runq, last_cpu, rfl⟩

/-- All threads are the same up to their places. -/
def Relocates (s s' : State n) : Prop := ∀ td, (s.threads td).Relocated (s'.threads td)

theorem Relocates.refl (s : State n) : Relocates s s := fun _ => .refl _

theorem Relocates.trans (h : Relocates s s') (h' : Relocates s' s'') :
    Relocates s s'' := fun td => (h td).trans (h' td)

theorem Relocates.setCpu (s : State n) (c : Fin (n + 1)) (cpu : CpuLocal n) :
    Relocates s (setCpu s c cpu) := fun _ => .refl _

theorem Relocates.setThread (ht : (s.threads td).Relocated t) : Relocates s (setThread s td t) := by
  intro x
  by_cases hx : x = td
  · rw [hx, setThread_self]
    exact ht
  · rw [setThread_ne _ _ hx]
    exact .refl _

/-! ### CPUs -/

/-- The CPUs count and run what they did, and threads change their places
only. -/
structure Frame (s s' : State n) : Prop where
  ticks : ∀ d, (s'.cpus d).ticks = (s.cpus d).ticks
  current_thread : ∀ d, (s'.cpus d).current_thread = (s.cpus d).current_thread
  current_thread_status : ∀ d, (s'.cpus d).current_thread_status = (s.cpus d).current_thread_status
  relocates : Relocates s s'

theorem Frame.refl (s : State n) : Frame s s := ⟨fun _ => rfl, fun _ => rfl, fun _ => rfl, .refl s⟩

theorem Frame.trans (h : Frame s s') (h' : Frame s' s'') : Frame s s'' where
  ticks d := (h'.ticks d).trans (h.ticks d)
  current_thread d := (h'.current_thread d).trans (h.current_thread d)
  current_thread_status d := (h'.current_thread_status d).trans (h.current_thread_status d)
  relocates := h.relocates.trans h'.relocates

theorem Frame.setCpu (hticks : cpu.ticks = (s.cpus c).ticks)
    (hcur : cpu.current_thread = (s.cpus c).current_thread)
    (hstatus : cpu.current_thread_status = (s.cpus c).current_thread_status) :
    Frame s (setCpu s c cpu) :=
  ⟨setCpu_congr s (·.ticks) hticks, setCpu_congr s (·.current_thread) hcur,
    setCpu_congr s (·.current_thread_status) hstatus, .setCpu s c cpu⟩

theorem Frame.setThread (ht : (s.threads td).Relocated t) : Frame s (setThread s td t) :=
  ⟨fun _ => rfl, fun _ => rfl, fun _ => rfl, .setThread ht⟩

/-! ### The operations -/

theorem sched_insert_in_queue_frame : Frame s (sched_insert_in_queue s c td) := by
  unfold sched_insert_in_queue
  refine .trans (.setCpu ?_ ?_ ?_) (.setThread ?_)
  · rfl
  · rfl
  · rfl
  · exact ⟨.ready, runq_of (s.threads td) c, (s.threads td).last_cpu, rfl⟩

theorem sched_try_preempt_frame : Frame s (sched_try_preempt s c td) := by
  unfold sched_try_preempt
  dsimp only
  split
  · have hnext : Frame s (Ule.setCpu s c
        { (s.cpus c).setNext (some td) with preemption_reason := .higherPriority }) :=
      .setCpu rfl rfl rfl
    split
    · exact hnext.trans (sched_insert_in_queue_frame)
    · exact hnext
  · exact sched_insert_in_queue_frame

theorem sched_ready_frame (s : State n) (td : Tid n) : Frame s (sched_ready s td) :=
  sched_try_preempt_frame

theorem migrate_thread_frame (h : migrate_thread s most dest = some s') : Frame s s' := by
  unfold migrate_thread at h
  dsimp only at h
  split at h
  · obtain rfl := Option.some.inj h
    refine .trans (.setCpu ?_ ?_ ?_) (sched_try_preempt_frame)
    all_goals rfl
  · exact absurd h nofun

theorem balance_load_frame (s : State n) : Frame s (balance_load s) :=
  balance_load_loop_keeps (fun h hm => h.trans (migrate_thread_frame hm)) (.refl s) _

theorem idle_steal_frame (s : State n) (c : Fin (n + 1)) : Frame s (idle_steal s c) :=
  idle_steal_keeps (fun h hm => h.trans (migrate_thread_frame hm)) (.refl s) c

theorem put_back_frame (s : State n) (c : Fin (n + 1)) (cur : Tid n) :
    Frame s (put_back s c cur) := by
  unfold put_back
  split
  · exact sched_insert_in_queue_frame
  · exact .refl s

/-! ### Switches -/

theorem sched_switch_ticks (s : State n) (c : Fin (n + 1)) (cur next : Tid n) (d : Fin (n + 1)) :
    ((sched_switch s c cur next).cpus d).ticks = (s.cpus d).ticks := by
  refine Eq.trans ?_ ((put_back_frame s c cur).ticks d)
  unfold sched_switch switch_to
  exact setCpu_congr _ (·.ticks) (by rfl) d

theorem sched_switch_relocates (s : State n) (c : Fin (n + 1)) (cur next : Tid n) :
    Relocates s (sched_switch s c cur next) := by
  refine (put_back_frame s c cur).relocates.trans ?_
  exact .setThread ⟨.running, _, some c, rfl⟩

theorem sched_yield_ticks (s : State n) (c d : Fin (n + 1)) :
    ((sched_yield s c).cpus d).ticks = (s.cpus d).ticks := by
  unfold sched_yield
  dsimp only
  split
  · next sd _ =>
    have hqueues : Frame s (setCpu s c ((s.cpus c).setQueues sd)) := .setCpu rfl rfl rfl
    exact (sched_switch_ticks ..).trans (hqueues.ticks d)
  · exact sched_switch_ticks ..

theorem sched_yield_relocates (s : State n) (c : Fin (n + 1)) : Relocates s (sched_yield s c) := by
  unfold sched_yield
  dsimp only
  split
  · exact (Relocates.setCpu s c _).trans (sched_switch_relocates _ c _ _)
  · exact sched_switch_relocates s c _ _

end Ule
