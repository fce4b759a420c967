import Dufay.Sched.Frame
import Dufay.Sched.Interactivity
import Dufay.Sched.NoLostThread

/-! # Scheduling classes

The comment in `sched_recompute_priority` of `core/sched/ule.c` says that
a priority is computed for timeshared threads only. The tick keeps to
that, but `sched_wake` recomputes the priority of every thread it wakes.
-/

open Lts

namespace Ule

variable {n : Nat}

/-! ### What a thread is scheduled by -/

/-- The attributes of a thread, without its place and its times. -/
structure Attributes where
  priority : Fin 64
  interactive : Bool
  nice : Int8
  priority_class : PriorityClass
  pinned : Bool
  deriving DecidableEq

def Thread.attributes (t : Thread n) : Attributes :=
  ⟨t.priority, t.interactive, t.nice, t.priority_class, t.pinned⟩

/-- All threads keep their attributes. -/
def KeepsAttributes (s s' : State n) : Prop :=
  ∀ td, (s'.threads td).attributes = (s.threads td).attributes

theorem Relocates.attributes (h : Relocates s s') : KeepsAttributes s s' := by
  intro td
  obtain ⟨_, _, _, ht⟩ := h td
  rw [ht]
  rfl

theorem setThread_attributes (td : Tid n) (h : t.attributes = (s.threads x).attributes) :
    ((setThread s x t).threads td).attributes = (s.threads td).attributes :=
  setThread_congr s (·.attributes) h td

/-! ### Recomputing a priority -/

/-- The attributes with the priority and the interactivity that
`sched_recompute_priority` gives a thread of the same niceness. -/
def Recomputed (a a' : Attributes) : Prop :=
  ∃ (n : Nat) (cpu_ticks : UInt64) (t : Thread n), t.nice = a.nice ∧ a' = { a with
      priority := (sched_recompute_priority cpu_ticks t).priority
      interactive := (sched_recompute_priority cpu_ticks t).interactive }

theorem recompute_recomputed (cpu_ticks : UInt64) (t : Thread n) : Recomputed t.attributes
      (sched_recompute_priority cpu_ticks (sched_update_interactivity t)).attributes := by
  obtain ⟨_, _, _, _, _, hupdated⟩ := sched_update_interactivity_rated t
  obtain ⟨_, _, _, _, _, hrated⟩ := recompute_rated cpu_ticks t
  have hnice : (sched_update_interactivity t).nice = t.nice := by rw [hupdated]
  refine ⟨n, cpu_ticks, sched_update_interactivity t, hnice, ?_⟩
  unfold Thread.attributes
  rw [Attributes.mk.injEq]
  refine ⟨rfl, rfl, ?_, ?_, ?_⟩
  all_goals rw [hrated]

theorem charge_tick_attributes (cpu_ticks : UInt64) (t : Thread n) :
    (charge_tick cpu_ticks t).attributes = t.attributes ∨
      t.priority_class = .batch ∧ Recomputed t.attributes (charge_tick cpu_ticks t).attributes := by
  unfold charge_tick
  split
  · next hbatch =>
    refine .inr ⟨hbatch, ?_⟩
    exact recompute_recomputed cpu_ticks
      { t with runtime := t.runtime + TICKS_TO_MS 1, ticks := t.ticks + 1 }
  · exact .inl rfl

/-- The score of a niceness from -20 on is at least -20, and the priority of
a score below the threshold is below the realtime priorities. The bound
is tight: a score of -20 gives the last priority. -/
theorem interactive_priority_bounds (hnice : -20 ≤ t.nice.toInt)
    (hinteractive : (sched_recompute_priority cpu_ticks t).interactive = true) :
    PRIO_INTERACTIVE ≤ (sched_recompute_priority cpu_ticks t).priority.val ∧
      (sched_recompute_priority cpu_ticks t).priority.val ≤ PRIO_REALTIME - 1 := by
  by_cases hscore : interactive_score t < INTERACTIVITY_THRESHOLD
  · have hge : -20 ≤ interactive_score t := by
      obtain ⟨hs, hlt⟩ := sleeps_of_score_lt hnice hscore
      by_cases hr : t.runtime = 0
      · rw [interactive_score, if_neg hs, if_pos hr]
        decide
      · rw [interactive_score_of_lt hr hlt]
        generalize 50 / (t.sleeptime.toNat / t.runtime.toNat) = penalty
        omega
    have hpriority : ((sched_recompute_priority cpu_ticks t).priority.val : Int) =
        PRIO_INTERACTIVE + (INTERACTIVITY_THRESHOLD - interactive_score t) / 4 := by
      rw [sched_recompute_priority, if_pos hscore]
      apply Int.toNat_of_nonneg
      simp only [PRIO_INTERACTIVE, INTERACTIVITY_THRESHOLD] at hscore ⊢
      omega
    simp only [PRIO_INTERACTIVE, INTERACTIVITY_THRESHOLD, PRIO_REALTIME] at hscore hpriority ⊢
    omega
  · rw [sched_recompute_priority, if_neg hscore] at hinteractive
    cases hinteractive

theorem sched_reschedule_threads (s : State n) (c : Fin (n + 1)) :
    (sched_reschedule s c).threads = Function.update s.threads (s.cpus c).current_thread
      (charge_tick (s.cpus c).ticks (s.threads (s.cpus c).current_thread)) := by
  unfold sched_reschedule
  dsimp only
  split
  · rfl
  · rfl

theorem sched_reschedule_attributes :
    ((sched_reschedule s c).threads td).attributes = (s.threads td).attributes ∨
      (s.threads td).priority_class = .batch ∧
        Recomputed (s.threads td).attributes ((sched_reschedule s c).threads td).attributes := by
  rw [sched_reschedule_threads]
  by_cases htd : td = (s.cpus c).current_thread
  · rw [htd, Function.update_self]
    exact charge_tick_attributes _ _
  · rw [Function.update_of_ne htd]
    exact .inl rfl

theorem sched_wake_attributes (s : State n) (c : Fin (n + 1)) (x td : Tid n) :
    ((sched_wake s c x).threads td).attributes = (s.threads td).attributes ∨
      td = x ∧ Recomputed (s.threads td).attributes ((sched_wake s c x).threads td).attributes := by
  unfold sched_wake
  rw [(sched_ready_frame _ x).relocates.attributes td]
  by_cases htd : td = x
  · subst htd
    rw [setThread_self]
    refine .inr ⟨rfl, ?_⟩
    exact recompute_recomputed (s.cpus c).ticks { s.threads td with
      wait_status := .satisfied, sleeptime := TICKS_TO_MS (s.cpus c).ticks
        - (s.threads td).sleep_start }
  · rw [setThread_ne _ _ htd]
    exact .inl rfl

/-- **What a step does to the attributes of a thread**: nothing, unless the
thread is timeshared and is charged a tick, or is woken. -/
theorem step_attributes (h : step s a = some s') :
    (s'.threads td).attributes = (s.threads td).attributes ∨
      ((s.threads td).priority_class = .batch ∨ ∃ c k, a = .sched_wake c k ∧ td = .thread k) ∧
        Recomputed (s.threads td).attributes (s'.threads td).attributes := by
  cases steps_of_step h with
  | sched_ready _ =>
    refine .inl (((sched_ready_frame _ _).relocates.attributes td).trans ?_)
    exact setThread_attributes td rfl
  | commit_wait _ _ => exact .inl (setThread_attributes td rfl)
  | sched_wait _ => exact .inl (setThread_attributes td rfl)
  | sched_yield => exact .inl ((sched_yield_relocates s _).attributes td)
  | @sched_wake c k _ =>
    rcases sched_wake_attributes s c (.thread k) td with hsame | ⟨htd, hre⟩
    · exact .inl hsame
    · exact .inr ⟨.inr ⟨c, k, rfl, htd⟩, hre⟩
  | hardclock => exact .inl rfl
  | dispatch_enter => exact .inl rfl
  | reschedule _ _ =>
    rw [setCpu_threads]
    rcases sched_reschedule_attributes with hsame | ⟨hbatch, hre⟩
    · exact .inl hsame
    · exact .inr ⟨.inl hbatch, hre⟩
  | no_reschedule => exact .inl rfl
  | switch _ =>
    rw [setCpu_threads]
    exact .inl ((sched_switch_relocates s _ _ _).attributes td)
  | no_switch => exact .inl rfl
  | balance_load => exact .inl ((balance_load_frame s).relocates.attributes td)
  | idle_steal => exact .inl ((idle_steal_frame s _).relocates.attributes td)

/-- Only timeshared threads are woken. -/
def TimesharedWake (s : State n) : Action n → Prop
  | .sched_wake _ k => (s.threads (.thread k)).priority_class = .batch
  | _ => True

instance (s : State n) (a : Action n) : Decidable (TimesharedWake s a) :=
  match a with
  | .sched_ready .. | .commit_wait .. | .sched_wait .. | .sched_yield .. | .sched_wake ..
  | .hardclock .. | .dispatch_enter .. | .dispatch_reschedule .. | .dispatch_switch ..
  | .balance_load | .idle_steal .. => by
    unfold TimesharedWake
    infer_instance

/-- What the class of a thread says about its attributes `a'`, if they were
`a` at the start. -/
structure ClassRespected (a a' : Attributes) : Prop where
  priority_class : a'.priority_class = a.priority_class
  nice : a'.nice = a.nice
  /-- A realtime or idle thread keeps its priority and its interactivity. -/
  fixed : a.priority_class ≠ .batch → a'.priority = a.priority ∧ a'.interactive = a.interactive
  /-- A priority that was assigned to an interactive thread is below the
      realtime ones. -/
  assigned : a.priority_class = .batch → -20 ≤ a.nice.toInt → a.nice.toInt ≤ 19 →
    (a'.priority = a.priority ∧ a'.interactive = a.interactive) ∨
      (a'.interactive = true → PRIO_INTERACTIVE ≤ a'.priority.val ∧
        a'.priority.val ≤ PRIO_REALTIME - 1)

theorem ClassRespected.refl (a : Attributes) : ClassRespected a a :=
  ⟨rfl, rfl, fun _ => ⟨rfl, rfl⟩, fun _ _ _ => Or.inl ⟨rfl, rfl⟩⟩

theorem ClassRespected.recompute (h : ClassRespected a a')
    (hbatch : a'.priority_class = .batch) (hre : Recomputed a' a'') : ClassRespected a a'' := by
  obtain ⟨n, cpu_ticks, t, hnice, rfl⟩ := hre
  refine ⟨h.priority_class, h.nice, fun hne => ?_, fun _ hge _ => Or.inr ?_⟩
  · exact absurd (h.priority_class.symm.trans hbatch) hne
  · apply interactive_priority_bounds
    rw [hnice, h.nice]
    exact hge

/-- **The scheduling class is respected** in every run, from any state, in
which only timeshared threads are woken: a realtime or idle thread keeps
its priority and its interactivity, and a timeshared thread of niceness
-20 to 19 that is given a priority while it is interactive is given one
below every realtime thread. -/
theorem class_respected (s₀ : State n) {s : State n}
    (hs : ReachableBy ((system n).startedIn s₀) TimesharedWake s) (td : Tid n) :
    ClassRespected (s₀.threads td).attributes (s.threads td).attributes := by
  induction hs with
  | init h =>
    rw [show _ = s₀ from h]
    exact .refl _
  | step a _ hok hstep ih =>
    rcases step_attributes hstep with hsame | ⟨hwhy, hre⟩
    · rw [hsame]
      exact ih
    · refine ih.recompute ?_ hre
      -- a thread that is woken is timeshared by the condition on the step
      rcases hwhy with hbatch | ⟨c, k, rfl, rfl⟩
      · exact hbatch
      · exact hok

/-- A thread is readied, runs, and waits until it is woken. -/
def sleepAndWake (k : Nat) : List (Action 0) :=
  let c : Fin 1 := 0
  [.sched_ready k, .dispatch_enter c, .dispatch_reschedule c, .dispatch_switch c,
    .commit_wait c, .sched_wait c, .sched_yield c, .sched_wake c k]

/-- The timeshared thread 0 is woken; the realtime thread 2 has its priority
still. -/
theorem class_respected_timeshared :
    ∃ s, execBy ((system 0).startedIn bootOne) TimesharedWake bootOne (sleepAndWake 0) = some s ∧
      (s.threads (.thread 0)).wait_status = .satisfied ∧
      ClassRespected (bootOne.threads (.thread 2)).attributes (s.threads (.thread 2)).attributes := by
  refine run_imp (fun s => (s.threads (.thread 0)).wait_status = .satisfied) (by decide +kernel)
    fun s hs hwoken => ⟨hwoken, ?_⟩
  exact class_respected bootOne (.of_execBy (.init rfl) hs) _

/-- **A realtime thread that has slept is timeshared**: after one wait,
thread 2 has the lowest timeshared priority instead of its own. -/
theorem class_not_respected :
    ¬ ∀ (n : Nat) (s₀ s : State n), Init s₀ → Reachable ((system n).startedIn s₀) s → ∀ td,
      ClassRespected (s₀.threads td).attributes (s.threads td).attributes := by
  intro h
  obtain ⟨s, hs, hlow⟩ : ∃ s, exec ((system 0).startedIn bootOne) bootOne (sleepAndWake 2) =
      some s ∧ (s.threads (.thread 2)).priority = 1 := by decide +kernel
  have hrespected := h 0 bootOne s bootOne_init (.of_exec rfl hs) (.thread 2)
  have hkept : (s.threads (.thread 2)).priority = 40 := (hrespected.fixed (by decide)).1
  rw [hlow] at hkept
  exact absurd hkept (by decide)

end Ule
