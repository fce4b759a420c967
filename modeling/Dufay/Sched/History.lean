import Dufay.Sched.Classes

/-! # The history of run and sleep times

`sched_clamp_time` of `core/sched/ule.c` keeps what a thread has run and
slept to five seconds, for any two times whose sum fits in 64 bits. The
run time grows by a tick at a time, but the sleep time is the difference
of two clocks: `sched_wait` reads that of the CPU on which the thread goes
to sleep, and `sched_wake` that of the CPU which wakes it. If the second
clock is behind, the difference wraps around, and so may the sum.

The runs are those of the scheduler, with a history of the clocks beside
the state (`Sleep`): what every CPU has counted since the thread went to
sleep.
-/

open Lts Function

namespace Ule

variable {n : Nat}

/-! ### The two times -/

/-- The two times of a thread are the same. -/
def KeepsTimes (t t' : Thread n) : Prop := t'.runtime = t.runtime ∧ t'.sleeptime = t.sleeptime

theorem KeepsTimes.refl (t : Thread n) : KeepsTimes t t := ⟨rfl, rfl⟩

theorem KeepsTimes.trans (h : KeepsTimes t t') (h' : KeepsTimes t' t'') :
    KeepsTimes t t'' := ⟨h'.1.trans h.1, h'.2.trans h.2⟩

/-! ### Clamping -/

/-- A thread that has run for at most five seconds, or for at most ten with
its sleep. -/
structure Clampable (t : Thread n) : Prop where
  sum : t.runtime.toNat + t.sleeptime.toNat < 2 ^ 64
  runtime : t.runtime.toNat ≤ 5000 ∨ t.runtime.toNat + t.sleeptime.toNat ≤ 10000

/-- **The clamp**: five seconds and a millisecond at most, and no sleep that
was not there. -/
theorem sched_clamp_time_bounds (h : Clampable t) : (sched_clamp_time t).runtime.toNat ≤ 5000 ∧
      (sched_clamp_time t).runtime.toNat + (sched_clamp_time t).sleeptime.toNat ≤ 5001 ∧
      (sched_clamp_time t).sleeptime.toNat ≤ t.sleeptime.toNat := by
  have hsum : (t.runtime + t.sleeptime).toNat = t.runtime.toNat + t.sleeptime.toNat := by
    rw [UInt64.toNat_add]
    exact Nat.mod_eq_of_lt h.sum
  have hrun := h.runtime
  have hmax : (5 * 1000 : UInt64).toNat = 5000 := rfl
  have htwice : (5 * 1000 * 2 : UInt64).toNat = 10000 := rfl
  have hsixth : (5 * 1000 / 5 * 6 : UInt64).toNat = 6000 := rfl
  -- decaying multiplies what has been divided before, so nothing overflows
  have hdecay : ∀ x : UInt64, (x / 5 * 4).toNat = x.toNat / 5 * 4 := by
    intro x
    have hx := x.toNat_lt
    rw [UInt64.toNat_mul, UInt64.toNat_div]
    exact Nat.mod_eq_of_lt (by show x.toNat / 5 * 4 < 2 ^ 64; omega)
  have hhalf : ∀ x : UInt64, (x / 2).toNat = x.toNat / 2 := fun x => UInt64.toNat_div x 2
  unfold sched_clamp_time
  simp only [UInt64.lt_iff_toNat_lt, hsum, hmax, htwice, hsixth]
  by_cases hsmall : t.runtime.toNat + t.sleeptime.toNat < 5000
  · rw [if_pos hsmall]
    omega
  rw [if_neg hsmall]
  by_cases hlarge : 10000 < t.runtime.toNat + t.sleeptime.toNat
  · -- more than twice the limit: the sleep must be most of it
    have hsleeps : ¬ t.sleeptime.toNat < t.runtime.toNat := by omega
    rw [if_pos hlarge, if_neg hsleeps]
    show (1 : UInt64).toNat ≤ 5000 ∧ (1 : UInt64).toNat + (5 * 1000 : UInt64).toNat ≤ 5001 ∧
      (5 * 1000 : UInt64).toNat ≤ t.sleeptime.toNat
    rw [hmax]
    have hone : (1 : UInt64).toNat = 1 := rfl
    omega
  rw [if_neg hlarge]
  by_cases hmiddle : 6000 < t.runtime.toNat + t.sleeptime.toNat
  · rw [if_pos hmiddle]
    simp only [hhalf]
    omega
  · rw [if_neg hmiddle]
    simp only [hdecay]
    omega

theorem recompute_times : KeepsTimes (sched_clamp_time t)
      (sched_recompute_priority cpu_ticks (sched_update_interactivity t)) := by
  unfold sched_recompute_priority
  split
  all_goals exact ⟨rfl, rfl⟩

theorem TICKS_TO_MS_succ (ticks : UInt64) :
    (TICKS_TO_MS (ticks + 1)).toNat ≤ (TICKS_TO_MS ticks).toNat + 10 := by
  have hms : ∀ x : UInt64, (TICKS_TO_MS x).toNat = x.toNat * 1000 % 2 ^ 64 / 100 := by
    intro x
    unfold TICKS_TO_MS
    rw [UInt64.toNat_div, UInt64.toNat_mul]
    rfl
  rw [hms, hms, UInt64.toNat_add]
  show (ticks.toNat + 1) % 2 ^ 64 * 1000 % 2 ^ 64 / 100 ≤ _
  omega

theorem TICKS_TO_MS_lt (ticks : UInt64) : (TICKS_TO_MS ticks).toNat < 2 ^ 63 := by
  unfold TICKS_TO_MS
  rw [UInt64.toNat_div]
  have hlt := (ticks * 1000).toNat_lt
  show (ticks * 1000).toNat / 100 < 2 ^ 63
  omega

/-! ### Runs with a history -/

/-- The history of the sleep of one thread. -/
structure Sleep (n : Nat) where
  /-- The clocks of all CPUs when the thread last went to sleep, if it did. -/
  slept_at : Option (Fin (n + 1) → UInt64)
  /-- The ticks of every CPU since then. -/
  asleep : Fin (n + 1) → Nat
  /-- The ticks of every CPU from then to the latest wake. -/
  measured : Fin (n + 1) → Nat

/-- The scheduler, and the history of all sleeps. -/
structure Timed (n : Nat) where
  state : State n
  sleeps : Tid n → Sleep n

/-- What a step adds to the history. -/
def Timed.record (x : Timed n) : Action n → Tid n → Sleep n
  | .hardclock c => fun td =>
    { x.sleeps td with
      asleep := Function.update (x.sleeps td).asleep c ((x.sleeps td).asleep c + 1) }
  | .sched_wait c =>
    let td := (x.state.cpus c).current_thread
    Function.update x.sleeps td
      { x.sleeps td with slept_at := some fun d => (x.state.cpus d).ticks, asleep := fun _ => 0 }
  | .sched_wake _ k =>
    Function.update x.sleeps (.thread k)
      { x.sleeps (.thread k) with measured := (x.sleeps (.thread k)).asleep }
  | _ => x.sleeps

/-- The threads are zeroed when they are made. -/
structure Timed.Init (x : Timed n) : Prop where
  init : Ule.Init x.state
  runtime : ∀ td, (x.state.threads td).runtime = 0
  sleeptime : ∀ td, (x.state.threads td).sleeptime = 0
  sleeps : ∀ td, x.sleeps td = ⟨none, fun _ => 0, fun _ => 0⟩

/-- The scheduler with its history, which no step reads. -/
def timedSystem (n : Nat) : System (Timed n) (Action n) where
  init := Timed.Init
  step x a := (step x.state a).map fun s => ⟨s, x.record a⟩

/-- The clock of a CPU that wakes a thread was not ahead of the clock of the
CPU on which the thread went to sleep, at that time, and has not fallen
behind it since. -/
def ClocksAgree (x : Timed n) : Action n → Prop
  | .sched_wake c k =>
    ∃ clocks ∈ (x.sleeps (.thread k)).slept_at,
      TICKS_TO_MS (clocks c) ≤ (x.state.threads (.thread k)).sleep_start ∧
        (x.state.threads (.thread k)).sleep_start ≤ TICKS_TO_MS (x.state.cpus c).ticks
  | _ => True

instance ClocksAgree.decidable (x : Timed n) (a : Action n) : Decidable (ClocksAgree x a) :=
  match a with
  | .sched_ready .. | .commit_wait .. | .sched_wait .. | .sched_yield .. | .sched_wake ..
  | .hardclock .. | .dispatch_enter .. | .dispatch_reschedule .. | .dispatch_switch ..
  | .balance_load | .idle_steal .. => by
    unfold ClocksAgree
    infer_instance

/-- **The history of a thread is bounded**: it has run and slept for at most
5001 ms, and slept for at most what some CPU has counted while it was
asleep. -/
structure Bounded (x : Timed n) (td : Tid n) : Prop where
  sum : (x.state.threads td).runtime.toNat + (x.state.threads td).sleeptime.toNat ≤ 5001
  sleep : ∃ c, (x.state.threads td).sleeptime.toNat ≤ 10 * (x.sleeps td).measured c

/-! ### What a step does to the times -/

theorem Relocates.times (h : Relocates s s') (td : Tid n) :
    KeepsTimes (s.threads td) (s'.threads td) := by
  obtain ⟨_, _, _, ht⟩ := h td
  rw [ht]
  exact ⟨rfl, rfl⟩

theorem setThread_times (td : Tid n) (ht : KeepsTimes (s.threads x) t) :
    KeepsTimes (s.threads td) ((setThread s x t).threads td) := by
  by_cases htd : td = x
  · rw [htd, setThread_self]
    exact ht
  · rw [setThread_ne _ _ htd]
    exact .refl _

/-- The step computes the times of the thread anew, from those of `t`. -/
inductive Updates (s : State n) : Action n → Tid n → Thread n → Prop where
  | charge (c : Fin (n + 1)) : (s.threads (s.cpus c).current_thread).priority_class = .batch →
      Updates s (.dispatch_reschedule c) (s.cpus c).current_thread
        { s.threads (s.cpus c).current_thread with
          runtime := (s.threads (s.cpus c).current_thread).runtime + TICKS_TO_MS 1
          ticks := (s.threads (s.cpus c).current_thread).ticks + 1 }
  | wake (c : Fin (n + 1)) (k : Nat) : Updates s (.sched_wake c k) (.thread k)
        { s.threads (.thread k) with
          wait_status := .satisfied
          sleeptime := TICKS_TO_MS (s.cpus c).ticks - (s.threads (.thread k)).sleep_start }

theorem sched_reschedule_times (s : State n) (c : Fin (n + 1)) (td : Tid n) :
    KeepsTimes (s.threads td) ((sched_reschedule s c).threads td) ∨
      ∃ t, Updates s (.dispatch_reschedule c) td t ∧
        KeepsTimes (sched_clamp_time t) ((sched_reschedule s c).threads td) := by
  rw [sched_reschedule_threads]
  by_cases htd : td = (s.cpus c).current_thread
  · subst htd
    rw [update_self]
    unfold charge_tick
    by_cases hbatch : (s.threads (s.cpus c).current_thread).priority_class = .batch
    · rw [if_pos hbatch]
      exact .inr ⟨_, .charge c hbatch, recompute_times⟩
    · rw [if_neg hbatch]
      exact .inl (.refl _)
  · rw [update_of_ne htd]
    exact .inl (.refl _)

theorem sched_wake_times (s : State n) (c : Fin (n + 1)) (k : Nat) (td : Tid n) :
    td ≠ .thread k ∧ KeepsTimes (s.threads td) ((sched_wake s c (.thread k)).threads td) ∨
      ∃ t, Updates s (.sched_wake c k) td t ∧
        KeepsTimes (sched_clamp_time t) ((sched_wake s c (.thread k)).threads td) := by
  have hready : KeepsTimes ((setThread s (.thread k) (wake_attributes (s.cpus c).ticks
      { s.threads (.thread k) with wait_status := .satisfied })).threads td)
      ((sched_wake s c (.thread k)).threads td) :=
    (sched_ready_frame _ _).relocates.times td
  by_cases htd : td = .thread k
  · subst htd
    rw [setThread_self] at hready
    exact .inr ⟨_, .wake c k, .trans (recompute_times) hready⟩
  · rw [setThread_ne _ _ htd] at hready
    exact .inl ⟨htd, hready⟩

variable {a : Action n}

/-- **What a step does to the times of a thread**: nothing, or it clamps
them. -/
theorem times_of_step (hstep : step s a = some s') (td : Tid n) :
    ((∀ c k, a = .sched_wake c k → td ≠ .thread k) ∧ KeepsTimes (s.threads td) (s'.threads td)) ∨
      ∃ t, Updates s a td t ∧ KeepsTimes (sched_clamp_time t) (s'.threads td) := by
  cases steps_of_step hstep with
  | @sched_wake c k _ =>
    obtain ⟨hne, hkeeps⟩ | hupdates := sched_wake_times s c k td
    · refine .inl ⟨fun c' k' ha => ?_, hkeeps⟩
      rw [← (Action.sched_wake.inj ha).2]
      exact hne
    · exact .inr hupdates
  | @reschedule c reason _ _ =>
    obtain hkeeps | hupdates := sched_reschedule_times s c td
    · exact .inl ⟨nofun, hkeeps⟩
    · exact .inr hupdates
  | @sched_ready k _ =>
    have hset := setThread_times (s := s) (x := .thread k)
      (t := { s.threads (.thread k) with readied := true }) td ⟨rfl, rfl⟩
    exact .inl ⟨nofun, hset.trans ((sched_ready_frame _ _).relocates.times td)⟩
  | commit_wait _ _ => exact .inl ⟨nofun, setThread_times td ⟨rfl, rfl⟩⟩
  | sched_wait _ => exact .inl ⟨nofun, setThread_times td ⟨rfl, rfl⟩⟩
  | sched_yield => exact .inl ⟨nofun, (sched_yield_relocates s _).times td⟩
  | hardclock | dispatch_enter | no_reschedule | no_switch => exact .inl ⟨nofun, .refl _⟩
  | switch _ => exact .inl ⟨nofun, (sched_switch_relocates s _ _ _).times td⟩
  | balance_load => exact .inl ⟨nofun, (balance_load_frame s).relocates.times td⟩
  | idle_steal => exact .inl ⟨nofun, (idle_steal_frame s _).relocates.times td⟩

theorem sched_reschedule_ticks : ((sched_reschedule s c).cpus d).ticks = (s.cpus d).ticks := by
  unfold sched_reschedule
  dsimp only
  split
  all_goals exact setCpu_congr _ (·.ticks) (by rfl) d

theorem ticks_of_step (hstep : step s a = some s') (d : Fin (n + 1)) :
    (s'.cpus d).ticks = if a = .hardclock d then (s.cpus d).ticks + 1 else (s.cpus d).ticks := by
  cases steps_of_step hstep with
  | @hardclock c =>
    unfold hardclock
    by_cases hd : d = c
    · rw [hd, setCpu_self, if_pos rfl]
    · rw [setCpu_ne _ _ hd, if_neg fun h => hd (Action.hardclock.inj h).symm]
  | sched_ready _ | sched_wake _ => exact (sched_ready_frame _ _).ticks d
  | commit_wait _ _ | sched_wait _ => rfl
  | sched_yield => exact sched_yield_ticks ..
  | balance_load => exact (balance_load_frame s).ticks d
  | idle_steal => exact (idle_steal_frame s _).ticks d
  | dispatch_enter | no_reschedule | no_switch => exact setCpu_congr _ (·.ticks) (by rfl) d
  | @reschedule c _ _ _ =>
    exact (setCpu_congr _ (·.ticks) (by rfl) d).trans sched_reschedule_ticks
  | switch _ =>
    exact (setCpu_congr _ (·.ticks) (by rfl) d).trans (sched_switch_ticks ..)

/-! ### What a step does to the history -/

section
variable (x : Timed n)

theorem record_sched_wait (c : Fin (n + 1)) :
    x.record (.sched_wait c) (x.state.cpus c).current_thread =
      { x.sleeps (x.state.cpus c).current_thread with
        slept_at := some fun d => (x.state.cpus d).ticks, asleep := fun _ => 0 } :=
  update_self ..

theorem record_sched_wait_ne (htd : td ≠ (x.state.cpus c).current_thread) : x.record (.sched_wait c)
    td = x.sleeps td :=
  update_of_ne htd ..

theorem record_sched_wake (c : Fin (n + 1)) (k : Nat) : x.record (.sched_wake c k) (.thread k) =
      { x.sleeps (.thread k) with measured := (x.sleeps (.thread k)).asleep } :=
  update_self ..

theorem record_sched_wake_ne (c : Fin (n + 1))
    (htd : td ≠ .thread k) : x.record (.sched_wake c k) td = x.sleeps td :=
  update_of_ne htd ..

theorem record_measured (hwake : ∀ c k, a = .sched_wake c k → td ≠ .thread k) :
    (x.record a td).measured = (x.sleeps td).measured := by
  cases a with
  | sched_wake c k => rw [record_sched_wake_ne x c (hwake c k rfl)]
  | sched_wait c =>
    by_cases htd : td = (x.state.cpus c).current_thread
    · rw [htd, record_sched_wait]
    · rw [record_sched_wait_ne x htd]
  | _ => rfl

/-- The clocks have advanced by ten milliseconds a tick, at most, since the
thread went to sleep. -/
def Elapsed (td : Tid n) : Prop := ∀ clocks ∈ (x.sleeps td).slept_at, ∀ c,
    (TICKS_TO_MS (x.state.cpus c).ticks).toNat ≤
      (TICKS_TO_MS (clocks c)).toNat + 10 * (x.sleeps td).asleep c

end

theorem elapsed_step (h : Elapsed x td)
    (hstep : step x.state a = some s') : Elapsed ⟨s', x.record a⟩ td := by
  intro clocks hclocks d
  have hticks := ticks_of_step hstep d
  -- the clocks of a step that is not a tick, and of one that is
  have hkeeps : (x.sleeps td).slept_at = (x.record a td).slept_at →
      (x.record a td).asleep = (x.sleeps td).asleep → a ≠ .hardclock d →
      (TICKS_TO_MS (s'.cpus d).ticks).toNat ≤
        (TICKS_TO_MS (clocks d)).toNat + 10 * (x.record a td).asleep d := by
    intro hslept hasleep hne
    rw [hticks, if_neg hne, hasleep]
    exact h clocks (hslept ▸ hclocks) d
  cases a with
  | hardclock c =>
    have hslept : clocks ∈ (x.sleeps td).slept_at := hclocks
    have hbefore := h clocks hslept d
    by_cases hd : d = c
    · subst hd
      rw [if_pos rfl] at hticks
      have hasleep : (x.record (.hardclock d) td).asleep d = (x.sleeps td).asleep d + 1 :=
        update_self ..
      have hsucc := TICKS_TO_MS_succ (x.state.cpus d).ticks
      show (TICKS_TO_MS (s'.cpus d).ticks).toNat ≤
        (TICKS_TO_MS (clocks d)).toNat + 10 * (x.record (.hardclock d) td).asleep d
      rw [hticks, hasleep]
      omega
    · rw [if_neg fun heq => hd (Action.hardclock.inj heq).symm] at hticks
      have hasleep : (x.record (.hardclock c) td).asleep d = (x.sleeps td).asleep d :=
        update_of_ne hd ..
      show (TICKS_TO_MS (s'.cpus d).ticks).toNat ≤
        (TICKS_TO_MS (clocks d)).toNat + 10 * (x.record (.hardclock c) td).asleep d
      rw [hticks, hasleep]
      exact hbefore
  | sched_wait c =>
    by_cases htd : td = (x.state.cpus c).current_thread
    · -- the thread goes to sleep now
      have hslept : (x.record (.sched_wait c) td).slept_at = some clocks := hclocks
      rw [htd, record_sched_wait] at hslept
      rw [if_neg nofun] at hticks
      rw [hticks, ← Option.some.inj hslept]
      exact Nat.le_add_right ..
    · have hrecord := record_sched_wait_ne x htd
      exact hkeeps (by rw [hrecord]) (by rw [hrecord]) nofun
  | sched_wake c k =>
    by_cases htd : td = .thread k
    · subst htd
      have hrecord := record_sched_wake x c k
      exact hkeeps (by rw [hrecord]) (by rw [hrecord]) nofun
    · have hrecord := record_sched_wake_ne x c htd
      exact hkeeps (by rw [hrecord]) (by rw [hrecord]) nofun
  | _ => exact hkeeps rfl rfl nofun

/-! ### The bounds -/

/-- The invariant: the bounds, with the run time alone and the clocks. -/
structure InBounds (x : Timed n) (td : Tid n) : Prop extends Bounded x td where
  runtime : (x.state.threads td).runtime.toNat ≤ 5000
  elapsed : Elapsed x td

theorem Timed.Init.inBounds (h : x.Init) (td : Tid n) : InBounds x td where
  sum := by
    rw [h.runtime, h.sleeptime]
    decide
  sleep := ⟨0, by rw [h.sleeptime]; exact Nat.zero_le _⟩
  runtime := by
    rw [h.runtime]
    decide
  elapsed := by
    intro clocks hclocks
    rw [h.sleeps td] at hclocks
    exact absurd hclocks nofun

theorem ClocksAgree.elapsed (hagree : ClocksAgree x (.sched_wake c k)) (h : Elapsed x (.thread k)) :
    (TICKS_TO_MS (x.state.cpus c).ticks - (x.state.threads (.thread k)).sleep_start).toNat ≤
        10 * (x.sleeps (.thread k)).asleep c ∧
      (TICKS_TO_MS (x.state.cpus c).ticks -
        (x.state.threads (.thread k)).sleep_start).toNat < 2 ^ 63 := by
  obtain ⟨clocks, hclocks, hstart, hnow⟩ := hagree
  have helapsed := h clocks hclocks c
  have hlt := TICKS_TO_MS_lt (x.state.cpus c).ticks
  rw [UInt64.le_iff_toNat_le] at hstart
  rw [UInt64.toNat_sub_of_le _ _ hnow]
  rw [UInt64.le_iff_toNat_le] at hnow
  omega

theorem Updates.clampable
    (hupdates : Updates x.state a td t) (hagree : ClocksAgree x a) (h : InBounds x td) :
    Clampable t ∧ ∃ c, t.sleeptime.toNat ≤ 10 * (x.record a td).measured c := by
  cases hupdates with
  | charge c _ =>
    have hsum := h.sum
    have hcharged : ((x.state.threads (x.state.cpus c).current_thread).runtime +
          TICKS_TO_MS 1).toNat +
        (x.state.threads (x.state.cpus c).current_thread).sleeptime.toNat ≤ 5011 := by
      have hms : (TICKS_TO_MS 1).toNat = 10 := rfl
      rw [UInt64.toNat_add, hms]
      omega
    exact ⟨⟨lt_of_le_of_lt hcharged (by decide), .inr (hcharged.trans (by decide))⟩, h.sleep⟩
  | wake c k =>
    have hruntime := h.runtime
    obtain ⟨hasleep, hlt⟩ := hagree.elapsed h.elapsed
    refine ⟨⟨?_, .inl hruntime⟩, c, ?_⟩
    · show (x.state.threads (.thread k)).runtime.toNat + (_ - _ : UInt64).toNat < 2 ^ 64
      omega
    · rw [record_sched_wake]
      exact hasleep

theorem inBounds_step (h : ∀ td, InBounds x td) (hagree : ClocksAgree x a)
    (hstep : (timedSystem n).step x a = some x') (td : Tid n) : InBounds x' td := by
  obtain ⟨s', hs', rfl⟩ := Option.map_eq_some_iff.mp hstep
  have helapsed := elapsed_step (h td).elapsed hs'
  obtain ⟨hwake, hruntime, hsleeptime⟩ | ⟨t, hupdates, hruntime, hsleeptime⟩ := times_of_step hs' td
  · -- the times are those before the step
    have hmeasured := record_measured x hwake
    refine ⟨⟨?_, ?_⟩, ?_, helapsed⟩
    · show (s'.threads td).runtime.toNat + (s'.threads td).sleeptime.toNat ≤ 5001
      rw [hruntime, hsleeptime]
      exact (h td).sum
    · show ∃ c, (s'.threads td).sleeptime.toNat ≤ 10 * (x.record a td).measured c
      rw [hsleeptime, hmeasured]
      exact (h td).sleep
    · show (s'.threads td).runtime.toNat ≤ 5000
      rw [hruntime]
      exact (h td).runtime
  · -- the times have been clamped
    obtain ⟨hclampable, c, hsleep⟩ := hupdates.clampable hagree (h td)
    obtain ⟨hrun, hsum, hle⟩ := sched_clamp_time_bounds hclampable
    refine ⟨⟨?_, c, ?_⟩, ?_, helapsed⟩
    · show (s'.threads td).runtime.toNat + (s'.threads td).sleeptime.toNat ≤ 5001
      rw [hruntime, hsleeptime]
      exact hsum
    · show (s'.threads td).sleeptime.toNat ≤ 10 * (x.record a td).measured c
      rw [hsleeptime]
      exact hle.trans hsleep
    · show (s'.threads td).runtime.toNat ≤ 5000
      rw [hruntime]
      exact hrun

/-- **Bounded history**: in runs in which the clocks of sleeping and waking
CPUs agree, the times of every thread are in bounds in every state. -/
theorem history_bounded {x : Timed n} (hx : ReachableBy (timedSystem n) ClocksAgree x)
    (td : Tid n) : Bounded x td := by
  have hinv : ∀ td, InBounds x td :=
    hx.invariant (fun (x : Timed n) (h : x.Init) td => h.inBounds td)
      (fun x a x' h hagree hstep => inBounds_step h hagree hstep)
  exact (hinv td).toBounded

/-- After boot nothing has slept. -/
def bootTimed : Timed n := ⟨bootAll, fun _ => ⟨none, fun _ => 0, fun _ => 0⟩⟩

theorem bootTimed_init : (bootTimed (n := n)).Init where
  init := bootAll_init
  runtime td := by cases td <;> rfl
  sleeptime td := by cases td <;> rfl
  sleeps _ := rfl

theorem history_bounded_wokenRun :
    ∃ x : Timed 0, execBy (timedSystem 0) ClocksAgree bootTimed (wokenRun 0) = some x ∧
      (x.state.threads (.thread 0)).sleeptime = 10 ∧ Bounded x (.thread 0) := by
  refine run_imp (fun x => (x.state.threads (.thread 0)).sleeptime = 10) (by decide +kernel)
    fun x hx hsleeptime => ⟨hsleeptime, ?_⟩
  exact history_bounded (.of_execBy (.init bootTimed_init) hx) (.thread 0)

/-- Thread 0 is readied and runs on CPU `c` for a tick, which is charged to
it. It goes to sleep there, and CPU `d` wakes it at once. -/
def skewedRun (c d : Fin (n + 1)) : List (Action n) :=
  .sched_ready 0 :: dispatchRun c ++ .hardclock c :: dispatchRun c ++
    [.commit_wait c, .sched_wait c, .sched_yield c, .sched_wake d 0]

/-- CPU 1, which has not counted a tick, wakes a thread that went to sleep on
CPU 0 after its first tick. The thread has slept for no time at all, and
its sleep time is nearly 2^64. -/
theorem history_unbounded : ∃ x : Timed 1, exec (timedSystem 1) bootTimed (skewedRun 0 1) = some x ∧
      Reachable (timedSystem 1) x ∧
      (x.state.threads (.thread 0)).runtime.toNat +
        (x.state.threads (.thread 0)).sleeptime.toNat = 2 ^ 64 ∧
      ∀ c, 10 * (x.sleeps (.thread 0)).measured c < (x.state.threads (.thread 0)).sleeptime.toNat := by
  refine run_imp (fun x => (x.state.threads (.thread 0)).runtime.toNat +
      (x.state.threads (.thread 0)).sleeptime.toNat = 2 ^ 64 ∧ ∀ c,
    10 * (x.sleeps (.thread 0)).measured c < (x.state.threads (.thread 0)).sleeptime.toNat)
    (by decide +kernel) fun x hx h => ⟨.of_exec bootTimed_init hx, h⟩

end Ule
