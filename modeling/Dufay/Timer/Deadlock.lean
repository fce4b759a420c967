import Dufay.Timer.Ktimer

/-! # `timer_stop` against `timer_handle_expiry`

`timer_stop` spins with `hdr.lock` held until the timer leaves
`TIMER_RUNNING`. `timer_handle_expiry` makes the timer `RUNNING` first
and takes `hdr.lock` afterwards.
-/

open Lts Function

namespace Timer

open State
open Wait (TimerState)

variable {n : Nat} {s s' : State n}

/-! ### Locks -/

/-- Who works under a timer's lock holds it. -/
def LockOk (s : State n) : Prop := ∀ c t, (s.pc c).holds = some t → s.lock t = some c

section
variable (h : LockOk s)
include h

theorem LockOk.setPc {pc : Pc}
    (hpc : ∀ t, pc.holds = some t → (s.pc c).holds = some t) : LockOk (s.setPc c pc) := by
  intro c' t hc
  by_cases hcc : c' = c
  · subst hcc
    rw [setPc_pc, update_self] at hc
    exact h c' t (hpc t hc)
  · rw [setPc_pc, update_of_ne hcc] at hc
    exact h c' t hc

theorem LockOk.congr (hpc : s'.pc = s.pc) (hlock : s'.lock = s.lock) : LockOk s' := by
  intro c t hc
  rw [hpc] at hc
  rw [hlock]
  exact h c t hc

theorem LockOk.acquire {pc : Pc} (hfree : s.lock t = none)
    (hpc : pc.holds = some t) : LockOk ((s.setLock t (some c)).setPc c pc) := by
  intro c' t' hc
  by_cases hcc : c' = c
  · subst hcc
    rw [setPc_pc, update_self, hpc] at hc
    cases hc
    simp
  · rw [setPc_pc, setLock_pc, update_of_ne hcc] at hc
    have hl := h c' t' hc
    have hne : t' ≠ t := by
      intro heq
      rw [heq, hfree] at hl
      cases hl
    simpa [hne] using hl

theorem LockOk.release {c : Fin n} {t : Nat} {pc : Pc}
    (hpc : (s.pc c).holds = some t) (hnone : pc.holds = none) :
    LockOk ((s.setLock t none).setPc c pc) := by
  intro c' t' hc
  by_cases hcc : c' = c
  · subst hcc
    rw [setPc_pc, update_self, hnone] at hc
    cases hc
  · rw [setPc_pc, setLock_pc, update_of_ne hcc] at hc
    have hl := h c' t' hc
    -- two CPUs that hold one lock are the same
    have hne : t' ≠ t := by
      intro heq
      rw [heq, h c t hpc] at hl
      exact hcc (Option.some.inj hl).symm
    simpa [hne] using hl

theorem LockOk.run (hrun : Runs s c s') : LockOk s' := by
  -- all steps but four leave the locks alone: they differ in what else they store
  have hbase : ∀ s₁ : State n, s₁.pc = s.pc → s₁.lock = s.lock → ∀ pc : Pc,
      (∀ t, pc.holds = some t → (s.pc c).holds = some t) → LockOk (s₁.setPc c pc) := by
    intro s₁ hpc hlock pc hholds
    refine .setPc (h.congr hpc hlock) ?_
    rw [hpc]
    exact hholds
  cases hrun with
  | start_release hpc | stop_release hpc | expiry_release hpc =>
    exact h.release (by rw [hpc]; rfl) rfl
  | expiry_lock _ hfree => exact h.acquire hfree rfl
  | expiry_end _ | expiry_canceled _ _ | expiry_running _ _ =>
    exact hbase _ rfl rfl _ (fun t ht => by cases ht)
  | start_pending hpc _ | start_busy hpc _ | start_arm hpc | start_insert hpc
  | stop_stopped hpc _ | stop_check hpc _ | stop_pending hpc _ | stop_other hpc _
  | stop_remove hpc _ | stop_spin hpc _ | stop_store hpc | expiry_signal hpc | expiry_store hpc =>
    exact hbase _ rfl rfl _ (fun t ht => by rw [hpc]; exact ht)

theorem LockOk.step {a : Action n} (hmove : Moves s a s') : LockOk s' := by
  cases hmove with
  | timer_start _ hfree | timer_stop _ hfree => exact h.acquire hfree rfl
  | timer_handle_expiry _ => exact h.setPc (fun t ht => by cases ht)
  | pop _ _ _ =>
    refine .setPc ?_ (fun t ht => by cases ht)
    exact h.congr rfl rfl
  | run hrun => exact h.run hrun
  | tick | wait | unwait => exact h.congr rfl rfl
  | @timer_init t hunused =>
    intro c t' hc
    -- the lock of an unused timer is free, so nobody relied on it
    have hne : t' ≠ t := by
      intro heq
      have hl := h c t' hc
      rw [heq, hunused.2.1] at hl
      cases hl
    simpa [timer_init, hne] using h c t' hc

end

theorem lockOk_of_reachable (hs : ReachableBy (system n) ok s) : LockOk s := by
  induction hs with
  | init h =>
    intro c t hc
    rw [h.pc] at hc
    cases hc
  | step a _ _ hstep ih => exact ih.step (moves_of_step hstep)

/-! ### The deadlock -/

/-- `timer_stop` holds the lock and waits for the timer to leave
`TIMER_RUNNING`, and the expiry handler waits for the lock. -/
def Deadlock (s : State n) (t : Nat) : Prop :=
  ∃ c c', s.pc c = .stopSpin t ∧ s.lock t = some c ∧ s.state t = .running ∧ s.pc c' = .expiryLock t

theorem Pc.of_not_holds {pc : Pc} (ht : pc.timer = some t) (hh : pc.holds ≠ some t) :
    pc = .expiryCas t ∨ pc = .expiryLock t := by
  cases pc with
  | expiryCas u =>
    cases ht
    exact .inl rfl
  | expiryLock u =>
    cases ht
    exact .inr rfl
  | _ => exact absurd ht hh

/-- In `timer_stop`, with the lock, up to the end of the loop. -/
def Pc.Stopping (t : Nat) : Pc → Prop
  | .stopCheck u | .stopRead u | .stopRemove u | .stopSpin u => u = t
  | _ => False

instance (t : Nat) (pc : Pc) : Decidable (pc.Stopping t) := by
  cases pc <;> unfold Pc.Stopping <;> infer_instance

/-- No CPU is in that section. -/
def NotStopping (s : State n) (t : Nat) : Prop := ∀ c, ¬ (s.pc c).Stopping t

instance (s : State n) (t : Nat) : Decidable (NotStopping s t) :=
  inferInstanceAs (Decidable (∀ _, _))

/-- The two steps that lead to the deadlock are excluded. -/
def Apart (s : State n) : Action n → Prop
  | .timer_stop _ t => s.state t ≠ .running
  | .run c =>
    match s.pc c with
    | .expiryCas t => s.state t = .pending → NotStopping s t
    | _ => True
  | _ => True

instance (s : State n) (a : Action n) : Decidable (Apart s a) := by
  cases a <;> dsimp only [Apart] <;> try infer_instance
  split <;> infer_instance

/-- A timer that is being stopped is not running. -/
def StopOk (s : State n) : Prop := ∀ c t, (s.pc c).Stopping t → s.state t ≠ .running

theorem StopOk.setPc (h : StopOk s) {pc : Pc} (hpc : s'.pc = update s.pc c pc)
    (hstop : ∀ t, pc.Stopping t → s.state t ≠ .running)
    (hstate : ∀ t, s'.state t = .running → s.state t = .running) : StopOk s' := by
  intro c' t hc hrun
  rw [hpc] at hc
  rw [update_apply] at hc
  split at hc
  · exact hstop t hc (hstate t hrun)
  · exact h c' t hc (hstate t hrun)

theorem setState_running (hst : st ≠ .running)
    (h : (s.setState t st).state u = .running) : s.state u = .running := by
  by_cases hu : u = t
  · rw [hu, setState_state, update_self] at h
    exact absurd h hst
  · rwa [setState_state, update_of_ne hu] at h

theorem StopOk.run (h : StopOk s) (hapart : Apart s (.run c)) (hrun : Runs s c s') : StopOk s' := by
  cases hrun with
  | @expiry_running t hpc hst =>
    -- nobody is stopping the timer that becomes `RUNNING`
    have hnone : NotStopping s t := by
      simp only [Apart, hpc] at hapart
      exact hapart hst
    intro c' t' hc hrunning
    rw [setPc_pc, update_apply] at hc
    split at hc
    · exact hc
    · have hne : t' ≠ t := by
        intro heq
        rw [heq] at hc
        exact hnone c' hc
      rw [setPc_state, setState_state, update_of_ne hne] at hrunning
      exact h c' t' hc hrunning
  | start_pending _ _ | stop_store _ | expiry_store _ =>
    exact h.setPc rfl (fun _ hs => hs.elim) (fun _ hr => setState_running (by simp) hr)
  | stop_check hpc _ | stop_pending hpc _ | stop_other hpc _ | stop_remove hpc _ =>
    exact h.setPc rfl (fun u hs => h c u (by rw [hpc]; exact hs)) (fun _ hr => hr)
  | _ => exact h.setPc rfl (fun _ hs => hs.elim) (fun _ hr => hr)

theorem StopOk.step (h : StopOk s) {a : Action n} (hapart : Apart s a) (hmove : Moves s a s') :
    StopOk s' := by
  cases hmove with
  | timer_stop _ _ =>
    refine h.setPc rfl ?_ (fun _ hr => hr)
    intro t ht
    cases ht
    exact hapart
  | timer_start _ _ | timer_handle_expiry _ | pop _ _ _ =>
    exact h.setPc rfl (fun _ hs => hs.elim) (fun _ hr => hr)
  | run hrun => exact h.run hapart hrun
  | tick | wait | unwait => exact h
  | @timer_init t _ =>
    intro c u hc hrun
    refine h c u hc ?_
    exact setState_running (s := s) (t := t) (by simp) hrun

/-- **No deadlock** of `timer_stop` and `timer_handle_expiry`, in every run
in which no stop takes the lock of a running timer and no handler makes
a timer `RUNNING` that is being stopped. -/
theorem timer_stop_no_deadlock (hs : ReachableBy (system n) Apart s) (t : Nat) :
    ¬ Deadlock s t := by
  have hstop : StopOk s := by
    induction hs with
    | init h =>
      intro c t hc
      rw [h.pc] at hc
      exact hc.elim
    | step a _ hapart hstep ih => exact ih.step hapart (moves_of_step hstep)
  -- a stop that spins is still `Stopping`
  rintro ⟨c, c', hpc, -, hrun, -⟩
  exact hstop c t (by rw [hpc]; rfl) hrun

/-- CPU 0 starts timer 0 with timeout 0, its timer DPC pops the timer and
makes it `RUNNING`. -/
def expiringRun : List (Action 2) :=
  [.timer_start 0 0 0, .run 0, .run 0, .run 0, .run 0, .timer_handle_expiry 0, .pop 0 0, .run 0]

/-- A stop that comes after the handler is done finds the timer stopped. -/
theorem timer_stop_no_deadlock_late : ∃ s, execBy (system 2) Apart (boot 2)
        (expiringRun ++ [.run 0, .run 0, .run 0, .run 0, .timer_stop 1 0, .run 1, .run 1]) =
          some s ∧ s.pc 1 = .idle ∧ ¬ Deadlock s 0 := by
  refine run_imp (fun s => s.pc 1 = .idle) ⟨_, rfl, rfl⟩ fun s hs hpc => ⟨hpc, ?_⟩
  exact timer_stop_no_deadlock (.of_execBy (.init (boot_init 2)) hs) 0

/-- **The deadlock is reachable**: a stop on CPU 1 takes the lock before the
handler does. -/
theorem timer_stop_deadlock :
    ¬ ∀ (n : Nat) (s : State n), Reachable (system n) s → ∀ t, ¬ Deadlock s t := by
  intro h
  obtain ⟨s, hs, hstop, hlock, hstate, hexpiry⟩ : ∃ s, exec (system 2) (boot 2)
      (expiringRun ++ [.timer_stop 1 0, .run 1, .run 1]) = some s ∧ s.pc 1 = .stopSpin 0 ∧
      s.lock 0 = some 1 ∧ s.state 0 = .running ∧ s.pc 0 = .expiryLock 0 :=
    ⟨_, rfl, rfl, rfl, rfl, rfl⟩
  exact h 2 s (.of_exec (boot_init 2) hs) 0 ⟨1, 0, hstop, hlock, hstate, hexpiry⟩

end Timer
