import Dufay.Wait.Wakeup

/-! # Signals are neither lost nor made up

The count of a semaphore is what was released and not consumed. A
release raises the count at the beginning of its critical section and is
completed at its end, so one release may be in progress in between.

The count is an `int`, and `semaphore_release` does not check for
overflow. `BelowMax` is the condition that it would have to check.
-/

open Lts Tailq Function

namespace Wait

open Wait

open State
open Ule (WaitStatus)

variable {cfg : Config} {s s' : State} {t k : Nat} {o : Oid}

/-! ### Conservation -/

/-- The largest value of an `int`. -/
def INT_MAX : Int := 2 ^ 31 - 1

/-- A release finds the count below `INT_MAX`. -/
def BelowMax (s : State) : Action → Prop
  | .semaphore_release _ k => s.signaled_count (.obj k) < INT_MAX
  | _ => True

instance (s : State) (a : Action) : Decidable (BelowMax s a) :=
  match a with
  | .wait_any .. | .mutex_lock .. | .mutex_unlock .. | .semaphore_release ..
  | .timer_start .. | .expire .. | .expiry .. | .signal .. | .run .. => by
    unfold BelowMax
    infer_instance

/-- A release in progress has raised the count and is not completed. -/
def inRelease : Option Holder → Nat
  | none => 0
  | some _ => 1

structure SemaphoreOk (cfg : Config) (k : Nat) (s : State) : Prop where
  holder : ∀ h, s.lock (.obj k) = some h → ∃ t pc, h = .signal (.semaphore_release t) pc
  timer_state : s.timer_state (.obj k) = .stopped
  expiring : s.expiring (.obj k) = false
  nonneg : 0 ≤ s.signaled_count (.obj k)
  conserved : s.signaled_count (.obj k) + s.consumed (.obj k) =
    cfg.initial k + s.released (.obj k) + inRelease (s.lock (.obj k))

section

variable (h : SemaphoreOk cfg k s)

include h

theorem SemaphoreOk.congr (hlock : s'.lock (.obj k) = s.lock (.obj k))
    (hstate : s'.timer_state (.obj k) = s.timer_state (.obj k))
    (hexp : s'.expiring (.obj k) = s.expiring (.obj k))
    (hcount : s'.signaled_count (.obj k) = s.signaled_count (.obj k))
    (hreleased : s'.released (.obj k) = s.released (.obj k))
    (hconsumed : s'.consumed (.obj k) = s.consumed (.obj k)) : SemaphoreOk cfg k s' := by
  constructor
  · rw [hlock]
    exact h.holder
  · rw [hstate, h.timer_state]
  · rw [hexp, h.expiring]
  · rw [hcount]
    exact h.nonneg
  · rw [hcount, hconsumed, hreleased, hlock]
    exact h.conserved

theorem SemaphoreOk.consume (hk : cfg.kind k = .semaphore)
    (hpos : 0 < s.signaled_count (.obj k)) (hrange : s.signaled_count (.obj k) < 2 ^ 31) (t : Nat) :
    SemaphoreOk cfg k (dispatch_object_consume cfg s (.obj k) t) := by
  have htype : cfg.type (.obj k) = .synchronization := by
    simp [Config.type, hk, ObjectKind.type]
  have hcount : (dispatch_object_consume cfg s (.obj k) t).signaled_count (.obj k) =
      s.signaled_count (.obj k) - 1 := by
    rw [consume_signaled_count_self _ _ _ _ htype, toInt32_eq (by omega) (by omega)]
  constructor
  · rw [consume_lock]
    exact h.holder
  · rw [consume_timer_state, h.timer_state]
  · rw [consume_expiring, h.expiring]
  · rw [hcount]
    omega
  · have hcons := h.conserved
    rw [hcount, consume_consumed_self _ _ _ _ htype, consume_released, consume_lock]
    push_cast
    omega

theorem SemaphoreOk.pass {pc : SignalPc}
    (hlock : s.lock (.obj k) = some (.signal who pc)) (pc' : SignalPc) :
    SemaphoreOk cfg k (s.setLock (.obj k) (some (.signal who pc'))) := by
  -- only releases enter a semaphore, so the release is still in progress
  obtain ⟨t, pc₀, heq⟩ := h.holder _ hlock
  cases heq
  have hcons := h.conserved
  rw [hlock] at hcons
  constructor
  · intro hold hl
    rw [setLock_lock, update_self] at hl
    exact ⟨t, pc', by simpa using hl.symm⟩
  · exact h.timer_state
  · exact h.expiring
  · exact h.nonneg
  · rw [setLock_lock, update_self]
    exact hcons

section
variable (hk : cfg.kind k = .semaphore) (hwake : WakeupOk cfg s)
include hk hwake

theorem SemaphoreOk.signal_step (hmove : Moves cfg s (.signal o) s') : SemaphoreOk cfg k s' := by
  by_cases ho : o = .obj k
  · subst ho
    have hoff := hwake.offered (.obj k)
    -- handing a signal over consumes it inside the release
    have hsatisfy : ∀ {who : Signaller} {pc : SignalPc} {wb : Waitblock},
        s.lock (.obj k) = some (.signal who pc) → 0 < s.signaled_count (.obj k) →
        SemaphoreOk cfg k (satisfy_waitblock cfg s (.obj k) who wb) := by
      intro who pc wb hlock hpos
      have hsat : SemaphoreOk cfg k { satisfy s wb.thread (.obj k) (some wb) with
          wb_status := update s.wb_status wb .signaled } :=
        h.congr rfl rfl rfl rfl rfl rfl
      have hcons := hsat.consume hk hpos (hwake.range (.obj k)).2 wb.thread
      exact hcons.pass (by rw [consume_lock]; exact hlock) _
    cases hmove with
    | @pop _ _ wb hlock _ _ =>
      have hpop : SemaphoreOk cfg k { s with links := s.links.remove (.obj k) wb } :=
        h.congr rfl rfl rfl rfl rfl rfl
      exact hpop.pass hlock _
    | loop_end hlock _ | not_case1 hlock _ | not_case2 hlock _ | not_case3 hlock _ =>
      exact h.pass hlock _
    | @case3 _ _ wb hlock _ =>
      have hwb : SemaphoreOk cfg k
          { s with wb_status := update s.wb_status wb .inactive } :=
        h.congr rfl rfl rfl rfl rfl rfl
      exact hwb.pass hlock _
    | case1 hlock _ =>
      rw [hlock] at hoff
      exact hsatisfy hlock hoff.1
    | @case2 _ who wb hlock _ =>
      rw [hlock] at hoff
      have hsat : SemaphoreOk cfg k (satisfy_waitblock cfg s (.obj k) who wb) :=
        hsatisfy hlock hoff.1
      unfold sched_wake
      split
      · exact hsat.congr rfl rfl rfl rfl rfl rfl
      · exact hsat
    | @release _ who ret hlock =>
      obtain ⟨t, pc, heq⟩ := h.holder _ hlock
      cases heq
      have hcons := h.conserved
      rw [hlock] at hcons
      -- the release in progress becomes a completed one
      have hnone : (release s (.obj k) (.semaphore_release t) ret).lock (.obj k) = none := by
        simp [release]
      constructor
      · intro hold hl
        rw [hnone] at hl
        cases hl
      · exact h.timer_state
      · exact h.expiring
      · exact h.nonneg
      · rw [hnone]
        simp only [inRelease] at hcons
        simp only [release, setPc_signaled_count, setLock_signaled_count, setPc_consumed,
          setLock_consumed, setPc_released, setLock_released, update_self, inRelease]
        push_cast
        omega
  -- signallers of other objects do not touch the semaphore
  · have ho' : Oid.obj k ≠ o := fun heq => ho heq.symm
    have hsatisfy : ∀ {who : Signaller} {wb : Waitblock},
        SemaphoreOk cfg k (satisfy_waitblock cfg s o who wb) := by
      intro who wb
      refine h.congr ?_ ?_ ?_ ?_ ?_ ?_
      · rw [satisfy_waitblock_lock, update_of_ne ho']
      · simp [satisfy_waitblock, satisfy]
      · simp [satisfy_waitblock, satisfy]
      · simp [satisfy_waitblock, satisfy, consume_signaled_count_ne _ _ _ _ ho']
      · simp [satisfy_waitblock, satisfy]
      · simp [satisfy_waitblock, satisfy, consume_consumed_ne _ _ _ _ ho']
    cases hmove with
    | pop _ _ _ | loop_end _ _ | not_case1 _ _ | not_case2 _ _ | case3 _ _ | not_case3 _ _ =>
      exact h.congr (by simp [ho']) rfl rfl rfl rfl rfl
    | case1 _ _ => exact hsatisfy
    | case2 _ _ =>
      unfold sched_wake
      split
      · exact .congr hsatisfy rfl rfl rfl rfl rfl rfl
      · exact hsatisfy
    | @release _ who ret _ =>
      cases who with
      | mutex_unlock t => exact h.congr (by simp [release, ho']) rfl rfl rfl rfl rfl
      | semaphore_release t =>
        exact h.congr (by simp [release, ho']) rfl rfl rfl (by simp [release, ho']) rfl
      | timer_handle_expiry =>
        exact h.congr (by simp [release, ho']) (by simp [release, ho']) rfl rfl rfl rfl

theorem SemaphoreOk.run_step (hmove : Moves cfg s (.run t) s') : SemaphoreOk cfg k s' := by
  cases hmove with
  | @scan_take _ i c hpc hi hlock hpos hst =>
    have hsat : SemaphoreOk cfg k (satisfy s t (c.object t i) none) :=
      h.congr rfl rfl rfl rfl rfl rfl
    by_cases ho : c.object t i = .obj k
    · rw [ho] at hpos hsat ⊢
      have hcons := hsat.consume hk hpos (hwake.range (.obj k)).2 t
      exact hcons.congr rfl rfl rfl rfl rfl rfl
    · have ho' : Oid.obj k ≠ c.object t i := fun heq => ho heq.symm
      refine hsat.congr ?_ ?_ ?_ ?_ ?_ ?_
      · simp
      · simp
      · simp
      · rw [setPc_signaled_count, consume_signaled_count_ne _ _ _ _ ho']
      · simp
      · rw [setPc_consumed, consume_consumed_ne _ _ _ _ ho']
  | @start _ c _ _ =>
    refine h.congr ?_ ?_ ?_ ?_ ?_ ?_
    all_goals unfold timer_start; split
    all_goals simp
  | stop_enter _ _ => exact h.congr (by simp) rfl rfl rfl rfl rfl
  | stop_store _ => exact h.congr (by simp) (by simp) rfl rfl rfl rfl
  | @return_to _ c _ _ =>
    cases hcaller : c.caller with
    | wait_any | mutex_lock m => exact h.congr rfl rfl rfl rfl rfl rfl
  | _ => exact h.congr rfl rfl rfl rfl rfl rfl

theorem SemaphoreOk.step {a : Action} (ha : BelowMax s a) (hmove : Moves cfg s a s') :
    SemaphoreOk cfg k s' := by
  cases a with
  | signal o => exact h.signal_step hk hwake hmove
  | run t => exact h.run_step hk hwake hmove
  | wait_any t objects timeout | mutex_lock t m timeout =>
    cases hmove
    refine h.congr ?_ ?_ ?_ ?_ ?_ ?_
    all_goals unfold begin_wait; dsimp only; split
    all_goals simp
  | mutex_unlock t m =>
    cases hmove with
    | mutex_unlock _ hm _ =>
      have hne : Oid.obj k ≠ .obj m := by
        intro heq
        cases heq
        rw [hk] at hm
        cases hm
      exact h.congr (by simp [enter, hne]) rfl rfl (by simp [enter, hne]) rfl rfl
  | semaphore_release t k' =>
    cases hmove with
    | semaphore_release _ _ hlock =>
      by_cases hkk : k' = k
      · subst hkk
        have hmax : s.signaled_count (.obj k') < INT_MAX := ha
        have hnonneg := h.nonneg
        have hcons := h.conserved
        rw [hlock] at hcons
        -- below `INT_MAX` the increment is exact
        have hcount : toInt32 (s.signaled_count (.obj k') + 1) = s.signaled_count (.obj k') + 1 := by
          unfold INT_MAX at hmax
          exact toInt32_eq (by omega) (by omega)
        rw [hcount]
        constructor
        · intro hold hl
          simp only [enter, setPc_lock, setLock_lock, update_self, Option.some.injEq] at hl
          exact ⟨t, .loop, hl.symm⟩
        · exact h.timer_state
        · exact h.expiring
        · simp only [enter, setPc_signaled_count, setLock_signaled_count, update_self]
          omega
        · simp only [enter, setPc_signaled_count, setLock_signaled_count, update_self,
            setPc_consumed, setLock_consumed, setPc_released, setLock_released, setPc_lock,
            setLock_lock]
          simp only [inRelease] at hcons ⊢
          push_cast at hcons ⊢
          omega
      · have hne : Oid.obj k ≠ .obj k' := by
          intro heq
          cases heq
          exact hkk rfl
        exact h.congr (by simp [enter, hne]) rfl rfl (by simp [enter, hne]) rfl rfl
  | timer_start k' =>
    cases hmove with
    | timer_start htimer =>
      have hne : Oid.obj k ≠ .obj k' := by
        intro heq
        cases heq
        rw [hk] at htimer
        cases htimer
      refine h.congr ?_ ?_ ?_ ?_ ?_ ?_
      all_goals unfold timer_start; split
      all_goals simp [hne]
  | expire o =>
    cases hmove with
    | expire hpending =>
      -- a semaphore is no timer: it never pends and never expires
      have hne : Oid.obj k ≠ o := by
        intro heq
        rw [← heq, h.timer_state] at hpending
        cases hpending
      exact h.congr rfl (by simp [hne]) (by simp [hne]) rfl rfl rfl
  | expiry o =>
    cases hmove with
    | expiry hexp _ =>
      have hne : Oid.obj k ≠ o := by
        intro heq
        rw [← heq, h.expiring] at hexp
        cases hexp
      exact h.congr (by simp [enter, hne]) rfl (by simp [enter, hne]) (by simp [enter, hne]) rfl rfl

end

end

theorem SemaphoreOk.init (h : Init cfg s) (hk : cfg.kind k = .semaphore)
    (hnonneg : 0 ≤ cfg.initial k) : SemaphoreOk cfg k s := by
  have hcount : s.signaled_count (.obj k) = cfg.initial k := by
    rw [h.signaled_count]
    simp [Config.initial_count, hk]
  constructor
  · intro hold hl
    rw [h.lock] at hl
    cases hl
  · exact h.timer_state _
  · exact h.expiring _
  · rw [hcount]
    exact hnonneg
  · rw [hcount, h.consumed, h.released, h.lock]
    simp [inRelease]

/-- The steps of waits on one object that do not overflow a count. -/
def Counted (s : State) (a : Action) : Prop := WaitsOne s a ∧ BelowMax s a

instance (s : State) (a : Action) : Decidable (Counted s a) := inferInstanceAs (Decidable (_ ∧ _))

theorem semaphoreOk_of_counted (hk : cfg.kind k = .semaphore) (hnonneg : 0 ≤ cfg.initial k)
    (hs : ReachableBy (system cfg) Counted s) : SemaphoreOk cfg k s := by
  have hwake : ∀ s, ReachableBy (system cfg) Counted s → WakeupOk cfg s :=
    fun s hr => wakeupOk_of_waitsOne (hr.mono (fun _ _ h => h.1))
  refine hs.invariant_of hwake (fun s hinit => .init hinit hk hnonneg) ?_
  intro s a s' hwake h ha hstep
  exact h.step hk hwake ha.2 (moves_of_step hstep).2

/-- **Signals are neither lost nor made up**, whenever the object's lock is
free: if the object is signaled, no wait in its list is in progress or
committed; and the count of a semaphore is the initial count plus the
completed releases minus the waits that consumed it, and not negative. -/
theorem signals_conserved (hinit : ∀ k, cfg.kind k = .semaphore → 0 ≤ cfg.initial k)
    (hs : ReachableBy (system cfg) Counted s) (hlock : s.lock o = none) :
    (0 < s.signaled_count o → ∀ wb, Linked s.links o wb →
      s.status wb.thread ≠ .inProgress ∧ s.status wb.thread ≠ .committed) ∧
    ∀ k, o = .obj k → cfg.kind k = .semaphore →
      s.signaled_count o = cfg.initial k + s.released o - s.consumed o ∧
        0 ≤ s.signaled_count o := by
  constructor
  · intro hpos wb hl
    have hoff := (wakeupOk_of_waitsOne (hs.mono (fun _ _ h => h.1))).offered o
    rw [hlock] at hoff
    rw [hoff hpos wb hl]
    simp
  · intro k ho hk
    subst ho
    have hsem := semaphoreOk_of_counted hk (hinit k hk) hs
    have hcons := hsem.conserved
    rw [hlock] at hcons
    simp only [inRelease] at hcons
    refine ⟨?_, hsem.nonneg⟩
    push_cast at hcons
    omega

/-! ### Runs over counting semaphores -/

/-- All objects are semaphores with the same initial count. -/
def countingFrom (n : Int) (h : -2 ^ 31 ≤ n ∧ n < 2 ^ 31) : Config where
  kind := fun _ => .semaphore
  initial := fun _ => n
  initial_range := fun _ => h

/-- Thread 0 waits for semaphore 0 and commits; two releases by thread 1
wake it and leave one signal. -/
def releasedTwice : List Action := [.wait_any 0 [0] (-1), .run 0, .run 0, .run 0, .run 0,
    .semaphore_release 1 0, .signal (.obj 0), .signal (.obj 0), .signal (.obj 0), .signal (.obj 0),
    .semaphore_release 1 0, .signal (.obj 0), .signal (.obj 0)]

/-- At the end of `releasedTwice` the count is what the theorem says. -/
theorem signals_conserved_twice :
    ∃ s, execBy (system (countingFrom 0 (by omega))) Counted (boot (countingFrom 0 (by omega)))
        releasedTwice = some s ∧ s.released (.obj 0) = 2 ∧ s.consumed (.obj 0) = 1 ∧
      s.signaled_count (.obj 0) = 1 := by
  refine run_imp (fun s => s.lock (.obj 0) = none ∧ s.released (.obj 0) = 2 ∧
      s.consumed (.obj 0) = 1) ⟨_, rfl, rfl, rfl, rfl⟩
    fun s hs ⟨hlock, hreleased, hconsumed⟩ => ⟨hreleased, hconsumed, ?_⟩
  have hall := signals_conserved (fun _ _ => le_rfl) (.of_execBy (.init (boot_init _)) hs) hlock
  rw [(hall.2 0 rfl rfl).1, hreleased, hconsumed]
  rfl

/-- **A release of a semaphore at `INT_MAX` overflows**: its count becomes
negative, and waits that there are signals for block. -/
theorem signals_overflow : ¬ ∀ (cfg : Config) (s : State) (o : Oid),
      (∀ k, cfg.kind k = .semaphore → 0 ≤ cfg.initial k) →
      ReachableBy (system cfg) WaitsOne s → s.lock o = none →
      (0 < s.signaled_count o → ∀ wb, Linked s.links o wb →
        s.status wb.thread ≠ .inProgress ∧ s.status wb.thread ≠ .committed) ∧
      ∀ k, o = .obj k → cfg.kind k = .semaphore →
        s.signaled_count o = cfg.initial k + s.released o - s.consumed o ∧
          0 ≤ s.signaled_count o := by
  intro h
  obtain ⟨s, hs, hlock, hcount⟩ : ∃ s, execBy (system (countingFrom INT_MAX (by decide))) WaitsOne
      (boot (countingFrom INT_MAX (by decide)))
      [.semaphore_release 0 0, .signal (.obj 0), .signal (.obj 0)] = some s ∧
      s.lock (.obj 0) = none ∧ s.signaled_count (.obj 0) = -2 ^ 31 := ⟨_, rfl, rfl, rfl⟩
  have hmax : 0 ≤ INT_MAX := by decide
  have hall := h _ s (.obj 0) (fun _ _ => hmax) (.of_execBy (.init (boot_init _)) hs) hlock
  have hnonneg := (hall.2 0 rfl rfl).2
  rw [hcount] at hnonneg
  exact absurd hnonneg (by decide)

end Wait
