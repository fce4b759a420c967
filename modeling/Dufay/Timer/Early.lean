import Dufay.Timer.Ktimer

/-! # Timers do not fire early

On one CPU, a wait is satisfied by a timer only when the time that the
timer was last armed for has come, under two conditions that
`timer_start` does not check: the timer is not signaled when it is
armed, and the sum that becomes the deadline fits into 64 bits. Times are
exact here, although the 64-bit clock may wrap around.
-/

open Lts Function

namespace Timer

open State
open Wait (TimerState)

variable {n : Nat}

theorem now_toNat (s : State n) (c : Fin n) : (s.now c).toNat = time (s.ticks c) % 2 ^ 64 := by
  have hfactor : (NANOSECONDS_PER_SECOND / HZ).toNat = 10 ^ 7 := by decide
  unfold State.now TICKS_TO_NS time
  rw [UInt64.toNat_mul, hfactor, UInt64.toNat_ofNat']
  exact Nat.mod_mul_mod _ _ _

theorem le_of_mod_add_le {m : Nat} (hab : a ≤ b) (h : a % m + d ≤ b % m) : a + d ≤ b := by
  -- the quotients are ordered as the times are, and the remainders by hypothesis
  have hdiv : a / m ≤ b / m := Nat.div_le_div_right hab
  have hmul : m * (a / m) ≤ m * (b / m) := Nat.mul_le_mul_left m hdiv
  have ha := Nat.div_add_mod a m
  have hb := Nat.div_add_mod b m
  omega

/-! ### What can go wrong -/

/-- A `timer_start` that arms the timer finds it unsignaled, and its deadline
fits into 64 bits. -/
def InTime (s : State n) : Action n → Prop
  | .run c =>
    match s.pc c with
    | .startCas t _ => s.state t = .stopped → s.signaled_count t = 0
    | .startArm _ ns => (s.now c).toNat + ns.toNat < 2 ^ 64
    | _ => True
  | _ => True

instance (s : State n) (a : Action n) : Decidable (InTime s a) :=
  match a with
  | .run c =>
    decidable_of_iff ((match s.pc c with
      | .startCas t _ => decide (s.state t = .stopped → s.signaled_count t = 0)
      | .startArm _ ns => decide ((s.now c).toNat + ns.toNat < 2 ^ 64)
      | _ => true) = true) (by
        unfold InTime
        dsimp only
        split
        · exact decide_eq_true_iff
        · exact decide_eq_true_iff
        · simp)
  | .timer_init _ | .timer_start _ _ _ | .timer_stop _ _ | .timer_handle_expiry _ | .pop _ _
  | .tick _ | .wait _ _ | .unwait _ _ => inferInstanceAs (Decidable True)

/-- The step satisfies a wait by timer `t`: the wait finds it signaled, or
the handler signals it and there is a waiter. -/
def Satisfies (s : State n) : Action n → Nat → Prop
  | .wait _ u, t => u = t ∧ s.lock t = none ∧ 0 < s.signaled_count t
  | .run c, t => s.pc c = .expirySignal t ∧ s.waiting t ≠ []
  | _, _ => False

/-! ### The invariant -/

variable {s s' : State 1} {t : Nat}

/-- The time that the timer was last armed for has come. -/
def Fired (s : State 1) (t : Nat) : Prop :=
  ∃ now ns, s.armed t = some (now, ns) ∧ now + ns.toNat ≤ time (s.ticks 0)

/-- What the CPU knows of the timer that it works on. -/
def Pc.EarlyOk (s : State 1) : Pc → Prop
  | .startArm t _ => s.signaled_count t = 0
  | .startInsert t => s.armed t ≠ none
  | .expiryCas t | .expiryLock t | .expirySignal t => Fired s t
  | _ => True

structure EarlyOk (s : State 1) : Prop where
  /-- The deadline of an armed timer, which was armed in the past. -/
  due : ∀ t now ns, s.armed t = some (now, ns) →
    now ≤ time (s.ticks 0) ∧ (s.deadline t).toNat = now % 2 ^ 64 + ns.toNat
  heap : ∀ t ∈ s.timers 0, s.armed t ≠ none
  signaled : ∀ t, 0 < s.signaled_count t → Fired s t
  pc : (s.pc 0).EarlyOk s

theorem time_mono (h : a ≤ b) : time a ≤ time b := Nat.mul_le_mul_right _ h

theorem Fired.mono (h : Fired s t) (harmed : s'.armed t = s.armed t)
    (hticks : s.ticks 0 ≤ s'.ticks 0) : Fired s' t := by
  obtain ⟨now, ns, ha, hle⟩ := h
  exact ⟨now, ns, harmed.trans ha, hle.trans (time_mono hticks)⟩

theorem Pc.EarlyOk.mono {pc : Pc} (h : pc.EarlyOk s)
    (harmed : ∀ u, pc.timer = some u → s'.armed u = s.armed u)
    (hcount : ∀ u, pc.timer = some u → s'.signaled_count u = s.signaled_count u)
    (hticks : s.ticks 0 ≤ s'.ticks 0) : pc.EarlyOk s' := by
  cases pc with
  | startArm u _ => exact (hcount u rfl).trans h
  | startInsert u =>
    show s'.armed u ≠ none
    rw [harmed u rfl]
    exact h
  | expiryCas u | expiryLock u | expirySignal u => exact Fired.mono h (harmed u rfl) hticks
  | _ => trivial

section

variable (h : EarlyOk s)

include h

theorem EarlyOk.same (harmed : s'.armed = s.armed)
    (hdeadline : s'.deadline = s.deadline) (hticks : s.ticks 0 ≤ s'.ticks 0)
    (htimers : ∀ t ∈ s'.timers 0, s.armed t ≠ none)
    (hcount : ∀ t, 0 < s'.signaled_count t → Fired s t) (hpc : (s'.pc 0).EarlyOk s') :
    EarlyOk s' := by
  constructor
  · intro t now ns ha
    rw [harmed] at ha
    obtain ⟨hpast, hdue⟩ := h.due t now ns ha
    rw [hdeadline]
    exact ⟨hpast.trans (time_mono hticks), hdue⟩
  · rw [harmed]
    exact htimers
  · exact fun t ht => (hcount t ht).mono (by rw [harmed]) hticks
  · exact hpc

theorem EarlyOk.setPc {pc : Pc} (hpc' : s'.pc = update s.pc 0 pc)
    (harmed : s'.armed = s.armed) (hdeadline : s'.deadline = s.deadline)
    (hticks : s'.ticks = s.ticks) (htimers : ∀ t ∈ s'.timers 0, t ∈ s.timers 0)
    (hcount : s'.signaled_count = s.signaled_count) (hpc : pc.EarlyOk s) : EarlyOk s' := by
  -- a heap may only shrink in such a step
  refine h.same harmed hdeadline (by rw [hticks]) (fun t ht => h.heap t (htimers t ht)) ?_ ?_
  · rw [hcount]
    exact h.signaled
  · rw [hpc', update_self]
    exact hpc.mono (fun _ _ => by rw [harmed]) (fun _ _ => by rw [hcount]) (by rw [hticks])

theorem EarlyOk.start_arm (hpc : s.pc 0 = .startArm t ns)
    (hfits : (s.now 0).toNat + ns.toNat < 2 ^ 64) : EarlyOk ({ s with
      deadline := update s.deadline t (s.now 0 + ns)
      cpu := update s.cpu t (some 0)
      armed := update s.armed t (some (time (s.ticks 0), ns)) }.setPc 0
        (.startInsert t)) := by
  have hcount := h.pc
  rw [hpc] at hcount
  constructor
  · intro u now ns' ha
    by_cases hu : u = t
    · rw [hu] at ha ⊢
      simp only [setPc_armed, update_self, Option.some.injEq, Prod.mk.injEq] at ha
      obtain ⟨rfl, rfl⟩ := ha
      refine ⟨le_rfl, ?_⟩
      simp only [setPc_deadline, update_self]
      rw [UInt64.toNat_add, Nat.mod_eq_of_lt hfits, now_toNat]
    · simp only [setPc_armed, update_of_ne hu] at ha
      simp only [setPc_deadline, update_of_ne hu]
      exact h.due u now ns' ha
  · intro u hu
    by_cases hut : u = t
    · simp [hut]
    · simpa [hut] using h.heap u hu
  · intro u hu
    -- the timer itself is not signaled
    have hut : u ≠ t := by
      intro heq
      have hpos : 0 < s.signaled_count u := hu
      have hzero : s.signaled_count t = 0 := hcount
      rw [heq, hzero] at hpos
      exact absurd hpos (lt_irrefl 0)
    exact (h.signaled u hu).mono (by simp [hut]) le_rfl
  · rw [setPc_pc, update_self]
    show update s.armed t (some (time (s.ticks 0), ns)) t ≠ none
    simp

theorem EarlyOk.fired_of_deadline (hin : t ∈ s.timers 0)
    (hdue : s.deadline t ≤ s.now 0) : Fired s t := by
  -- a timer in the heap is armed, and its deadline is the one it was armed for
  obtain ⟨⟨now, ns⟩, ha⟩ := Option.ne_none_iff_exists'.mp (h.heap t hin)
  obtain ⟨hpast, hdeadline⟩ := h.due t now ns ha
  refine ⟨now, ns, ha, ?_⟩
  apply le_of_mod_add_le hpast
  calc now % 2 ^ 64 + ns.toNat = (s.deadline t).toNat := hdeadline.symm
    _ ≤ (s.now 0).toNat := UInt64.le_iff_toNat_le.mp hdue
    _ = time (s.ticks 0) % 2 ^ 64 := now_toNat s 0

theorem EarlyOk.run {c : Fin 1} (hin : InTime s (.run c)) (hrun : Runs s c s') : EarlyOk s' := by
  obtain rfl : c = 0 := Subsingleton.elim c 0
  have hknow := h.pc
  cases hrun with
  | start_pending hpc hst =>
    simp only [InTime, hpc] at hin
    exact h.setPc rfl rfl rfl rfl (fun _ ht => ht) rfl (hin hst)
  | start_arm hpc =>
    simp only [InTime, hpc] at hin
    exact h.start_arm hpc hin
  | @start_insert t hpc =>
    rw [hpc] at hknow
    refine h.same rfl rfl le_rfl ?_ h.signaled ?_
    · intro u hu
      simp only [setPc_timers, pairing_heap_insert, update_self, List.mem_cons] at hu
      rcases hu with rfl | hu
      · exact hknow
      · exact h.heap u hu
    · rw [setPc_pc, update_self]
      trivial
  | @stop_remove t k hpc hk =>
    obtain rfl : k = 0 := Subsingleton.elim k 0
    refine h.setPc rfl rfl rfl rfl ?_ rfl trivial
    intro u hu
    simp only [setPc_timers, pairing_heap_remove, update_self] at hu
    exact List.mem_of_mem_erase hu
  | expiry_running hpc _ | expiry_lock hpc _ =>
    rw [hpc] at hknow
    exact h.setPc rfl rfl rfl rfl (fun _ ht => ht) rfl hknow
  | @expiry_signal t hpc =>
    rw [hpc] at hknow
    refine h.same rfl rfl le_rfl h.heap ?_ ?_
    -- the timer that becomes signaled is the one whose expiry the handler has seen
    · intro u hu
      by_cases hut : u = t
      · rw [hut]
        exact hknow
      · simp only [setPc_signaled_count, update_of_ne hut] at hu
        exact h.signaled u hu
    · rw [setPc_pc, update_self]
      trivial
  | _ => exact h.setPc rfl rfl rfl rfl (fun _ ht => ht) rfl trivial

theorem EarlyOk.timer_init (hunused : Unused s t) : EarlyOk (timer_init s t) := by
  obtain ⟨-, -, -, hnobody⟩ := hunused
  have harmed : ∀ u, u ≠ t → (Timer.timer_init s t).armed u = s.armed u := by
    intro u hu
    simp [Timer.timer_init, hu]
  have hcount : ∀ u, u ≠ t → (Timer.timer_init s t).signaled_count u = s.signaled_count u := by
    intro u hu
    simp [Timer.timer_init, hu]
  constructor
  · intro u now ns ha
    have hu : u ≠ t := by
      intro heq
      rw [heq] at ha
      simp [Timer.timer_init] at ha
    rw [harmed u hu] at ha
    simpa [Timer.timer_init, hu] using h.due u now ns ha
  · intro u hin
    -- an unused timer is in no heap
    have hu : u ≠ t := fun heq => (hnobody 0).2 (heq ▸ hin)
    rw [harmed u hu]
    exact h.heap u hin
  · intro u hpos
    have hu : u ≠ t := by
      intro heq
      rw [heq] at hpos
      simp [Timer.timer_init] at hpos
    rw [hcount u hu] at hpos
    exact (h.signaled u hpos).mono (harmed u hu) le_rfl
  · have hne : ∀ u, (s.pc 0).timer = some u → u ≠ t := by
      intro u hu heq
      rw [heq] at hu
      exact (hnobody 0).1 hu
    exact h.pc.mono (fun u hu => harmed u (hne u hu)) (fun u hu => hcount u (hne u hu)) le_rfl

theorem EarlyOk.step {a : Action 1} (hin : InTime s a) (hmove : Moves s a s') : EarlyOk s' := by
  cases hmove with
  | @timer_start c _ _ _ _ | @timer_stop c _ _ _ | @timer_handle_expiry c _ =>
    obtain rfl : c = 0 := Subsingleton.elim c 0
    exact h.setPc rfl rfl rfl rfl (fun _ ht => ht) rfl trivial
  | @pop c t _ hmem hdue =>
    obtain rfl : c = 0 := Subsingleton.elim c 0
    refine h.setPc rfl rfl rfl rfl ?_ rfl (h.fired_of_deadline hmem hdue)
    intro u hu
    simp only [setPc_timers, pairing_heap_remove, update_self] at hu
    exact List.mem_of_mem_erase hu
  | run hrun => exact h.run hin hrun
  | @tick c =>
    obtain rfl : c = 0 := Subsingleton.elim c 0
    have hticks : s.ticks 0 ≤ update s.ticks 0 (s.ticks 0 + 1) 0 := by simp
    exact h.same rfl rfl hticks h.heap h.signaled
      (h.pc.mono (fun _ _ => rfl) (fun _ _ => rfl) hticks)
  | wait | unwait => exact ⟨h.due, h.heap, h.signaled, h.pc⟩
  | timer_init hunused => exact h.timer_init hunused

end

theorem EarlyOk.init (h : Init s) : EarlyOk s := by
  constructor
  · intro t now ns ha
    rw [h.armed] at ha
    cases ha
  · intro t ht
    rw [h.timers] at ht
    cases ht
  · intro t ht
    rw [h.signaled_count] at ht
    exact absurd ht (lt_irrefl 0)
  · rw [h.pc]
    trivial

theorem earlyOk_of_inTime (hs : ReachableBy (system 1) InTime s) : EarlyOk s := by
  induction hs with
  | init h => exact .init h
  | step a _ hin hstep ih => exact ih.step hin (moves_of_step hstep)

/-- **No timer fires early**, in every run on one CPU in which timers are
armed unsignaled and with a deadline that fits: whenever a wait is
satisfied by a timer, the time is at least that of the `timer_start`
that armed the timer last, plus its argument, as exact numbers. -/
theorem timer_not_early (hs : ReachableBy (system 1) InTime s) {a : Action 1}
    (hsat : Satisfies s a t) :
    ∃ now ns, s.armed t = some (now, ns) ∧ now + ns.toNat ≤ time (s.ticks 0) := by
  have h := earlyOk_of_inTime hs
  cases a with
  | wait th u => exact h.signaled t hsat.2.2
  | run c =>
    obtain rfl : c = 0 := Subsingleton.elim c 0
    have hknow := h.pc
    rw [hsat.1] at hknow
    exact hknow
  | _ => exact hsat.elim

/-- Timer 0 is started for one tick, and thread 7 waits for it. The clock
ticks, and the handler comes to signal the timer. -/
def oneTickRun : List (Action 1) :=
  [.timer_start 0 0 10000000, .run 0, .run 0, .run 0, .run 0, .wait 7 0, .tick 0,
    .timer_handle_expiry 0, .pop 0 0, .run 0, .run 0]

/-- The wait of `oneTickRun` is satisfied after one tick. -/
theorem timer_not_early_tick :
    ∃ s, execBy (system 1) InTime (boot 1) oneTickRun = some s ∧ Satisfies s (.run 0) 0 ∧
      ∃ now ns, s.armed 0 = some (now, ns) ∧ now + ns.toNat ≤ time (s.ticks 0) := by
  refine run_imp (fun s => s.pc 0 = .expirySignal 0 ∧ s.waiting 0 = [7]) ⟨_, rfl, rfl, rfl⟩
    fun s hs ⟨hpc, hwaiting⟩ => ?_
  have hsat : Satisfies s (.run 0) 0 := ⟨hpc, by rw [hwaiting]; simp⟩
  exact ⟨hsat, timer_not_early (.of_execBy (.init (boot_init 1)) hs) hsat⟩

/-- **A timer that is started again fires at once**: after its first expiry
it stays signaled, and a wait that begins after it was armed for one
second is satisfied immediately. -/
theorem timer_early_again : ¬ ∀ s : State 1, Reachable (system 1) s → ∀ a t, Satisfies s a t →
      ∃ now ns, s.armed t = some (now, ns) ∧ now + ns.toNat ≤ time (s.ticks 0) := by
  intro h
  obtain ⟨s, hs, hlock, hcount, harmed, hticks⟩ : ∃ s, exec (system 1) (boot 1)
      [.timer_start 0 0 0, .run 0, .run 0, .run 0, .run 0, .timer_handle_expiry 0, .pop 0 0,
        .run 0, .run 0, .run 0, .run 0, .run 0, .run 0,
        .timer_start 0 0 1000000000, .run 0, .run 0, .run 0, .run 0] = some s ∧
      s.lock 0 = none ∧ s.signaled_count 0 = 1 ∧ s.armed 0 = some (0, 1000000000) ∧
      s.ticks 0 = 0 := ⟨_, rfl, rfl, rfl, rfl, rfl⟩
  obtain ⟨now, ns, ha, hle⟩ := h s (.of_exec (boot_init 1) hs) (.wait 7 0) 0
    ⟨rfl, hlock, by rw [hcount]; decide⟩
  rw [harmed] at ha
  cases ha
  rw [hticks] at hle
  exact absurd hle (by decide)

/-- The deadline of a timeout near the top of the range lies in the past: a
timer that is armed at the first tick for 2^64 - 1 nanoseconds is
signaled at that tick. -/
example : ∃ s, exec (system 1) (boot 1)
    [.tick 0, .timer_start 0 0 (-1), .run 0, .run 0, .run 0, .run 0, .wait 7 0,
      .timer_handle_expiry 0, .pop 0 0, .run 0, .run 0] = some s ∧
    s.pc 0 = .expirySignal 0 ∧ s.waiting 0 = [7] ∧ s.armed 0 = some (10000000, -1) ∧
    s.ticks 0 = 1 :=
  ⟨_, rfl, rfl, rfl, rfl, rfl⟩

end Timer
