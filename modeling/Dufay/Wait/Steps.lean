import Dufay.Wait.Dispatch

/-! # What one step can do

`Moves` lists the steps of the model one by one, each with its guard
and its result, and `moves_of_step` says that these are all. The
invariants of the other modules are proved by cases on it and do not
unfold the step function again.
-/

open Lts Tailq Function

namespace Wait

open State

variable {cfg : Config} {s s' : State}

/-! ### What the operations leave alone -/

theorem consume_eq : dispatch_object_consume cfg s o t =
      { s with
        signaled_count := (dispatch_object_consume cfg s o t).signaled_count
        decremented := (dispatch_object_consume cfg s o t).decremented
        consumed := (dispatch_object_consume cfg s o t).consumed } := by
  unfold dispatch_object_consume
  split <;> rfl

section Consume

variable (cfg : Config) (s : State) (o : Oid) (t : Nat)

@[simp] theorem consume_pc : (dispatch_object_consume cfg s o t).pc = s.pc := by
  rw [consume_eq]

@[simp] theorem consume_status : (dispatch_object_consume cfg s o t).status = s.status := by
  rw [consume_eq]

@[simp] theorem consume_wb_status :
    (dispatch_object_consume cfg s o t).wb_status = s.wb_status := by
  rw [consume_eq]

@[simp] theorem consume_links : (dispatch_object_consume cfg s o t).links = s.links := by
  rw [consume_eq]

@[simp] theorem consume_lock : (dispatch_object_consume cfg s o t).lock = s.lock := by
  rw [consume_eq]

@[simp] theorem consume_owner : (dispatch_object_consume cfg s o t).owner = s.owner := by
  rw [consume_eq]

@[simp] theorem consume_calls : (dispatch_object_consume cfg s o t).calls = s.calls := by
  rw [consume_eq]

@[simp] theorem consume_held : (dispatch_object_consume cfg s o t).held = s.held := by
  rw [consume_eq]

@[simp] theorem consume_delivered :
    (dispatch_object_consume cfg s o t).delivered = s.delivered := by
  rw [consume_eq]

@[simp] theorem consume_released : (dispatch_object_consume cfg s o t).released = s.released := by
  rw [consume_eq]

@[simp] theorem consume_panic : (dispatch_object_consume cfg s o t).panic = s.panic := by
  rw [consume_eq]

@[simp] theorem consume_timer_state :
    (dispatch_object_consume cfg s o t).timer_state = s.timer_state := by
  rw [consume_eq]

@[simp] theorem consume_expiring : (dispatch_object_consume cfg s o t).expiring = s.expiring := by
  rw [consume_eq]

theorem consume_signaled_count_ne (h : o' ≠ o) :
    (dispatch_object_consume cfg s o t).signaled_count o' = s.signaled_count o' := by
  unfold dispatch_object_consume
  split
  · rfl
  · simp [h]

theorem consume_signaled_count_self (h : cfg.type o = .synchronization) :
    (dispatch_object_consume cfg s o t).signaled_count o = toInt32 (s.signaled_count o - 1) := by
  simp [dispatch_object_consume, h]

theorem consume_consumed_self (h : cfg.type o = .synchronization) :
    (dispatch_object_consume cfg s o t).consumed o = s.consumed o + 1 := by
  simp [dispatch_object_consume, h]

theorem consume_consumed_ne (h : o' ≠ o) :
    (dispatch_object_consume cfg s o t).consumed o' = s.consumed o' := by
  unfold dispatch_object_consume
  split
  · rfl
  · simp [h]

theorem mem_consume_decremented (h : o' ∈ (dispatch_object_consume cfg s o t).decremented t') :
    o' ∈ s.decremented t' ∨ (o' = o ∧ t' = t) := by
  unfold dispatch_object_consume at h
  split at h
  · exact .inl h
  · by_cases ht : t' = t
    · subst ht
      simp only [update_self, List.mem_append, List.mem_singleton] at h
      rcases h with h | h
      · exact .inl h
      · exact .inr ⟨h, rfl⟩
    · left
      simpa [ht] using h

end Consume

theorem timer_start_eq (s : State) (o : Oid) :
    timer_start s o = { s with timer_state := (timer_start s o).timer_state } := by
  unfold timer_start
  split <;> rfl

theorem setPc_self (s : State) (t : Nat) : s.setPc t (s.pc t) = s := by
  unfold State.setPc
  rw [update_eq_self]

@[simp] theorem satisfy_waitblock_pc (cfg : Config) (s : State) (o : Oid) (who : Signaller)
    (wb : Waitblock) : (satisfy_waitblock cfg s o who wb).pc = s.pc := by
  simp [satisfy_waitblock, satisfy]

theorem sched_wake_blocked (h : s.pc t = .blocked c) :
    sched_wake s t = s.setPc t (after_wait c) := by
  simp only [sched_wake, h]

inductive Moves (cfg : Config) (s : State) : Action → State → Prop where
  | wait_any {t : Nat} {objects : List Nat} {timeout : UInt64} :
      s.pc t = .idle → 0 < objects.length → objects.length ≤ INTERNAL_WAITBLOCKS_N →
      Moves cfg s (.wait_any t objects timeout)
        (begin_wait s t ⟨objects, timeout, .wait_any, s.calls t⟩)
  | mutex_lock {t m : Nat} {timeout : UInt64} : s.pc t = .idle → cfg.kind m = .mutex →
      Moves cfg s (.mutex_lock t m timeout)
        (begin_wait s t ⟨[m], timeout, .mutex_lock m, s.calls t⟩)
  | mutex_unlock {t m : Nat} : s.pc t = .idle → cfg.kind m = .mutex → s.lock (.obj m) = none →
      Moves cfg s (.mutex_unlock t m) ((enter
          { s with held := update s.held t (update (s.held t) m false) }
          (.obj m) (.mutex_unlock t) 1).setPc t (.signalling (.obj m)))
  | semaphore_release {t k : Nat} :
      s.pc t = .idle → cfg.kind k = .semaphore → s.lock (.obj k) = none →
      Moves cfg s (.semaphore_release t k) ((enter s (.obj k) (.semaphore_release t)
          (toInt32 (s.signaled_count (.obj k) + 1))).setPc t (.signalling (.obj k)))
  | timer_start {k : Nat} :
      cfg.kind k = .timer → Moves cfg s (.timer_start k) (timer_start s (.obj k))
  | expire {o : Oid} : s.timer_state o = .pending → Moves cfg s (.expire o) { s with
        timer_state := update s.timer_state o .running
        expiring := update s.expiring o true }
  | expiry {o : Oid} : s.expiring o = true → s.lock o = none → Moves cfg s (.expiry o) (enter
        { s with expiring := update s.expiring o false } o .timer_handle_expiry 1)
  -- `try_satisfy_dispatch_object`
  | pop {o : Oid} {who : Signaller} {wb : Waitblock} :
      s.lock o = some (.signal who .loop) → s.links.first o = some wb →
      0 < s.signaled_count o →
      Moves cfg s (.signal o)
        ({ s with links := s.links.remove o wb }.setLock o (some (.signal who (.case1 wb))))
  | loop_end {o : Oid} {who : Signaller} : s.lock o = some (.signal who .loop) →
      (s.links.first o = none ∨ s.signaled_count o ≤ 0) →
      Moves cfg s (.signal o) (s.setLock o (some (.signal who (.done none))))
  | case1 {o : Oid} {who : Signaller} {wb : Waitblock} :
      s.lock o = some (.signal who (.case1 wb)) → s.status wb.thread = .inProgress →
      Moves cfg s (.signal o) (satisfy_waitblock cfg s o who wb)
  | not_case1 {o : Oid} {who : Signaller} {wb : Waitblock} :
      s.lock o = some (.signal who (.case1 wb)) → s.status wb.thread ≠ .inProgress →
      Moves cfg s (.signal o) (s.setLock o (some (.signal who (.case2 wb))))
  | case2 {o : Oid} {who : Signaller} {wb : Waitblock} :
      s.lock o = some (.signal who (.case2 wb)) → s.status wb.thread = .committed →
      Moves cfg s (.signal o) (sched_wake (satisfy_waitblock cfg s o who wb) wb.thread)
  | not_case2 {o : Oid} {who : Signaller} {wb : Waitblock} :
      s.lock o = some (.signal who (.case2 wb)) → s.status wb.thread ≠ .committed →
      Moves cfg s (.signal o) (s.setLock o (some (.signal who (.case3 wb))))
  | case3 {o : Oid} {who : Signaller} {wb : Waitblock} :
      s.lock o = some (.signal who (.case3 wb)) → s.status wb.thread = .satisfied →
      Moves cfg s (.signal o)
        ({ s with wb_status := update s.wb_status wb .inactive }.setLock o
          (some (.signal who .loop)))
  | not_case3 {o : Oid} {who : Signaller} {wb : Waitblock} :
      s.lock o = some (.signal who (.case3 wb)) → s.status wb.thread ≠ .satisfied →
      Moves cfg s (.signal o) (s.setLock o (some (.signal who (next_waitblock cfg o wb))))
  | release {o : Oid} {who : Signaller} {ret : Option Nat} :
      s.lock o = some (.signal who (.done ret)) →
      Moves cfg s (.signal o) (release s o who ret)
  -- the first loop of `wait_any`
  | scan_take {t i : Nat} {c : Call} :
      s.pc t = .scan c i → i < c.count → s.lock (c.object t i) = none →
      0 < s.signaled_count (c.object t i) → s.status t = .inProgress →
      Moves cfg s (.run t)
        ((dispatch_object_consume cfg (satisfy s t (c.object t i) none) (c.object t i) t).setPc t
          (.check c (some i)))
  | scan_late {t i : Nat} {c : Call} :
      s.pc t = .scan c i → i < c.count → s.lock (c.object t i) = none →
      0 < s.signaled_count (c.object t i) → s.status t ≠ .inProgress →
      Moves cfg s (.run t) (s.setPc t (.check c (some i)))
  | scan_install {t i : Nat} {c : Call} :
      s.pc t = .scan c i → i < c.count → s.lock (c.object t i) = none →
      s.signaled_count (c.object t i) ≤ 0 →
      Moves cfg s (.run t) ({ s with
            links := s.links.insertTail (c.object t i) (c.waitblock t i)
            wb_status := update s.wb_status (c.waitblock t i) .active }.setPc t
          (.scan c (i + 1)))
  | scan_end {t i : Nat} {c : Call} : s.pc t = .scan c i → c.count ≤ i →
      Moves cfg s (.run t) (s.setPc t (.check c none))
  -- behind the first loop
  | check_panic {t : Nat} {c : Call} {satisfier : Option Nat} :
      s.pc t = .check c satisfier → (satisfier ≠ none ∨ c.timeout = 0) →
      s.status t ≠ .satisfied →
      Moves cfg s (.run t) { s with panic := some .notSatisfied }
  | check_backout {t n : Nat} {c : Call} : s.pc t = .check c (some n) → s.status t = .satisfied →
      Moves cfg s (.run t) (s.setPc t (.backout c n 0))
  | check_return {t : Nat} {c : Call} :
      s.pc t = .check c none → c.timeout = 0 → s.status t = .satisfied →
      Moves cfg s (.run t) (s.setPc t (.returned c none))
  | check_start {t : Nat} {c : Call} : s.pc t = .check c none → c.timed = true →
      Moves cfg s (.run t) (s.setPc t (.start c))
  | check_commit {t : Nat} {c : Call} : s.pc t = .check c none → c.timeout ≠ 0 → c.timed = false →
      Moves cfg s (.run t) (s.setPc t (.commit c))
  | backout {t n i : Nat} {c : Call} :
      s.pc t = .backout c n i → i < n → s.lock (.obj (c.objects.getD i 0)) = none →
      Moves cfg s (.run t) ({ s with
            wb_status := update s.wb_status (.internal t i) .inactive
            links := s.links.remove (.obj (c.objects.getD i 0)) (.internal t i) }.setPc t
          (.backout c n (i + 1)))
  | backout_end {t n i : Nat} {c : Call} : s.pc t = .backout c n i → n ≤ i →
      Moves cfg s (.run t) (s.setPc t (.returned c (some n)))
  -- the wait proper
  | start {t : Nat} {c : Call} : s.pc t = .start c → s.lock (.timeout t c.id) = none →
      Moves cfg s (.run t) ((timer_start s (.timeout t c.id)).setPc t (.commit c))
  | commit {t : Nat} {c : Call} : s.pc t = .commit c → s.status t = .inProgress →
      Moves cfg s (.run t)
        ({ s with status := update s.status t .committed }.setPc t (.blocked c))
  | commit_late {t : Nat} {c : Call} : s.pc t = .commit c → s.status t ≠ .inProgress →
      Moves cfg s (.run t) (s.setPc t (after_wait c))
  | stop_stopped {t : Nat} {c : Call} : s.pc t = .stopEnter c → s.lock (.timeout t c.id) = none →
      Moves cfg s (.run t) (s.setPc t (.final c 0 none))
  | stop_enter {t : Nat} {c : Call} : s.pc t = .stopEnter c → s.lock (.timeout t c.id) = none →
      Moves cfg s (.run t) ((s.setLock (.timeout t c.id) (some .timer_stop)).setPc t (.stopSpin c))
  | stop_spin {t : Nat} {c : Call} : s.pc t = .stopSpin c →
      Moves cfg s (.run t) (s.setPc t (.stopStore c))
  | stop_store {t : Nat} {c : Call} : s.pc t = .stopStore c → Moves cfg s (.run t) (({ s with
            timer_state := update s.timer_state (.timeout t c.id) .stopped }.setLock
          (.timeout t c.id) none).setPc t (.final c 0 none))
  -- the final loop
  | final_active {t i : Nat} {c : Call} {satisfier : Option Nat} :
      s.pc t = .final c i satisfier → i < c.count → s.lock (c.object t i) = none →
      s.wb_status (c.waitblock t i) = .active →
      Moves cfg s (.run t)
        ({ s with links := s.links.remove (c.object t i) (c.waitblock t i) }.setPc t
          (.final c (i + 1) satisfier))
  | final_inactive {t i : Nat} {c : Call} {satisfier : Option Nat} :
      s.pc t = .final c i satisfier → i < c.count → s.lock (c.object t i) = none →
      s.wb_status (c.waitblock t i) = .inactive →
      Moves cfg s (.run t) (s.setPc t (.final c (i + 1) satisfier))
  | final_signaled {t i : Nat} {c : Call} :
      s.pc t = .final c i none → i < c.count → s.lock (c.object t i) = none →
      s.wb_status (c.waitblock t i) = .signaled →
      Moves cfg s (.run t) (s.setPc t (.final c (i + 1) (some i)))
  | final_panic {t i j : Nat} {c : Call} :
      s.pc t = .final c i (some j) → i < c.count → s.lock (c.object t i) = none →
      s.wb_status (c.waitblock t i) = .signaled →
      Moves cfg s (.run t) { s with panic := some .multipleSatisfiers }
  | final_end {t i : Nat} {c : Call} {satisfier : Option Nat} :
      s.pc t = .final c i satisfier → c.count ≤ i →
      Moves cfg s (.run t)
        (s.setPc t (.returned c (if satisfier = c.timer_i then none else satisfier)))
  | return_to {t : Nat} {c : Call} {result : Option Nat} : s.pc t = .returned c result →
      Moves cfg s (.run t) (return_to s t c.caller)

theorem lock_of_signal (h : Moves cfg s (.signal o) s') :
    ∃ who pc, s.lock o = some (.signal who pc) := by
  cases h <;> exact ⟨_, _, by assumption⟩

/-! ### These are all the steps -/

theorem moves_of_signal {pc : SignalPc} (hlock : s.lock o = some (.signal who pc)) :
    Moves cfg s (.signal o) (try_satisfy_dispatch_object cfg s o who pc) := by
  cases pc with
  | loop =>
    simp only [try_satisfy_dispatch_object]
    split
    · next wb hfirst =>
      split
      · next hpos => exact .pop hlock hfirst hpos
      · next hpos => exact .loop_end hlock (.inr (by omega))
    · next hfirst => exact .loop_end hlock (.inl hfirst)
  | case1 wb =>
    simp only [try_satisfy_dispatch_object]
    split
    · next hst => exact .case1 hlock hst
    · next hst => exact .not_case1 hlock hst
  | case2 wb =>
    simp only [try_satisfy_dispatch_object]
    split
    · next hst => exact .case2 hlock hst
    · next hst => exact .not_case2 hlock hst
  | case3 wb =>
    simp only [try_satisfy_dispatch_object]
    split
    · next hst => exact .case3 hlock hst
    · next hst => exact .not_case3 hlock hst
  | done ret => exact .release hlock

theorem moves_of_scan (hpc : s.pc t = .scan c i)
    (h : scan cfg s t c i = some s') : Moves cfg s (.run t) s' := by
  unfold scan at h
  dsimp only at h
  split at h
  · next hi =>
    split at h
    · cases h
    · next hlock =>
      rw [not_not] at hlock
      split at h
      · next hpos =>
        split at h
        · next hst =>
          cases h
          exact .scan_take hpc hi hlock hpos hst
        · next hst =>
          cases h
          exact .scan_late hpc hi hlock hpos hst
      · next hpos =>
        cases h
        exact .scan_install hpc hi hlock (by omega)
  · next hi =>
    cases h
    exact .scan_end hpc (by omega)

theorem moves_of_check
    (hpc : s.pc t = .check c satisfier) : Moves cfg s (.run t) (check s t c satisfier) := by
  unfold check
  split
  · next hback =>
    split
    · next hst => exact .check_panic hpc hback hst
    · next hst =>
      rw [not_not] at hst
      cases satisfier with
      | some n => exact .check_backout hpc hst
      | none => exact .check_return hpc (by simpa using hback) hst
  · next hback =>
    simp only [ne_eq, not_or, not_not] at hback
    obtain ⟨rfl, hzero⟩ := hback
    split
    · next htimed => exact .check_start hpc htimed
    · next htimed => exact .check_commit hpc hzero (by simpa using htimed)

theorem moves_of_final_scan
    (hpc : s.pc t = .final c i satisfier) (h : final_scan s t c i satisfier = some s') :
    Moves cfg s (.run t) s' := by
  unfold final_scan at h
  dsimp only at h
  split at h
  · next hi =>
    split at h
    · cases h
    · next hlock =>
      rw [not_not] at hlock
      cases hwb : s.wb_status (c.waitblock t i) with
      | active =>
        simp only [hwb, if_true, reduceCtorEq, if_false, Option.some.injEq] at h
        subst h
        exact .final_active hpc hi hlock hwb
      | inactive =>
        simp only [hwb, if_false, reduceCtorEq, Option.some.injEq] at h
        subst h
        exact .final_inactive hpc hi hlock hwb
      | signaled =>
        simp only [hwb, if_false, if_true, reduceCtorEq] at h
        cases satisfier with
        | none =>
          cases h
          exact .final_signaled hpc hi hlock hwb
        | some j =>
          cases h
          exact .final_panic hpc hi hlock hwb
  · next hi =>
    cases h
    exact .final_end hpc (by omega)

theorem moves_of_run (h : run cfg s t = some s') : Moves cfg s (.run t) s' := by
  unfold run at h
  split at h
  · next c i hpc => exact moves_of_scan hpc h
  · next c satisfier hpc =>
    cases h
    exact moves_of_check hpc
  · next c n i hpc =>
    unfold backout at h
    dsimp only at h
    split at h
    · next hi =>
      split at h
      · cases h
      · next hlock =>
        cases h
        exact .backout hpc hi (not_not.mp hlock)
    · next hi =>
      cases h
      exact .backout_end hpc (by omega)
  · next c hpc =>
    split at h
    · cases h
    · next hlock =>
      cases h
      exact .start hpc (not_not.mp hlock)
  · next c hpc =>
    split at h
    · next hst =>
      cases h
      exact .commit hpc hst
    · next hst =>
      cases h
      exact .commit_late hpc hst
  · next c hpc =>
    dsimp only at h
    split at h
    · cases h
    · next hlock =>
      rw [not_not] at hlock
      split at h
      · cases h
        exact .stop_stopped hpc hlock
      · cases h
        exact .stop_enter hpc hlock
  · next c hpc =>
    split at h
    · cases h
    · cases h
      exact .stop_spin hpc
  · next c hpc =>
    cases h
    exact .stop_store hpc
  · next c i satisfier hpc => exact moves_of_final_scan hpc h
  · next c result hpc =>
    cases h
    exact .return_to hpc
  all_goals cases h

/-- **Inversion**: every step is one of `Moves`, and was taken before any
panic. -/
theorem moves_of_step (h : step cfg s a = some s') : s.panic = none ∧ Moves cfg s a s' := by
  unfold step at h
  split at h
  · cases h
  · next hpanic =>
    refine ⟨hpanic, ?_⟩
    cases a with
    | wait_any t objects timeout =>
      simp only [move] at h
      obtain ⟨hen, rfl⟩ := of_guard h
      exact .wait_any hen.1 hen.2.1 hen.2.2
    | mutex_lock t m timeout =>
      simp only [move] at h
      obtain ⟨hen, rfl⟩ := of_guard h
      exact .mutex_lock hen.1 hen.2
    | mutex_unlock t m =>
      simp only [move] at h
      obtain ⟨hen, rfl⟩ := of_guard h
      exact .mutex_unlock hen.1 hen.2.1 hen.2.2
    | semaphore_release t k =>
      simp only [move] at h
      obtain ⟨hen, rfl⟩ := of_guard h
      exact .semaphore_release hen.1 hen.2.1 hen.2.2
    | timer_start k =>
      simp only [move] at h
      obtain ⟨hen, rfl⟩ := of_guard h
      exact .timer_start hen.1
    | expire o =>
      simp only [move] at h
      obtain ⟨hen, rfl⟩ := of_guard h
      exact .expire hen.1
    | expiry o =>
      simp only [move] at h
      obtain ⟨hen, rfl⟩ := of_guard h
      exact .expiry hen.1 hen.2
    | signal o =>
      simp only [move] at h
      split at h
      · next who pc hlock =>
        cases h
        exact moves_of_signal hlock
      · cases h
    | run t => exact moves_of_run h

end Wait
