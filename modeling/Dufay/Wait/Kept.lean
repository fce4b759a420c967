import Dufay.Wait.Signaller

/-! # Every clean step keeps the invariant

The lemmas of the two sides, put together by cases on `Moves`.
-/

open Lts Tailq Function

namespace Wait

open State
open Ule (WaitStatus)

variable {cfg : Config} {s s' : State} {q q' : Oid → List Waitblock} {t : Nat}

theorem Ok.signal_step (h : Ok s q) (hmove : Moves cfg s (.signal o) s') : ∃ q', Ok s' q' := by
  cases hmove with
  | pop hlock hfirst _ =>
    rw [h.represents.first_eq] at hfirst
    exact ⟨_, h.pop hlock (List.mem_of_head? hfirst)⟩
  | loop_end hlock _ =>
    refine ⟨q, h.pass hlock rfl h.represents ?_ (fun _ => .inl rfl) (fun _ => .inl rfl)
      (by simp) (by simp)⟩
    exact fun u => (h.thread u).setLock (by rw [hlock]; rfl)
  | @case1 _ who wb hlock hst =>
    refine ⟨q, ?_⟩
    rw [← setPc_self (satisfy_waitblock cfg s o who wb) wb.thread, satisfy_waitblock_pc]
    refine h.satisfy cfg _ hlock (by rw [hlock]; rfl) (by rw [hst]; simp) (.inl rfl) ?_
      (fun _ _ => .rfl) (fun _ _ h => h) (fun _ h => h)
    -- wherever the status may be in progress, it may be satisfied
    have hstat := (h.thread wb.thread).status
    rw [hst] at hstat
    revert hstat
    cases s.pc wb.thread with
    | check c satisfier => cases satisfier <;> simp [Pc.StatusOk]
    | _ => simp [Pc.StatusOk]
  | not_case1 hlock hst =>
    refine ⟨q, h.pass hlock rfl h.represents ?_ (fun _ => .inl rfl) (fun _ => .inl rfl) ?_
      (by simp)⟩
    · exact fun u => (h.thread u).setLock (by rw [hlock]; rfl)
    · intro wb hwb
      cases hwb
      exact hst
  | @case2 _ who wb hlock hst =>
    have hf : flight (s.lock o) = some wb := by
      rw [hlock]
      rfl
    -- the wait is committed, so the thread sleeps and the wake finds it
    obtain ⟨c, hpc⟩ := h.blocked_of_flight hf hst
    refine ⟨q, ?_⟩
    rw [sched_wake_blocked (by rw [satisfy_waitblock_pc, hpc])]
    refine h.satisfy cfg _ hlock hf (by rw [hst]; simp) (.inr ⟨c, hpc, rfl⟩) ?_ ?_ ?_ ?_
    · exact after_wait_status c
    · intro o' wb'
      rw [hpc, after_wait_live]
      exact .rfl
    · rw [hpc]
      exact fun dl wbst hsig => after_wait_signals c hsig
    · rw [hpc, after_wait_call]
      exact fun _ h => h
  | @not_case2 _ who wb hlock hst =>
    -- neither in progress (case 1 failed) nor committed: satisfied by somebody else
    have hne := h.case2 _ _ _ hlock
    refine ⟨q, h.pass hlock rfl h.represents ?_ (fun _ => .inl rfl) (fun _ => .inl rfl)
      (by simp) ?_⟩
    · exact fun u => (h.thread u).setLock (by rw [hlock]; rfl)
    · intro wb' hwb'
      cases hwb'
      show s.status wb.thread = .satisfied
      cases hs : s.status wb.thread with
      | inProgress => exact absurd hs hne
      | committed => exact absurd hs hst
      | satisfied => rfl
  | case3 hlock hst => exact ⟨q, h.deactivate hlock⟩
  | not_case3 hlock hst => exact absurd (h.case3 _ _ _ hlock) hst
  | release hlock => exact ⟨q, h.release hlock⟩

theorem Ok.run_step (h : Ok s q) (hclean : Clean s (.run t)) (hmove : Moves cfg s (.run t) s') :
    ∃ q', Ok s' q' := by
  have hstat := (h.thread t).status
  have hsig := (h.thread t).signals
  cases hmove with
  | scan_take hpc hi _ _ hst => exact ⟨q, h.take hpc hi hst⟩
  | scan_late hpc hi _ _ hst => exact ⟨q, h.scan_late hpc hi hst⟩
  | scan_install hpc hi _ _ => exact ⟨_, h.install hpc hi⟩
  | scan_end hpc hi =>
    rw [hpc] at hstat hsig
    -- all waitblocks are installed
    have hcount := Nat.le_antisymm hstat.1 hi
    rw [hcount] at hsig hpc
    exact ⟨q, h.goOn hpc (by simp) (fun _ _ => .rfl) hstat.2 hsig (fun _ hc => hc) (by simp)⟩
  | check_panic => exact ⟨q, h.same rfl rfl rfl rfl rfl rfl rfl rfl⟩
  | check_backout hpc _ =>
    rw [hpc] at hstat hsig
    exact ⟨q, h.goOn hpc (by simp) (fun _ _ => .rfl) ⟨Nat.zero_le _, hstat⟩ hsig
      (fun _ hc => hc) (by simp)⟩
  | @check_return _ c hpc hzero hst =>
    rw [hpc] at hsig
    -- a call with timeout 0: no waitblock of its own is active any more
    have hna : ∀ i < c.count, s.wb_status (c.waitblock t i) ≠ .active := by
      have hclean' : (s.pc t).Clean s t := hclean
      rw [hpc] at hclean'
      exact hclean' hzero hst
    refine ⟨q, h.setPc ?_ trivial ?_ ?_ (h.not_agent (by simp [hpc])) (by simp)⟩
    · intro o wb hact
      rw [hpc]
      constructor
      · exact fun hl => hl.elim
      · rintro ⟨i, -, hi, hw, -⟩
        rw [hw] at hact
        exact absurd hact (hna i hi)
    · obtain ⟨j, -, hdl, -⟩ := hsig.2 hst
      exact ⟨⟨_, hdl⟩, fun i hi => by cases hi⟩
    · rw [hpc]
      exact fun _ hc => hc
  | check_start hpc _ | check_commit hpc _ _ =>
    rw [hpc] at hstat hsig
    exact ⟨q, h.goOn hpc (by simp) (fun _ _ => .rfl) hstat hsig (fun _ hc => hc) (by simp)⟩
  | backout hpc hi hlock =>
    have hclean' : (s.pc t).Clean s t := hclean
    rw [hpc] at hclean'
    exact h.backout hpc hi hlock (hclean' hi)
  | @backout_end _ n i c hpc hi =>
    rw [hpc] at hstat hsig
    refine ⟨q, h.setPc ?_ trivial ?_ ?_ (h.not_agent (by simp [hpc])) (by simp)⟩
    · intro o wb _
      rw [hpc]
      constructor
      · exact fun hl => hl.elim
      · rintro ⟨j, hij, hj, -⟩
        omega
    · -- a back-out that went through was not case #1
      rcases hsig with ⟨hdl, -⟩ | ⟨j, hij, hj, -⟩
      · refine ⟨⟨_, hdl⟩, ?_⟩
        intro k hk
        cases hk
        exact ⟨none, hdl⟩
      · omega
    · rw [hpc]
      exact fun _ hc => hc
  | @start _ c hpc _ =>
    rw [hpc] at hstat hsig
    have hok : Ok { s with timer_state := (timer_start s (.timeout t c.id)).timer_state } q :=
      h.same rfl rfl rfl rfl rfl rfl rfl rfl
    rw [timer_start_eq]
    exact ⟨q, hok.goOn hpc (by simp) (fun _ _ => .rfl) hstat hsig (fun _ hc => hc) (by simp)⟩
  | commit hpc hst => exact ⟨q, h.commit hpc hst⟩
  | @commit_late _ c hpc hst =>
    rw [hpc] at hstat hsig
    have hsat : s.status t = .satisfied := by
      cases hs : s.status t with
      | inProgress => exact absurd hs hst
      | committed => exact absurd hs hstat
      | satisfied => rfl
    refine ⟨q, h.goOn hpc (by simp) (fun _ _ => after_wait_live c _ _) ?_
      (after_wait_signals c hsig) ?_ ?_⟩
    · rw [hsat]
      exact after_wait_status c
    · rw [after_wait_call]
      exact fun _ hc => hc
    · intro c' hc'
      exact absurd hc' (after_wait_ne_stop c c')
  | @stop_stopped _ c hpc _ => exact ⟨q, h.stopped (.inl hpc)⟩
  | @stop_enter _ c hpc hlock =>
    rw [hpc] at hstat hsig
    have hset : Ok (s.setLock (.timeout t c.id) (some .timer_stop)) q := by
      apply h.setLock rfl (by rw [hlock]; rfl)
      · intro who pc u hl
        cases hl
      · exact h.ne_timeout (by rw [hlock]; simp)
    refine ⟨q, hset.goOn hpc (by simp) (fun _ _ => .rfl) hstat hsig (fun _ hc => hc) ?_⟩
    intro c' hc'
    have hcc : c = c' := by simpa using hc'
    rw [← hcc, setLock_lock, update_self]
  | @stop_spin _ c hpc =>
    rw [hpc] at hstat hsig
    have hstop := h.stop t c (.inl hpc)
    refine ⟨q, h.goOn hpc (by simp) (fun _ _ => .rfl) hstat hsig (fun _ hc => hc) ?_⟩
    intro c' hc'
    have hcc : c = c' := by simpa using hc'
    rw [← hcc]
    exact hstop
  | @stop_store _ c hpc =>
    -- the thread leaves `timer_stop` and then releases the lock
    have hfinal : Ok (s.setPc t (.final c 0 none)) q := h.stopped (.inr hpc)
    have hlock := h.stop t c (.inr hpc)
    have hset : Ok ((s.setPc t (.final c 0 none)).setLock (.timeout t c.id) none) q := by
      apply hfinal.setLock rfl (by rw [setPc_lock, hlock]; rfl)
      · intro who pc u hl
        cases hl
      · intro u c' hu heq
        rw [Oid.timeout.injEq] at heq
        rw [← heq.1, setPc_pc, update_self] at hu
        simp at hu
    exact ⟨q, hset.same rfl rfl rfl rfl rfl rfl rfl rfl⟩
  | final_active hpc hi hlock hact => exact h.final_active hpc hi hlock hact
  | final_inactive hpc hi _ hwb =>
    exact ⟨q, h.final_pass hpc hi (by rw [hwb]; simp) (.inr ⟨by rw [hwb]; simp, rfl⟩)⟩
  | final_signaled hpc hi _ hwb =>
    exact ⟨q, h.final_pass hpc hi (by rw [hwb]; simp) (.inl ⟨hwb, rfl, rfl⟩)⟩
  | final_panic => exact ⟨q, h.same rfl rfl rfl rfl rfl rfl rfl rfl⟩
  | final_end hpc hi => exact ⟨q, h.final_end hpc hi⟩
  | @return_to _ c result hpc =>
    have hidle : Ok (s.setPc t .idle) q :=
      h.goOn hpc (by simp) (fun _ _ => .rfl) trivial trivial (fun _ hc => by cases hc) (by simp)
    cases hcaller : c.caller with
    | wait_any => exact ⟨q, hidle⟩
    | mutex_lock m => exact ⟨q, hidle.same rfl rfl rfl rfl rfl rfl rfl rfl⟩

theorem Ok.step (h : Ok s q) {a : Action} (hclean : Clean s a) (hmove : Moves cfg s a s') :
    ∃ q', Ok s' q' := by
  cases a with
  | signal o => exact h.signal_step hmove
  | run t => exact h.run_step hclean hmove
  | wait_any t objects timeout =>
    cases hmove with
    | wait_any hpc _ _ => exact ⟨q, h.begin_wait hpc rfl⟩
  | mutex_lock t m timeout =>
    cases hmove with
    | mutex_lock hpc _ => exact ⟨q, h.begin_wait hpc rfl⟩
  | mutex_unlock t m =>
    cases hmove with
    | mutex_unlock hpc _ hlock =>
      have hsig : Ok (s.setPc t (.signalling (.obj m))) q := h.signalling hpc
      have henter : Ok (Wait.enter (s.setPc t (.signalling (.obj m))) (.obj m)
          (.mutex_unlock t) 1) q := by
        apply hsig.enter hlock
        intro u hu
        cases hu
        simp
      exact ⟨q, henter.same rfl rfl rfl rfl rfl rfl rfl rfl⟩
  | semaphore_release t k =>
    cases hmove with
    | semaphore_release hpc _ hlock =>
      have hsig : Ok (s.setPc t (.signalling (.obj k))) q := h.signalling hpc
      refine ⟨q, hsig.enter hlock ?_⟩
      intro u hu
      cases hu
      simp
  | timer_start k =>
    cases hmove with
    | timer_start =>
      rw [timer_start_eq]
      exact ⟨q, h.same rfl rfl rfl rfl rfl rfl rfl rfl⟩
  | expire o =>
    cases hmove with
    | expire _ => exact ⟨q, h.same rfl rfl rfl rfl rfl rfl rfl rfl⟩
  | expiry o =>
    cases hmove with
    | expiry _ hlock =>
      have hsame : Ok { s with expiring := update s.expiring o false } q :=
        h.same rfl rfl rfl rfl rfl rfl rfl rfl
      refine ⟨q, hsame.enter hlock ?_⟩
      intro u hu
      cases hu

theorem Ok.init (h : Init cfg s) : Ok s (fun _ => []) where
  represents := by
    refine ⟨fun o => ?_, fun _ => List.nodup_nil, fun _ _ _ hmem => by cases hmem⟩
    rw [h.last]
    exact ⟨h.fwd _, rfl⟩
  thread := fun t => by
    constructor
    · intro o wb _
      rw [h.pc]
      simp [Pc.Live]
    · intro o wb _ hf
      rw [h.lock] at hf
      cases hf
    · rw [h.pc]
      trivial
    · rw [h.pc]
      trivial
    · rw [h.decremented]
      intro o ho
      cases ho
    · rw [h.pc]
      intro c hc
      cases hc
  agent := fun o who pc t hl => by
    rw [h.lock] at hl
    cases hl
  case2 := fun o who wb hl => by
    rw [h.lock] at hl
    cases hl
  case3 := fun o who wb hl => by
    rw [h.lock] at hl
    cases hl
  stop := fun t c hpc => by
    rw [h.pc] at hpc
    simp at hpc

theorem ok_of_reachable (hs : ReachableBy (system cfg) Clean s) : ∃ q, Ok s q := by
  have hinit : ∀ s, (system cfg).init s → ∃ q, Ok s q := fun s h => ⟨_, Ok.init h⟩
  apply hs.invariant hinit
  intro s a s' hok hclean hstep
  obtain ⟨q, hok⟩ := hok
  exact hok.step hclean (moves_of_step hstep).2

/-! ### The calls of a run -/

/-- The action begins a wait only on objects and with a timeout that meet
`P`. -/
def Starts (P : List Nat → UInt64 → Prop) : Action → Prop
  | .wait_any _ objects timeout => P objects timeout
  | .mutex_lock _ m timeout => P [m] timeout
  | _ => True

instance (P : List Nat → UInt64 → Prop) [∀ l u, Decidable (P l u)] (a : Action) :
    Decidable (Starts P a) :=
  match a with
  | .wait_any .. | .mutex_lock .. | .mutex_unlock .. | .semaphore_release ..
  | .timer_start .. | .expire .. | .expiry .. | .signal .. | .run .. => by
    unfold Starts
    infer_instance

theorem call_setPc {pc : Pc} (hpc : ∀ c, pc.call = some c → (s.pc t).call = some c)
    (h : ((s.setPc t pc).pc u).call = some c) : (s.pc u).call = some c := by
  by_cases hu : u = t
  · rw [hu, setPc_pc, update_self] at h
    rw [hu]
    exact hpc c h
  · rw [setPc_pc, update_of_ne hu] at h
    exact h

/-- The action begins the call of thread `u`. -/
def Begins (c : Call) (u : Nat) : Action → Prop
  | .wait_any t objects timeout =>
    u = t ∧ c.objects = objects ∧ c.timeout = timeout ∧ c.caller = .wait_any
  | .mutex_lock t m timeout =>
    u = t ∧ c.objects = [m] ∧ c.timeout = timeout ∧ c.caller = .mutex_lock m
  | _ => False

theorem Begins.starts (h : Begins c u a) (hP : Starts P a) : P c.objects c.timeout := by
  cases a with
  | wait_any t objects timeout =>
    rw [h.2.1, h.2.2.1]
    exact hP
  | mutex_lock t m timeout =>
    rw [h.2.1, h.2.2.1]
    exact hP
  | _ => exact h.elim

theorem call_of_move (hmove : Moves cfg s a s')
    (hc : (s'.pc u).call = some c) : (s.pc u).call = some c ∨ Begins c u a := by
  -- only the entries of `wait_any` make a new call
  have hbegin : ∀ {t : Nat} {c' : Call}, ((begin_wait s t c').pc u).call = some c →
      (s.pc u).call = some c ∨ (u = t ∧ c = c') := by
    intro t c' h
    rw [(begin_wait_fields s t c').1] at h
    by_cases hu : u = t
    · rw [hu, update_self] at h
      cases h
      exact .inr ⟨hu, rfl⟩
    · rw [update_of_ne hu] at h
      exact .inl h
  cases hmove with
  | wait_any hpc _ _ =>
    rcases hbegin hc with h | ⟨hu, rfl⟩
    · exact .inl h
    · exact .inr ⟨hu, rfl, rfl, rfl⟩
  | mutex_lock hpc _ =>
    rcases hbegin hc with h | ⟨hu, rfl⟩
    · exact .inl h
    · exact .inr ⟨hu, rfl, rfl, rfl⟩
  | mutex_unlock hpc _ _ | semaphore_release hpc _ _ =>
    exact .inl (call_setPc (fun c h => by cases h) hc)
  | timer_start _ =>
    rw [timer_start_eq] at hc
    exact .inl hc
  | expire _ | expiry _ _ => exact .inl hc
  | pop _ _ _ | loop_end _ _ | not_case1 _ _ | not_case2 _ _ | case3 _ _ | not_case3 _ _ =>
    exact .inl hc
  | case1 _ _ =>
    rw [satisfy_waitblock_pc] at hc
    exact .inl hc
  | @case2 o who wb _ _ =>
    left
    unfold sched_wake at hc
    rw [satisfy_waitblock_pc] at hc
    split at hc
    · next c' hb =>
      rw [setPc_pc, satisfy_waitblock_pc] at hc
      exact call_setPc (s := s) (fun c h => by rw [hb]; rwa [after_wait_call] at h) hc
    · rwa [satisfy_waitblock_pc] at hc
  | @release o who ret _ =>
    left
    cases who with
    | mutex_unlock t => exact call_setPc (s := s) (fun c h => by cases h) hc
    | semaphore_release t => exact call_setPc (s := s) (fun c h => by cases h) hc
    | timer_handle_expiry => exact hc
  | scan_take hpc _ _ _ _ =>
    left
    rw [setPc_pc, consume_pc] at hc
    exact call_setPc (s := s) (fun c h => by rw [hpc]; exact h) hc
  | scan_late hpc _ _ _ _ | scan_install hpc _ _ _ | scan_end hpc _ | check_backout hpc _
  | check_return hpc _ _ | check_start hpc _ | check_commit hpc _ _ | backout hpc _ _
  | backout_end hpc _ | commit hpc _ | stop_stopped hpc _ | stop_enter hpc _ | stop_spin hpc
  | stop_store hpc | final_active hpc _ _ _ | final_inactive hpc _ _ _
  | final_signaled hpc _ _ _ | final_end hpc _ =>
    exact .inl (call_setPc (s := s) (fun c h => by rw [hpc]; exact h) hc)
  | check_panic _ _ _ | final_panic _ _ _ _ => exact .inl hc
  | start hpc _ =>
    left
    rw [timer_start_eq] at hc
    exact call_setPc (s := s) (fun c h => by rw [hpc]; exact h) hc
  | @commit_late _ c' hpc _ =>
    exact .inl (call_setPc (fun c h => by rw [hpc]; rwa [after_wait_call] at h) hc)
  | @return_to _ c' result hpc =>
    left
    cases hcaller : c'.caller with
    | wait_any =>
      rw [hcaller] at hc
      exact call_setPc (s := s) (fun c h => by cases h) hc
    | mutex_lock m =>
      rw [hcaller] at hc
      exact call_setPc (s := s) (fun c h => by cases h) hc

theorem call_of_reachable
    (hP : ∀ s a, ok s a → Starts P a) (hs : ReachableBy (system cfg) ok s) (t : Nat) (c : Call)
    (hc : (s.pc t).call = some c) : P c.objects c.timeout := by
  induction hs generalizing c with
  | init h =>
    rw [h.pc] at hc
    cases hc
  | step a _ hok hstep ih =>
    rcases call_of_move (moves_of_step hstep).2 hc with h | h
    · exact ih c h
    · exact h.starts (hP _ _ hok)

/-! ### One signal at most -/

/-- The signals that the latest wait of a thread has received. -/
structure SignalOnce (s : State) (t : Nat) : Prop where
  unsatisfied : s.status t ≠ .satisfied → s.delivered t = []
  one : (s.delivered t).length ≤ 1

theorem SignalOnce.same (h : SignalOnce s t) (hdl : s'.delivered t = s.delivered t)
    (hst : s'.status t = s.status t ∨ s.status t ≠ .satisfied) : SignalOnce s' t where
  unsatisfied := fun hns => by
    rw [hdl]
    rcases hst with hst | hst
    · exact h.unsatisfied (hst ▸ hns)
    · exact h.unsatisfied hst
  one := by
    rw [hdl]
    exact h.one

theorem SignalOnce.satisfy (h : SignalOnce s t) (o : Oid) (via : Option Waitblock)
    (hns : s.status t ≠ .satisfied) (hst : s'.status t = .satisfied)
    (hdl : s'.delivered t = s.delivered t ++ [(o, via)]) : SignalOnce s' t where
  unsatisfied := fun h => absurd hst h
  one := by
    rw [hdl, h.unsatisfied hns]
    simp

theorem SignalOnce.begin_wait (h : ∀ u, SignalOnce s u) (c : Call) (u : Nat) :
    SignalOnce (begin_wait s t c) u := by
  obtain ⟨-, hst, -, hdl, -⟩ := begin_wait_fields s t c
  by_cases hu : u = t
  · constructor <;> simp [hdl, hu]
  · exact (h u).same (by simp [hdl, hu]) (.inl (by simp [hst, hu]))

theorem SignalOnce.satisfy_waitblock (h : ∀ u, SignalOnce s u)
    (hns : s.status wb.thread ≠ .satisfied) (u : Nat) :
    SignalOnce (satisfy_waitblock cfg s o who wb) u := by
  by_cases hu : u = wb.thread
  · rw [hu]
    exact (h wb.thread).satisfy o (some wb) hns (by simp [Wait.satisfy_waitblock, Wait.satisfy])
      (by simp [Wait.satisfy_waitblock, Wait.satisfy])
  · exact (h u).same (by simp [Wait.satisfy_waitblock, Wait.satisfy, hu])
      (.inl (by simp [Wait.satisfy_waitblock, Wait.satisfy, hu]))

theorem SignalOnce.step (h : ∀ u, SignalOnce s u) {a : Action} (hmove : Moves cfg s a s')
    (u : Nat) : SignalOnce s' u := by
  cases hmove with
  | wait_any _ _ _ => exact .begin_wait h _ u
  | mutex_lock _ _ => exact .begin_wait h _ u
  | timer_start _ =>
    rw [timer_start_eq]
    exact (h u).same rfl (.inl rfl)
  | case1 _ hst => exact .satisfy_waitblock h (by rw [hst]; simp) u
  | @case2 o who wb _ hst =>
    have hsat : SignalOnce (Wait.satisfy_waitblock cfg s o who wb) u :=
      .satisfy_waitblock h (by rw [hst]; simp) u
    unfold sched_wake
    split
    · exact hsat.same rfl (.inl rfl)
    · exact hsat
  | @release o who ret _ => cases who <;> exact (h u).same rfl (.inl rfl)
  | @scan_take t i c _ _ _ _ hst =>
    by_cases hu : u = t
    · rw [hu]
      exact (h t).satisfy (c.object t i) none (by rw [hst]; simp) (by simp [Wait.satisfy])
        (by simp [Wait.satisfy])
    · exact (h u).same (by simp [Wait.satisfy, hu]) (.inl (by simp [Wait.satisfy, hu]))
  | start _ _ =>
    rw [timer_start_eq]
    exact (h u).same rfl (.inl rfl)
  -- a commit leaves the wait unsatisfied
  | @commit t c _ hst =>
    by_cases hu : u = t
    · rw [hu]
      exact (h t).same rfl (.inr (by rw [hst]; simp))
    · exact (h u).same rfl (.inl (by simp [hu]))
  | @return_to t c _ _ => cases hc : c.caller <;> exact (h u).same rfl (.inl rfl)
  | _ => exact (h u).same rfl (.inl rfl)

/-- In **every** run, clean or not, a wait receives one signal at most. -/
theorem signalOnce_of_reachable
    (hs : ReachableBy (system cfg) ok s) (u : Nat) : SignalOnce s u := by
  induction hs generalizing u with
  | init h => constructor <;> simp [h.delivered]
  | step a _ _ hstep ih => exact .step ih (moves_of_step hstep).2 u

end Wait
