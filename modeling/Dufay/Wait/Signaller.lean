import Dufay.Wait.Waiter

/-! # The signalling side keeps the invariant

What happens inside the critical section of an object: a waitblock is
taken off the list, the wait it belongs to is satisfied or found to be
satisfied already, and the lock is released.
-/

open Lts Tailq Function

namespace Wait

open State
open Ule (WaitStatus)

variable {cfg : Config} {s s' : State} {q q' : Oid → List Waitblock} {t : Nat}

/-! ### Locks -/

variable {o : Oid} {who : Signaller} {wb : Waitblock}

theorem ThreadOk.setLock (h : ThreadOk s q t)
    (hf : Wait.flight hold = Wait.flight (s.lock o)) : ThreadOk (s.setLock o hold) q t := by
  have hflight : ∀ o', Wait.flight ((s.setLock o hold).lock o') = Wait.flight (s.lock o') := by
    intro o'
    by_cases ho : o' = o
    · rw [ho, setLock_lock, update_self, hf]
    · rw [setLock_lock, update_of_ne ho]
  constructor
  · intro o' wb hwb
    rw [hflight]
    exact h.linked o' wb hwb
  · intro o' wb hwb hfl
    rw [hflight] at hfl
    exact h.flight o' wb hwb hfl
  · exact h.status
  · exact h.signals
  · exact h.decremented
  · exact h.id

theorem lock_of_setLock (hl : (s.setLock o hold).lock o' = some x) (hf : flight hold = none)
    (hx : flight (some x) ≠ none) : s.lock o' = some x := by
  by_cases ho : o' = o
  · rw [ho, setLock_lock, update_self] at hl
    rw [hl] at hf
    exact absurd hf hx
  · rwa [setLock_lock, update_of_ne ho] at hl

theorem Ok.setLock (h : Ok s q) (hf : flight hold = none) (hf' : flight (s.lock o) = none)
    (hagent : ∀ who pc t, hold = some (.signal who pc) → who.thread = some t → s.pc t =
      .signalling o)
    (hstop : ∀ t c, s.pc t = .stopSpin c ∨ s.pc t = .stopStore c → o ≠ .timeout t c.id) :
    Ok (s.setLock o hold) q where
  represents := h.represents
  thread := fun t => (h.thread t).setLock (hf.trans hf'.symm)
  agent := fun o' who pc t hl hw => by
    by_cases ho : o' = o
    · rw [ho] at hl ⊢
      rw [setLock_lock, update_self] at hl
      exact hagent who pc t hl hw
    · rw [setLock_lock, update_of_ne ho] at hl
      exact h.agent o' who pc t hl hw
  case2 := fun o' who wb hl => h.case2 o' who wb (lock_of_setLock hl hf (by simp [flight]))
  case3 := fun o' who wb hl => h.case3 o' who wb (lock_of_setLock hl hf (by simp [flight]))
  stop := fun t c ht => by
    rw [setLock_lock, update_of_ne (hstop t c ht).symm]
    exact h.stop t c ht

theorem Ok.ne_timeout (h : Ok s q) (hl : s.lock o ≠ some .timer_stop) (t : Nat) (c : Call)
    (ht : s.pc t = .stopSpin c ∨ s.pc t = .stopStore c) : o ≠ .timeout t c.id := by
  intro ho
  rw [ho] at hl
  exact hl (h.stop t c ht)

theorem Ok.pass (h : Ok s q) {pc : SignalPc} (hlock : s.lock o = some (.signal who pc))
    (hlock' : s'.lock = update s.lock o (some (.signal who pc')))
    (hrep : Represents s'.links q') (hthread : ∀ u, ThreadOk s' q' u)
    (hst : ∀ u, s'.status u = s.status u ∨ s'.status u = .satisfied)
    (hpc : ∀ u, s'.pc u = s.pc u ∨ ∃ c, s.pc u = .blocked c ∧ s'.pc u = after_wait c)
    (hcase2 : ∀ wb, pc' = .case2 wb → s'.status wb.thread ≠ .inProgress)
    (hcase3 : ∀ wb, pc' = .case3 wb → s'.status wb.thread = .satisfied) : Ok s' q' where
  represents := hrep
  thread := hthread
  agent := fun o' who' p u hl hw => by
    -- the holders are the same threads as before, and a blocked thread is none of them
    have hu : s.pc u = .signalling o' := by
      rw [hlock'] at hl
      by_cases ho : o' = o
      · rw [ho] at hl ⊢
        rw [update_self, Option.some.injEq, Holder.signal.injEq] at hl
        exact h.agent o who pc u hlock (hl.1 ▸ hw)
      · rw [update_of_ne ho] at hl
        exact h.agent o' who' p u hl hw
    rcases hpc u with hsame | ⟨c, hb, -⟩
    · rw [hsame]
      exact hu
    · rw [hu] at hb
      cases hb
  case2 := fun o' who' wb hl => by
    rw [hlock', update_apply] at hl
    split at hl
    · exact hcase2 wb (Holder.signal.inj (Option.some.inj hl)).2
    · rcases hst wb.thread with hsame | hsat
      · rw [hsame]
        exact h.case2 o' who' wb hl
      · rw [hsat]
        simp
  case3 := fun o' who' wb hl => by
    rw [hlock', update_apply] at hl
    split at hl
    · exact hcase3 wb (Holder.signal.inj (Option.some.inj hl)).2
    · rcases hst wb.thread with hsame | hsat
      · rw [hsame]
        exact h.case3 o' who' wb hl
      · exact hsat
  stop := fun t c ht => by
    -- a thread that is woken is not inside `timer_stop` yet
    have ht' : s.pc t = .stopSpin c ∨ s.pc t = .stopStore c := by
      rcases hpc t with hsame | ⟨c', -, hafter⟩
      · rw [hsame] at ht
        exact ht
      · rw [hafter] at ht
        exact absurd ht (after_wait_ne_stop c' c)
    have hs := h.stop t c ht'
    have ho : Oid.timeout t c.id ≠ o := by
      intro ho
      rw [ho, hlock] at hs
      cases hs
    rw [hlock', update_of_ne ho]
    exact hs

/-! ### What a signaller does with a waitblock -/

theorem Ok.pop (h : Ok s q) (hlock : s.lock o = some (.signal who .loop)) (hmem : wb ∈ q o) :
    Ok ({ s with links := s.links.remove o wb }.setLock o (some (.signal who (.case1 wb))))
      (update q o ((q o).erase wb)) := by
  have hmem' := h.represents.mem_remove hmem
  have hwb := (h.thread wb.thread).linked o wb rfl
  obtain ⟨hl, ha, -⟩ := hwb.mp hmem
  have hnf : flight (s.lock o) = none := by
    rw [hlock]
    rfl
  refine h.pass hlock rfl (h.represents.remove hmem) ?_ (fun _ => .inl rfl)
    (fun _ => .inl rfl) (by simp) (by simp)
  intro u
  have hu := h.thread u
  constructor
  · intro o' wb' hwb'
    rw [hmem', hu.linked o' wb' hwb']
    simp only [setLock_pc, setLock_wb_status, setLock_lock]
    by_cases heq : wb' = wb
    · -- in use for `o` only, where it is in flight now
      subst heq
      simp only [ne_eq, not_true_eq_false, and_false, false_iff, not_and, not_not]
      intro hl' _
      rw [hwb'] at hl
      rw [hl'.object_eq hl, update_self]
      rfl
    · have hfl : flight (update s.lock o (some (.signal who (.case1 wb))) o') = some wb'
          ↔ flight (s.lock o') = some wb' := by
        by_cases ho : o' = o
        · rw [ho, update_self, hnf]
          simp only [flight, Option.some.injEq, reduceCtorEq, iff_false]
          exact fun h => heq h.symm
        · rw [update_of_ne ho]
      simp only [ne_eq, hfl, heq, not_false_eq_true, and_true]
  · intro o' wb' hwb' hfl
    rw [setLock_lock] at hfl
    by_cases ho : o' = o
    · rw [ho, update_self] at hfl
      cases hfl
      rw [ho, ← hwb']
      exact ⟨hl, ha⟩
    · rw [update_of_ne ho] at hfl
      exact hu.flight o' wb' hwb' hfl
  · exact hu.status
  · exact hu.signals
  · exact hu.decremented
  · exact hu.id

theorem ThreadOk.settle (h : ThreadOk s q t) (s' : State) (hthr : wb.thread = t)
    (hf : Wait.flight (s.lock o) = some wb) (hna : s'.wb_status wb ≠ .active)
    (hwb : ∀ wb', wb' ≠ wb → s'.wb_status wb' = s.wb_status wb')
    (hflight : ∀ o' wb', Wait.flight (s'.lock o') = some wb' ↔ (Wait.flight (s.lock o') = some wb' ∧
      o' ≠ o)) (hlive : ∀ o' wb', (s'.pc t).Live t o' wb' ↔ (s.pc t).Live t o' wb') :
    (∀ o' wb', wb'.thread = t → (wb' ∈ q o' ↔ (s'.pc t).Live t o' wb' ∧
      s'.wb_status wb' = .active ∧ Wait.flight (s'.lock o') ≠ some wb')) ∧
    (∀ o' wb', wb'.thread = t → Wait.flight (s'.lock o') = some wb' →
      (s'.pc t).Live t o' wb' ∧ s'.wb_status wb' = .active) := by
  -- `wb` leaves both sides; for the others nothing has changed
  obtain ⟨hl, ha⟩ := h.flight o wb hthr hf
  constructor
  · intro o' wb' hwb'
    rw [h.linked o' wb' hwb', hlive]
    by_cases heq : wb' = wb
    · subst heq
      constructor
      · rintro ⟨hl', -, hnf⟩
        rw [hl'.object_eq hl] at hnf
        exact absurd hf hnf
      · rintro ⟨-, hact, -⟩
        exact absurd hact hna
    · have hiff : Wait.flight (s'.lock o') = some wb' ↔ Wait.flight (s.lock o') = some wb' := by
        rw [hflight]
        constructor
        · exact fun h => h.1
        · intro hfl
          refine ⟨hfl, fun ho => heq ?_⟩
          rw [ho, hf] at hfl
          cases hfl
          rfl
      rw [hwb wb' heq, Ne, Ne, hiff]
  · intro o' wb' hwb' hfl
    obtain ⟨hfl, ho⟩ := (hflight o' wb').mp hfl
    obtain ⟨hl', ha'⟩ := h.flight o' wb' hwb' hfl
    have hne : wb' ≠ wb := by
      intro heq
      rw [heq] at hl'
      exact ho (hl'.object_eq hl)
    rw [hlive, hwb wb' hne]
    exact ⟨hl', ha'⟩

theorem Pc.open_of_live {pc : Pc} (hst : pc.StatusOk st) (hns : st ≠ .satisfied)
    (hl : pc.Live t o wb) : ∃ c hi, (∀ o' wb', pc.Live t o' wb' ↔ InWindow c t 0 hi o' wb') ∧
      ∀ st dl wbst, pc.SignalsOk t st dl wbst ↔ OpenOk c t hi st dl wbst := by
  -- the program counters with a satisfied status are excluded, those without a live waitblock absurd
  match pc, hst, hl with
  | .scan c i, _, _ => exact ⟨c, i, fun _ _ => .rfl, fun _ _ _ => .rfl⟩
  | .check c none, _, _ => exact ⟨c, c.count, fun _ _ => .rfl, fun _ _ _ => .rfl⟩
  | .check c (some n), hst, _ => exact absurd hst.2 hns
  | .backout c n i, hst, _ => exact absurd hst.2.2 hns
  | .start c, _, _ => exact ⟨c, c.count, fun _ _ => .rfl, fun _ _ _ => .rfl⟩
  | .commit c, _, _ => exact ⟨c, c.count, fun _ _ => .rfl, fun _ _ _ => .rfl⟩
  | .blocked c, _, _ => exact ⟨c, c.count, fun _ _ => .rfl, fun _ _ _ => .rfl⟩
  | .stopEnter c, hst, _ => exact absurd hst hns
  | .stopSpin c, hst, _ => exact absurd hst hns
  | .stopStore c, hst, _ => exact absurd hst hns
  | .final c i sat, hst, _ => exact absurd hst.2 hns

theorem OpenOk.signal (h : OpenOk c t hi st dl wbst) (hns : st ≠ .satisfied) (hj : j < hi) :
    OpenOk c t hi .satisfied (dl ++ [(c.object t j, some (c.waitblock t j))])
      (update wbst (c.waitblock t j) .signaled) := by
  obtain ⟨hdl, hnone⟩ := h.1 hns
  refine ⟨fun habs => absurd rfl habs, fun _ => ⟨j, hj, by rw [hdl]; rfl, ?_⟩⟩
  intro i hi'
  by_cases hij : i = j
  · simp [hij]
  · have hne : c.waitblock t i ≠ c.waitblock t j := fun heq => hij (waitblock_inj heq)
    rw [update_of_ne hne]
    simp only [hij, iff_false]
    exact hnone i hi'

theorem satisfy_waitblock_lock (cfg : Config) (s : State) (o : Oid) (who : Signaller)
    (wb : Waitblock) : (satisfy_waitblock cfg s o who wb).lock =
      update s.lock o (some (.signal who (next_waitblock cfg o wb))) := by
  simp [satisfy_waitblock, satisfy]

theorem flight_next_waitblock (cfg : Config) (o : Oid) (who : Signaller) (wb : Waitblock) :
    flight (some (.signal who (next_waitblock cfg o wb))) = none := by
  unfold next_waitblock
  split <;> rfl

theorem flight_update (hf : flight hold = none) (o' : Oid) (wb : Waitblock) :
    flight (update s.lock o hold o') = some wb ↔ (flight (s.lock o') = some wb ∧ o' ≠ o) := by
  by_cases ho : o' = o
  · simp [ho, hf]
  · simp [ho]

theorem ThreadOk.satisfy (h : ThreadOk s q t) {pc : Pc} (hthr : wb.thread = t)
    (hf : Wait.flight (s.lock o) = some wb) (hns : s.status t ≠ .satisfied)
    (hlive : ∀ o' wb', pc.Live t o' wb' ↔ (s.pc t).Live t o' wb') (hstat : pc.StatusOk .satisfied)
    (hsig : ∀ dl wbst, (s.pc t).SignalsOk t .satisfied dl wbst → pc.SignalsOk t .satisfied dl wbst)
    (hcall : ∀ c, pc.call = some c → (s.pc t).call = some c) :
    ThreadOk ((satisfy_waitblock cfg s o who wb).setPc t pc) q t := by
  -- the waitblock is signaled now and the signaller is past it
  have hsettle := h.settle ((satisfy_waitblock cfg s o who wb).setPc t pc) hthr hf
    (by simp [satisfy_waitblock]) (fun wb' hne => by simp [satisfy_waitblock, Wait.satisfy, hne])
    (fun o' wb' => by
      rw [setPc_lock, satisfy_waitblock_lock]
      exact flight_update (flight_next_waitblock cfg o who wb) o' wb')
    (fun o' wb' => by
      rw [setPc_pc, update_self]
      exact hlive o' wb')
  have hdl : ((satisfy_waitblock cfg s o who wb).setPc t pc).delivered t =
      s.delivered t ++ [(o, some wb)] := by
    simp [satisfy_waitblock, Wait.satisfy, hthr]
  constructor
  · exact hsettle.1
  · exact hsettle.2
  · simpa [satisfy_waitblock, Wait.satisfy, hthr] using hstat
  · -- the waitblock in flight is one of the open call's
    obtain ⟨hl, -⟩ := h.flight o wb hthr hf
    obtain ⟨c, hi, hwin, hopen⟩ := Pc.open_of_live h.status hns hl
    obtain ⟨j, -, hj, hwb, ho⟩ := (hwin o wb).mp hl
    have hsignal := ((hopen _ _ _).mp h.signals).signal hns hj
    rw [← hwb, ← ho] at hsignal
    have hgoal := hsig _ _ ((hopen _ _ _).mpr hsignal)
    simpa [satisfy_waitblock, Wait.satisfy, hthr] using hgoal
  · intro o' ho'
    rw [hdl]
    have hmem : o' ∈ s.decremented t ∨ o' = o := by
      have := mem_consume_decremented _ _ _ _ ho'
      rcases this with hold | hnew
      · exact .inl hold
      · exact .inr hnew.1
    rcases hmem with hold | rfl
    · obtain ⟨via, hvia⟩ := h.decremented o' hold
      exact ⟨via, List.mem_append_left _ hvia⟩
    · exact ⟨some wb, by simp⟩
  · intro c hc
    rw [setPc_pc, update_self] at hc
    simpa [satisfy_waitblock, Wait.satisfy] using h.id c (hcall c hc)

theorem Frame.satisfy {pc : Pc} (hthr : wb.thread = t) (hf : Wait.flight (s.lock o) = some wb) :
    Frame s ((satisfy_waitblock cfg s o who wb).setPc t pc) q q t := by
  constructor
  · intro u hu
    simp [satisfy_waitblock, Wait.satisfy, hu]
  · intro u hu
    simp [satisfy_waitblock, Wait.satisfy, hthr, hu]
  · intro u hu
    simp [satisfy_waitblock, Wait.satisfy, hthr, hu]
  · intro u hu
    simp only [satisfy_waitblock, setPc_decremented, setLock_decremented]
    unfold dispatch_object_consume
    split
    · rfl
    · simp [Wait.satisfy, hthr, hu]
  · intro u hu
    simp [satisfy_waitblock, Wait.satisfy]
  · intro wb' hwb'
    have hne : wb' ≠ wb := fun heq => hwb' (heq ▸ hthr)
    simp [satisfy_waitblock, Wait.satisfy, hne]
  · exact fun _ _ _ => .rfl
  · intro o' wb' hwb'
    rw [setPc_lock, satisfy_waitblock_lock, flight_update (flight_next_waitblock cfg o who wb)]
    constructor
    · exact fun h => h.1
    · intro hfl
      refine ⟨hfl, fun ho => hwb' ?_⟩
      rw [ho, hf] at hfl
      cases hfl
      exact hthr

theorem Ok.satisfy (h : Ok s q) (cfg : Config) (pc : Pc)
    (hlock : s.lock o = some (.signal who p)) (hf : flight (s.lock o) = some wb)
    (hns : s.status wb.thread ≠ .satisfied)
    (hpc : pc = s.pc wb.thread ∨ ∃ c, s.pc wb.thread = .blocked c ∧ pc = after_wait c)
    (hstat : pc.StatusOk .satisfied)
    (hlive : ∀ o' wb', pc.Live wb.thread o' wb' ↔ (s.pc wb.thread).Live wb.thread o' wb')
    (hsig : ∀ dl wbst, (s.pc wb.thread).SignalsOk wb.thread .satisfied dl wbst →
      pc.SignalsOk wb.thread .satisfied dl wbst)
    (hcall : ∀ c, pc.call = some c → (s.pc wb.thread).call = some c) :
    Ok ((satisfy_waitblock cfg s o who wb).setPc wb.thread pc) q := by
  have hframe : Frame s ((satisfy_waitblock cfg s o who wb).setPc wb.thread pc) q q wb.thread :=
    Frame.satisfy rfl hf
  refine h.pass hlock (satisfy_waitblock_lock cfg s o who wb) ?_ ?_ ?_ ?_ ?_ ?_
  · simpa [satisfy_waitblock, Wait.satisfy] using h.represents
  · intro u
    by_cases hu : u = wb.thread
    · rw [hu]
      exact (h.thread wb.thread).satisfy rfl hf hns hlive hstat hsig hcall
    · exact (h.thread u).frame hframe hu
  · intro u
    by_cases hu : u = wb.thread
    · right
      simp [satisfy_waitblock, Wait.satisfy, hu]
    · exact .inl (hframe.status u hu)
  · intro u
    by_cases hu : u = wb.thread
    · rw [hu, setPc_pc, update_self]
      exact hpc
    · exact .inl (hframe.pc u hu)
  all_goals
    intro wb' hwb'
    have := flight_next_waitblock cfg o who wb
    rw [hwb'] at this
    cases this

theorem Ok.blocked_of_flight (h : Ok s q) (hf : flight (s.lock o) = some wb)
    (hst : s.status wb.thread = .committed) : ∃ c, s.pc wb.thread = .blocked c := by
  have hl := ((h.thread wb.thread).flight o wb rfl hf).1
  have hstat := (h.thread wb.thread).status
  rw [hst] at hstat
  revert hl hstat
  cases s.pc wb.thread with
  | blocked c => exact fun _ _ => ⟨c, rfl⟩
  | check c satisfier => cases satisfier <;> simp [Pc.StatusOk]
  | _ => simp [Pc.StatusOk, Pc.Live]

theorem Ok.deactivate (h : Ok s q) (hlock : s.lock o = some (.signal who (.case3 wb))) :
    Ok ({ s with wb_status := update s.wb_status wb .inactive }.setLock o
      (some (.signal who .loop))) q := by
  have hf : flight (s.lock o) = some wb := by
    rw [hlock]
    rfl
  obtain ⟨hl, ha⟩ := (h.thread wb.thread).flight o wb rfl hf
  refine h.pass hlock rfl h.represents ?_ (fun _ => .inl rfl) (fun _ => .inl rfl) (by simp)
    (by simp)
  intro u
  have hu := h.thread u
  have hframe : Frame s ({ s with
      wb_status := update s.wb_status wb .inactive }.setLock o
        (some (.signal who .loop))) q q wb.thread := by
    constructor
    · exact fun _ _ => rfl
    · exact fun _ _ => rfl
    · exact fun _ _ => rfl
    · exact fun _ _ => rfl
    · exact fun _ _ => rfl
    · intro wb' hwb'
      have hne : wb' ≠ wb := fun heq => hwb' (heq ▸ rfl)
      simp [hne]
    · exact fun _ _ _ => .rfl
    · intro o' wb' hwb'
      rw [setLock_lock, flight_update rfl]
      constructor
      · exact fun h => h.1
      · intro hfl
        refine ⟨hfl, fun ho => hwb' ?_⟩
        rw [ho, hf] at hfl
        cases hfl
        rfl
  by_cases hut : u = wb.thread
  · have hsettle := hu.settle ({ s with
      wb_status := update s.wb_status wb .inactive }.setLock o
        (some (.signal who .loop))) hut.symm hf (by simp) (fun wb' hne => by simp [hne])
      (fun o' wb' => flight_update rfl o' wb') (fun _ _ => .rfl)
    refine ⟨hsettle.1, hsettle.2, hu.status, ?_, hu.decremented, hu.id⟩
    -- an active waitblock becomes inactive: the signaled ones are the same
    have hsame : ∀ wb', (update s.wb_status wb .inactive wb' = .signaled) =
        (s.wb_status wb' = .signaled) := by
      intro wb'
      by_cases heq : wb' = wb
      · simp [heq, ha]
      · simp [heq]
    have hsig := hu.signals
    unfold Pc.SignalsOk OpenOk ClosedOk OneSignaled NoneSignaled at hsig ⊢
    simp only [setLock_pc, setLock_status, setLock_delivered, setLock_wb_status, ne_eq, hsame]
    exact hsig
  · exact hu.frame hframe hut

/-! ### Entering and leaving the critical section -/

theorem Ok.release (h : Ok s q) {ret : Option Nat}
    (hlock : s.lock o = some (.signal who (.done ret))) : Ok (release s o who ret) q := by
  have hfree : Ok (s.setLock o none) q := by
    apply h.setLock rfl (by rw [hlock]; rfl)
    · intro who pc t hl
      cases hl
    · exact h.ne_timeout (by rw [hlock]; simp)
  -- the thread that ran the caller is idle again
  have hidle : ∀ t, who.thread = some t → Ok ((s.setLock o none).setPc t .idle) q := by
    intro t hw
    have hpc := h.agent o who _ t hlock hw
    apply hfree.setPc
    · intro o' wb _
      rw [setLock_pc, hpc]
      exact .rfl
    · trivial
    · trivial
    · intro c hc
      cases hc
    · intro o' who' pc hl hw'
      by_cases ho : o' = o
      · rw [ho, setLock_lock, update_self] at hl
        cases hl
      · rw [setLock_lock, update_of_ne ho] at hl
        have hpc' := h.agent o' who' pc t hl hw'
        rw [hpc] at hpc'
        cases hpc'
        exact ho rfl
    · intro c hc
      simp at hc
  cases who with
  | mutex_unlock t => exact (hidle t rfl).same rfl rfl rfl rfl rfl rfl rfl rfl
  | semaphore_release t => exact (hidle t rfl).same rfl rfl rfl rfl rfl rfl rfl rfl
  | timer_handle_expiry => exact hfree.same rfl rfl rfl rfl rfl rfl rfl rfl

theorem Ok.enter (h : Ok s q) (hlock : s.lock o = none)
    (hagent : ∀ t, who.thread = some t → s.pc t = .signalling o) : Ok (enter s o who count) q := by
  have hset : Ok (s.setLock o (some (.signal who .loop))) q := by
    apply h.setLock rfl (by rw [hlock]; rfl)
    · intro who' pc t hl hw
      cases hl
      exact hagent t hw
    · exact h.ne_timeout (by rw [hlock]; simp)
  exact hset.same rfl rfl rfl rfl rfl rfl rfl rfl

theorem Ok.signalling (h : Ok s q) (hpc : s.pc t = .idle) : Ok (s.setPc t (.signalling o)) q := by
  exact h.goOn hpc (by simp) (fun _ _ => .rfl) trivial trivial (fun _ hc => hc) (by simp)

end Wait
