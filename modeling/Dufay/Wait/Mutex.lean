import Dufay.Wait.WaitOne

/-! # Mutual exclusion

`mutex_lock` waits for the mutex and writes the owner afterwards, without
the lock; `mutex_unlock` sets the count to 1 and hands the mutex to the
first waiter that can be satisfied, writing the owner under the lock.

The proof follows a token. The mutex is free and its count is 1, or one
thread has it: it is in its critical section, or the signal has been
delivered to the wait it is still in.
-/

open Lts Tailq Function

namespace Wait

open Pc

open State
open Ule (WaitStatus)

variable {cfg : Config} {s s' : State} {q : Oid → List Waitblock} {t m : Nat}

/-! ### The threads of the system -/

/-- The steps of threads that repeat `mutex_lock(m, -1)`, critical section,
`mutex_unlock(m)`. -/
def LocksOnly (m : Nat) (s : State) : Action → Prop
  | .mutex_lock t k timeout => k = m ∧ timeout = -1 ∧ s.held t m = false
  | .mutex_unlock t k => k = m ∧ s.held t m = true
  | .signal _ | .run _ => True
  | _ => False

instance (m : Nat) (s : State) (a : Action) : Decidable (LocksOnly m s a) :=
  match a with
  | .wait_any .. | .mutex_lock .. | .mutex_unlock .. | .semaphore_release ..
  | .timer_start .. | .expire .. | .expiry .. | .signal .. | .run .. => by
    unfold LocksOnly
    infer_instance

/-- The thread has been handed an object by the wait that it is still in. -/
def Handed (s : State) (t : Nat) : Prop := (s.pc t).call ≠ none ∧ s.delivered t ≠ []

/-- The thread has the mutex: it is between the return of `mutex_lock` and
its call of `mutex_unlock`, or it has been handed the mutex. -/
def Token (m : Nat) (s : State) (t : Nat) : Prop := s.held t m = true ∨ Handed s t

/-- The program counters behind the last critical section of `wait_any` on a
single object. -/
def Pc.Leaving : Pc → Prop
  | .check _ (some _) | .backout _ _ _ | .returned _ _ => True
  | .final _ i _ => 0 < i
  | _ => False

/-- The signaller has a signal to give away. -/
def SignalPc.Pending : SignalPc → Prop
  | .done _ => False
  | _ => True

structure MutexOk (m : Nat) (s : State) : Prop where
  count : s.signaled_count (.obj m) = 0 ∨ s.signaled_count (.obj m) = 1
  free : s.signaled_count (.obj m) = 1 → ∀ t, ¬ Token m s t
  unique : ∀ t u, Token m s t → Token m s u → t = u
  only : ∀ o who pc, s.lock o = some (.signal who pc) → o = .obj m
  pending : ∀ who pc, s.lock (.obj m) = some (.signal who pc) → pc.Pending →
    s.signaled_count (.obj m) = 1
  inside : s.lock (.obj m) ≠ none → ∀ t, s.held t m = false ∧ ¬ (s.pc t).Leaving
  owner : ∀ t, s.held t m = true → s.owner m = some t
  idle : ∀ t, s.held t m = true → s.pc t = .idle

theorem call_single {c : Call} (hobj : c.objects = [m]) (hto : c.timeout = -1) :
    c.timed = false ∧ c.count = 1 ∧ c.object t 0 = .obj m := by
  have htimed : c.timed = false := by
    unfold Call.timed
    rw [hto]
    decide
  refine ⟨htimed, ?_, ?_⟩
  · simp [Call.count, hobj, htimed]
  · simp [Call.object, Call.timer_i, hobj, htimed]

theorem ThreadOk.handed_of_leaving (h : ThreadOk s q t) (hl : (s.pc t).Leaving) : Handed s t := by
  have hstat := h.status
  have hsig := h.signals
  unfold Handed
  revert hl hstat hsig
  cases s.pc t with
  | check c satisfier =>
    intro hl hstat hsig
    cases satisfier with
    | none => exact hl.elim
    | some n =>
      refine ⟨by simp [call], ?_⟩
      rcases hsig with ⟨hdl, -⟩ | ⟨j, -, -, hdl, -⟩ <;> simp [hdl]
  | backout c n i =>
    intro hl hstat hsig
    refine ⟨by simp [call], ?_⟩
    rcases hsig with ⟨hdl, -⟩ | ⟨j, -, -, hdl, -⟩ <;> simp [hdl]
  | final c i satisfier =>
    intro hl hstat hsig
    obtain ⟨j, -, hdl, -⟩ := hsig.1.2 hstat.2
    exact ⟨by simp [call], by simp [hdl]⟩
  | returned c result =>
    intro hl hstat hsig
    obtain ⟨d, hdl⟩ := hsig.1
    exact ⟨by simp [call], by simp [hdl]⟩
  | _ => exact fun hl => hl.elim

/-! ### One step -/

section

variable (h : MutexOk m s)

include h

theorem MutexOk.same (hcount : s'.signaled_count (.obj m) = s.signaled_count (.obj m))
    (hlock : s'.lock (.obj m) = s.lock (.obj m))
    (honly : ∀ o who pc, s'.lock o = some (.signal who pc) → o = .obj m)
    (howner : s'.owner m = s.owner m) (hheld : ∀ u, s'.held u m = s.held u m)
    (htoken : ∀ u, Handed s' u → Token m s u)
    (hleave : s.lock (.obj m) ≠ none → ∀ u, (s'.pc u).Leaving → (s.pc u).Leaving)
    (hidle : ∀ u, s.held u m = true → s'.pc u = .idle) : MutexOk m s' := by
  have htok : ∀ u, Token m s' u → Token m s u := by
    intro u hu
    rcases hu with hu | hu
    · exact .inl ((hheld u) ▸ hu)
    · exact htoken u hu
  constructor
  · rw [hcount]
    exact h.count
  · intro hone u hu
    exact h.free (hcount ▸ hone) u (htok u hu)
  · intro u v hu hv
    exact h.unique u v (htok u hu) (htok v hv)
  · exact honly
  · intro who pc hl hp
    rw [hcount]
    exact h.pending who pc (hlock ▸ hl) hp
  · intro hl u
    rw [hlock] at hl
    obtain ⟨hh, hn⟩ := h.inside hl u
    exact ⟨(hheld u).trans hh, fun hu => hn (hleave hl u hu)⟩
  · intro u hu
    rw [howner]
    exact h.owner u ((hheld u) ▸ hu)
  · intro u hu
    exact hidle u ((hheld u) ▸ hu)

theorem MutexOk.setPc {pc : Pc} (hcall : (s.pc t).call ≠ none)
    (hleave : s.lock (.obj m) ≠ none → pc.Leaving → (s.pc t).Leaving) :
    MutexOk m (s.setPc t pc) := by
  -- a thread in its critical section is in no call
  have hnot : s.held t m ≠ true := by
    intro hh
    rw [h.idle t hh] at hcall
    exact hcall rfl
  refine h.same rfl rfl h.only rfl (fun _ => rfl) ?_ ?_ ?_
  · intro u hu
    by_cases hut : u = t
    · rw [hut] at hu ⊢
      exact .inr ⟨hcall, hu.2⟩
    · rw [Handed, setPc_pc, update_of_ne hut] at hu
      exact .inr hu
  · intro hl u hu
    by_cases hut : u = t
    · rw [hut] at hu ⊢
      rw [setPc_pc, update_self] at hu
      exact hleave hl hu
    · rw [setPc_pc, update_of_ne hut] at hu
      exact hu
  · intro u hu
    have hut : u ≠ t := fun heq => hnot (heq ▸ hu)
    rw [setPc_pc, update_of_ne hut]
    exact h.idle u hu

theorem MutexOk.setPc_early {old pc : Pc} (hpc : s.pc t = old)
    (hcall : old.call ≠ none) (hleave : ¬ pc.Leaving) : MutexOk m (s.setPc t pc) := by
  refine h.setPc ?_ (fun _ hl => absurd hl hleave)
  rw [hpc]
  exact hcall

theorem MutexOk.congr (hpc : s'.pc = s.pc)
    (hcount : s'.signaled_count = s.signaled_count) (hlock : s'.lock = s.lock)
    (howner : s'.owner = s.owner) (hheld : s'.held = s.held)
    (hdl : s'.delivered = s.delivered) : MutexOk m s' := by
  refine h.same (by rw [hcount]) (by rw [hlock]) ?_ (by rw [howner]) (by simp [hheld]) ?_ ?_ ?_
  · rw [hlock]
    exact h.only
  · intro u hu
    rw [Handed, hpc, hdl] at hu
    exact .inr hu
  · intro _ u hu
    rw [hpc] at hu
    exact hu
  · intro u hu
    rw [hpc]
    exact h.idle u hu

theorem MutexOk.hand_over (hone : s.signaled_count (.obj m) = 1)
    (hcount : s'.signaled_count (.obj m) = 0)
    (honly : ∀ o who pc, s'.lock o = some (.signal who pc) → o = .obj m)
    (hpend : ∀ who pc, s'.lock (.obj m) = some (.signal who pc) → ¬ pc.Pending)
    (hheld : ∀ u, s'.held u m = s.held u m) (htoken : ∀ u, u ≠ t → Handed s' u → Handed s u)
    (hinside : s'.lock (.obj m) ≠ none → ∀ u, ¬ (s'.pc u).Leaving) : MutexOk m s' := by
  -- while the count was 1 nobody had the mutex, so whoever has it now is `t`
  have hnone := h.free hone
  have hnh : ∀ u, s'.held u m ≠ true := by
    intro u hu
    exact hnone u (.inl ((hheld u) ▸ hu))
  have htok : ∀ u, Token m s' u → u = t := by
    intro u hu
    by_contra hne
    rcases hu with hu | hu
    · exact hnh u hu
    · exact hnone u (.inr (htoken u hne hu))
  constructor
  · exact .inl hcount
  · intro habs
    omega
  · intro u v hu hv
    rw [htok u hu, htok v hv]
  · exact honly
  · intro who pc hl hp
    exact absurd hp (hpend who pc hl)
  · intro hl u
    exact ⟨by simpa using hnh u, hinside hl u⟩
  all_goals
    intro u hu
    exact absurd hu (hnh u)

theorem MutexOk.pass {pc : SignalPc}
    (hlock : s.lock (.obj m) = some (.signal who pc)) (hp : pc.Pending) :
    MutexOk m (s.setLock (.obj m) (some (.signal who pc'))) where
  count := h.count
  free := h.free
  unique := h.unique
  only := fun o who' p hl => by
    by_cases ho : o = .obj m
    · exact ho
    · rw [setLock_lock, update_of_ne ho] at hl
      exact h.only o who' p hl
  pending := fun _ _ _ _ => h.pending who pc hlock hp
  inside := fun _ => h.inside (by rw [hlock]; simp)
  owner := h.owner
  idle := h.idle

theorem MutexOk.satisfy (hm : cfg.kind m = .mutex) {who : Signaller} {p : SignalPc} {pc : Pc}
    (hlock : s.lock (.obj m) = some (.signal who p)) (hp : p.Pending)
    (hleave : pc.Leaving → (s.pc wb.thread).Leaving) :
    MutexOk m ((satisfy_waitblock cfg s (.obj m) who wb).setPc wb.thread pc) := by
  have htype : cfg.type (.obj m) = .synchronization := by simp [Config.type, hm, ObjectKind.type]
  have hone := h.pending who p hlock hp
  have hlock' := satisfy_waitblock_lock cfg s (.obj m) who wb
  have hnext : next_waitblock cfg (.obj m) wb = .done (some wb.thread) := by
    simp [next_waitblock, htype]
  refine h.hand_over (t := wb.thread) hone ?_ ?_ ?_ ?_ ?_ ?_
  · simp only [setPc_signaled_count, satisfy_waitblock, setLock_signaled_count,
      consume_signaled_count_self _ _ _ _ htype, Wait.satisfy, hone]
    decide
  · intro o who' p' hl
    rw [setPc_lock, hlock'] at hl
    by_cases ho : o = .obj m
    · exact ho
    · rw [update_of_ne ho] at hl
      exact h.only o who' p' hl
  · intro who' p' hl hp'
    rw [setPc_lock, hlock', update_self, hnext] at hl
    cases hl
    exact hp'
  · intro u
    simp [satisfy_waitblock, Wait.satisfy]
  · intro u hu hh
    unfold Handed at hh ⊢
    simpa [satisfy_waitblock, Wait.satisfy, hu] using hh
  · intro _ u hl
    have hn := (h.inside (by rw [hlock]; simp) u).2
    by_cases hu : u = wb.thread
    · rw [hu] at hl hn
      rw [setPc_pc, update_self] at hl
      exact hn (hleave hl)
    · rw [setPc_pc, update_of_ne hu, satisfy_waitblock_pc] at hl
      exact hn hl

theorem MutexOk.release {o : Oid} {who : Signaller}
    {ret : Option Nat} (hlock : s.lock o = some (.signal who (.done ret))) :
    MutexOk m (release s o who ret) := by
  have ho := h.only o _ _ hlock
  subst ho
  have hnot : ∀ u, s.held u m ≠ true := by
    intro u
    simp [(h.inside (by rw [hlock]; simp) u).1]
  have hfields : (Wait.release s (.obj m) who ret).signaled_count = s.signaled_count ∧
      (Wait.release s (.obj m) who ret).lock = update s.lock (.obj m) none ∧
      (Wait.release s (.obj m) who ret).held = s.held ∧
      (Wait.release s (.obj m) who ret).delivered = s.delivered := by
    cases who <;> exact ⟨rfl, rfl, rfl, rfl⟩
  obtain ⟨hcount, hlock', hheld, hdl⟩ := hfields
  -- the thread that runs the caller was in no wait
  have hhanded : ∀ u, Handed (Wait.release s (.obj m) who ret) u → Handed s u := by
    intro u hu
    unfold Handed at hu ⊢
    rw [hdl] at hu
    refine ⟨?_, hu.2⟩
    cases who with
    | timer_handle_expiry => exact hu.1
    | mutex_unlock t | semaphore_release t =>
      have hcall := hu.1
      simp only [Wait.release, setPc_pc, setLock_pc] at hcall
      rw [update_apply] at hcall
      split at hcall
      · exact absurd rfl hcall
      · exact hcall
  have htok : ∀ u, Token m (Wait.release s (.obj m) who ret) u → Token m s u := by
    intro u hu
    rcases hu with hu | hu
    · rw [hheld] at hu
      exact .inl hu
    · exact .inr (hhanded u hu)
  constructor
  · rw [hcount]
    exact h.count
  · rw [hcount]
    exact fun hone u hu => h.free hone u (htok u hu)
  · exact fun u v hu hv => h.unique u v (htok u hu) (htok v hv)
  · intro o who' p hl
    rw [hlock'] at hl
    by_cases ho : o = .obj m
    · exact ho
    · rw [update_of_ne ho] at hl
      exact h.only o who' p hl
  · intro who' p hl
    rw [hlock', update_self] at hl
    cases hl
  · intro hl
    rw [hlock', update_self] at hl
    exact absurd rfl hl
  all_goals
    intro u hu
    rw [hheld] at hu
    exact absurd hu (hnot u)

theorem MutexOk.signal_step (hok : Ok s q) (hm : cfg.kind m = .mutex)
    (hmove : Moves cfg s (.signal o) s') : MutexOk m s' := by
  obtain ⟨_, _, hl⟩ := lock_of_signal hmove
  have ho := h.only o _ _ hl
  subst ho
  cases hmove with
  | pop hlock _ _ => exact (h.pass hlock trivial).congr rfl rfl rfl rfl rfl rfl
  | loop_end hlock _ => exact h.pass hlock trivial
  | @case1 _ who wb hlock hst =>
    -- the waiter is still preparing its wait and goes on by itself
    rw [← setPc_self (satisfy_waitblock cfg s (.obj m) who wb) wb.thread, satisfy_waitblock_pc]
    exact h.satisfy hm hlock trivial (fun hl => hl)
  | not_case1 hlock _ => exact h.pass hlock trivial
  | @case2 _ who wb hlock hst =>
    -- the waiter is asleep, and the wake moves it behind its commit
    obtain ⟨c, hpc⟩ := hok.blocked_of_flight (show flight (s.lock (.obj m)) = some wb by
      rw [hlock]
      rfl) hst
    rw [sched_wake_blocked (by rw [satisfy_waitblock_pc, hpc])]
    refine h.satisfy hm hlock trivial (fun hl => ?_)
    exact absurd hl (by unfold after_wait; split <;> simp [Leaving])
  | not_case2 hlock _ => exact h.pass hlock trivial
  | case3 hlock _ => exact (h.pass hlock trivial).congr rfl rfl rfl rfl rfl rfl
  | not_case3 hlock hst => exact absurd (hok.case3 _ _ _ hlock) hst
  | @release _ who ret hlock => exact h.release hlock

theorem MutexOk.setLock_timeout {u id : Nat} (hns : ∀ who pc, hold ≠ some (.signal who pc)) :
    MutexOk m (s.setLock (.timeout u id) hold) := by
  have hne : Oid.obj m ≠ .timeout u id := by simp
  refine h.same rfl ?_ ?_ rfl (fun _ => rfl) (fun _ hu => Or.inr hu) (fun _ _ hu => hu) h.idle
  · rw [setLock_lock, update_of_ne hne]
  · intro o who pc hl
    rw [setLock_lock, update_apply] at hl
    split at hl
    · exact absurd hl (hns who pc)
    · exact h.only o who pc hl

theorem MutexOk.unlock (hok : Ok s q) (hheld : s.held t m = true) : MutexOk m ((enter
      { s with held := update s.held t (update (s.held t) m false) }
      (.obj m) (.mutex_unlock t) 1).setPc t (.signalling (.obj m))) := by
  -- nobody else has the mutex
  have hother : ∀ u, u ≠ t → ¬ Token m s u := by
    intro u hu htok
    exact hu (h.unique u t htok (.inl hheld))
  have hnone : ∀ u, ¬ Token m ((enter
      { s with held := update s.held t (update (s.held t) m false) }
      (.obj m) (.mutex_unlock t) 1).setPc t (.signalling (.obj m))) u := by
    intro u htok
    by_cases hut : u = t
    · rcases htok with hu | hu
      · simp [enter, hut] at hu
      · exact hu.1 (by simp [hut, call])
    · apply hother u hut
      rcases htok with hu | hu
      · left
        simpa [enter, hut] using hu
      · right
        unfold Handed at hu ⊢
        simpa [enter, hut] using hu
  constructor
  · simp [enter]
  · exact fun _ => hnone
  · exact fun u v hu => absurd hu (hnone u)
  · intro o who pc hl
    by_cases ho : o = .obj m
    · exact ho
    · simp only [enter, setPc_lock, setLock_lock, update_of_ne ho] at hl
      exact h.only o who pc hl
  · intro who pc _ _
    simp [enter]
  · intro _ u
    refine ⟨by simpa using fun hu => hnone u (.inl hu), ?_⟩
    intro hl
    by_cases hut : u = t
    · simp [hut, Leaving] at hl
    · have hl' : (s.pc u).Leaving := by simpa [enter, hut] using hl
      exact hother u hut (.inr ((hok.thread u).handed_of_leaving hl'))
  all_goals exact fun u hu => absurd (.inl hu) (hnone u)

theorem MutexOk.return_to (hok : Ok s q) {c : Call} {result : Option Nat}
    (hpc : s.pc t = .returned c result) (caller : Caller) : MutexOk m (return_to s t caller) := by
  have hleaving : (s.pc t).Leaving := by
    rw [hpc]
    trivial
  have hhanded : Handed s t := (hok.thread t).handed_of_leaving hleaving
  have hfree : s.lock (.obj m) = none := by
    by_contra hl
    exact (h.inside hl t).2 hleaving
  have hnot : ∀ u, s.held u m = true → u ≠ t := by
    intro u hu heq
    have := h.idle u hu
    rw [heq, hpc] at this
    cases this
  have hidle : MutexOk m (s.setPc t .idle) := by
    refine h.same rfl rfl h.only rfl (fun _ => rfl) ?_ (fun hl => absurd hfree hl) ?_
    · intro u hu
      by_cases hut : u = t
      · rw [hut]
        exact .inr hhanded
      · rw [Handed, setPc_pc, update_of_ne hut] at hu
        exact .inr hu
    · intro u hu
      rw [setPc_pc, update_of_ne (hnot u hu)]
      exact h.idle u hu
  cases caller with
  | wait_any => exact hidle
  | mutex_lock k =>
    by_cases hk : k = m
    · subst hk
      have hheld : ∀ u, (Wait.return_to s t (.mutex_lock k)).held u k =
          if u = t then true else s.held u k := by
        intro u
        by_cases hut : u = t
        all_goals simp [Wait.return_to, hut]
      have htok : ∀ u, Token k (Wait.return_to s t (.mutex_lock k)) u → Token k s u := by
        intro u hu
        by_cases hut : u = t
        · rw [hut]
          exact .inr hhanded
        · rcases hu with hu | hu
          · rw [hheld, if_neg hut] at hu
            exact .inl hu
          · right
            unfold Handed at hu ⊢
            simpa [Wait.return_to, hut] using hu
      constructor
      · exact h.count
      · exact fun hone u hu => h.free hone u (htok u hu)
      · exact fun u v hu hv => h.unique u v (htok u hu) (htok v hv)
      · exact h.only
      · exact h.pending
      · exact fun hl => absurd hfree hl
      · intro u hu
        -- whoever is in the critical section now is the thread that returned
        have heq := h.unique u t (htok u (.inl hu)) (.inr hhanded)
        rw [heq]
        simp [Wait.return_to]
      · intro u hu
        have heq := h.unique u t (htok u (.inl hu)) (.inr hhanded)
        rw [heq]
        simp [Wait.return_to]
    · -- a call for another mutex changes nothing here
      have hne : m ≠ k := fun heq => hk heq.symm
      refine hidle.same rfl rfl h.only ?_ ?_ (fun _ hu => Or.inr hu) (fun _ _ hu => hu) hidle.idle
      · simp [Wait.return_to, hne]
      · intro u
        by_cases hut : u = t
        · simp [Wait.return_to, hut, hne]
        · simp [Wait.return_to, hut]

section
variable (hok : Ok s q) (hm : cfg.kind m = .mutex)
  (hcalls : ∀ t c, (s.pc t).call = some c → c.objects = [m] ∧ c.timeout = -1)
include hok hm hcalls

theorem MutexOk.run_step (hmove : Moves cfg s (.run t) s') : MutexOk m s' := by
  -- the critical section of a call is that of the mutex
  have hobj : ∀ {c i}, (s.pc t).call = some c → i < c.count → c.object t i = .obj m ∧ i = 0 := by
    intro c i hc hi
    obtain ⟨ho, hto⟩ := hcalls t c hc
    obtain ⟨-, hcount, hobj⟩ := call_single (t := t) ho hto
    have hi0 : i = 0 := by omega
    rw [hi0]
    exact ⟨hobj, rfl⟩
  cases hmove with
  | @scan_take _ i c hpc hi hlock hpos hst =>
    obtain ⟨hom, -⟩ := hobj (by rw [hpc]; rfl) hi
    rw [hom] at hlock hpos ⊢
    -- the fast path: a free mutex is taken in the scan
    have hone : s.signaled_count (.obj m) = 1 := by
      rcases h.count with h0 | h1
      · omega
      · exact h1
    have htype : cfg.type (.obj m) = .synchronization := by
      simp [Config.type, hm, ObjectKind.type]
    refine h.hand_over (t := t) hone ?_ ?_ ?_ ?_ ?_ ?_
    · simp only [setPc_signaled_count, consume_signaled_count_self _ _ _ _ htype, Wait.satisfy, hone]
      decide
    · simpa [Wait.satisfy] using h.only
    · intro who pc hl
      simp [Wait.satisfy, hlock] at hl
    · intro u
      simp [Wait.satisfy]
    · intro u hu hh
      unfold Handed at hh ⊢
      simpa [Wait.satisfy, hu] using hh
    · intro hl
      simp [Wait.satisfy, hlock] at hl
  | scan_late hpc hi hlock _ _ =>
    obtain ⟨hom, -⟩ := hobj (by rw [hpc]; rfl) hi
    rw [hom] at hlock
    exact h.setPc (by simp [hpc, call]) (fun hl => absurd hlock hl)
  | scan_install hpc _ _ _ | commit hpc _ =>
    exact (h.setPc_early hpc (by simp [call]) (by simp [Leaving])).congr rfl rfl rfl rfl rfl rfl
  | scan_end hpc _ | check_start hpc _ | check_commit hpc _ _ | stop_spin hpc
  | stop_stopped hpc _ =>
    exact h.setPc_early hpc (by simp [call]) (by simp [Leaving])
  | check_panic _ _ _ | final_panic _ _ _ _ => exact h.congr rfl rfl rfl rfl rfl rfl
  | check_backout hpc _ =>
    exact h.setPc (by simp [hpc, call]) (fun _ _ => by rw [hpc]; trivial)
  -- a poll would leave without the mutex, but the timeout is not 0
  | check_return hpc hzero _ =>
    have hto := (hcalls t _ (by rw [hpc]; rfl)).2
    rw [hzero] at hto
    exact absurd hto (by decide)
  | backout hpc _ _ =>
    exact (h.setPc (by simp [hpc, call]) (fun _ _ => by rw [hpc]; trivial)).congr
      rfl rfl rfl rfl rfl rfl
  | backout_end hpc _ =>
    exact h.setPc (by simp [hpc, call]) (fun _ _ => by rw [hpc]; trivial)
  | start hpc _ =>
    rw [timer_start_eq]
    exact (h.setPc_early hpc (by simp [call]) (by simp [Leaving])).congr rfl rfl rfl rfl rfl rfl
  | commit_late hpc _ =>
    refine h.setPc_early hpc (by simp [call]) ?_
    unfold after_wait
    split <;> simp [Leaving]
  | @stop_enter _ c hpc _ =>
    have hset : MutexOk m (s.setLock (.timeout t c.id) (some .timer_stop)) :=
      h.setLock_timeout (by simp)
    exact hset.setPc_early hpc (by simp [call]) (by simp [Leaving])
  | @stop_store _ c hpc =>
    have hset : MutexOk m (s.setLock (.timeout t c.id) none) := h.setLock_timeout (by simp)
    exact (hset.setPc_early hpc (by simp [call]) (by simp [Leaving])).congr rfl rfl rfl rfl rfl rfl
  | final_active hpc hi hlock _ =>
    obtain ⟨hom, -⟩ := hobj (by rw [hpc]; rfl) hi
    rw [hom] at hlock
    exact (h.setPc (by simp [hpc, call]) (fun hl => absurd hlock hl)).congr rfl rfl rfl rfl rfl rfl
  | final_inactive hpc hi hlock _ | final_signaled hpc hi hlock _ =>
    obtain ⟨hom, -⟩ := hobj (by rw [hpc]; rfl) hi
    rw [hom] at hlock
    exact h.setPc (by simp [hpc, call]) (fun hl => absurd hlock hl)
  | @final_end _ i c _ hpc hi =>
    -- the one object has been scanned
    obtain ⟨ho, hto⟩ := hcalls t c (by rw [hpc]; rfl)
    obtain ⟨-, hcount, -⟩ := call_single (t := t) ho hto
    refine h.setPc (by simp [hpc, call]) (fun _ _ => ?_)
    rw [hpc]
    show 0 < i
    omega
  | return_to hpc => exact h.return_to hok hpc _

theorem MutexOk.step {a : Action} (ha : LocksOnly m s a) (hmove : Moves cfg s a s') : MutexOk m s'
    := by
  cases a with
  | signal o => exact h.signal_step hok hm hmove
  | run t => exact h.run_step hok hm hcalls hmove
  | mutex_lock t k timeout =>
    obtain ⟨rfl, rfl, hheld⟩ := ha
    cases hmove with
    | mutex_lock hpc _ =>
      have hbegin : ∀ c : Call, c.timed = false → MutexOk k (begin_wait s t c) := by
        intro c htimed
        refine h.same ?_ ?_ ?_ ?_ ?_ ?_ ?_ ?_
        · simp [begin_wait, htimed]
        · simp [begin_wait, htimed]
        · simpa [begin_wait, htimed] using h.only
        · simp [begin_wait, htimed]
        · simp [begin_wait, htimed]
        · intro u hu
          by_cases hut : u = t
          · exact absurd hu.2 (by simp [begin_wait, htimed, hut])
          · right
            unfold Handed at hu ⊢
            simpa [begin_wait, htimed, hut] using hu
        · intro _ u hu
          by_cases hut : u = t
          · simp [begin_wait, htimed, hut, Leaving] at hu
          · simpa [begin_wait, htimed, hut] using hu
        · intro u hu
          have hut : u ≠ t := by
            intro heq
            rw [heq, hheld] at hu
            cases hu
          simp [begin_wait, htimed, hut, h.idle u hu]
      exact hbegin _ (call_single (t := t) rfl rfl).1
  | mutex_unlock t k =>
    obtain ⟨rfl, hheld⟩ := ha
    cases hmove with
    | mutex_unlock hpc _ hlock => exact h.unlock hok hheld
  | wait_any t objects timeout => exact ha.elim
  | semaphore_release t k => exact ha.elim
  | timer_start k => exact ha.elim
  | expire o => exact ha.elim
  | expiry o => exact ha.elim

end

end

/-! ### Every run -/

theorem MutexOk.init (h : Init cfg s) (hm : cfg.kind m = .mutex) : MutexOk m s := by
  have hcount : s.signaled_count (.obj m) = 1 := by
    rw [h.signaled_count]
    simp [Config.initial_count, hm]
  have htoken : ∀ t, ¬ Token m s t := by
    intro t ht
    rcases ht with ht | ht
    · rw [h.held] at ht
      cases ht
    · exact ht.2 (h.delivered t)
  constructor
  · exact .inr hcount
  · exact fun _ => htoken
  · exact fun t u ht _ => absurd ht (htoken t)
  · intro o who pc hl
    rw [h.lock] at hl
    cases hl
  · exact fun _ _ _ _ => hcount
  · exact fun hl => absurd (h.lock _) hl
  all_goals exact fun t ht => absurd (.inl ht) (htoken t)

theorem LocksOnly.call (hs : ReachableBy (system cfg) (LocksOnly m) s) (t : Nat) (c : Call)
    (hc : (s.pc t).call = some c) : c.objects = [m] ∧ c.timeout = -1 := by
  refine call_of_reachable (P := fun objects timeout => objects = [m] ∧ timeout = -1) ?_ hs t c hc
  intro s a ha
  cases a with
  | mutex_lock t k timeout => exact ⟨by rw [ha.1], ha.2.1⟩
  | wait_any t objects timeout => exact ha.elim
  | _ => trivial

theorem LocksOnly.waitsOne (ha : LocksOnly m s a) : WaitsOne s a := by
  cases a with
  | mutex_lock t k timeout =>
    obtain ⟨-, rfl, -⟩ := ha
    exact ⟨rfl, by decide⟩
  | wait_any t objects timeout => exact ha.elim
  | _ => trivial

theorem mutexOk_of_reachable (hm : cfg.kind m = .mutex)
    (hs : ReachableBy (system cfg) (LocksOnly m) s) : MutexOk m s := by
  induction hs with
  | init h => exact .init h hm
  | step a hreach ha hstep ih =>
    obtain ⟨⟨q, hok⟩, -⟩ := ok_of_waitsOne (hreach.mono (fun _ _ h => h.waitsOne))
    exact ih.step hok hm (LocksOnly.call hreach) ha (moves_of_step hstep).2

/-- **Mutual exclusion.** In every run of threads that lock and unlock the
mutex, one thread at most is between the return of `mutex_lock` and its
call of `mutex_unlock`; the count is 0 or 1, and 1 only while no thread
holds the mutex or has been handed it; and the owner is the thread that
holds it. -/
theorem mutual_exclusion (hm : cfg.kind m = .mutex)
    (hs : ReachableBy (system cfg) (LocksOnly m) s) :
    (∀ t u, s.held t m = true → s.held u m = true → t = u) ∧
      (s.signaled_count (.obj m) = 0 ∨ s.signaled_count (.obj m) = 1) ∧
      (s.signaled_count (.obj m) = 1 → ∀ t, s.held t m = false ∧ ¬ Handed s t) ∧
      ∀ t, s.held t m = true → s.owner m = some t := by
  have h := mutexOk_of_reachable hm hs
  refine ⟨?_, h.count, ?_, h.owner⟩
  · exact fun t u ht hu => h.unique t u (.inl ht) (.inl hu)
  · intro hone t
    have hnot := h.free hone t
    refine ⟨by simpa using fun ht => hnot (.inl ht), fun ht => hnot (.inr ht)⟩

def oneMutex : Config where
  kind := fun _ => .mutex
  initial := fun _ => 0
  initial_range := fun _ => by decide

/-- Thread 0 locks the mutex; thread 1 commits its wait for it; thread 0
unlocks and wakes thread 1, which returns with the mutex. -/
def handoverRun : List Action := [.mutex_lock 0 0 (-1), .run 0, .run 0, .run 0, .run 0,
    .mutex_lock 1 0 (-1), .run 1, .run 1, .run 1, .run 1,
    .mutex_unlock 0 0, .signal (.obj 0), .signal (.obj 0), .signal (.obj 0), .signal (.obj 0),
    .run 1, .run 1, .run 1]

/-- At the end of `handoverRun` thread 1 holds the mutex, alone. -/
theorem mutual_exclusion_handover :
    ∃ s, execBy (system oneMutex) (LocksOnly 0) (boot oneMutex) handoverRun = some s ∧
      s.held 1 0 = true ∧ (∀ t, s.held t 0 = true → t = 1) ∧ s.owner 0 = some 1 := by
  refine run_imp (fun s => s.held 1 0 = true) ⟨_, rfl, rfl⟩ fun s hs hheld => ⟨hheld, ?_⟩
  obtain ⟨hunique, -, -, howner⟩ :=
    mutual_exclusion (m := 0) rfl (.of_execBy (.init (boot_init _)) hs)
  exact ⟨fun t ht => hunique t 1 ht hheld, howner 1 hheld⟩

end Wait
