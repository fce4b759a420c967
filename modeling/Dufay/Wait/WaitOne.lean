import Dufay.Wait.Kept

/-! # Waits on one object

`wait_one` is `wait_any` with one object. With a timeout there are two
waitblocks, the object's and the timer's, and the early back-out could
only be reached with a waitblock installed if the scan found the timer
signaled. It never does: the timer is started behind the scan, and
until then nobody signals it.
-/

open Lts Tailq Function

namespace Wait

open State
open Ule (WaitStatus)

variable {cfg : Config} {s s' : State} {q : Oid → List Waitblock} {t m : Nat}

/-- All waits are for one object, with a timeout other than 0. -/
def WaitsOne (_ : State) (a : Action) : Prop :=
  Starts (fun objects timeout => objects.length = 1 ∧ timeout ≠ 0) a

instance (s : State) (a : Action) : Decidable (WaitsOne s a) :=
  inferInstanceAs (Decidable (Starts _ a))

/-! ### Timers that were not started -/

/-- Nobody has started or signaled the timer. -/
structure Quiet (s : State) (o : Oid) : Prop where
  timer_state : s.timer_state o = .stopped
  expiring : s.expiring o = false
  lock : s.lock o = none
  signaled_count : s.signaled_count o = 0

/-- The call that has not come to start its timer yet. -/
def Pc.unstarted : Pc → Option Nat
  | .scan c _ | .check c _ | .backout c _ _ | .start c => some c.id
  | _ => none

/-- The object that the scan found signaled. -/
def Pc.found : Pc → Option (Call × Nat)
  | .check c (some n) | .backout c n _ => some (c, n)
  | _ => none

/-- The timeout timers of calls to come and of calls that are not that far. -/
def Unstarted (s : State) (t id : Nat) : Prop := s.calls t ≤ id ∨ (s.pc t).unstarted = some id

/-- No timer is signaled before it is started, and so no scan finds its
own timer signaled. -/
structure QuietOk (s : State) : Prop where
  quiet : ∀ t id, Unstarted s t id → Quiet s (.timeout t id)
  found : ∀ t c n, (s.pc t).found = some (c, n) → c.timer_i ≠ some n

section

variable (h : QuietOk s)

include h

theorem QuietOk.same (hpc : s'.pc = s.pc) (hcalls : s'.calls = s.calls)
    (hquiet : ∀ t id, Unstarted s t id → Quiet s (.timeout t id) → Quiet s' (.timeout t id)) :
    QuietOk s' := by
  constructor
  · intro t id hu
    have hu' : Unstarted s t id := by
      unfold Unstarted at hu ⊢
      rwa [hpc, hcalls] at hu
    exact hquiet t id hu' (h.quiet t id hu')
  · intro t c n hf
    rw [hpc] at hf
    exact h.found t c n hf

theorem QuietOk.congr (hpc : s'.pc = s.pc) (hcalls : s'.calls = s.calls)
    (hstate : s'.timer_state = s.timer_state) (hexp : s'.expiring = s.expiring)
    (hlock : s'.lock = s.lock) (hcount : s'.signaled_count = s.signaled_count) : QuietOk s' := by
  refine h.same hpc hcalls ?_
  intro t id _ hq
  constructor
  · rw [hstate, hq.timer_state]
  · rw [hexp, hq.expiring]
  · rw [hlock, hq.lock]
  · rw [hcount, hq.signaled_count]

theorem QuietOk.setPc {pc : Pc} (hun : ∀ id, pc.unstarted = some id → (s.pc t).unstarted = some id)
    (hfound : ∀ c n, pc.found = some (c, n) → c.timer_i ≠ some n) : QuietOk (s.setPc t pc) := by
  constructor
  · intro u id hu
    have hu' : Unstarted s u id := by
      by_cases hut : u = t
      · subst hut
        rcases hu with hu | hu
        · exact .inl hu
        · rw [setPc_pc, update_self] at hu
          exact .inr (hun id hu)
      · unfold Unstarted at hu ⊢
        rwa [setPc_pc, update_of_ne hut] at hu
    obtain ⟨hstate, hexp, hlock, hcount⟩ := h.quiet u id hu'
    exact ⟨hstate, hexp, hlock, hcount⟩
  · intro u c n hf
    rw [setPc_pc, update_apply] at hf
    split at hf
    · exact hfound c n hf
    · exact h.found u c n hf

theorem QuietOk.setPc_late {pc : Pc} (hun : pc.unstarted = none)
    (hfound : pc.found = none) : QuietOk (s.setPc t pc) := by
  refine h.setPc ?_ ?_
  · intro id hid
    rw [hun] at hid
    cases hid
  · intro c n hf
    rw [hfound] at hf
    cases hf

theorem QuietOk.touch {o : Oid} (hpc : s'.pc = s.pc) (hcalls : s'.calls = s.calls)
    (ho : ∀ t id, Unstarted s t id → o ≠ .timeout t id)
    (hstate : ∀ o', o' ≠ o → s'.timer_state o' = s.timer_state o')
    (hexp : ∀ o', o' ≠ o → s'.expiring o' = s.expiring o')
    (hlock : ∀ o', o' ≠ o → s'.lock o' = s.lock o')
    (hcount : ∀ o', o' ≠ o → s'.signaled_count o' = s.signaled_count o') : QuietOk s' := by
  refine h.same hpc hcalls ?_
  intro t id hu hquiet
  have hne : Oid.timeout t id ≠ o := (ho t id hu).symm
  constructor
  · rw [hstate _ hne, hquiet.timer_state]
  · rw [hexp _ hne, hquiet.expiring]
  · rw [hlock _ hne, hquiet.lock]
  · rw [hcount _ hne, hquiet.signaled_count]

theorem QuietOk.ne_of_lock (hlock : s.lock o ≠ none) (t id : Nat)
    (hu : Unstarted s t id) : o ≠ .timeout t id := by
  intro ho
  rw [ho] at hlock
  exact hlock (h.quiet t id hu).lock

theorem QuietOk.enter (k : Nat) (who : Signaller) (count : Int) :
    QuietOk (enter s (.obj k) who count) := by
  refine h.touch (o := .obj k) rfl rfl (fun _ _ _ => by simp) (fun _ _ => rfl) (fun _ _ => rfl)
    ?_ ?_
  all_goals
    intro o ho
    simp [Wait.enter, ho]

theorem QuietOk.begin_wait {c : Call} (hid : c.id = s.calls t) : QuietOk (begin_wait s t c) := by
  obtain ⟨hpc, -, hcalls, -⟩ := begin_wait_fields s t c
  constructor
  · intro u id hu
    have hu' : Unstarted s u id := by
      by_cases hut : u = t
      · subst hut
        left
        rcases hu with hu | hu
        · rw [hcalls, update_self] at hu
          omega
        · rw [hpc, update_self] at hu
          cases hu
          exact le_of_eq hid.symm
      · unfold Unstarted at hu ⊢
        rwa [hpc, hcalls, update_of_ne hut, update_of_ne hut] at hu
    obtain ⟨hstate, hexp, hlock, hcount⟩ := h.quiet u id hu'
    -- the new timer is initialised to what it was
    unfold Wait.begin_wait
    split
    · by_cases ho : Oid.timeout u id = .timeout t c.id
      · constructor <;> simp [ho]
        rw [← ho]
        exact hexp
      · constructor <;> simp [ho, hstate, hexp, hlock, hcount]
    · exact ⟨hstate, hexp, hlock, hcount⟩
  · intro u c' n hf
    rw [hpc] at hf
    rw [update_apply] at hf
    split at hf
    · cases hf
    · exact h.found u c' n hf

theorem QuietOk.signal_step {o : Oid} (hmove : Moves cfg s (.signal o) s') : QuietOk s' := by
  obtain ⟨who, pc, hlock⟩ := lock_of_signal hmove
  have hne := h.ne_of_lock (o := o) (by rw [hlock]; simp)
  -- the signaller's object is locked, so it is none of the unstarted timers
  have hsatisfy : ∀ who wb, QuietOk (satisfy_waitblock cfg s o who wb) := by
    intro who wb
    refine h.touch (o := o) (satisfy_waitblock_pc _ _ _ _ _) ?_ hne ?_ ?_ ?_ ?_
    · simp [satisfy_waitblock, satisfy]
    · simp [satisfy_waitblock, satisfy]
    · simp [satisfy_waitblock, satisfy]
    · intro o' ho'
      simp [satisfy_waitblock, satisfy, ho']
    · intro o' ho'
      simp [satisfy_waitblock, satisfy, consume_signaled_count_ne _ _ _ _ ho']
  cases hmove with
  | pop _ _ _ | loop_end _ _ | not_case1 _ _ | not_case2 _ _ | case3 _ _ | not_case3 _ _ =>
    refine h.touch (o := o) rfl rfl hne (fun _ _ => rfl) (fun _ _ => rfl) ?_ (fun _ _ => rfl)
    intro o' ho'
    simp [ho']
  | case1 _ _ => exact hsatisfy _ _
  | case2 _ _ =>
    unfold sched_wake
    split
    · refine (hsatisfy _ _).setPc_late ?_ ?_
      all_goals
        unfold after_wait
        split <;> rfl
    · exact hsatisfy _ _
  | @release _ who ret _ =>
    cases who with
    | mutex_unlock t | semaphore_release t =>
      show QuietOk (State.setPc _ t .idle)
      refine .setPc_late ?_ rfl rfl
      refine h.touch (o := o) rfl rfl hne (fun _ _ => rfl) (fun _ _ => rfl) ?_ (fun _ _ => rfl)
      intro o' ho'
      simp [ho']
    | timer_handle_expiry =>
      refine h.touch (o := o) rfl rfl hne ?_ (fun _ _ => rfl) ?_ (fun _ _ => rfl)
      all_goals
        intro o' ho'
        simp [Wait.release, ho']

theorem QuietOk.timer_i_ne {c : Call} (hpc : s.pc t = .scan c i)
    (hpos : 0 < s.signaled_count (c.object t i)) : c.timer_i ≠ some i := by
  intro htimer
  have hquiet := h.quiet t c.id (.inr (by rw [hpc]; rfl))
  have hobj : c.object t i = .timeout t c.id := by simp [Call.object, htimer]
  rw [hobj, hquiet.signaled_count] at hpos
  exact absurd hpos (lt_irrefl 0)

theorem QuietOk.run_step (hok : Ok s q) (hmove : Moves cfg s (.run t) s') : QuietOk s' := by
  -- `timer_start` and `timer_stop` touch the timer of a call that is behind its start
  have htouch : ∀ (pc : Pc) {c : Call}, (s.pc t).call = some c → pc.unstarted = none →
      pc.found = none → ∀ s₁ : State, s₁.pc = update s.pc t pc → s₁.calls = s.calls →
      (∀ o, o ≠ .timeout t c.id → s₁.timer_state o = s.timer_state o) →
      s₁.expiring = s.expiring →
      (∀ o, o ≠ .timeout t c.id → s₁.lock o = s.lock o) →
      s₁.signaled_count = s.signaled_count → QuietOk s₁ := by
    intro pc c hc hun hfound s₁ hpc hcalls hstate hexp hlock hcount
    have hset : QuietOk (s.setPc t pc) := h.setPc_late hun hfound
    refine hset.touch (o := .timeout t c.id) hpc hcalls ?_ hstate (fun _ _ => by rw [hexp]; rfl)
      hlock (fun _ _ => by rw [hcount]; rfl)
    intro u id hu heq
    cases heq
    -- the call's own timer is not unstarted any more, and other calls have other timers
    rcases hu with hu | hu
    · have hlt := (hok.thread t).id c hc
      rw [setPc_calls] at hu
      omega
    · rw [setPc_pc, update_self, hun] at hu
      cases hu
  cases hmove with
  | @scan_take _ i c hpc hi hlock hpos hst =>
    -- what was found signaled is the object, not the timer
    have hne := h.timer_i_ne hpc hpos
    have hobj : c.object t i = .obj (c.objects.getD i 0) := by simp [Call.object, hne]
    refine .setPc ?_ ?_ ?_
    · refine h.touch (o := c.object t i) (by simp [satisfy]) (by simp [satisfy]) ?_
        (by simp [satisfy]) (by simp [satisfy]) (by simp [satisfy]) ?_
      · intro u id _
        rw [hobj]
        simp
      · intro o' ho'
        rw [consume_signaled_count_ne _ _ _ _ ho']
        rfl
    · intro id hid
      rw [consume_pc]
      show (s.pc t).unstarted = some id
      rw [hpc]
      exact hid
    · intro c' n hf
      cases hf
      exact hne
  | scan_late hpc _ _ hpos _ =>
    refine h.setPc (fun id hid => by rw [hpc]; exact hid) ?_
    intro c' n hf
    cases hf
    exact h.timer_i_ne hpc hpos
  | scan_install hpc _ _ _ =>
    refine .setPc ?_ ?_ ?_
    · exact h.congr rfl rfl rfl rfl rfl rfl
    · exact fun id hid => by rw [hpc]; exact hid
    · exact fun c n hf => by cases hf
  | scan_end hpc _ | check_start hpc _ =>
    exact h.setPc (fun id hid => by rw [hpc]; exact hid) (fun c n hf => by cases hf)
  | check_panic _ _ _ | final_panic _ _ _ _ =>
    exact h.congr rfl rfl rfl rfl rfl rfl
  | check_backout hpc _ =>
    refine h.setPc (fun id hid => by rw [hpc]; exact hid) ?_
    intro c' n hf
    exact h.found t c' n (by rw [hpc]; exact hf)
  | backout hpc _ _ =>
    refine .setPc ?_ ?_ ?_
    · exact h.congr rfl rfl rfl rfl rfl rfl
    · exact fun id hid => by rw [hpc]; exact hid
    · exact fun c' n hf => h.found t c' n (by rw [hpc]; exact hf)
  | commit _ _ | final_active _ _ _ _ =>
    refine .setPc_late ?_ rfl rfl
    exact h.congr rfl rfl rfl rfl rfl rfl
  | @commit_late _ c hpc _ =>
    refine h.setPc_late ?_ ?_
    all_goals
      unfold after_wait
      split <;> rfl
  | @start _ c hpc _ =>
    refine htouch (.commit c) (c := c) (by rw [hpc]; rfl) rfl rfl _ ?_ ?_ ?_ ?_ ?_ ?_
    all_goals unfold timer_start; split
    all_goals first | rfl | (intro o ho; simp [ho])
  | @stop_enter _ c hpc _ =>
    refine htouch (.stopSpin c) (c := c) (by rw [hpc]; rfl) rfl rfl _ rfl rfl
      (fun _ _ => rfl) rfl ?_ rfl
    intro o ho
    simp [ho]
  | @stop_store _ c hpc =>
    refine htouch (.final c 0 none) (c := c) (by rw [hpc]; rfl) rfl rfl _ rfl rfl ?_ rfl ?_ rfl
    all_goals
      intro o ho
      simp [ho]
  | @return_to _ c result hpc =>
    have hset : QuietOk (s.setPc t .idle) := h.setPc_late rfl rfl
    cases hcaller : c.caller with
    | wait_any => exact hset
    | mutex_lock m => exact hset.congr rfl rfl rfl rfl rfl rfl
  | _ => exact h.setPc_late rfl rfl

theorem QuietOk.step (hok : Ok s q) {a : Action} (hmove : Moves cfg s a s') : QuietOk s' := by
  cases a with
  | signal o => exact h.signal_step hmove
  | run t => exact h.run_step hok hmove
  | wait_any t objects timeout =>
    cases hmove
    exact h.begin_wait rfl
  | mutex_lock t m timeout =>
    cases hmove
    exact h.begin_wait rfl
  | mutex_unlock t k =>
    cases hmove
    refine .setPc_late (.enter ?_ k _ _) rfl rfl
    exact h.congr rfl rfl rfl rfl rfl rfl
  | semaphore_release t k =>
    cases hmove
    exact .setPc_late (h.enter k _ _) rfl rfl
  | timer_start k =>
    cases hmove
    refine h.touch (o := .obj k) ?_ ?_ (fun _ _ _ => by simp) ?_ ?_ ?_ ?_
    all_goals unfold Wait.timer_start; split
    all_goals first | rfl | (intro o ho; simp [ho])
  | expire o =>
    cases hmove with
    | expire hpending =>
      refine h.touch (o := o) rfl rfl ?_ ?_ ?_ (fun _ _ => rfl) (fun _ _ => rfl)
      -- only a pending timer expires, and only an expired one is signaled
      · intro t id hu ho
        rw [ho, (h.quiet t id hu).timer_state] at hpending
        cases hpending
      all_goals
        intro o' ho'
        simp [ho']
  | expiry o =>
    cases hmove with
    | expiry hexp _ =>
      refine h.touch (o := o) rfl rfl ?_ (fun _ _ => rfl) ?_ ?_ ?_
      · intro t id hu ho
        rw [ho, (h.quiet t id hu).expiring] at hexp
        cases hexp
      all_goals
        intro o' ho'
        simp [Wait.enter, ho']

end

theorem QuietOk.init (h : Init cfg s) : QuietOk s := by
  constructor
  · intro t id _
    refine ⟨h.timer_state _, h.expiring _, h.lock _, ?_⟩
    rw [h.signaled_count]
    rfl
  · intro t c n hf
    rw [h.pc] at hf
    cases hf

/-! ### Every run -/

theorem QuietOk.backout_zero (h : QuietOk s) (hok : Ok s q)
    (hpc : s.pc t = .backout c n i) (hlen : c.objects.length = 1) : n = 0 := by
  have hstat := (hok.thread t).status
  rw [hpc] at hstat
  have hn : n < c.count := hstat.2.1
  have hne : c.timer_i ≠ some n := h.found t c n (by rw [hpc]; rfl)
  -- with a timeout there are two indices, and the second is the timer's
  unfold Call.timer_i at hne
  unfold Call.count at hn
  split at hne
  · next htimed =>
    rw [if_pos htimed] at hn
    have : n ≠ c.objects.length := fun heq => hne (by rw [heq])
    omega
  · next htimed =>
    rw [if_neg htimed] at hn
    omega

theorem Ok.poll_inactive (hok : Ok s q) (hpc : s.pc t = .check c none)
    (hlen : c.objects.length = 1) (hzero : c.timeout = 0) (hst : s.status t = .satisfied) :
    ∀ i < c.count, s.wb_status (c.waitblock t i) ≠ .active := by
  intro i hi
  have hcount : c.count = 1 := by
    have htimed : c.timed = false := by
      unfold Call.timed
      rw [hzero]
      rfl
    unfold Call.count
    rw [hlen, htimed]
    rfl
  have hsig := (hok.thread t).signals
  rw [hpc] at hsig
  obtain ⟨j, hj, -, hone⟩ := hsig.2 hst
  -- there is one index, and its waitblock is the one that was signaled
  have hij : i = j := by omega
  rw [(hone i hi).mpr hij]
  exact nofun

theorem QuietOk.clean (h : QuietOk s) (hok : Ok s q)
    (hcalls : ∀ t c, (s.pc t).call = some c → c.objects.length = 1) (a : Action) : Clean s a := by
  cases a with
  | run t =>
    show (s.pc t).Clean s t
    cases hpc : s.pc t with
    | backout c n i =>
      intro hi
      have hn := h.backout_zero hok hpc (hcalls t c (by rw [hpc]; rfl))
      omega
    | check c satisfier =>
      cases satisfier with
      | none => exact hok.poll_inactive hpc (hcalls t c (by rw [hpc]; rfl))
      | some n => trivial
    | _ => trivial
  | _ => trivial

theorem WaitsOne.call (hs : ReachableBy (system cfg) WaitsOne s) (t : Nat) (c : Call)
    (hc : (s.pc t).call = some c) : c.objects.length = 1 ∧ c.timeout ≠ 0 :=
  call_of_reachable (P := fun objects timeout => objects.length = 1 ∧ timeout ≠ 0)
    (fun _ _ ha => ha) hs t c hc

/-- **Every run of waits on one object** keeps the invariant of waiting,
whatever the timeouts. -/
theorem ok_of_single (hone : ∀ s a, ok s a → Starts (fun objects _ => objects.length = 1) a)
    (hs : ReachableBy (system cfg) ok s) : (∃ q, Ok s q) ∧ QuietOk s := by
  induction hs with
  | init h => exact ⟨⟨_, Ok.init h⟩, .init h⟩
  -- the two invariants need each other: quiet timers make the step clean
  | @step s s' a hreach ha hstep ih =>
    obtain ⟨⟨q, hok⟩, hquiet⟩ := ih
    have hmove := (moves_of_step hstep).2
    have hclean := hquiet.clean hok (call_of_reachable hone hreach) a
    exact ⟨hok.step hclean hmove, hquiet.step hok hmove⟩

theorem ok_of_waitsOne (hs : ReachableBy (system cfg) WaitsOne s) : (∃ q, Ok s q) ∧ QuietOk s := by
  refine ok_of_single ?_ hs
  intro s a ha
  cases a with
  | wait_any t objects timeout => exact ha.1
  | mutex_lock t m timeout => exact ha.1
  | _ => trivial

end Wait
