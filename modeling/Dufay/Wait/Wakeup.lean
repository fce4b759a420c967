import Dufay.Wait.WaitOne

/-! # No lost wakeup

A signal is consumed by the waiter that finds it (the scan of
`wait_any`) or by the signaller that hands it over
(`try_satisfy_dispatch_object`). Behind each critical section of an
object, a signaled object has no waiter left that could take the signal;
`Offered` says what holds inside.
-/

open Lts Tailq Function

namespace Wait

open State
open Ule (WaitStatus)

variable {cfg : Config} {s s' : State} {q : Oid → List Waitblock} {t : Nat} {o : Oid}

theorem toInt32_range : -2 ^ 31 ≤ toInt32 x ∧ toInt32 x < 2 ^ 31 := by
  unfold toInt32
  have hlo := Int.le_bmod (x := x) (m := 2 ^ 32) (by norm_num)
  have hhi := Int.bmod_lt (x := x) (m := 2 ^ 32) (by norm_num)
  constructor
  · omega
  · omega

theorem toInt32_eq (hlo : -2 ^ 31 ≤ x) (hhi : x < 2 ^ 31) : toInt32 x = x := by
  unfold toInt32
  apply Int.bmod_eq_of_le
  · omega
  · omega

/-! ### No lost wakeup -/

/-- Every wait in the list of the object has been satisfied. -/
def AllSatisfied (s : State) (o : Oid) : Prop :=
  ∀ wb, Linked s.links o wb → s.status wb.thread = .satisfied

/-- What holds of an object, by who is in its critical section. A
synchronization object that is offered to its waiters has one signal,
or none of them can take it; a notification object is offered until the
list is empty. -/
def Offered (cfg : Config) (s : State) (o : Oid) : Option Holder → Prop
  | some (.signal _ .loop) =>
    cfg.type o = .synchronization → s.signaled_count o ≤ 1 ∨ AllSatisfied s o
  | some (.signal _ (.case1 wb)) | some (.signal _ (.case2 wb)) | some (.signal _ (.case3 wb)) =>
    0 < s.signaled_count o ∧ (cfg.type o = .synchronization →
        s.signaled_count o ≤ 1 ∨ AllSatisfied s o ∧ s.status wb.thread = .satisfied)
  | _ => 0 < s.signaled_count o → AllSatisfied s o

structure WakeupOk (cfg : Config) (s : State) : Prop where
  range : ∀ o, -2 ^ 31 ≤ s.signaled_count o ∧ s.signaled_count o < 2 ^ 31
  offered : ∀ o, Offered cfg s o (s.lock o)

theorem Offered.mono (h : Offered cfg s o hold) (hcount : s'.signaled_count o = s.signaled_count o)
    (hlinked : ∀ wb, Linked s'.links o wb → Linked s.links o wb)
    (hstatus : ∀ wb, Linked s.links o wb ∨ flight hold = some wb →
      s.status wb.thread = .satisfied → s'.status wb.thread = .satisfied) :
    Offered cfg s' o hold := by
  have hall : AllSatisfied s o → AllSatisfied s' o := by
    intro hall wb hl
    exact hstatus wb (.inl (hlinked wb hl)) (hall wb (hlinked wb hl))
  have hcase : ∀ wb, flight hold = some wb →
      (0 < s.signaled_count o ∧ (cfg.type o = .synchronization →
        s.signaled_count o ≤ 1 ∨ AllSatisfied s o ∧ s.status wb.thread = .satisfied)) →
      0 < s'.signaled_count o ∧ (cfg.type o = .synchronization →
        s'.signaled_count o ≤ 1 ∨ AllSatisfied s' o ∧ s'.status wb.thread = .satisfied) := by
    intro wb hf hc
    rw [hcount]
    refine ⟨hc.1, fun hsync => ?_⟩
    rcases hc.2 hsync with hone | ⟨ha, hst⟩
    · exact .inl hone
    · exact .inr ⟨hall ha, hstatus wb (.inr hf) hst⟩
  -- outside the loop the invariant is the implication, in flight it is `hcase`
  match hold, h with
  | none, h => exact fun hpos => hall (h (by rwa [hcount] at hpos))
  | some .timer_stop, h => exact fun hpos => hall (h (by rwa [hcount] at hpos))
  | some (.signal _ (.done _)), h => exact fun hpos => hall (h (by rwa [hcount] at hpos))
  | some (.signal _ .loop), h =>
    intro hsync
    rw [hcount]
    exact (h hsync).imp id hall
  | some (.signal _ (.case1 wb)), h => exact hcase wb rfl h
  | some (.signal _ (.case2 wb)), h => exact hcase wb rfl h
  | some (.signal _ (.case3 wb)), h => exact hcase wb rfl h

section

variable (h : WakeupOk cfg s)

include h

theorem WakeupOk.touch (o : Oid)
    (hrange : -2 ^ 31 ≤ s'.signaled_count o ∧ s'.signaled_count o < 2 ^ 31)
    (hoff : Offered cfg s' o (s'.lock o)) (hlock : ∀ o', o' ≠ o → s'.lock o' = s.lock o')
    (hcount : ∀ o', o' ≠ o → s'.signaled_count o' = s.signaled_count o')
    (hlinked : ∀ o' wb, o' ≠ o → Linked s'.links o' wb → Linked s.links o' wb)
    (hstatus : ∀ o' wb, o' ≠ o → Linked s.links o' wb ∨ flight (s.lock o') = some wb →
      s.status wb.thread = .satisfied → s'.status wb.thread = .satisfied) : WakeupOk cfg s' := by
  constructor
  · intro o'
    by_cases ho : o' = o
    · rw [ho]
      exact hrange
    · rw [hcount o' ho]
      exact h.range o'
  · intro o'
    by_cases ho : o' = o
    · rw [ho]
      exact hoff
    · rw [hlock o' ho]
      exact (h.offered o').mono (hcount o' ho) (fun wb => hlinked o' wb ho)
        (fun wb => hstatus o' wb ho)

theorem WakeupOk.same (hlock : s'.lock = s.lock) (hcount : s'.signaled_count = s.signaled_count)
    (hlinked : ∀ o wb, Linked s'.links o wb → Linked s.links o wb)
    (hstatus : ∀ o wb, Linked s.links o wb ∨ flight (s.lock o) = some wb →
      s.status wb.thread = .satisfied → s'.status wb.thread = .satisfied) : WakeupOk cfg s' := by
  constructor
  · rw [hcount]
    exact h.range
  · intro o
    rw [hlock]
    exact (h.offered o).mono (by rw [hcount]) (hlinked o) (hstatus o)

theorem WakeupOk.congr (hlock : s'.lock = s.lock)
    (hcount : s'.signaled_count = s.signaled_count) (hlinks : s'.links = s.links)
    (hstatus : s'.status = s.status) : WakeupOk cfg s' := by
  refine h.same hlock hcount ?_ ?_
  · intro o wb hl
    rwa [hlinks] at hl
  · intro o wb _ hst
    rwa [hstatus]

/-! ### The critical sections of signallers -/

theorem WakeupOk.enter
    (hrange : -2 ^ 31 ≤ count ∧ count < 2 ^ 31) (hone : count ≤ 1 ∨ AllSatisfied s o) :
    WakeupOk cfg (enter s o who count) := by
  refine h.touch o ?_ ?_ ?_ ?_ (fun _ _ _ hl => hl) (fun _ _ _ _ hst => hst)
  · simpa [Wait.enter] using hrange
  · simp only [Wait.enter, setLock_lock, update_self]
    intro _
    rcases hone with hle | hall
    · left
      simpa using hle
    · exact .inr hall
  all_goals
    intro o' ho
    simp [Wait.enter, ho]

theorem WakeupOk.pass (hoff : Offered cfg s o hold) : WakeupOk cfg (s.setLock o hold) := by
  refine h.touch o (h.range o) ?_ ?_ (fun _ _ => rfl) (fun _ _ _ hl => hl) (fun _ _ _ _ hst => hst)
  · rw [setLock_lock, update_self]
    exact hoff.mono rfl (fun _ hl => hl) (fun _ _ hst => hst)
  · intro o' ho
    rw [setLock_lock, update_of_ne ho]

theorem WakeupOk.satisfy
    (hf : flight (s.lock o) = some wb) (hst : s.status wb.thread ≠ .satisfied) :
    WakeupOk cfg (satisfy_waitblock cfg s o who wb) := by
  -- a waitblock in flight is in one of the three cases of the signaller
  have hoff : 0 < s.signaled_count o ∧ (cfg.type o = .synchronization →
      s.signaled_count o ≤ 1 ∨ AllSatisfied s o ∧ s.status wb.thread = .satisfied) := by
    have hoff := h.offered o
    revert hf hoff
    cases s.lock o with
    | none => exact fun hf => by cases hf
    | some hold =>
      cases hold with
      | timer_stop => exact fun hf => by cases hf
      | signal who pc =>
        cases pc with
        | loop | done _ => exact fun hf => by cases hf
        | case1 _ | case2 _ | case3 _ =>
          intro hf hoff
          cases hf
          exact hoff
  -- the one signal goes to this wait, since a satisfied one would not have been reached
  have hcount : cfg.type o = .synchronization →
      (satisfy_waitblock cfg s o who wb).signaled_count o = 0 := by
    intro hsync
    have hone : s.signaled_count o = 1 := by
      rcases hoff.2 hsync with hle | ⟨-, hsat⟩
      · have := hoff.1
        omega
      · exact absurd hsat hst
    simp only [satisfy_waitblock, setLock_signaled_count, Wait.satisfy,
      consume_signaled_count_self _ _ _ _ hsync, hone]
    decide
  have hnotify : cfg.type o = .notification →
      (satisfy_waitblock cfg s o who wb).signaled_count o = s.signaled_count o := by
    intro hnot
    simp [satisfy_waitblock, Wait.satisfy, dispatch_object_consume, hnot]
  refine h.touch o ?_ ?_ ?_ ?_ ?_ ?_
  · cases htype : cfg.type o with
    | notification =>
      rw [hnotify htype]
      exact h.range o
    | synchronization =>
      rw [hcount htype]
      norm_num
  · rw [satisfy_waitblock_lock, update_self, next_waitblock]
    cases htype : cfg.type o with
    | notification =>
      intro hsync
      rw [htype] at hsync
      cases hsync
    | synchronization =>
      intro hpos
      rw [hcount htype] at hpos
      omega
  · intro o' ho
    rw [satisfy_waitblock_lock, update_of_ne ho]
  · intro o' ho
    simp [satisfy_waitblock, Wait.satisfy, consume_signaled_count_ne _ _ _ _ ho]
  · intro o' x _ hl
    simpa [satisfy_waitblock, Wait.satisfy] using hl
  · intro o' x _ _ hx
    by_cases hxt : x.thread = wb.thread
    · simp [satisfy_waitblock, Wait.satisfy, hxt]
    · simpa [satisfy_waitblock, Wait.satisfy, hxt] using hx

theorem WakeupOk.signal_step (hok : Ok s q)
    (hmove : Moves cfg s (.signal o) s') : WakeupOk cfg s' := by
  have hoff := h.offered o
  cases hmove with
  | @pop _ who wb hlock hfirst hpos =>
    rw [hlock] at hoff
    have hmem : wb ∈ q o := by
      rw [hok.represents.first_eq] at hfirst
      exact List.mem_of_head? hfirst
    have hpop : WakeupOk cfg { s with links := s.links.remove o wb } :=
      h.same rfl rfl (fun _ _ hl => hok.represents.linked_remove hmem hl) (fun _ _ _ hst => hst)
    refine hpop.pass ⟨hpos, fun hsync => ?_⟩
    rcases hoff hsync with hone | hall
    · exact .inl hone
    · exact .inr ⟨fun x hx => hall x (hok.represents.linked_remove hmem hx),
        hall wb (.first hfirst)⟩
  | loop_end hlock hend =>
    refine h.pass ?_
    intro hpos
    -- the loop ends with an empty list or with no signal left
    rcases hend with hfirst | hcount
    · exact fun wb hl => absurd hl (not_linked_of_first_none hfirst wb)
    · omega
  | case1 hlock hst =>
    exact h.satisfy (by rw [hlock]; rfl) (by rw [hst]; simp)
  | not_case1 hlock hst | not_case2 hlock hst =>
    rw [hlock] at hoff
    exact h.pass hoff
  | @case2 _ who wb hlock hst =>
    have hsat : WakeupOk cfg (satisfy_waitblock cfg s o who wb) :=
      h.satisfy (by rw [hlock]; rfl) (by rw [hst]; simp)
    unfold sched_wake
    split
    · exact hsat.congr rfl rfl rfl rfl
    · exact hsat
  | @case3 _ who wb hlock hst =>
    rw [hlock] at hoff
    have hwb : WakeupOk cfg { s with wb_status := update s.wb_status wb .inactive } :=
      h.congr rfl rfl rfl rfl
    refine hwb.pass ?_
    intro hsync
    exact (hoff.2 hsync).imp id And.left
  | not_case3 hlock hst => exact absurd (hok.case3 _ _ _ hlock) hst
  | @release _ who ret hlock =>
    rw [hlock] at hoff
    have hnone : WakeupOk cfg (s.setLock o none) := h.pass hoff
    cases who with
    | mutex_unlock t | semaphore_release t | timer_handle_expiry =>
      exact hnone.congr rfl rfl rfl rfl

/-! ### The steps of waiters -/

theorem WakeupOk.begin_wait (hok : Ok s q) (hpc : s.pc t = .idle)
    (hid : c.id = s.calls t) : WakeupOk cfg (begin_wait s t c) := by
  have hlive : ∀ o wb, wb.thread = t → ¬ (s.pc t).Live t o wb := by
    intro o wb _ hl
    rw [hpc] at hl
    exact hl
  -- so the waits of other threads are the only ones in a list or in flight
  have hother : ∀ o wb, Linked s.links o wb ∨ flight (s.lock o) = some wb → wb.thread ≠ t := by
    intro o wb hwb heq
    rcases hwb with hl | hf
    · rw [hok.represents.linked_iff] at hl
      exact hlive o wb heq (((hok.thread t).linked o wb heq).mp hl).1
    · exact hlive o wb heq ((hok.thread t).flight o wb heq hf).1
  have hstatus : ∀ o wb, Linked s.links o wb ∨ flight (s.lock o) = some wb →
      s.status wb.thread = .satisfied → (Wait.begin_wait s t c).status wb.thread = .satisfied := by
    intro o wb hwb hst
    rw [(begin_wait_fields s t c).2.1, update_of_ne (hother o wb hwb)]
    exact hst
  cases htimed : c.timed with
  | false =>
    refine h.same ?_ ?_ ?_ hstatus
    · simp [Wait.begin_wait, htimed]
    · simp [Wait.begin_wait, htimed]
    · intro o wb hl
      simpa [Wait.begin_wait, htimed] using hl
  | true =>
    have hnil : q (.timeout t c.id) = [] := hok.queue_timeout_eq_nil (le_of_eq hid.symm)
    refine h.touch (.timeout t c.id) ?_ ?_ ?_ ?_ ?_ (fun o wb _ => hstatus o wb)
    · simp [Wait.begin_wait, htimed]
    · have hlock : (Wait.begin_wait s t c).lock (.timeout t c.id) = none := by
        simp [Wait.begin_wait, htimed]
      rw [hlock]
      intro hpos
      simp [Wait.begin_wait, htimed] at hpos
    · intro o ho
      simp [Wait.begin_wait, htimed, ho]
    · intro o ho
      simp [Wait.begin_wait, htimed, ho]
    · intro o wb _ hl
      simp only [Wait.begin_wait, htimed, if_true, setPc_links] at hl
      exact hok.represents.linked_init hnil hl

section
variable (hok : Ok s q) (hquiet : QuietOk s)
  (hcalls : ∀ t c, (s.pc t).call = some c → c.objects.length = 1)
include hok hquiet hcalls

theorem WakeupOk.run_step (hmove : Moves cfg s (.run t) s') : WakeupOk cfg s' := by
  cases hmove with
  | @scan_take _ i c hpc hi hlock hpos hst =>
    -- a signal was there, so nobody in the list could take it
    have hall : AllSatisfied s (c.object t i) := by
      have hoff := h.offered (c.object t i)
      rw [hlock] at hoff
      exact hoff hpos
    have hstatus : ∀ u, s.status u = .satisfied →
        (Wait.satisfy s t (c.object t i) none).status u = .satisfied := by
      intro u hu
      by_cases hut : u = t
      · simp [Wait.satisfy, hut]
      · simpa [Wait.satisfy, hut] using hu
    refine h.touch (c.object t i) ?_ ?_ ?_ ?_ ?_ ?_
    · cases htype : cfg.type (c.object t i) with
      | notification => simpa [dispatch_object_consume, htype, Wait.satisfy] using h.range _
      | synchronization =>
        rw [setPc_signaled_count, consume_signaled_count_self _ _ _ _ htype]
        exact toInt32_range
    · rw [setPc_lock, consume_lock, show (Wait.satisfy s t (c.object t i) none).lock = s.lock from rfl,
        hlock]
      intro _ wb hl
      rw [setPc_links, consume_links] at hl
      rw [setPc_status, consume_status]
      exact hstatus _ (hall wb hl)
    · intro o' ho
      rw [setPc_lock, consume_lock]
      rfl
    · intro o' ho
      rw [setPc_signaled_count, consume_signaled_count_ne _ _ _ _ ho]
      rfl
    · intro o' wb _ hl
      rw [setPc_links, consume_links] at hl
      exact hl
    · intro o' wb _ _ hwb
      rw [setPc_status, consume_status]
      exact hstatus _ hwb
  | @scan_install _ i c hpc hi hlock hcount =>
    -- the scan installs each waitblock once, and only behind an unsignaled object
    have hfresh : ∀ o, c.waitblock t i ∉ q o := by
      intro o hmem
      have hl := (((hok.thread t).linked o _ (waitblock_thread c t i)).mp hmem).1
      rw [hpc] at hl
      obtain ⟨j, -, hj, hwb, -⟩ := hl
      have := waitblock_inj hwb
      omega
    refine h.touch (c.object t i) (h.range _) ?_ (fun _ _ => rfl) (fun _ _ => rfl) ?_
      (fun _ _ _ _ hst => hst)
    · rw [setPc_lock]
      show Offered cfg _ _ (s.lock (c.object t i))
      rw [hlock]
      intro hpos
      exact absurd hpos (not_lt.mpr hcount)
    · intro o' wb ho hl
      rcases hok.represents.linked_insertTail hfresh hl with hl | ⟨heq, -⟩
      · exact hl
      · exact absurd heq ho
  | backout hpc hi _ =>
    -- the back-out of a wait on one object has nothing to remove
    have hzero := hquiet.backout_zero hok hpc (hcalls t _ (by rw [hpc]; rfl))
    omega
  | start _ _ =>
    rw [timer_start_eq]
    exact h.congr rfl rfl rfl rfl
  | commit hpc hst =>
    refine h.same rfl rfl (fun _ _ hl => hl) ?_
    intro o wb _ hwb
    -- a wait that commits was in progress, so no satisfied wait changes
    have hne : wb.thread ≠ t := by
      intro heq
      rw [heq, hst] at hwb
      cases hwb
    simpa [hne] using hwb
  | @stop_enter _ c hpc hlock =>
    have hoff := h.offered (.timeout t c.id)
    rw [hlock] at hoff
    have hset : WakeupOk cfg (s.setLock (.timeout t c.id) (some .timer_stop)) := h.pass hoff
    exact hset.congr rfl rfl rfl rfl
  | @stop_store _ c hpc =>
    have hoff := h.offered (.timeout t c.id)
    rw [hok.stop t c (.inr hpc)] at hoff
    have hset : WakeupOk cfg (s.setLock (.timeout t c.id) none) := h.pass hoff
    exact hset.congr rfl rfl rfl rfl
  | @final_active _ i c _ hpc hi hlock hwb =>
    have hmem : c.waitblock t i ∈ q (c.object t i) := by
      apply (hok.thread t).mem_of_live (waitblock_thread c t i) _ hwb hlock
      rw [hpc]
      exact ⟨i, le_refl i, hi, rfl, rfl⟩
    exact h.same rfl rfl (fun _ _ hl => hok.represents.linked_remove hmem hl) (fun _ _ _ hst => hst)
  | @return_to _ c _ _ =>
    cases hcaller : c.caller with
    | wait_any | mutex_lock m => exact h.congr rfl rfl rfl rfl
  | _ => exact h.congr rfl rfl rfl rfl

theorem WakeupOk.step {a : Action} (hmove : Moves cfg s a s') : WakeupOk cfg s' := by
  cases a with
  | signal o => exact h.signal_step hok hmove
  | run t => exact h.run_step hok hquiet hcalls hmove
  | wait_any t objects timeout =>
    cases hmove with
    | wait_any hpc _ _ => exact h.begin_wait hok hpc rfl
  | mutex_lock t m timeout =>
    cases hmove with
    | mutex_lock hpc _ => exact h.begin_wait hok hpc rfl
  | mutex_unlock t m =>
    cases hmove
    have hheld : WakeupOk cfg
        { s with held := update s.held t (update (s.held t) m false) } :=
      h.congr rfl rfl rfl rfl
    have henter : WakeupOk cfg (Wait.enter
        { s with held := update s.held t (update (s.held t) m false) }
        (.obj m) (.mutex_unlock t) 1) := hheld.enter (by norm_num) (.inl le_rfl)
    exact henter.congr rfl rfl rfl rfl
  | semaphore_release t k =>
    cases hmove with
    | semaphore_release _ _ hlock =>
      have hoff := h.offered (.obj k)
      rw [hlock] at hoff
      have hone : toInt32 (s.signaled_count (.obj k) + 1) ≤ 1 ∨ AllSatisfied s (.obj k) := by
        -- a count that was positive already had no waiter to go to; else the new one is the only signal
        by_cases hpos : 0 < s.signaled_count (.obj k)
        · exact .inr (hoff hpos)
        · left
          have hrange := h.range (.obj k)
          rw [toInt32_eq (by omega) (by omega)]
          omega
      have henter : WakeupOk cfg (Wait.enter s (.obj k) (.semaphore_release t) _) :=
        h.enter (toInt32_range) hone
      exact henter.congr rfl rfl rfl rfl
  | timer_start k =>
    cases hmove
    rw [timer_start_eq]
    exact h.congr rfl rfl rfl rfl
  | expire o =>
    cases hmove
    exact h.congr rfl rfl rfl rfl
  | expiry o =>
    cases hmove
    have hexp : WakeupOk cfg { s with expiring := update s.expiring o false } :=
      h.congr rfl rfl rfl rfl
    exact hexp.enter (by norm_num) (.inl le_rfl)

end

end

theorem WakeupOk.init (h : Init cfg s) : WakeupOk cfg s := by
  constructor
  · intro o
    rw [h.signaled_count]
    unfold Config.initial_count
    cases o with
    | obj k =>
      cases hk : cfg.kind k with
      | semaphore => simpa [hk] using cfg.initial_range k
      | mutex | timer => simp [hk]
    | timeout t id => norm_num
  · intro o
    rw [h.lock]
    exact fun _ wb hl => absurd hl (not_linked_of_first_none (h.fwd _) wb)

theorem wakeupOk_of_waitsOne (hs : ReachableBy (system cfg) WaitsOne s) : WakeupOk cfg s := by
  induction hs with
  | init h => exact .init h
  | step a hreach ha hstep ih =>
    obtain ⟨⟨q, hok⟩, hquiet⟩ := ok_of_waitsOne hreach
    exact ih.step hok hquiet (fun t c hc => (WaitsOne.call hreach t c hc).1) (moves_of_step hstep).2

end Wait
