import Mathlib.Data.List.GetD
import Dufay.Wait.Mutex

/-! # Lockers that time out

`mutex_lock` does not look at what `wait_one` returns: it makes the
thread the owner after a timeout as well, whoever holds the mutex. It
returns nothing, so the caller cannot tell either. Apart from that the
owner is right.
-/

open Lts Tailq Function

namespace Wait

open State
open Ule (WaitStatus)

variable {cfg : Config} {s s' : State} {q : Oid → List Waitblock} {t m : Nat} {a : Action}

/-! ### The owner -/

section
variable (m : Nat) (s : State)

/-- What the step writes into the owner of the mutex, if it does. -/
def owner_write : Action → Option (Option Nat)
  | .run t =>
    match s.pc t with
    | .returned c _ => if c.caller = .mutex_lock m then some (some t) else none
    | _ => none
  | .signal o =>
    match s.lock o with
    | some (.signal (.mutex_unlock _) (.done ret)) => if o = .obj m then some ret else none
    | _ => none
  | _ => none

/-- The latest wait of the thread is over, and the mutex has not signaled
it. -/
def EndedWithout (t : Nat) : Prop :=
  ((s.pc t).call = none ∨ ∃ c result, s.pc t = .returned c result) ∧
    ∀ via, (.obj m, via) ∉ s.delivered t

/-- The thread has taken the mutex and not unlocked it since. -/
def Holds (t : Nat) : Prop := s.held t m = true ∧ ∃ via, (.obj m, via) ∈ s.delivered t

/-- The step makes a thread the owner that has not got the mutex, while
another one holds it. -/
def Steals (a : Action) : Prop :=
  ∃ t u, owner_write m s a = some (some t) ∧ EndedWithout m s t ∧ u ≠ t ∧ Holds m s u

end

/-! ### The runs -/

/-- The steps of threads that call `mutex_lock` and `mutex_unlock` for the
mutex, with any timeouts. -/
def LocksTimed (m : Nat) : Action → Prop
  | .mutex_lock _ k _ => k = m
  | .mutex_unlock _ k => k = m
  | .expire _ | .expiry _ | .signal _ | .run _ => True
  | .wait_any _ _ _ | .semaphore_release _ _ | .timer_start _ => False

instance LocksTimed.decidable (m : Nat) (a : Action) : Decidable (LocksTimed m a) :=
  match a with
  | .wait_any .. | .mutex_lock .. | .mutex_unlock .. | .semaphore_release ..
  | .timer_start .. | .expire .. | .expiry .. | .signal .. | .run .. => by
    unfold LocksTimed
    infer_instance

/-- The timeout does not come first: the wait that the expiry of a timeout
timer finds has been satisfied. -/
def NotFirst (s : State) : Action → Prop
  | .signal (.timeout t id) =>
    ∀ wb ∈ flight (s.lock (.timeout t id)), s.status wb.thread = .satisfied
  | _ => True

instance NotFirst.decidable (s : State) (a : Action) : Decidable (NotFirst s a) := by
  unfold NotFirst
  split <;> infer_instance

/-- The steps of such threads, if no timeout comes first. -/
def InTime (m : Nat) (s : State) (a : Action) : Prop := LocksTimed m a ∧ NotFirst s a

instance InTime.decidable (m : Nat) (s : State) (a : Action) : Decidable (InTime m s a) :=
  inferInstanceAs (Decidable (_ ∧ _))

/-! ### Writes of the owner -/

theorem begin_wait_owner : (begin_wait s t c).owner = s.owner := by
  unfold begin_wait
  split
  · rfl
  · rfl

theorem sched_wake_frame : (sched_wake s t).owner = s.owner ∧
    (sched_wake s t).delivered = s.delivered ∧ (sched_wake s t).lock = s.lock := by
  unfold sched_wake
  split <;> exact ⟨rfl, rfl, rfl⟩

theorem satisfy_waitblock_owner : (satisfy_waitblock cfg s o who wb).owner = s.owner := by
  unfold satisfy_waitblock
  rw [setLock_owner, consume_owner]
  rfl

theorem release_owner {ret : Option Nat} (hlock : s.lock o = some (.signal who (.done ret))) :
    (release s o who ret).owner m = (owner_write m s (.signal o)).getD (s.owner m) := by
  rw [owner_write, hlock]
  cases who with
  | mutex_unlock t =>
    dsimp only
    cases o with
    | obj k =>
      show update s.owner k ret m = _
      by_cases hk : k = m
      · rw [hk, if_pos rfl, update_self]
        rfl
      · rw [if_neg fun h => hk (Oid.obj.inj h), update_of_ne (Ne.symm hk)]
        rfl
    | timeout u id =>
      rw [if_neg nofun]
      rfl
  | semaphore_release t => rfl
  | timer_handle_expiry => rfl

theorem return_to_owner (hpc : s.pc t = .returned c result) :
    (return_to s t c.caller).owner m = (owner_write m s (.run t)).getD (s.owner m) := by
  rw [owner_write, hpc]
  dsimp only
  cases c.caller with
  | wait_any =>
    rw [if_neg nofun]
    rfl
  | mutex_lock k =>
    show update s.owner k (some t) m = _
    by_cases hk : k = m
    · rw [hk, if_pos rfl, update_self]
      rfl
    · rw [if_neg fun h => hk (Caller.mutex_lock.inj h), update_of_ne (Ne.symm hk)]
      rfl

theorem owner_write_inside {pc : SignalPc}
    (hlock : s.lock o = some (.signal who pc)) (hpc : ∀ ret, pc ≠ .done ret) :
    owner_write m s (.signal o) = none := by
  rw [owner_write, hlock]
  cases who with
  | mutex_unlock t =>
    cases pc with
    | done ret => exact absurd rfl (hpc ret)
    | _ => rfl
  | _ => rfl

theorem owner_of_step (hstep : step cfg s a = some s') :
    s'.owner m = (owner_write m s a).getD (s.owner m) := by
  cases (moves_of_step hstep).2 with
  | wait_any _ _ _ | mutex_lock _ _ => exact congrFun (begin_wait_owner ..) m
  | mutex_unlock _ _ _ | semaphore_release _ _ _ | expire _ | expiry _ _ => rfl
  | timer_start _ =>
    rw [timer_start_eq]
    rfl
  | pop hlock _ _ | loop_end hlock _ | not_case1 hlock _ | not_case2 hlock _ | case3 hlock _
  | not_case3 hlock _ =>
    rw [owner_write_inside hlock nofun]
    rfl
  | case1 hlock _ =>
    rw [owner_write_inside hlock nofun, satisfy_waitblock_owner]
    rfl
  | case2 hlock _ =>
    rw [owner_write_inside hlock nofun, sched_wake_frame.1, satisfy_waitblock_owner]
    rfl
  | release hlock => exact release_owner hlock
  | scan_take hpc _ _ _ _ =>
    rw [owner_write, hpc, setPc_owner, consume_owner]
    rfl
  | start hpc _ =>
    rw [owner_write, hpc, timer_start_eq]
    rfl
  | return_to hpc => exact return_to_owner hpc
  | scan_late hpc _ _ _ _ | scan_install hpc _ _ _ | scan_end hpc _ | check_panic hpc _ _
  | check_backout hpc _ | check_return hpc _ _ | check_start hpc _ | check_commit hpc _ _
  | backout hpc _ _ | backout_end hpc _ | commit hpc _ | commit_late hpc _ | stop_stopped hpc _
  | stop_enter hpc _ | stop_spin hpc | stop_store hpc | final_active hpc _ _ _
  | final_inactive hpc _ _ _ | final_signaled hpc _ _ _ | final_panic hpc _ _ _
  | final_end hpc _ =>
    rw [owner_write, hpc]
    rfl

/-! ### Signals -/

/-- The step signals the wait of thread `t` with object `o`. -/
inductive Signals (s : State) : Action → Nat → Oid → Prop where
  | scan {t i : Nat} {c : Call} : s.pc t = .scan c i → i < c.count →
      0 < s.signaled_count (c.object t i) → Signals s (.run t) t (c.object t i)
  | waitblock {o : Oid} {wb : Waitblock} : flight (s.lock o) = some wb →
      s.status wb.thread ≠ .satisfied → Signals s (.signal o) wb.thread o

theorem satisfy_waitblock_delivered : (satisfy_waitblock cfg s o who wb).delivered =
      update s.delivered wb.thread (s.delivered wb.thread ++ [(o, some wb)]) := by
  unfold satisfy_waitblock
  rw [setLock_delivered, consume_delivered]
  rfl

/-- The step leaves the signals of the thread, begins a wait, or adds a signal. -/
def Delivers (s : State) (a : Action) (s' : State) (u : Nat) : Prop :=
  s'.delivered u = s.delivered u ∨ (s'.delivered u = [] ∧ ∃ c, s'.pc u = .scan c 0) ∨
    ∃ o via, s'.delivered u = s.delivered u ++ [(o, via)] ∧ Signals s a u o

theorem delivered_of_move (hmove : Moves cfg s a s') : Delivers s a s' u := by
  -- one thread gets a signal, and the others keep theirs
  have hadd : ∀ (t : Nat) (o : Oid) (via : Option Waitblock),
      s'.delivered = update s.delivered t (s.delivered t ++ [(o, via)]) →
      Signals s a t o → Delivers s a s' u := by
    intro t o via hdl hsignal
    rw [Delivers, hdl]
    by_cases hu : u = t
    · subst hu
      rw [update_self]
      exact .inr (.inr ⟨o, via, rfl, hsignal⟩)
    · rw [update_of_ne hu]
      exact .inl rfl
  have hbegin : ∀ {t : Nat} {c : Call},
      s'.pc = update s.pc t (.scan c 0) → s'.delivered = update s.delivered t [] →
      Delivers s a s' u := by
    intro t c hpc hdl
    rw [Delivers, hpc, hdl]
    by_cases hu : u = t
    · subst hu
      rw [update_self, update_self]
      exact .inr (.inl ⟨rfl, c, rfl⟩)
    · rw [update_of_ne hu]
      exact .inl rfl
  cases hmove with
  | wait_any _ _ _ | mutex_lock _ _ =>
    obtain ⟨hpc, -, -, hdl, -⟩ := begin_wait_fields s _ _
    exact hbegin hpc hdl
  | scan_take hpc hi _ hpos _ =>
    refine hadd _ _ none ?_ (.scan hpc hi hpos)
    rw [setPc_delivered, consume_delivered]
    rfl
  | case1 hlock hst =>
    refine hadd _ _ _ (satisfy_waitblock_delivered ..) (.waitblock (by rw [hlock]; rfl) ?_)
    rw [hst]
    exact nofun
  | @case2 _ _ wb hlock hst =>
    refine hadd _ _ (some wb) ?_ (.waitblock (by rw [hlock]; rfl) ?_)
    · rw [sched_wake_frame.2.1]
      exact satisfy_waitblock_delivered ..
    · rw [hst]
      exact nofun
  | timer_start _ =>
    rw [timer_start_eq]
    exact .inl rfl
  | start hpc _ =>
    rw [timer_start_eq]
    exact .inl rfl
  | @release o who ret _ => cases who <;> exact .inl rfl
  | @return_to t c result _ =>
    cases c.caller <;> exact .inl rfl
  | _ => exact .inl rfl

/-- The signals that a call has got come from its objects, and none from its
timer. -/
def FromObjects (s : State) : Prop :=
  ∀ t c, (s.pc t).call = some c → ∀ d ∈ s.delivered t, ∃ k ∈ c.objects, d.1 = .obj k

theorem object_mem {c : Call} (hi : i < c.count) (ho : c.object t i = .obj k) : k ∈ c.objects := by
  unfold Call.object at ho
  split at ho
  · exact absurd ho nofun
  · next htimer =>
    have hlen : i < c.objects.length := by
      unfold Call.count at hi
      unfold Call.timer_i at htimer
      split at hi
      · next htimed =>
        rw [if_pos htimed] at htimer
        have : c.objects.length ≠ i := fun h => htimer (congrArg some h)
        omega
      · omega
    rw [← Oid.obj.inj ho, List.getD_eq_getElem _ _ hlen]
    exact List.getElem_mem hlen

theorem delivered_of_begins (hbegins : Begins c u a)
    (hmove : Moves cfg s a s') : s'.delivered u = [] := by
  cases a with
  | wait_any t objects timeout =>
    cases hmove
    rw [hbegins.1, (begin_wait_fields s t _).2.2.2.1, update_self]
  | mutex_lock t m timeout =>
    cases hmove
    rw [hbegins.1, (begin_wait_fields s t _).2.2.2.1, update_self]
  | _ => exact hbegins.elim

theorem ThreadOk.live_index (h : ThreadOk s q t) (hlive : (s.pc t).Live t o wb) :
    ∃ c i, (s.pc t).call = some c ∧ i < c.count ∧ o = c.object t i := by
  have key : ∀ {c lo hi}, (s.pc t).call = some c → hi ≤ c.count → InWindow c t lo hi o wb →
      ∃ c i, (s.pc t).call = some c ∧ i < c.count ∧ o = c.object t i := by
    intro c lo hi hc hle ⟨i, _, hi, _, ho⟩
    exact ⟨c, i, hc, by omega, ho⟩
  have hstat := h.status
  revert key hlive hstat
  cases s.pc t with
  | scan c i => exact fun hlive key hstat => key rfl hstat.1 hlive
  | check c satisfier =>
    cases satisfier with
    | none => exact fun hlive key _ => key rfl le_rfl hlive
    | some n => exact fun hlive key hstat => key rfl hstat.1.le hlive
  | backout c n i => exact fun hlive key hstat => key rfl hstat.2.1.le hlive
  | start c | commit c | blocked c | stopEnter c | stopSpin c | stopStore c | final c i satisfier =>
    exact fun hlive key _ => key rfl le_rfl hlive
  | idle | returned c result | signalling o => exact fun hlive _ _ => hlive.elim

theorem Signals.object {u : Nat} {c : Call} (h : Signals s a u o) (hok : Ok s q)
    (hquiet : QuietOk s) (hfirst : NotFirst s a) (hc : (s.pc u).call = some c) :
    ∃ k ∈ c.objects, o = .obj k := by
  cases h with
  | @scan _ i c' hpc hi hpos =>
    -- the scan does not find its own timer signaled
    obtain rfl : c' = c := by
      rw [hpc] at hc
      exact Option.some.inj hc
    have hne := hquiet.timer_i_ne hpc hpos
    have hobj : c'.object u i = .obj (c'.objects.getD i 0) := by
      unfold Call.object
      exact if_neg hne
    exact ⟨_, object_mem hi hobj, hobj⟩
  | @waitblock _ wb hflight hst =>
    -- a signaller has a waitblock of the call in its hands
    have hthread := hok.thread wb.thread
    obtain ⟨c', i, hc', hi, ho⟩ := hthread.live_index (hthread.flight o wb rfl hflight).1
    rw [hc] at hc'
    obtain rfl : c = c' := Option.some.inj hc'
    cases ho' : o with
    | obj k => exact ⟨k, object_mem hi (ho.symm.trans ho'), rfl⟩
    | timeout t id =>
      -- a timeout does not come first
      rw [ho'] at hfirst hflight
      exact absurd (hfirst wb hflight) hst

theorem FromObjects.step (h : FromObjects s) (hok : Ok s q) (hquiet : QuietOk s)
    (hfirst : NotFirst s a) (hmove : Moves cfg s a s') : FromObjects s' := by
  intro u c hc d hd
  obtain hcall | hbegins := call_of_move hmove hc
  · obtain hdl | ⟨hdl, -⟩ | ⟨o, via, hdl, hsignal⟩ := delivered_of_move hmove
    · rw [hdl] at hd
      exact h u c hcall d hd
    · rw [hdl] at hd
      exact absurd hd List.not_mem_nil
    · rw [hdl, List.mem_append, List.mem_singleton] at hd
      obtain hd | rfl := hd
      · exact h u c hcall d hd
      · exact hsignal.object hok hquiet hfirst hcall
  · rw [delivered_of_begins hbegins hmove] at hd
    exact absurd hd List.not_mem_nil

/-! ### Whom an unlock names -/

/-- While `mutex_unlock` is about to make a thread the owner, that thread has
its signal, or is about to wait again and cannot: the lock is taken. -/
def HandedOver (m : Nat) (s : State) : Prop :=
  ∀ who u, s.lock (.obj m) = some (.signal who (.done (some u))) →
    (∃ via, (.obj m, via) ∈ s.delivered u) ∨ ∃ c, s.pc u = .scan c 0

theorem release_lock : (release s o who ret).lock = update s.lock o none := by
  cases who with
  | mutex_unlock t => rfl
  | semaphore_release t => rfl
  | timer_handle_expiry => rfl

theorem done_of_move (hok : Ok s q) (hmove : Moves cfg s a s')
    (hlock : s'.lock o = some (.signal who (.done (some u)))) :
    s.lock o = some (.signal who (.done (some u))) ∨ ∃ via, (o, via) ∈ s'.delivered u := by
  -- a lock that is set to something else
  have hset : ∀ {o' : Oid} {hold : Option Holder},
      update s.lock o' hold o = some (.signal who (.done (some u))) →
      hold ≠ some (.signal who (.done (some u))) → s.lock o = some (.signal who (.done (some u))) := by
    intro o' hold h hne
    rw [update_apply] at h
    split at h
    · exact absurd h hne
    · exact h
  have hsatisfy : ∀ {o' : Oid} {who' : Signaller} {wb : Waitblock},
      (satisfy_waitblock cfg s o' who' wb).lock o = some (.signal who (.done (some u))) →
      s.lock o = some (.signal who (.done (some u))) ∨
        ∃ via, (o, via) ∈ (satisfy_waitblock cfg s o' who' wb).delivered u := by
    intro o' who' wb h
    rw [satisfy_waitblock_lock] at h
    by_cases ho : o = o'
    · subst ho
      rw [update_self, next_waitblock] at h
      right
      split at h
      · exact absurd h (by simp)
      · obtain rfl : wb.thread = u := by
          injection h with h
          injection h with _ h
          injection h with h
          exact Option.some.inj h
        rw [satisfy_waitblock_delivered, update_self]
        exact ⟨some wb, List.mem_append_right _ (List.mem_singleton.mpr rfl)⟩
    · rw [update_of_ne ho] at h
      exact .inl h
  cases hmove with
  | @wait_any t _ _ _ _ _ | @mutex_lock t _ _ _ _ =>
    obtain h | ⟨_, h⟩ := (begin_wait_fields s t _).2.2.2.2.2.2.2 o
    · exact .inl (h.symm.trans hlock)
    · exact absurd (h.symm.trans hlock) (by simp)
  | mutex_unlock _ _ _ | semaphore_release _ _ _ | expiry _ _ => exact .inl (hset hlock (by simp))
  | pop _ _ _ | loop_end _ _ | not_case1 _ _ | not_case2 _ _ | case3 _ _ =>
    exact .inl (hset hlock (by simp))
  | not_case3 hl hst => exact absurd (hok.case3 _ _ _ hl) hst
  | case1 _ _ => exact hsatisfy hlock
  | case2 _ _ =>
    rw [sched_wake_frame.2.2] at hlock
    rw [sched_wake_frame.2.1]
    exact hsatisfy hlock
  | release _ =>
    rw [release_lock] at hlock
    exact .inl (hset hlock (by simp))
  | scan_take _ _ _ _ _ =>
    rw [setPc_lock, consume_lock] at hlock
    exact .inl hlock
  | stop_enter _ _ | stop_store _ => exact .inl (hset hlock (by simp))
  | timer_start _ =>
    rw [timer_start_eq] at hlock
    exact .inl hlock
  | start _ _ =>
    rw [timer_start_eq] at hlock
    exact .inl hlock
  | @return_to t c _ _ =>
    left
    revert hlock
    cases c.caller with
    | wait_any => exact id
    | mutex_lock k => exact id
  | _ => exact .inl hlock

theorem scan_of_move (hok : Ok s q) (hmove : Moves cfg s a s')
    (hpc : s.pc u = .scan c 0) (hcount : 0 < c.count) (hlock : s.lock (c.object u 0) ≠ none) :
    s'.pc u = .scan c 0 := by
  -- whoever moves stands somewhere else
  have hother : ∀ {t : Nat} {old new : Pc}, s.pc t = old → old ≠ .scan c 0 →
      update s.pc t new u = .scan c 0 := by
    intro t old new hold hne
    have hu : u ≠ t := by
      intro hu
      rw [← hu, hpc] at hold
      exact hne hold.symm
    rw [update_of_ne hu]
    exact hpc
  -- the loop itself waits for the lock
  have hscan : ∀ {t i : Nat} {c' : Call} {new : Pc}, s.pc t = .scan c' i →
      (s.lock (c'.object t i) = none ∨ c'.count ≤ i) →
      update s.pc t new u = .scan c 0 := by
    intro t i c' new hold hfree
    by_cases hu : u = t
    · subst hu
      obtain ⟨rfl, rfl⟩ : c' = c ∧ i = 0 := Pc.scan.inj (hold.symm.trans hpc)
      obtain hfree | hfree := hfree
      · exact absurd hfree hlock
      · exact absurd hcount (Nat.not_lt.mpr hfree)
    · rw [update_of_ne hu]
      exact hpc
  cases hmove with
  | @wait_any t _ _ hold _ _ | @mutex_lock t _ _ hold _ =>
    rw [(begin_wait_fields s t _).1]
    exact hother hold nofun
  | mutex_unlock hold _ _ | semaphore_release hold _ _ => exact hother hold nofun
  | expire _ | expiry _ _ => exact hpc
  | timer_start _ =>
    rw [timer_start_eq]
    exact hpc
  | pop _ _ _ | loop_end _ _ | not_case1 _ _ | not_case2 _ _ | case3 _ _ | not_case3 _ _ => exact hpc
  | case1 _ _ =>
    rw [satisfy_waitblock_pc]
    exact hpc
  | case2 _ _ =>
    unfold sched_wake
    rw [satisfy_waitblock_pc]
    split
    · next hold =>
      rw [setPc_pc, satisfy_waitblock_pc]
      exact hother hold nofun
    · rw [satisfy_waitblock_pc]
      exact hpc
  | @release o who ret hl =>
    cases who with
    | mutex_unlock t => exact hother (hok.agent o _ _ t hl rfl) nofun
    | semaphore_release t => exact hother (hok.agent o _ _ t hl rfl) nofun
    | timer_handle_expiry => exact hpc
  | scan_take hold _ hfree _ _ =>
    rw [setPc_pc, consume_pc]
    exact hscan hold (.inl hfree)
  | scan_late hold _ hfree _ _ | scan_install hold _ hfree _ => exact hscan hold (.inl hfree)
  | scan_end hold hend => exact hscan hold (.inr hend)
  | check_panic _ _ _ | final_panic _ _ _ _ => exact hpc
  | start hold _ =>
    rw [timer_start_eq]
    exact hother hold nofun
  | @return_to t c' _ hold =>
    cases c'.caller with
    | wait_any => exact hother hold nofun
    | mutex_lock k => exact hother hold nofun
  | check_backout hold _ | check_return hold _ _ | check_start hold _ | check_commit hold _ _
  | backout hold _ _ | backout_end hold _ | commit hold _ | commit_late hold _
  | stop_stopped hold _ | stop_enter hold _ | stop_spin hold | stop_store hold
  | final_active hold _ _ _ | final_inactive hold _ _ _ | final_signaled hold _ _ _
  | final_end hold _ => exact hother hold nofun

theorem call_first {c : Call} (hobjects : c.objects = [m]) :
    0 < c.count ∧ ∀ t, c.object t 0 = .obj m := by
  unfold Call.count Call.object Call.timer_i
  rw [hobjects]
  refine ⟨Nat.add_pos_left Nat.one_pos _, fun t => if_neg ?_⟩
  split
  all_goals exact nofun

theorem HandedOver.step (h : HandedOver m s) (hok : Ok s q)
    (hcalls : ∀ t c, (s.pc t).call = some c → c.objects = [m]) (hmove : Moves cfg s a s') :
    HandedOver m s' := by
  intro who u hlock
  obtain hlock | hnew := done_of_move hok hmove hlock
  · obtain ⟨via, hvia⟩ | ⟨c, hpc⟩ := h who u hlock
    · -- the signal is still there, unless the thread waits again
      obtain hdl | ⟨-, hscan⟩ | ⟨o, via', hdl, -⟩ := delivered_of_move hmove
      · rw [hdl]
        exact .inl ⟨via, hvia⟩
      · exact .inr hscan
      · rw [hdl]
        exact .inl ⟨via, List.mem_append_left _ hvia⟩
    · have hobjects := hcalls u c (by rw [hpc]; rfl)
      obtain ⟨hcount, hobj⟩ := call_first hobjects
      refine .inr ⟨c, scan_of_move hok hmove hpc hcount ?_⟩
      rw [hobj u, hlock]
      exact nofun
  · exact .inl hnew

/-! ### Every run -/

theorem LocksTimed.starts (ha : LocksTimed m a) (hP : ∀ timeout, P [m] timeout) : Starts P a := by
  cases a with
  | mutex_lock t k timeout =>
    obtain rfl : k = m := ha
    exact hP timeout
  | wait_any t objects timeout => exact ha.elim
  | _ => trivial

section

variable (hs : ReachableBy (system cfg) (InTime m) s)

include hs

theorem InTime.call (t : Nat) (c : Call) (hc : (s.pc t).call = some c) : c.objects = [m] :=
  call_of_reachable (P := fun objects _ => objects = [m])
    (fun _ _ ha => ha.1.starts fun _ => rfl) hs t c hc

theorem InTime.ok : (∃ q, Ok s q) ∧ QuietOk s :=
  ok_of_single (fun _ _ ha => ha.1.starts fun _ => rfl) hs

theorem inTime_of_reachable : FromObjects s ∧ HandedOver m s := by
  induction hs with
  | init h =>
    refine ⟨?_, ?_⟩
    · intro t c hc
      rw [h.pc] at hc
      exact absurd hc nofun
    · intro who u hlock
      rw [h.lock] at hlock
      exact absurd hlock nofun
  | step a hreach ha hstep ih =>
    have hmove := (moves_of_step hstep).2
    obtain ⟨⟨q, hok⟩, hquiet⟩ := InTime.ok hreach
    exact ⟨ih.1.step hok hquiet ha.2 hmove, ih.2.step hok (InTime.call hreach) hmove⟩

theorem signal_of_returned (hpc : s.pc t = .returned c result) :
    ∃ via, (.obj m, via) ∈ s.delivered t := by
  have hc : (s.pc t).call = some c := by
    rw [hpc]
    rfl
  obtain ⟨⟨q, hok⟩, -⟩ := InTime.ok hs
  have hsig := (hok.thread t).signals
  rw [hpc] at hsig
  obtain ⟨⟨o, via⟩, hdl⟩ := hsig.1
  have hmem : (o, via) ∈ s.delivered t := by
    rw [hdl]
    exact List.mem_singleton.mpr rfl
  obtain ⟨k, hk, ho⟩ := (inTime_of_reachable hs).1 t c hc _ hmem
  rw [InTime.call hs t c hc, List.mem_singleton] at hk
  obtain rfl : o = .obj k := ho
  rw [hk] at hmem
  exact ⟨via, hmem⟩

theorem owner_of_inTime (hwrite : owner_write m s a = some (some t)) : ¬ EndedWithout m s t := by
  intro ⟨hended, hnone⟩
  cases a with
  | run u =>
    rw [owner_write] at hwrite
    split at hwrite
    · next c result hpc =>
      split at hwrite
      · obtain rfl : u = t := Option.some.inj (Option.some.inj hwrite)
        obtain ⟨via, hvia⟩ := signal_of_returned hs hpc
        exact hnone via hvia
      · exact absurd hwrite nofun
    · exact absurd hwrite nofun
  | signal o =>
    rw [owner_write] at hwrite
    split at hwrite
    · next u ret hlock =>
      split at hwrite
      · next ho =>
        obtain rfl : ret = some t := Option.some.inj hwrite
        rw [ho] at hlock
        obtain ⟨via, hvia⟩ | ⟨c, hpc⟩ := (inTime_of_reachable hs).2 _ t hlock
        · exact hnone via hvia
        · rw [hpc] at hended
          obtain hended | ⟨_, _, hended⟩ := hended
          all_goals exact absurd hended nofun
      · exact absurd hwrite nofun
    · exact absurd hwrite nofun
  | _ => exact absurd hwrite nofun

end

/-- **Timed-out lockers do not become owners, if there are none**: in every
run of `mutex_lock` and `mutex_unlock`, with any timeouts, in which no
timeout comes before the mutex, no step makes a thread the owner whose
wait has ended without the mutex while another thread holds it. -/
theorem owner_not_stolen (hs : ReachableBy (system cfg) (InTime m) s)
    (hstep : step cfg s a = some s') :
    s'.owner m = (owner_write m s a).getD (s.owner m) ∧ ¬ Steals m s a := by
  refine ⟨owner_of_step hstep, ?_⟩
  intro ⟨t, u, hwrite, hended, _⟩
  exact owner_of_inTime hs hwrite hended

/-- Thread 0 locks the mutex, and thread 1 blocks for at most 1000 ns. -/
def contendedRun : List Action := [.mutex_lock 0 0 (-1), .run 0, .run 0, .run 0, .run 0,
    .mutex_lock 1 0 1000, .run 1, .run 1, .run 1, .run 1, .run 1, .run 1, .expire (.timeout 1 0)]

/-- The timer of thread 1 expires, but thread 0 unlocks first. -/
def inTimeRun : List Action := contendedRun ++
    .mutex_unlock 0 0 :: List.replicate 4 (.signal (.obj 0)) ++
    .expiry (.timeout 1 0) :: List.replicate 6 (.signal (.timeout 1 0)) ++
    [.run 1, .run 1, .run 1, .run 1]

theorem owner_not_stolen_inTimeRun :
    ∃ s s', execBy (system oneMutex) (InTime 0) (boot oneMutex) inTimeRun = some s ∧
      step oneMutex s (.run 1) = some s' ∧
      s'.owner 0 = (owner_write 0 s (.run 1)).getD (s.owner 0) ∧ s'.owner 0 = some 1 ∧
      ¬ Steals 0 s (.run 1) := by
  obtain ⟨s, hs, s', hstep, howner⟩ : ∃ s, execBy (system oneMutex) (InTime 0) (boot oneMutex)
      inTimeRun = some s ∧ ∃ s', step oneMutex s (.run 1) = some s' ∧ s'.owner 0 = some 1 := by
    decide +kernel
  have hreach := ReachableBy.of_execBy (.init (boot_init oneMutex)) hs
  obtain ⟨hwrite, hnot⟩ := owner_not_stolen hreach hstep
  exact ⟨s, s', hs, hstep, hwrite, howner, hnot⟩

/-- The timer of thread 1 expires while thread 0 has the mutex. -/
def timedOutRun : List Action := contendedRun ++
    .expiry (.timeout 1 0) :: List.replicate 5 (.signal (.timeout 1 0)) ++
    [.run 1, .run 1, .run 1, .run 1]

/-- After its timeout thread 1 becomes the owner of the mutex that thread 0
holds. -/
theorem timed_out_owner :
    ∃ s s', execBy (system oneMutex) (fun _ a => LocksTimed 0 a) (boot oneMutex) timedOutRun =
        some s ∧
      step oneMutex s (.run 1) = some s' ∧ Steals 0 s (.run 1) ∧ s'.owner 0 = some 1 ∧
      s'.held 0 0 = true := by
  have hrun : ∃ s s', execBy (system oneMutex) (fun _ a => LocksTimed 0 a) (boot oneMutex)
        timedOutRun = some s ∧
      step oneMutex s (.run 1) = some s' ∧ s'.owner 0 = some 1 ∧ s'.held 0 0 = true ∧
      owner_write 0 s (.run 1) = some (some 1) ∧ (∃ c, s.pc 1 = .returned c none) ∧
      s.delivered 1 = [(.timeout 1 0, some (.timer 1 0))] ∧ s.held 0 0 = true ∧
      s.delivered 0 = [(.obj 0, none)] := by
    refine ⟨_, _, rfl, rfl, rfl, rfl, rfl, ⟨_, rfl⟩, rfl, rfl, rfl⟩
  obtain ⟨s, s', hs, hstep, howner, hheld, hwrite, ⟨c, hpc⟩, hdl, hheld0, hdl0⟩ := hrun
  refine ⟨s, s', hs, hstep, ⟨1, 0, hwrite, ⟨.inr ⟨c, none, hpc⟩, ?_⟩, nofun, hheld0, ?_⟩, howner,
    hheld⟩
  · intro via hvia
    rw [hdl, List.mem_singleton] at hvia
    exact absurd hvia nofun
  · rw [hdl0]
    exact ⟨none, List.mem_singleton.mpr rfl⟩

end Wait
