import Mathlib.Data.Finset.Card
import Mathlib.Data.List.MinMax
import Dufay.Timer.Ktimer
import Dufay.Wait.Satisfy

/-! # Expiry in one go

`timer_handle_expiry` of `core/timer.c` as a function, for a handler that
nobody interferes with: any number of timers in the heap of the CPU, with
any deadlines and any waiters, and any tick count. `Timer.Ktimer` has the
handler step by step, with other CPUs in between.

aria's pairing heap is a parameter. `PairingHeap` says what is assumed of
it: the top is a node that no other node is before, and a pop removes the
top. What one round does for a timer that is due is `round`.
-/

open Wait (DispatchHeader Waiters Waitblock TimerState)

namespace Timer

open Function

/-! ### The heap -/

def timer_compare (deadline : Nat → UInt64) (a b : Nat) : Bool := decide (deadline a < deadline b)

/-- A heap `H` of nodes `α` under a comparison, as far as the handler uses
it. -/
structure PairingHeap (H α : Type) [DecidableEq α] (compare : α → α → Bool) where
  nodes : H → Finset α
  /-- `pairing_heap_top` -/
  top : H → Option α
  /-- `pairing_heap_pop` -/
  pop : H → H
  top_eq_none : ∀ {h}, top h = none → nodes h = ∅
  top_mem : ∀ {h a}, top h = some a → a ∈ nodes h
  top_first : ∀ {h a}, top h = some a → ∀ b ∈ nodes h, compare b a = false
  nodes_pop : ∀ {h a}, top h = some a → nodes (pop h) = (nodes h).erase a

/-- The least node of a list. -/
def earliest (deadline : Nat → UInt64) (l : List Nat) : Option Nat :=
  l.argmin fun t => (deadline t).toNat

/-- A list with the earliest timer as its top is such a heap. -/
def listHeap (deadline : Nat → UInt64) : PairingHeap (List Nat) Nat (timer_compare deadline) where
  nodes := List.toFinset
  top := earliest deadline
  pop l := l.filter fun t => some t ≠ earliest deadline l
  top_eq_none h := by
    rw [List.argmin_eq_none.mp h]
    rfl
  top_mem h := List.mem_toFinset.mpr (List.argmin_mem h)
  top_first h b hb := by
    have hle := List.le_of_mem_argmin (List.mem_toFinset.mp hb) h
    exact decide_eq_false (UInt64.not_lt.mpr hle)
  nodes_pop h := by
    ext u
    rw [List.mem_toFinset, List.mem_filter, Finset.mem_erase, List.mem_toFinset, h]
    rw [decide_eq_true_iff, and_comm, ne_eq, Option.some_inj]

/-! ### The handler -/

/-- `struct ktimer`, without its heap node. Every timer is a notification
object, since `timer_init` makes it one. -/
structure Ktimer where
  hdr : DispatchHeader
  state : TimerState
  notification : hdr.type = .notification

structure Cpu (H : Type) where
  /-- `cpu_local::ticks` -/
  ticks : UInt64
  /-- `cpu_local::timers` -/
  timers : H
  timer : Nat → Ktimer
  waiters : Waiters
  /-- History: the timers that were popped, in order. -/
  popped : List Nat

variable {H : Type}

/-- The body of the loop behind the pop. The result is `none` if it spins on
the lock of the timer. -/
def expire (s : Cpu H) (t : Nat) : Option (Cpu H) :=
  let timer := s.timer t
  if timer.state = .pending then
    let timer := { timer with state := .running }
    if timer.hdr.locked then none
    else
      let hdr := { timer.hdr with locked := true, signaled_count := 1 }
      -- wake whoever was waiting on the timer to expire
      let r := hdr.try_satisfy_dispatch_object s.waiters
      some { s with
        timer := Function.update s.timer t
          { hdr := { r.2.1 with locked := false }
            state := .stopped
            notification := timer.notification }
        waiters := r.2.2 }
  else
    -- timer was canceled
    some s

section Handler

variable {deadline : Nat → UInt64} (heap : PairingHeap H Nat (timer_compare deadline))

/-- The loop, for at most `fuel` rounds. -/
def expiryLoop : Nat → Cpu H → Option (Cpu H)
  | 0, _ => none
  | fuel + 1, s =>
    match heap.top s.timers with
    | none => some s
    | some t =>
      -- this timer shouldn't expire yet
      if TICKS_TO_NS s.ticks < deadline t then some s
      else
        let s := { s with timers := heap.pop s.timers, popped := s.popped ++ [t] }
        (expire s t).bind (expiryLoop fuel)

/-- `timer_handle_expiry`. The result is `none` if it does not return within
one round for each node, and one more. -/
def timer_handle_expiry (s : Cpu H) : Option (Cpu H) :=
  expiryLoop heap ((heap.nodes s.timers).card + 1) s

end Handler

/-- The timer has expired: it is stopped and signaled, and nobody waits on
it. -/
structure Ktimer.Expired (timer : Ktimer) : Prop where
  stopped : timer.state = .stopped
  signaled : timer.hdr.signaled_count = 1
  waitblocks : timer.hdr.waitblocks = []
  unlocked : timer.hdr.locked = false

theorem expire_pending (hstate : (s.timer t).state = .pending)
    (hlock : (s.timer t).hdr.locked = false) :
    ∃ timer : Ktimer, timer.Expired ∧ expire s t = some { s with
      timer := update s.timer t timer
      waiters := (s.timer t).hdr.waitblocks.foldl Waiters.visit s.waiters } := by
  let hdr : DispatchHeader := { (s.timer t).hdr with locked := true, signaled_count := 1 }
  have hloop : hdr.try_satisfy_dispatch_object s.waiters =
      (none, { hdr with waitblocks := [] }, hdr.waitblocks.foldl Waiters.visit s.waiters) :=
    Wait.try_satisfy_notification s.waiters (s.timer t).notification Int.one_pos
  let timer : Ktimer :=
    { hdr := { (s.timer t).hdr with waitblocks := [], signaled_count := 1, locked := false }
      state := .stopped
      notification := (s.timer t).notification }
  refine ⟨timer, ⟨rfl, rfl, rfl, rfl⟩, ?_⟩
  unfold expire
  rw [if_pos hstate, if_neg (by rw [hlock]; exact Bool.false_ne_true)]
  show some { s with
    timer := update s.timer t
      { hdr := { (hdr.try_satisfy_dispatch_object s.waiters).2.1 with locked := false }
        state := .stopped
        notification := _ }
    waiters := (hdr.try_satisfy_dispatch_object s.waiters).2.2 } = _
  simp only [hloop]
  rfl

/-! ### The loop -/

section Loop

variable {deadline : Nat → UInt64} (heap : PairingHeap H Nat (timer_compare deadline))

/-- Every timer in the heap is pending, and its lock is free. -/
def Pending (s : Cpu H) : Prop :=
  ∀ t ∈ heap.nodes s.timers, (s.timer t).state = .pending ∧ (s.timer t).hdr.locked = false

/-- From `s` to `s'` the timers `l` have expired, in this order. -/
structure Handles (s s' : Cpu H) (l : List Nat) : Prop where
  popped : s'.popped = s.popped ++ l
  nodes : ∀ t, t ∈ heap.nodes s.timers ↔ t ∈ l ∨ t ∈ heap.nodes s'.timers
  nodup : l.Nodup
  left : ∀ t ∈ l, t ∉ heap.nodes s'.timers
  due : ∀ t ∈ l, deadline t ≤ TICKS_TO_NS s.ticks
  order : l.Pairwise fun t u => deadline t ≤ deadline u
  expired : ∀ t ∈ l, (s'.timer t).Expired
  others : ∀ t, t ∉ l → s'.timer t = s.timer t
  waiters : s'.waiters =
    (l.flatMap fun t => (s.timer t).hdr.waitblocks).foldl Waiters.visit s.waiters

theorem Handles.refl (s : Cpu H) : Handles heap s s [] where
  popped := (List.append_nil _).symm
  nodes _ := (or_iff_right List.not_mem_nil).symm
  nodup := List.nodup_nil
  left _ ht := absurd ht List.not_mem_nil
  due _ ht := absurd ht List.not_mem_nil
  order := List.Pairwise.nil
  expired _ ht := absurd ht List.not_mem_nil
  others _ _ := rfl
  waiters := rfl

/-- The state after a round for the timer `t`. -/
def round (s : Cpu H) (t : Nat) (timer : Ktimer) : Cpu H :=
  { s with
    timers := heap.pop s.timers
    popped := s.popped ++ [t]
    timer := Function.update s.timer t timer
    waiters := (s.timer t).hdr.waitblocks.foldl Waiters.visit s.waiters }

variable {heap} {s s' : Cpu H} {t : Nat} {timer : Ktimer} {l : List Nat}

theorem mem_pop_iff (htop : heap.top s.timers = some t) :
    u ∈ heap.nodes (heap.pop s.timers) ↔ u ≠ t ∧ u ∈ heap.nodes s.timers := by
  rw [heap.nodes_pop htop]
  exact Finset.mem_erase

theorem deadline_top_le (htop : heap.top s.timers = some t)
    (hu : u ∈ heap.nodes s.timers) : deadline t ≤ deadline u :=
  UInt64.not_lt.mp (of_decide_eq_false (heap.top_first htop u hu))

theorem Pending.round (hs : Pending heap s) (htop : heap.top s.timers = some t) :
    Pending heap (round heap s t timer) := by
  intro u hu
  obtain ⟨hne, hu⟩ := (mem_pop_iff htop).mp hu
  show (update s.timer t timer u).state = .pending ∧ (update s.timer t timer u).hdr.locked = false
  rw [update_of_ne hne]
  exact hs u hu

theorem flatMap_round (hl : t ∉ l) :
    (l.flatMap fun u => ((round heap s t timer).timer u).hdr.waitblocks) =
      l.flatMap fun u => (s.timer u).hdr.waitblocks := by
  refine List.flatMap_congr fun u hu => ?_
  have hne : u ≠ t := fun h => hl (h ▸ hu)
  show (update s.timer t timer u).hdr.waitblocks = _
  rw [update_of_ne hne]

theorem Handles.cons (htop : heap.top s.timers = some t)
    (hdue : deadline t ≤ TICKS_TO_NS s.ticks) (htimer : timer.Expired)
    (h : Handles heap (Timer.round heap s t timer) s' l) : Handles heap s s' (t :: l) := by
  have hgone : t ∉ heap.nodes (heap.pop s.timers) := fun ht => ((mem_pop_iff htop).mp ht).1 rfl
  have hl : t ∉ l := fun ht => hgone ((h.nodes t).mpr (.inl ht))
  have hin : ∀ u ∈ l, u ∈ heap.nodes s.timers := fun u hu =>
    ((mem_pop_iff htop).mp ((h.nodes u).mpr (.inl hu))).2
  have hself : s'.timer t = timer := (h.others t hl).trans (update_self ..)
  exact {
    popped := by
      rw [h.popped]
      exact List.append_assoc ..
    nodes := by
      intro u
      rw [List.mem_cons, or_assoc, ← h.nodes u]
      show _ ↔ u = t ∨ u ∈ heap.nodes (heap.pop s.timers)
      rw [mem_pop_iff htop]
      by_cases hu : u = t
      · rw [hu]
        exact iff_of_true (heap.top_mem htop) (.inl rfl)
      · exact ⟨fun h => .inr ⟨hu, h⟩, fun h => (h.resolve_left hu).2⟩
    nodup := List.nodup_cons.mpr ⟨hl, h.nodup⟩
    left := List.forall_mem_cons.mpr ⟨fun ht => hgone ((h.nodes t).mpr (.inr ht)), h.left⟩
    due := List.forall_mem_cons.mpr ⟨hdue, h.due⟩
    order := List.pairwise_cons.mpr ⟨fun u hu => deadline_top_le htop (hin u hu), h.order⟩
    expired := by
      refine List.forall_mem_cons.mpr ⟨?_, h.expired⟩
      rw [hself]
      exact htimer
    others := by
      intro u hu
      obtain ⟨hne, hu⟩ := not_or.mp (mt List.mem_cons.mpr hu)
      exact (h.others u hu).trans (update_of_ne hne ..)
    waiters := by
      rw [h.waiters, flatMap_round hl, List.flatMap_cons, List.foldl_append]
      rfl }

theorem expiryLoop_due (fuel : Nat) (hs : Pending heap s) (htop : heap.top s.timers = some t)
    (hdue : deadline t ≤ TICKS_TO_NS s.ticks) : ∃ timer : Ktimer, timer.Expired ∧
      expiryLoop heap (fuel + 1) s = expiryLoop heap fuel (round heap s t timer) := by
  obtain ⟨hstate, hlock⟩ := hs t (heap.top_mem htop)
  obtain ⟨timer, htimer, hexpire⟩ := expire_pending
    (s := { s with timers := heap.pop s.timers, popped := s.popped ++ [t] }) hstate hlock
  refine ⟨timer, htimer, ?_⟩
  rw [expiryLoop, htop]
  dsimp only
  rw [if_neg (UInt64.not_lt.mpr hdue), hexpire]
  rfl

/-- **The loop**: with a round for each node and one more it returns, and
what is left in the heap is not due. -/
theorem expiryLoop_handles (fuel : Nat) (s : Cpu H) (hs : Pending heap s)
    (hfuel : (heap.nodes s.timers).card < fuel) :
    ∃ s' l, expiryLoop heap fuel s = some s' ∧ Handles heap s s' l ∧
      ∀ t ∈ heap.nodes s'.timers, TICKS_TO_NS s.ticks < deadline t := by
  induction fuel generalizing s with
  | zero => exact absurd hfuel (Nat.not_lt_zero _)
  | succ fuel ih =>
    cases htop : heap.top s.timers with
    | none =>
      refine ⟨s, [], ?_, .refl heap s, ?_⟩
      · unfold expiryLoop
        rw [htop]
      · rw [heap.top_eq_none htop]
        exact fun t ht => absurd ht (Finset.notMem_empty t)
    | some t =>
      by_cases hlate : TICKS_TO_NS s.ticks < deadline t
      · -- the top is not due, and the others are not earlier
        refine ⟨s, [], ?_, .refl heap s, ?_⟩
        · unfold expiryLoop
          rw [htop]
          exact if_pos hlate
        · exact fun u hu => UInt64.lt_of_lt_of_le hlate (deadline_top_le htop hu)
      · have hdue := UInt64.not_lt.mp hlate
        obtain ⟨timer, htimer, hround⟩ := expiryLoop_due fuel hs htop hdue
        have hcard : (heap.nodes (heap.pop s.timers)).card < fuel := by
          rw [heap.nodes_pop htop, Finset.card_erase_of_mem (heap.top_mem htop)]
          have hpos := Finset.card_pos.mpr ⟨t, heap.top_mem htop⟩
          omega
        obtain ⟨s', l, hloop, hl, hrest⟩ := ih (round heap s t timer) (hs.round htop) hcard
        exact ⟨s', t :: l, hround.trans hloop, hl.cons htop hdue htimer, hrest⟩

/-! ### What the handler does -/

/-- From `s` to `s'` the handler has processed exactly the timers that were
due, which are `l`. -/
structure Expires (heap : PairingHeap H Nat (timer_compare deadline)) (s s' : Cpu H)
    (l : List Nat) : Prop where
  /-- The timers that are due are removed, once each. -/
  removed : s'.popped = s.popped ++ l ∧ l.Nodup ∧
    ∀ t, t ∈ l ↔ t ∈ heap.nodes s.timers ∧ deadline t ≤ TICKS_TO_NS s.ticks
  order : l.Pairwise fun t u => deadline t ≤ deadline u
  expired : ∀ t ∈ l, (s'.timer t).Expired
  /-- All later timers stay, as they were. -/
  later : ∀ t, t ∈ heap.nodes s'.timers ↔ t ∈ heap.nodes s.timers ∧ TICKS_TO_NS s.ticks < deadline t
  others : ∀ t, t ∉ l → s'.timer t = s.timer t
  pending : ∀ t ∈ heap.nodes s'.timers, (s'.timer t).state = .pending
  /-- Whoever waits on a timer that is due is satisfied, and nobody else. -/
  satisfied : ∀ u, s'.waiters.status u =
    if u ∈ (l.flatMap fun t => (s.timer t).hdr.waitblocks).map Waitblock.thread
    then .satisfied else s.waiters.status u
  /-- They are satisfied once if they were not yet, and not again
      otherwise. -/
  once : ∀ u, s'.waiters.times u = s.waiters.times u +
    if u ∈ (l.flatMap fun t => (s.timer t).hdr.waitblocks).map Waitblock.thread ∧
        s.waiters.status u ≠ .satisfied
    then 1 else 0

/-- **Expiry handles exactly the due timers**: whatever is in the heap,
`timer_handle_expiry` returns, and it has removed the timers that are
due, in the order of their deadlines, signaled them and satisfied
everyone who waited for one of them. -/
theorem timer_handle_expiry_expires (heap : PairingHeap H Nat (timer_compare deadline))
    (s : Cpu H) (hs : Pending heap s) :
    ∃ s' l, timer_handle_expiry heap s = some s' ∧ Expires heap s s' l := by
  obtain ⟨s', l, hloop, h, hrest⟩ := expiryLoop_handles _ s hs (Nat.lt_succ_self _)
  have hlater : ∀ t ∈ heap.nodes s.timers, TICKS_TO_NS s.ticks < deadline t → t ∉ l :=
    fun t _ hlate ht => UInt64.not_lt.mpr (h.due t ht) hlate
  have hdue : ∀ t, t ∈ l ↔ t ∈ heap.nodes s.timers ∧ deadline t ≤ TICKS_TO_NS s.ticks := by
    intro t
    constructor
    · intro ht
      exact ⟨(h.nodes t).mpr (.inl ht), h.due t ht⟩
    · intro ⟨ht, hdue⟩
      exact ((h.nodes t).mp ht).resolve_right fun hs' => UInt64.not_lt.mpr hdue (hrest t hs')
  refine ⟨s', l, hloop, ?_⟩
  exact {
    removed := ⟨h.popped, h.nodup, hdue⟩
    order := h.order
    expired := h.expired
    later := by
      intro t
      constructor
      · intro ht
        exact ⟨(h.nodes t).mpr (.inr ht), hrest t ht⟩
      · intro ⟨ht, hlate⟩
        exact ((h.nodes t).mp ht).resolve_left (hlater t ht hlate)
    others := h.others
    pending := by
      intro t ht
      rw [h.others t fun hl => h.left t hl ht]
      exact (hs t ((h.nodes t).mpr (.inr ht))).1
    satisfied := by
      intro u
      rw [h.waiters]
      exact Wait.foldl_visit_status ..
    once := by
      intro u
      rw [h.waiters]
      exact Wait.foldl_visit_delivered .. }

/-- Three timers are in the heap, two are due. Thread 7 waits on both, its
wait is committed, and thread 8 has been satisfied by something else. -/
def expiring : Cpu (List Nat) where
  ticks := 2
  timers := [0, 1, 2]
  timer t :=
    { hdr :=
        { waitblocks := if t = 2 then [.internal 9 0] else [.internal 7 t, .internal 8 t]
          type := .notification
          signaled_count := 0
          locked := false }
      state := .pending
      notification := rfl }
  waiters :=
    { status := fun u => if u = 8 then .satisfied else .committed
      wb_status := fun _ => .active
      delivered := []
      woken := [] }
  popped := []

/-- Timer 1 is the first, timer 2 is not due. -/
def deadlines (t : Nat) : UInt64 := if t = 0 then 20000000 else if t = 1 then 10000000 else 20000001

theorem timer_handle_expiry_expires_expiring : Pending (listHeap deadlines) expiring ∧
      ∃ s' l, timer_handle_expiry (listHeap deadlines) expiring = some s' ∧
        Expires (listHeap deadlines) expiring s' l := by
  have hs : Pending (listHeap deadlines) expiring := fun _ _ => ⟨rfl, rfl⟩
  exact ⟨hs, timer_handle_expiry_expires (listHeap deadlines) expiring hs⟩

example : (timer_handle_expiry (listHeap deadlines) expiring).map
      (fun s' => (s'.popped, s'.timers, s'.waiters.delivered, s'.waiters.woken)) =
    some ([1, 0], [2], [.internal 7 1], [7]) := by
  decide +kernel

end Loop

end Timer
