import Dufay.Wait.Satisfy

/-! # Events

`event_init` and `event_signal` of `core/events.c`. An event is its
dispatch header, and waits on it are those of `Wait.Satisfy`.

`event_signal` calls `try_satisfy_dispatch_object` before it sets the
count, and the loop there runs only while the count is positive. It then
returns with the lock held, so that the next call spins for ever.
-/

namespace Wait

open Ule (WaitStatus)

def event_init (notification : Bool) : DispatchHeader where
  waitblocks := []
  type := if notification then .notification else .synchronization
  signaled_count := 0
  locked := false

/-- `event_signal`. The result is `none` if the call spins on the lock. -/
def event_signal (hdr : DispatchHeader) (w : Waiters) : Option (DispatchHeader × Waiters) :=
  if hdr.locked then none
  else
    let hdr := { hdr with locked := true }
    -- already signaled
    if 0 < hdr.signaled_count then some ({ hdr with locked := false }, w)
    else
      match hdr.try_satisfy_dispatch_object w with
      | (none, hdr, w) => some ({ hdr with signaled_count := 1 }, w)
      | (some _, hdr, w) => some (hdr, w)

/-! ### What it is for -/

/-- The wait that the waitblock belongs to is not satisfied. -/
def Unsatisfied (w : Waiters) (wb : Waitblock) : Prop := w.status wb.thread ≠ .satisfied

instance (w : Waiters) (wb : Waitblock) : Decidable (Unsatisfied w wb) :=
  inferInstanceAs (Decidable (¬ _))

/-- What signalling an event that is not signaled is to do to the event and
the waits. -/
structure Wakes (hdr : DispatchHeader) (w : Waiters) (hdr' : DispatchHeader) (w' : Waiters) :
    Prop where
  /-- A synchronization event satisfies one wait, -/
  one : hdr.type = .synchronization → (∃ wb ∈ hdr.waitblocks, Unsatisfied w wb) →
    ∃ wb ∈ hdr.waitblocks, Unsatisfied w wb ∧
      w'.status = Function.update w.status wb.thread .satisfied ∧ ¬ 0 < hdr'.signaled_count
  /-- and is signaled if there is none. -/
  none : hdr.type = .synchronization → (∀ wb ∈ hdr.waitblocks, ¬ Unsatisfied w wb) →
    w'.status = w.status ∧ 0 < hdr'.signaled_count
  /-- A notification event satisfies all waits and is signaled. -/
  all : hdr.type = .notification → (∀ t, w'.status t =
      if t ∈ hdr.waitblocks.map Waitblock.thread then .satisfied else w.status t) ∧
    0 < hdr'.signaled_count

/-- The call returns with the lock released, and has signaled an event that
was not signaled. -/
def SignalsEvent (hdr : DispatchHeader) (w : Waiters) : Prop :=
  ∃ hdr' w', event_signal hdr w = some (hdr', w') ∧ hdr'.locked = false ∧
    (¬ 0 < hdr.signaled_count → Wakes hdr w hdr' w')

/-! ### What it does -/

section

variable {hdr : DispatchHeader} (w : Waiters) (hfree : hdr.locked = false)

include hfree

theorem event_signal_unsignaled (h : ¬ 0 < hdr.signaled_count) :
    event_signal hdr w = some ({ hdr with signaled_count := 1, locked := true }, w) := by
  have hloop : ({ hdr with locked := true } : DispatchHeader).try_satisfy_dispatch_object w =
      (none, { hdr with locked := true }, w) := try_satisfy_of_not_signaled w h
  unfold event_signal
  rw [if_neg (by rw [hfree]; exact Bool.false_ne_true)]
  rw [if_neg h, hloop]

theorem event_signal_signaled (h : 0 < hdr.signaled_count) :
    event_signal hdr w = some (hdr, w) := by
  unfold event_signal
  rw [if_neg (by rw [hfree]; exact Bool.false_ne_true)]
  rw [if_pos h, ← hfree]

theorem not_signalsEvent (h : ¬ 0 < hdr.signaled_count) : ¬ SignalsEvent hdr w := by
  rintro ⟨hdr', w', hcall, hreleased, -⟩
  rw [event_signal_unsignaled w hfree h] at hcall
  cases hcall
  cases hreleased

end

/-- **Signalling an event**, for every event of either type and all waits on
it: the call does what it is for if and only if the lock is free and the
event is signaled already. -/
theorem event_signal_wakes_iff (hdr : DispatchHeader) (w : Waiters) :
    SignalsEvent hdr w ↔ hdr.locked = false ∧ 0 < hdr.signaled_count := by
  constructor
  · intro hsignals
    have hfree : hdr.locked = false := by
      obtain ⟨hdr', w', hcall, -⟩ := hsignals
      cases hlock : hdr.locked with
      | false => rfl
      | true =>
        rw [event_signal, if_pos hlock] at hcall
        cases hcall
    refine ⟨hfree, ?_⟩
    by_contra hcount
    exact not_signalsEvent w hfree hcount hsignals
  · rintro ⟨hfree, hcount⟩
    exact ⟨hdr, w, event_signal_signaled w hfree hcount, hfree, fun h => absurd hcount h⟩

/-- Thread 0 has committed a wait. -/
def oneCommitted : Waiters where
  status := fun t => if t = 0 then .committed else .satisfied
  wb_status := fun _ => .active
  delivered := []
  woken := []

/-- An event that is signaled, and whose lock is free. -/
theorem event_signal_wakes_iff_signaled :
    SignalsEvent { event_init false with signaled_count := 1 } oneCommitted :=
  (event_signal_wakes_iff _ _).mpr ⟨rfl, by decide⟩

/-- **The only waiter is not woken, and the lock is kept**: thread 0 is
blocked on an event when it is signaled for the first time. It does not
matter which type the event has. -/
theorem event_signal_wakes_nobody : (∃ hdr' w',
      event_signal { event_init true with waitblocks := [.internal 0 0] } oneCommitted =
        some (hdr', w') ∧
      w'.status 0 = .committed ∧ hdr'.waitblocks = [.internal 0 0] ∧ hdr'.locked = true) ∧
    ¬ SignalsEvent { event_init true with waitblocks := [.internal 0 0] } oneCommitted ∧
    ¬ SignalsEvent { event_init false with waitblocks := [.internal 0 0] } oneCommitted := by
  refine ⟨⟨_, _, event_signal_unsignaled oneCommitted rfl (Int.lt_irrefl 0), rfl, rfl, rfl⟩, ?_, ?_⟩
  all_goals exact not_signalsEvent oneCommitted rfl (Int.lt_irrefl 0)

end Wait
