import Mathlib.Data.List.Count
import Dufay.Wait.Dispatch

/-! # Satisfying waits in one go

`try_satisfy_dispatch_object` of `core/wait.c` as a function, for a
signaller that nobody interferes with. `Wait.Dispatch` has the same
function step by step, with other threads in between.

The loop of a notification object that is signaled visits every
waitblock, in the order of the list, and unlinks it.
-/

open Function

namespace Wait

open Ule (WaitStatus)

/-! ### Headers and waits -/

structure DispatchHeader where
  waitblocks : List Waitblock
  type : DispatchObjectType
  signaled_count : Int
  /-- `lock` is taken. -/
  locked : Bool
  deriving DecidableEq

/-- The waits of all threads. The last two fields are history: the
waitblocks through which waits were satisfied, and the threads that were
given to `sched_wake`. -/
structure Waiters where
  /-- `thread::wait_status` -/
  status : Nat → WaitStatus
  /-- `waitblock::status` -/
  wb_status : Waitblock → WaitblockStatus
  delivered : List Waitblock
  woken : List Nat

/-- A compare-and-swap has satisfied the wait of the waitblock. -/
def Waiters.satisfy (w : Waiters) (wb : Waitblock) : Waiters :=
  { w with
    status := update w.status wb.thread .satisfied
    wb_status := update w.wb_status wb .signaled
    delivered := w.delivered ++ [wb] }

def Waiters.sched_wake (w : Waiters) (t : Nat) : Waiters := { w with woken := w.woken ++ [t] }

/-- Someone else satisfied the wait. -/
def Waiters.deactivate (w : Waiters) (wb : Waitblock) : Waiters :=
  { w with wb_status := update w.wb_status wb .inactive }

/-- The count that `dispatch_object_consume` leaves. -/
def consume (type : DispatchObjectType) (count : Int) : Int :=
  match type with
  -- object remains signaled
  | .notification => count
  | .synchronization => toInt32 (count - 1)

/-- The loop of `try_satisfy_dispatch_object`: the thread that is returned,
the waitblocks that are left, the count and the waits. -/
def satisfyLoop (type : DispatchObjectType) :
    List Waitblock → Int → Waiters → Option Nat × List Waitblock × Int × Waiters
  | [], count, w => (none, [], count, w)
  | wb :: rest, count, w =>
    if 0 < count then
      match w.status wb.thread with
      | .inProgress =>
        -- the wait was still preparing
        match type with
        | .notification => satisfyLoop type rest (consume type count) (w.satisfy wb)
        | .synchronization => (some wb.thread, rest, consume type count, w.satisfy wb)
      | .committed =>
        -- the wait is committed and the thread is blocked
        let w := (w.satisfy wb).sched_wake wb.thread
        match type with
        | .notification => satisfyLoop type rest (consume type count) w
        | .synchronization => (some wb.thread, rest, consume type count, w)
      | .satisfied => satisfyLoop type rest count (w.deactivate wb)
    else (none, wb :: rest, count, w)

def DispatchHeader.try_satisfy_dispatch_object (hdr : DispatchHeader) (w : Waiters) :
    Option Nat × DispatchHeader × Waiters :=
  let r := satisfyLoop hdr.type hdr.waitblocks hdr.signaled_count w
  (r.1, { hdr with waitblocks := r.2.1, signaled_count := r.2.2.1 }, r.2.2.2)

theorem try_satisfy_of_not_signaled {hdr : DispatchHeader} (w : Waiters)
    (h : ¬ 0 < hdr.signaled_count) : hdr.try_satisfy_dispatch_object w = (none, hdr, w) := by
  have hloop (l : List Waitblock) : satisfyLoop hdr.type l hdr.signaled_count w =
      (none, l, hdr.signaled_count, w) := by
    cases l with
    | nil => rfl
    | cons wb rest => exact if_neg h
  rw [DispatchHeader.try_satisfy_dispatch_object, hloop]

/-! ### A notification object that is signaled -/

/-- One round for a notification object. -/
def Waiters.visit (w : Waiters) (wb : Waitblock) : Waiters :=
  match w.status wb.thread with
  | .inProgress => w.satisfy wb
  | .committed => (w.satisfy wb).sched_wake wb.thread
  | .satisfied => w.deactivate wb

theorem satisfyLoop_notification (hcount : 0 < count) : ∀ (l : List Waitblock) (w : Waiters),
      satisfyLoop .notification l count w = (none, [], count, l.foldl Waiters.visit w) := by
  intro l
  induction l with
  | nil =>
    intro w
    rfl
  | cons wb rest ih =>
    intro w
    rw [satisfyLoop, if_pos hcount, List.foldl_cons, Waiters.visit]
    cases w.status wb.thread with
    | inProgress => exact ih _
    | committed => exact ih _
    | satisfied => exact ih _

theorem try_satisfy_notification {hdr : DispatchHeader} (w : Waiters)
    (htype : hdr.type = .notification) (hcount : 0 < hdr.signaled_count) :
    hdr.try_satisfy_dispatch_object w =
      (none, { hdr with waitblocks := [] }, hdr.waitblocks.foldl Waiters.visit w) := by
  rw [DispatchHeader.try_satisfy_dispatch_object, htype, satisfyLoop_notification hcount]

/-! ### Who is satisfied -/

theorem visit_status (w : Waiters) (wb : Waitblock) (t : Nat) :
    (w.visit wb).status t = if t = wb.thread then .satisfied else w.status t := by
  by_cases ht : t = wb.thread
  · rw [if_pos ht, ht, Waiters.visit]
    cases hstatus : w.status wb.thread with
    | inProgress => exact update_self ..
    | committed => exact update_self ..
    | satisfied => exact hstatus
  · rw [if_neg ht, Waiters.visit]
    cases w.status wb.thread with
    | inProgress => exact update_of_ne ht ..
    | committed => exact update_of_ne ht ..
    | satisfied => rfl

/-- How often the wait of a thread was satisfied. -/
def Waiters.times (w : Waiters) (t : Nat) : Nat := (w.delivered.map Waitblock.thread).count t

theorem visit_times (w : Waiters) (wb : Waitblock) (t : Nat) : (w.visit wb).times t =
      w.times t + if t = wb.thread ∧ w.status t ≠ .satisfied then 1 else 0 := by
  have hadd : (w.satisfy wb).times t = w.times t + if t = wb.thread then 1 else 0 := by
    unfold Waiters.times Waiters.satisfy
    rw [List.map_append, List.count_append, List.map_singleton, List.count_singleton]
    congr 1
    exact if_congr (beq_iff_eq.trans eq_comm) rfl rfl
  rw [Waiters.visit]
  cases hstatus : w.status wb.thread with
  | inProgress | committed =>
    show (w.satisfy wb).times t = _
    rw [hadd]
    by_cases ht : t = wb.thread
    · rw [if_pos ht, if_pos ⟨ht, by rw [ht, hstatus]; exact nofun⟩]
    · rw [if_neg ht, if_neg fun h => ht h.1]
  | satisfied =>
    show w.times t = _
    rw [if_neg, Nat.add_zero]
    intro h
    rw [h.1] at h
    exact h.2 hstatus

theorem mem_threads_cons (t : Nat) (wb : Waitblock) (rest : List Waitblock) :
    t ∈ (wb :: rest).map Waitblock.thread ↔ t = wb.thread ∨ t ∈ rest.map Waitblock.thread :=
  List.mem_cons

theorem foldl_visit_status (l : List Waitblock) (w : Waiters) (t : Nat) :
    (l.foldl Waiters.visit w).status t =
      if t ∈ l.map Waitblock.thread then .satisfied else w.status t := by
  induction l generalizing w with
  | nil => rfl
  | cons wb rest ih =>
    rw [List.foldl_cons, ih, visit_status]
    simp only [mem_threads_cons]
    by_cases hrest : t ∈ rest.map Waitblock.thread
    · rw [if_pos hrest, if_pos (.inr hrest)]
    · by_cases ht : t = wb.thread
      · rw [if_neg hrest, if_pos ht, if_pos (.inl ht)]
      · rw [if_neg hrest, if_neg ht, if_neg (not_or.mpr ⟨ht, hrest⟩)]

/-- **Once each**: a thread that was visited and whose wait was not
satisfied has been satisfied once more, and no other thread. -/
theorem foldl_visit_delivered (l : List Waitblock) (w : Waiters) (t : Nat) :
    (l.foldl Waiters.visit w).times t = w.times t +
      if t ∈ l.map Waitblock.thread ∧ w.status t ≠ .satisfied then 1 else 0 := by
  induction l generalizing w with
  | nil =>
    rw [if_neg fun h => List.not_mem_nil h.1]
    rfl
  | cons wb rest ih =>
    rw [List.foldl_cons, ih, visit_times, visit_status]
    simp only [mem_threads_cons]
    by_cases ht : t = wb.thread
    · -- the first visit decides, and the wait is satisfied afterwards
      simp [ht]
    · simp [ht]

end Wait
