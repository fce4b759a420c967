import Mathlib.Algebra.BigOperators.Fin
import Mathlib.Algebra.BigOperators.Pi
import Mathlib.Data.ZMod.Defs
import Dufay.Sched.Thread

/-! # Run queues of one CPU

`struct runqueue` and `struct sched_percpu` (`core/sched/ule.h`) with
the functions of `core/sched/ule.c` that insert a thread and pick one.

A `TAILQ` is the list of its elements. The bitmap `status` is kept as
the 64-bit word it is. The queues are generic in the type of the thread
names; what they need to know of a thread (whether it is pinned) is a
parameter.

The two facts every later proof uses are here: an operation keeps the
bitmap in step with the lists (`SchedPercpu.Wf`), and it moves exactly
the occurrences it says it moves (`SchedPercpu.count`).
-/

namespace Ule

open Function

theorem sum_update_add {ι : Type} [Fintype ι] [DecidableEq ι] (f : ι → Nat) (i : ι) (v : Nat) :
    (∑ j, update f i v j) + f i = (∑ j, f j) + v := by
  have hsplit := Finset.add_sum_erase Finset.univ f (Finset.mem_univ i)
  rw [Finset.sum_update_of_mem (Finset.mem_univ i), Finset.sdiff_singleton_eq_erase]
  omega

/-! ### One `struct runqueue` -/

/-- `struct runqueue`: a bitmap of the non-empty queues and the queues. -/
structure Runqueue (α : Type) where
  status : BitVec 64
  queues : Fin 64 → List α

namespace Runqueue

variable {α : Type}

section
variable [DecidableEq α] (runq : Runqueue α)

/-- `runq->status & (1UL << i)`. -/
def bit (i : Fin 64) : Bool := runq.status.getLsbD i

/-- Set the status bit of queue `i` and append `td` to it. -/
def insert (i : Fin 64) (td : α) : Runqueue α where
  status := runq.status ||| (1#64 <<< i.val)
  queues := Function.update runq.queues i (runq.queues i ++ [td])

/-- Unlink `td` from queue `i` and clear the status bit if nothing is left. -/
def remove (i : Fin 64) (td : α) : Runqueue α where
  status :=
    if ((runq.queues i).erase td).isEmpty then runq.status &&& ~~~(1#64 <<< i.val)
    else runq.status
  queues := Function.update runq.queues i ((runq.queues i).erase td)

/-- The bitmap says which queues are non-empty. -/
def Wf : Prop := ∀ i, runq.bit i = true ↔ runq.queues i ≠ []

/-- How many slots of the run queue hold `td`. -/
def count (td : α) : Nat := ∑ i, (runq.queues i).count td

end

theorem getLsbD_mask (i j : Fin 64) : (1#64 <<< i.val).getLsbD j.val = decide (j = i) := by
  rw [BitVec.getLsbD_shiftLeft, BitVec.getLsbD_one, Bool.eq_iff_iff]
  simp only [Bool.and_eq_true, decide_eq_true_eq, Bool.not_eq_true', decide_eq_false_iff_not,
    Fin.ext_iff]
  omega

theorem bit_insert (runq : Runqueue α) (i j : Fin 64) (td : α) :
    (runq.insert i td).bit j = (runq.bit j || decide (j = i)) := by
  simp only [bit, insert, BitVec.getLsbD_or, getLsbD_mask]

variable {runq : Runqueue α} {td : α} {pinned : α → Bool} {migrate : Bool}

theorem Wf.insert (h : runq.Wf) (i : Fin 64) (td : α) : (runq.insert i td).Wf := by
  intro j
  rw [bit_insert]
  by_cases hji : j = i
  · subst hji; simp [Runqueue.insert]
  · simp [Runqueue.insert, hji, h j]

section
variable [DecidableEq α]

theorem bit_remove (runq : Runqueue α) (i j : Fin 64) (td : α) : (runq.remove i td).bit j =
      (runq.bit j && !(decide (j = i) && ((runq.queues i).erase td).isEmpty)) := by
  simp only [bit, remove]
  split
  · next hempty =>
    simp only [BitVec.getLsbD_and, BitVec.getLsbD_not, getLsbD_mask]
    simp [hempty]
  · next hne => simp [hne]

theorem Wf.remove (h : runq.Wf) (i : Fin 64) (td : α) : (runq.remove i td).Wf := by
  intro j
  rw [bit_remove]
  by_cases hji : j = i
  · subst hji
    have hj := h j
    simp only [Runqueue.remove, update_self]
    cases hq : runq.queues j with
    -- a queue that was empty had no bit to clear
    | nil => simp
    | cons x xs =>
      have hbit : runq.bit j = true := hj.mpr (by simp [hq])
      simp [hbit]
  · simp [Runqueue.remove, hji, h j]

theorem count_update (queues : Fin 64 → List α) (i : Fin 64) (q : List α) (x : α) :
    (∑ j, (update queues i q j).count x) + (queues i).count x
      = (∑ j, (queues j).count x) + q.count x := by
  have hfun : (fun j => (update queues i q j).count x)
      = update (fun j => (queues j).count x) i (q.count x) := by
    funext j
    by_cases h : j = i
    · subst h; simp
    · simp [h]
  rw [hfun]
  exact sum_update_add (fun j => (queues j).count x) i (q.count x)

theorem count_insert (runq : Runqueue α) (i : Fin 64) (td x : α) :
    (runq.insert i td).count x = runq.count x + (if x = td then 1 else 0) := by
  have h := count_update runq.queues i (runq.queues i ++ [td]) x
  simp only [List.count_append, List.count_singleton] at h
  simp only [count, Runqueue.insert]
  by_cases hx : x = td
  · subst hx; simp at h ⊢; omega
  · have hx' : td ≠ x := fun h => hx h.symm
    simp [hx, hx'] at h ⊢; omega

theorem count_remove (hmem : td ∈ runq.queues i) (x : α) :
    (runq.remove i td).count x + (if x = td then 1 else 0) = runq.count x := by
  have h := count_update runq.queues i ((runq.queues i).erase td) x
  simp only [count, Runqueue.remove]
  by_cases hx : x = td
  · subst hx
    have hpos := List.count_pos_iff.mpr hmem
    rw [List.count_erase_self] at h
    simp; omega
  · rw [List.count_erase_of_ne hx] at h
    simp [hx]; omega

end

/-! ### Scanning the queues of a `struct runqueue` -/

/-- What a pick takes from one queue: the first thread, or when migrating
the first one that is not pinned. -/
def candidate (pinned : α → Bool) (migrate : Bool) (q : List α) : Option α :=
  if migrate then q.find? (fun td => !pinned td) else q.head?

/-- Visit the queues in the given order and stop at the first that is
marked non-empty and has a thread to give. -/
def scan (runq : Runqueue α) (pinned : α → Bool) (migrate : Bool) :
    List (Fin 64) → Option (Fin 64 × α)
  | [] => none
  | i :: rest =>
    if runq.bit i then
      match candidate pinned migrate (runq.queues i) with
      | some td => some (i, td)
      | none => runq.scan pinned migrate rest
    else runq.scan pinned migrate rest

/-- With migration, pinned threads stay. -/
def eligible (pinned : α → Bool) (migrate : Bool) (td : α) : Bool := !(migrate && pinned td)

theorem candidate_eq_find (q : List α) :
    candidate pinned migrate q = q.find? (eligible pinned migrate) := by
  cases migrate with
  | true => rfl
  | false => cases q <;> rfl

theorem mem_of_candidate (h : candidate pinned migrate q = some td) : td ∈ q :=
  List.mem_of_find?_eq_some ((candidate_eq_find q).symm.trans h)

theorem eligible_of_candidate (h : candidate pinned migrate q = some td) :
    eligible pinned migrate td = true :=
  List.find?_some ((candidate_eq_find q).symm.trans h)

theorem candidate_of_scan (h : runq.scan pinned migrate order = some (i, td)) :
    candidate pinned migrate (runq.queues i) = some td := by
  induction order with
  | nil => cases h
  | cons j rest ih =>
    simp only [scan] at h
    split at h
    · split at h
      · next hc =>
        cases h
        exact hc
      · exact ih h
    · exact ih h

theorem scan_eq_findSome (hwf : runq.Wf) (pinned : α → Bool) (migrate : Bool)
    (order : List (Fin 64)) : runq.scan pinned migrate order =
      order.findSome? fun i => (candidate pinned migrate (runq.queues i)).map (i, ·) := by
  induction order with
  | nil => rfl
  | cons i rest ih =>
    rw [scan, List.findSome?_cons, ih]
    by_cases hbit : runq.bit i = true
    · rw [if_pos hbit]
      cases candidate pinned migrate (runq.queues i) <;> rfl
    · -- an empty queue has no candidate
      have hnil : runq.queues i = [] := by
        by_contra hne
        exact hbit ((hwf i).mpr hne)
      rw [if_neg hbit, hnil, candidate_eq_find]
      rfl

theorem candidate_eq_nil (pinned : α → Bool) (q : List α) :
    candidate pinned false q = none ↔ q = [] := List.head?_eq_none_iff

theorem scan_eq_none (hwf : runq.Wf) (pinned : α → Bool) (migrate : Bool)
    (order : List (Fin 64)) : runq.scan pinned migrate order = none ↔
      ∀ i ∈ order, candidate pinned migrate (runq.queues i) = none := by
  rw [scan_eq_findSome hwf, List.findSome?_eq_none_iff]
  simp only [Option.map_eq_none_iff]

end Runqueue

/-! ### `struct sched_percpu` -/

/-- The scheduler data of one CPU. The calendar indices are always taken
modulo `RUNQUEUES_N`. -/
structure SchedPercpu (α : Type) where
  load : UInt64
  realtime_runq : Runqueue α
  calendar_queue : Runqueue α
  calendar_queue_runidx : Fin 64
  calendar_queue_insidx : Fin 64
  idle_queue : List α

namespace SchedPercpu

variable {α : Type} [DecidableEq α]

/-- Both bitmaps agree with their queues. -/
structure Wf (sd : SchedPercpu α) : Prop where
  realtime : sd.realtime_runq.Wf
  calendar : sd.calendar_queue.Wf

/-- How many slots of the queues of this CPU hold `td`. -/
def count (sd : SchedPercpu α) (td : α) : Nat :=
  sd.realtime_runq.count td + sd.calendar_queue.count td + sd.idle_queue.count td

/-- No thread is queued on this CPU. -/
def Empty (sd : SchedPercpu α) : Prop :=
  (∀ i, sd.realtime_runq.queues i = []) ∧ (∀ i, sd.calendar_queue.queues i = []) ∧
    sd.idle_queue = []

/-- `calendar_queue_increment`: advance the run index, keeping the insert
index ahead of it. -/
def calendar_queue_increment (sd : SchedPercpu α) : SchedPercpu α :=
  let sd := { sd with calendar_queue_runidx := sd.calendar_queue_runidx + 1 }
  if sd.calendar_queue_runidx = sd.calendar_queue_insidx then
    { sd with calendar_queue_insidx := sd.calendar_queue_insidx + 1 }
  else sd

/-- `insert_calendar_queue`: the index depends on the insert index and on
how far the priority is below `PRIO_HIGH_BATCH`. -/
def insert_calendar_queue (sd : SchedPercpu α) (td : α) (priority : Fin 64) : SchedPercpu α :=
  let idx := sd.calendar_queue_insidx + (32 - priority)
  { sd with calendar_queue := sd.calendar_queue.insert idx td }

/-- The queue update of `sched_insert_in_queue`, given the attributes of
the thread that choose the queue. -/
def insert (sd : SchedPercpu α) (td : α) (priority_class : PriorityClass)
    (interactive : Bool) (priority : Fin 64) : SchedPercpu α :=
  let sd :=
    if priority_class = .realtime || interactive then
      { sd with realtime_runq := sd.realtime_runq.insert priority td }
    else
      match priority_class with
      | .batch => sd.insert_calendar_queue td priority
      | _ => { sd with idle_queue := sd.idle_queue ++ [td] }
  { sd with load := sd.load + 1 }

/-- `pick_realtime_thread`: highest queue index last, starting at
`minprio`. -/
def pick_realtime_thread (sd : SchedPercpu α) (pinned : α → Bool) (minprio : Nat)
    (migrate : Bool) : Option (α × SchedPercpu α) :=
  if sd.realtime_runq.status = 0 then none
  else
    let order := (List.finRange 64).filter (fun i => decide (minprio ≤ i.val))
    match sd.realtime_runq.scan pinned migrate order with
    | some (i, td) => some (td, { sd with realtime_runq := sd.realtime_runq.remove i td })
    | none => none

/-- `pick_batch_thread`: all 64 queues in cyclic order from the run index.
The run index advances when the pick empties a queue, unless the thread
is migrated away. -/
def pick_batch_thread (sd : SchedPercpu α) (pinned : α → Bool) (migrate : Bool) :
    Option (α × SchedPercpu α) :=
  if sd.calendar_queue.status = 0 then none
  else
    let order := (List.finRange 64).map (fun k => sd.calendar_queue_runidx + k)
    match sd.calendar_queue.scan pinned migrate order with
    | some (i, td) =>
      let sd' := { sd with calendar_queue := sd.calendar_queue.remove i td }
      if (sd'.calendar_queue.queues i).isEmpty && !migrate then
        some (td, sd'.calendar_queue_increment)
      else some (td, sd')
    | none => none

/-- `pick_idle_thread`: only the first thread of the queue is considered. -/
def pick_idle_thread (sd : SchedPercpu α) (pinned : α → Bool) (migrate : Bool) :
    Option (α × SchedPercpu α) :=
  match sd.idle_queue.head? with
  | some td =>
    if !(migrate && pinned td) then
      some (td, { sd with idle_queue := sd.idle_queue.erase td })
    else none
  | none => none

/-- The attributes of the current thread that `sched_select_thread` uses as
a filter. -/
structure Filter where
  priority : Fin 64
  priority_class : PriorityClass
  interactive : Bool

/-- `sched_select_thread`: `cur` is the filter of the current thread, or
`none` where the source passes `NULL`. -/
def sched_select_thread (sd : SchedPercpu α) (pinned : α → Bool) (cur : Option Filter)
    (migrate : Bool) : Option (α × SchedPercpu α) :=
  let took := fun (p : α × SchedPercpu α) => (p.1, { p.2 with load := p.2.load - 1 })
  let minprio := match cur with
    | some f => f.priority.val
    | none => 0
  match sd.pick_realtime_thread pinned minprio migrate with
  | some p => some (took p)
  | none =>
    -- nothing lower can preempt this thread
    if cur.any (fun f => f.priority_class = .realtime || f.interactive) then none
    else
      match sd.pick_batch_thread pinned migrate with
      | some p => some (took p)
      | none =>
        -- idle threads don't preempt each other
        if cur.any (fun f => f.priority.val = PRIO_IDLE) then none
        else (sd.pick_idle_thread pinned migrate).map took

/-! ### Inserting -/

omit [DecidableEq α] in
theorem Wf.insert {sd : SchedPercpu α} (h : sd.Wf) (td : α) (cl : PriorityClass)
    (interactive : Bool) (priority : Fin 64) : (sd.insert td cl interactive priority).Wf := by
  unfold SchedPercpu.insert
  split
  · exact ⟨h.realtime.insert _ _, h.calendar⟩
  · split
    · exact ⟨h.realtime, h.calendar.insert _ _⟩
    · exact ⟨h.realtime, h.calendar⟩

theorem count_insert (sd : SchedPercpu α) (td x : α) (cl : PriorityClass)
    (interactive : Bool) (priority : Fin 64) : (sd.insert td cl interactive priority).count x
      = sd.count x + (if x = td then 1 else 0) := by
  unfold SchedPercpu.insert count
  split
  · dsimp only
    rw [Runqueue.count_insert]; omega
  · split
    · simp only [insert_calendar_queue]
      rw [Runqueue.count_insert]; omega
    · dsimp only
      rw [List.count_append, List.count_singleton]
      by_cases hx : x = td
      · simp [hx]; omega
      · have hx' : td ≠ x := fun h => hx h.symm
        simp [hx, hx']

omit [DecidableEq α] in
theorem not_empty_insert (sd : SchedPercpu α) (td : α) (cl : PriorityClass)
    (interactive : Bool) (priority : Fin 64) : ¬ (sd.insert td cl interactive priority).Empty := by
  unfold SchedPercpu.insert Empty
  split
  · rintro ⟨h, -, -⟩
    simpa [Runqueue.insert] using h priority
  · split
    · rintro ⟨-, h, -⟩
      simpa [insert_calendar_queue, Runqueue.insert] using
        h (sd.calendar_queue_insidx + (32 - priority))
    · rintro ⟨-, -, h⟩
      simp at h

/-! ### Picking -/

/-- `sd'` is `sd` with one occurrence of `td` taken out of its queues. -/
structure Takes (sd : SchedPercpu α) (td : α) (sd' : SchedPercpu α) : Prop where
  wf : sd.Wf → sd'.Wf
  count : ∀ x, sd'.count x + (if x = td then 1 else 0) = sd.count x

theorem Takes.congr {sd₂ : SchedPercpu α} (h : Takes sd td sd₁)
    (hrt : sd₂.realtime_runq = sd₁.realtime_runq) (hcal : sd₂.calendar_queue = sd₁.calendar_queue)
    (hidle : sd₂.idle_queue = sd₁.idle_queue) : Takes sd td sd₂ where
  wf := fun hwf => by
    obtain ⟨h1, h2⟩ := h.wf hwf
    exact ⟨hrt ▸ h1, hcal ▸ h2⟩
  count := fun x => by
    have hx := h.count x
    unfold SchedPercpu.count at hx ⊢
    rw [hrt, hcal, hidle]
    exact hx

section
variable {sd sd' : SchedPercpu α} {pinned : α → Bool} {migrate : Bool} {td : α}

section
variable (h : sd.pick_realtime_thread pinned minprio migrate = some (td, sd'))
include h

theorem pick_realtime_thread_some :
    ∃ i, Runqueue.candidate pinned migrate (sd.realtime_runq.queues i) = some td ∧
      sd' = { sd with realtime_runq := sd.realtime_runq.remove i td } := by
  unfold pick_realtime_thread at h
  split at h
  · cases h
  · dsimp only at h
    split at h
    · next i td' hscan =>
      cases h
      exact ⟨i, Runqueue.candidate_of_scan hscan, rfl⟩
    · cases h

theorem pick_realtime_thread_takes : Takes sd td sd' := by
  obtain ⟨i, hcand, rfl⟩ := pick_realtime_thread_some h
  refine ⟨fun hwf => ⟨hwf.realtime.remove _ _, hwf.calendar⟩, fun x => ?_⟩
  have hc := Runqueue.count_remove (Runqueue.mem_of_candidate hcand) x
  simp only [SchedPercpu.count]
  omega

end

/-- `td` was taken from queue `i` of the calendar queue, and nothing else was. -/
structure Picked (sd : SchedPercpu α) (i : Fin 64) (td : α) (sd' : SchedPercpu α) : Prop where
  calendar_queue : sd'.calendar_queue = sd.calendar_queue.remove i td
  realtime_runq : sd'.realtime_runq = sd.realtime_runq
  idle_queue : sd'.idle_queue = sd.idle_queue
  load : sd'.load = sd.load
  insidx : sd.calendar_queue_insidx ≠ sd.calendar_queue_runidx →
    sd'.calendar_queue_insidx ≠ sd'.calendar_queue_runidx

theorem Picked.increment (sd : SchedPercpu α) (i : Fin 64) (td : α) : Picked sd i td
    (calendar_queue_increment { sd with calendar_queue := sd.calendar_queue.remove i td }) := by
  unfold calendar_queue_increment
  dsimp only
  split
  · next heq =>
    refine ⟨rfl, rfl, rfl, rfl, fun _ h => ?_⟩
    rw [heq] at h
    exact absurd (add_eq_left.mp h) (by decide)
  · next hne => exact ⟨rfl, rfl, rfl, rfl, fun _ => Ne.symm hne⟩

theorem pick_batch_thread_some (h : sd.pick_batch_thread pinned migrate = some (td, sd')) :
    ∃ i, sd.calendar_queue.scan pinned migrate
        ((List.finRange 64).map fun k => sd.calendar_queue_runidx + k) = some (i, td) ∧
      Picked sd i td sd' := by
  unfold pick_batch_thread at h
  split at h
  · cases h
  · dsimp only at h
    split at h
    · next i td' hscan =>
      split at h
      · cases h
        exact ⟨i, hscan, .increment ..⟩
      · cases h
        exact ⟨i, hscan, rfl, rfl, rfl, rfl, id⟩
    · cases h

theorem pick_batch_thread_takes (h : sd.pick_batch_thread pinned migrate = some (td, sd')) :
    Takes sd td sd' := by
  obtain ⟨i, hscan, hpicked⟩ := pick_batch_thread_some h
  refine ⟨fun hwf => ⟨?_, ?_⟩, fun x => ?_⟩
  · exact hpicked.realtime_runq ▸ hwf.realtime
  · exact hpicked.calendar_queue ▸ hwf.calendar.remove _ _
  · have hc := Runqueue.count_remove
      (Runqueue.mem_of_candidate (Runqueue.candidate_of_scan hscan)) x
    simp only [SchedPercpu.count, hpicked.calendar_queue, hpicked.realtime_runq, hpicked.idle_queue]
    omega

theorem pick_idle_thread_some (h : sd.pick_idle_thread pinned migrate = some (td, sd')) :
    td ∈ sd.idle_queue ∧ Runqueue.eligible pinned migrate td = true ∧
      sd' = { sd with idle_queue := sd.idle_queue.erase td } := by
  unfold pick_idle_thread at h
  split at h
  · next td' hhead =>
    split at h
    · next helig =>
      cases h
      exact ⟨List.mem_of_head? hhead, helig, rfl⟩
    · cases h
  · cases h

theorem pick_idle_thread_takes (h : sd.pick_idle_thread pinned migrate = some (td, sd')) :
    Takes sd td sd' := by
  obtain ⟨hmem, -, rfl⟩ := pick_idle_thread_some h
  refine ⟨fun hwf => ⟨hwf.realtime, hwf.calendar⟩, fun x => ?_⟩
  simp only [SchedPercpu.count]
  by_cases hx : x = td
  · have hpos := List.count_pos_iff.mpr hmem
    rw [hx, List.count_erase_self]
    simp; omega
  · rw [List.count_erase_of_ne hx]
    simp [hx]

theorem sched_select_thread_some (h : sd.sched_select_thread pinned cur migrate = some (td, sd')) :
    ∃ sd₁, ((∃ minprio, sd.pick_realtime_thread pinned minprio migrate = some (td, sd₁)) ∨
        sd.pick_batch_thread pinned migrate = some (td, sd₁) ∨
        sd.pick_idle_thread pinned migrate = some (td, sd₁)) ∧
      sd' = { sd₁ with load := sd₁.load - 1 } := by
  unfold sched_select_thread at h
  dsimp only at h
  split at h
  · next p hp =>
    cases h
    exact ⟨p.2, .inl ⟨_, hp⟩, rfl⟩
  · split at h
    · cases h
    · split at h
      · next p hp =>
        cases h
        exact ⟨p.2, .inr (.inl hp), rfl⟩
      · split at h
        · cases h
        · obtain ⟨p, hp, hp'⟩ := Option.map_eq_some_iff.mp h
          cases hp'
          exact ⟨p.2, .inr (.inr hp), rfl⟩

/-- **Selecting a thread** takes exactly one occurrence of it out of the
queues, whatever the filter. -/
theorem sched_select_thread_takes
    (h : sd.sched_select_thread pinned cur migrate = some (td, sd')) : Takes sd td sd' := by
  obtain ⟨sd₁, ⟨_, hp⟩ | hp | hp, rfl⟩ := sched_select_thread_some h
  · exact (pick_realtime_thread_takes hp).congr rfl rfl rfl
  · exact (pick_batch_thread_takes hp).congr rfl rfl rfl
  · exact (pick_idle_thread_takes hp).congr rfl rfl rfl

end

/-! ### When nothing is selected -/

/-- Some queued thread passes the filter of the current thread `f`: a
realtime queue at or above its priority is non-empty, or `f` is neither
realtime nor interactive and there is a timeshared thread, or one in
the idle queue that `f` (not being of idle priority) gives way to. -/
def Eligible (sd : SchedPercpu α) (f : Filter) : Prop :=
  (∃ i, f.priority ≤ i ∧ sd.realtime_runq.queues i ≠ []) ∨
  (¬ (f.priority_class = .realtime ∨ f.interactive = true) ∧
    ((∃ i, sd.calendar_queue.queues i ≠ []) ∨ (f.priority.val ≠ PRIO_IDLE ∧ sd.idle_queue ≠ [])))

instance (sd : SchedPercpu α) (f : Filter) : Decidable (sd.Eligible f) :=
  inferInstanceAs (Decidable (_ ∨ _))

instance (sd : SchedPercpu α) : Decidable sd.Empty := inferInstanceAs (Decidable (_ ∧ _))

theorem mem_order (runidx i : Fin 64) : i ∈ (List.finRange 64).map fun k => runidx + k :=
  List.mem_map.mpr ⟨i - runidx, List.mem_finRange _, add_sub_cancel _ _⟩

omit [DecidableEq α] in
theorem queues_eq_nil_of_status {runq : Runqueue α} (hwf : runq.Wf)
    (h : runq.status = 0) (i : Fin 64) : runq.queues i = [] := by
  by_contra hne
  have hbit := (hwf i).mpr hne
  simp [Runqueue.bit, h] at hbit

theorem pick_realtime_thread_eq_none {sd : SchedPercpu α} (hwf : sd.realtime_runq.Wf)
    (pinned : α → Bool) (minprio : Nat) : sd.pick_realtime_thread pinned minprio false = none ↔
      ∀ i : Fin 64, minprio ≤ i.val → sd.realtime_runq.queues i = [] := by
  unfold pick_realtime_thread
  split
  · next h =>
    simp only [true_iff]
    exact fun i _ => queues_eq_nil_of_status hwf h i
  · have hscan := Runqueue.scan_eq_none hwf pinned false
      ((List.finRange 64).filter (fun i => decide (minprio ≤ i.val)))
    simp only [List.mem_filter, List.mem_finRange, true_and, decide_eq_true_eq,
      Runqueue.candidate_eq_nil] at hscan
    rw [← hscan]
    dsimp only
    split
    all_goals next h => simp [h]

theorem pick_batch_thread_none {sd : SchedPercpu α} (hwf : sd.calendar_queue.Wf)
    (pinned : α → Bool) (migrate : Bool) : sd.pick_batch_thread pinned migrate = none ↔
      ∀ i, Runqueue.candidate pinned migrate (sd.calendar_queue.queues i) = none := by
  have hscan := Runqueue.scan_eq_none hwf pinned migrate
    ((List.finRange 64).map fun k => sd.calendar_queue_runidx + k)
  constructor
  · intro h i
    unfold pick_batch_thread at h
    split at h
    · next hzero =>
      rw [queues_eq_nil_of_status hwf hzero i, Runqueue.candidate_eq_find]
      rfl
    · -- the cyclic order visits every queue
      refine hscan.mp ?_ i (mem_order _ i)
      dsimp only at h
      split at h
      · split at h <;> cases h
      · next hnone => exact hnone
  · intro h
    unfold pick_batch_thread
    split
    · rfl
    · simp only [hscan.mpr fun i _ => h i]

theorem pick_batch_thread_eq_none {sd : SchedPercpu α} (hwf : sd.Wf) (pinned : α → Bool) :
    sd.pick_batch_thread pinned false = none ↔ ∀ i, sd.calendar_queue.queues i = [] := by
  rw [pick_batch_thread_none hwf.calendar]
  simp only [Runqueue.candidate_eq_nil]

theorem pick_idle_thread_eq_none (sd : SchedPercpu α) (pinned : α → Bool) :
    sd.pick_idle_thread pinned false = none ↔ sd.idle_queue = [] := by
  unfold pick_idle_thread
  cases h : sd.idle_queue with
  | nil => simp
  | cons x xs => simp

/-- **Nothing is selected** exactly when no queued thread passes the filter. -/
theorem sched_select_thread_eq_none {sd : SchedPercpu α} (hwf : sd.Wf)
    (pinned : α → Bool) (f : Filter) :
    sd.sched_select_thread pinned (some f) false = none ↔ ¬ sd.Eligible f := by
  have hrt := pick_realtime_thread_eq_none hwf.realtime pinned f.priority.val
  have hbatch := pick_batch_thread_eq_none hwf pinned
  have hidle := pick_idle_thread_eq_none sd pinned
  unfold sched_select_thread Eligible
  simp only [Option.any_some, Bool.or_eq_true, decide_eq_true_eq]
  -- one pick after the other, in the order in which the source tries them
  cases hp : sd.pick_realtime_thread pinned f.priority.val false with
  | some p =>
    have hne : ¬ ∀ i : Fin 64, f.priority.val ≤ i.val → sd.realtime_runq.queues i = [] :=
      fun h => by rw [hrt.mpr h] at hp; cases hp
    push Not at hne
    obtain ⟨i, hle, hi⟩ := hne
    simp only [reduceCtorEq, false_iff, not_not]
    exact .inl ⟨i, hle, hi⟩
  | none =>
    have hno : ¬ ∃ i, f.priority ≤ i ∧ sd.realtime_runq.queues i ≠ [] := by
      rintro ⟨i, hle, hi⟩
      exact hi (hrt.mp hp i hle)
    simp only [hno, false_or]
    by_cases hf : f.priority_class = .realtime ∨ f.interactive = true
    · simp [hf]
    · simp only [hf, if_false, not_false_eq_true, true_and]
      cases hb : sd.pick_batch_thread pinned false with
      | some p =>
        have hne : ¬ ∀ i, sd.calendar_queue.queues i = [] :=
          fun h => by rw [hbatch.mpr h] at hb; cases hb
        push Not at hne
        simp only [reduceCtorEq, false_iff, not_not]
        exact .inl hne
      | none =>
        have hnone : ¬ ∃ i, sd.calendar_queue.queues i ≠ [] := by
          rintro ⟨i, hi⟩
          exact hi (hbatch.mp hb i)
        simp only [hnone, false_or]
        by_cases hp0 : f.priority.val = PRIO_IDLE
        · simp [hp0]
        · simp [hp0, hidle]

end SchedPercpu

end Ule
