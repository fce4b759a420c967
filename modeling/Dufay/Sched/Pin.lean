import Dufay.Framework.Tailq
import Dufay.Sched.Pinned

/-! # Pinning a thread

`sched_pin`, `yield_on_cpu` and `sched_remove_from_queue` of
`core/sched/ule.c`.

`sched_pin` puts the thread on its new CPU first and takes it off the old
one afterwards. Both use the one link of the thread and its field `runq`.
A thread that is queued and does not preempt the new CPU is linked in two
queues at once; one that preempts it is taken out of the queue that its
priority names, which for a timeshared thread need not be the queue that
it is in; and one that runs and preempts the new CPU is still `RUNNING`
when its old CPU switches, so that it is queued there as well.

The queues are lists here, and what the macros of `sys/queue.h` do with
the wrong queue is said on lists: `none` stands for pointers that
represent no queues any more (`tailq_represents_iff`).
-/

open Lts Tailq Function

namespace Ule

variable {n : Nat}

/-! ### Queues by name -/

inductive QueueSlot where
  | runq (kind : RunqKind) (i : Fin 64)
  | idle
  deriving DecidableEq

structure QueueName (n : Nat) where
  cpu : Fin (n + 1)
  slot : QueueSlot
  deriving DecidableEq

namespace SchedPercpu

variable {α : Type}

section
variable (sd : SchedPercpu α)

/-- The run queue that a `runq` pointer of this kind points to. -/
def runq : RunqKind → Runqueue α
  | .realtime => sd.realtime_runq
  | .calendar => sd.calendar_queue

def setRunq (kind : RunqKind) (runq : Runqueue α) : SchedPercpu α :=
  match kind with
  | .realtime => { sd with realtime_runq := runq }
  | .calendar => { sd with calendar_queue := runq }

def queue : QueueSlot → List α
  | .runq kind i => (sd.runq kind).queues i
  | .idle => sd.idle_queue

/-- Replace one queue and leave the bitmaps alone. -/
def setQueue (slot : QueueSlot) (q : List α) : SchedPercpu α :=
  match slot with
  | .runq kind i =>
    sd.setRunq kind { sd.runq kind with queues := Function.update (sd.runq kind).queues i q }
  | .idle => { sd with idle_queue := q }

theorem queue_setQueue (slot : QueueSlot) (q : List α) :
    (sd.setQueue slot q).queue = update sd.queue slot q := by
  funext slot'
  by_cases hslot : slot' = slot
  · subst hslot
    rw [update_self]
    match slot' with
    | .runq .realtime i =>
      show update sd.realtime_runq.queues i q i = q
      rw [update_self]
    | .runq .calendar i =>
      show update sd.calendar_queue.queues i q i = q
      rw [update_self]
    | .idle => rfl
  · rw [update_of_ne hslot]
    match slot, slot' with
    | .idle, .idle => exact absurd rfl hslot
    | .idle, .runq .realtime j => rfl
    | .idle, .runq .calendar j => rfl
    | .runq .realtime i, .idle => rfl
    | .runq .calendar i, .idle => rfl
    | .runq .realtime i, .runq .calendar j => rfl
    | .runq .calendar i, .runq .realtime j => rfl
    | .runq .realtime i, .runq .realtime j =>
      have hji : j ≠ i := fun h => hslot (by rw [h])
      show update sd.realtime_runq.queues i q j = sd.realtime_runq.queues j
      rw [update_of_ne hji]
    | .runq .calendar i, .runq .calendar j =>
      have hji : j ≠ i := fun h => hslot (by rw [h])
      show update sd.calendar_queue.queues i q j = sd.calendar_queue.queues j
      rw [update_of_ne hji]

theorem load_setQueue (slot : QueueSlot) (q : List α) : (sd.setQueue slot q).load = sd.load := by
  match slot with
  | .runq .realtime i => rfl
  | .runq .calendar i => rfl
  | .idle => rfl

theorem size_setQueue (slot : QueueSlot) (q : List α) :
    (sd.setQueue slot q).size + (sd.queue slot).length = sd.size + q.length := by
  match slot with
  | .runq .realtime i =>
    have h := size_update sd.realtime_runq.queues i q
    show (∑ j, (update sd.realtime_runq.queues i q j).length) + sd.calendar_queue.size +
      sd.idle_queue.length + (sd.realtime_runq.queues i).length = _
    unfold size Runqueue.size
    omega
  | .runq .calendar i =>
    have h := size_update sd.calendar_queue.queues i q
    show sd.realtime_runq.size + (∑ j, (update sd.calendar_queue.queues i q j).length) +
      sd.idle_queue.length + (sd.calendar_queue.queues i).length = _
    unfold size Runqueue.size
    omega
  | .idle =>
    show sd.realtime_runq.size + sd.calendar_queue.size + q.length + sd.idle_queue.length = _
    unfold size
    omega

end

variable [DecidableEq α]

theorem count_setQueue (sd : SchedPercpu α) (slot : QueueSlot) (q : List α) (x : α) :
    (sd.setQueue slot q).count x + (sd.queue slot).count x = sd.count x + q.count x := by
  match slot with
  | .runq .realtime i =>
    have h := Runqueue.count_update sd.realtime_runq.queues i q x
    show (∑ j, (update sd.realtime_runq.queues i q j).count x) + sd.calendar_queue.count x +
      sd.idle_queue.count x + (sd.realtime_runq.queues i).count x = _
    unfold count Runqueue.count
    omega
  | .runq .calendar i =>
    have h := Runqueue.count_update sd.calendar_queue.queues i q x
    show sd.realtime_runq.count x + (∑ j, (update sd.calendar_queue.queues i q j).count x) +
      sd.idle_queue.count x + (sd.calendar_queue.queues i).count x = _
    unfold count Runqueue.count
    omega
  | .idle =>
    show sd.realtime_runq.count x + sd.calendar_queue.count x + q.count x + sd.idle_queue.count x = _
    unfold count
    omega

theorem count_pos_iff (sd : SchedPercpu α) (x : α) : 0 < sd.count x ↔ ∃ slot, x ∈ sd.queue slot :=
    by
  constructor
  · intro h
    unfold count Runqueue.count at h
    by_contra hno
    push Not at hno
    have hrt : ∑ i, (sd.realtime_runq.queues i).count x = 0 :=
      Finset.sum_eq_zero fun i _ => List.count_eq_zero.mpr (hno (.runq .realtime i))
    have hcal : ∑ i, (sd.calendar_queue.queues i).count x = 0 :=
      Finset.sum_eq_zero fun i _ => List.count_eq_zero.mpr (hno (.runq .calendar i))
    have hidle : sd.idle_queue.count x = 0 := List.count_eq_zero.mpr (hno .idle)
    omega
  · rintro ⟨slot, hmem⟩
    have h := sd.count_setQueue slot [] x
    have hpos := List.count_pos_iff.mpr hmem
    rw [List.count_nil] at h
    omega

theorem slot_unique {sd : SchedPercpu α} (hone : sd.count x ≤ 1)
    (h : x ∈ sd.queue slot) (h' : x ∈ sd.queue slot') : slot' = slot := by
  by_contra hne
  have hcount := sd.count_setQueue slot [] x
  have hpos := List.count_pos_iff.mpr h
  rw [List.count_nil] at hcount
  -- taken out of the first queue, it is still in the other
  have hpos' : 0 < (sd.setQueue slot []).count x := by
    rw [count_pos_iff]
    refine ⟨slot', ?_⟩
    rw [queue_setQueue, update_of_ne hne]
    exact h'
  omega

end SchedPercpu

section
variable (s : State n) (name : QueueName n)

def State.queue : List (Tid n) := (s.cpus name.cpu).sched_data.queue name.slot

def setQueue (q : List (Tid n)) : State n := setCpu s name.cpu ((s.cpus name.cpu).setQueues
    ((s.cpus name.cpu).sched_data.setQueue name.slot q))

theorem queue_setQueue (q : List (Tid n)) : (setQueue s name q).queue = update s.queue name q := by
  funext name'
  unfold State.queue setQueue
  by_cases hcpu : name'.cpu = name.cpu
  · rw [hcpu, setCpu_self]
    show ((s.cpus name.cpu).sched_data.setQueue name.slot q).queue name'.slot = _
    rw [SchedPercpu.queue_setQueue]
    by_cases hslot : name'.slot = name.slot
    · have hname : name' = name := by
        cases name'
        cases name
        cases hcpu
        cases hslot
        rfl
      rw [hname, update_self, update_self]
    · have hname : name' ≠ name := fun h => hslot (by rw [h])
      rw [update_of_ne hslot, update_of_ne hname, hcpu]
  · have hname : name' ≠ name := fun h => hcpu (by rw [h])
    rw [setCpu_ne _ _ hcpu, update_of_ne hname]

end

def allQueues (n : Nat) : List (QueueName n) := (List.finRange (n + 1)).flatMap fun c =>
    ⟨c, .idle⟩ :: ((List.finRange 64).map fun i => ⟨c, .runq .realtime i⟩) ++
      (List.finRange 64).map fun i => ⟨c, .runq .calendar i⟩

theorem mem_allQueues : name ∈ allQueues n := by
  unfold allQueues
  rw [List.mem_flatMap]
  refine ⟨name.cpu, List.mem_finRange _, ?_⟩
  match name with
  | ⟨c, .idle⟩ => simp
  | ⟨c, .runq .realtime i⟩ => simp
  | ⟨c, .runq .calendar i⟩ => simp

/-- The queue that a thread is linked in. -/
def linkedIn (s : State n) (td : Tid n) : Option (QueueName n) :=
  (allQueues n).find? fun name => decide (td ∈ s.queue name)

theorem mem_of_linkedIn {s : State n} (h : linkedIn s td = some name) : td ∈ s.queue name := by
  have hfind := @List.find?_some _ (fun name => decide (td ∈ s.queue name)) name (allQueues n) h
  exact of_decide_eq_true hfind

theorem linkedIn_eq_none : linkedIn s td = none ↔ ∀ name, td ∉ s.queue name := by
  unfold linkedIn
  rw [List.find?_eq_none]
  constructor
  · intro h name hmem
    exact h name (mem_allQueues) (decide_eq_true hmem)
  · intro h name _ hmem
    exact h name (of_decide_eq_true hmem)

/-- `TAILQ_REMOVE(head, td, runqueue_hook)`. A thread that has a successor is
unlinked from the queue that it is in, whatever the head. -/
def tailq_remove (s : State n) (head : QueueName n) (td : Tid n) : Option (State n) :=
  match linkedIn s td with
  -- the link is whatever the last removal has left
  | none => none
  | some name =>
    if head = name ∨ (s.queue name).getLast? ≠ some td then
      some (setQueue s name ((s.queue name).erase td))
    -- the tail pointer of the head is changed instead of that of the queue
    else none

/-- `~(1 << i)` as an `int`, extended to the 64 bits of the status. Shift
counts are taken modulo 32, as the machine takes them. -/
def int_mask (i : Fin 64) : BitVec 64 := (~~~(1#32 <<< (i.val % 32))).signExtend 64

section
variable (s : State n)

def clear_status (c : Fin (n + 1)) (kind : RunqKind) (i : Fin 64) : State n :=
  let sd := (s.cpus c).sched_data
  setCpu s c ((s.cpus c).setQueues
    (sd.setRunq kind { sd.runq kind with status := (sd.runq kind).status &&& int_mask i }))

def decrement_load (c : Fin (n + 1)) : State n :=
  let sd := (s.cpus c).sched_data
  setCpu s c ((s.cpus c).setQueues { sd with load := sd.load - 1 })

def sched_remove_from_queue (c : Fin (n + 1)) (td : Tid n) : Option (State n) :=
  let runq := (s.threads td).runq
  let priority := (s.threads td).priority
  let s := decrement_load s c
  match runq with
  -- must be an idle thread
  | none => tailq_remove s ⟨c, .idle⟩ td
  | some (d, kind) =>
    match tailq_remove s ⟨d, .runq kind priority⟩ td with
    | none => none
    | some s =>
      -- clear status bit if empty
      if s.queue ⟨d, .runq kind priority⟩ = [] then some (clear_status s d kind priority)
      else some s

/-- `yield_on_cpu`, run by CPU `self`. -/
def yield_on_cpu (self c : Fin (n + 1)) : State n :=
  if c = self then sched_yield s c
  else setCpu s c { s.cpus c with preemption_reason := .migration }

/-- The thread that `sched_try_preempt` inserts into a queue. -/
def insertedBy (c : Fin (n + 1)) (td : Tid n) : Option (Tid n) :=
  if should_preempt (s.threads td) (s.cpus c) then (s.cpus c).next_thread else some td

/-- `sched_pin`, run by CPU `self`. -/
def sched_pin (self : Fin (n + 1)) (td : Tid n) (cpu : Fin (n + 1)) : Option (State n) :=
  let t := s.threads td
  let s := setThread s td { t with pinned := true, last_cpu := some cpu }
  match t.last_cpu with
  -- called before the thread even got the chance to run
  | none => some s
  | some prev_cpu =>
    if prev_cpu = cpu then some s
    -- a thread that is inserted must not be linked
    else if (insertedBy s cpu td).any fun x => (linkedIn s x).isSome then none
    else
      let s := sched_try_preempt s cpu td
      if t.state = .running then some (yield_on_cpu s self prev_cpu)
      else sched_remove_from_queue s prev_cpu td

end

/-! ### Lists and pointers -/

section Pointers

variable {s s' : State n} {L : Links (QueueName n) (Tid n)}

/-- The queue that a thread is inserted into. -/
def SchedPercpu.slotFor (sd : SchedPercpu (Tid n)) (cl : PriorityClass) (interactive : Bool)
    (priority : Fin 64) : QueueSlot :=
  if cl = .realtime || interactive then .runq .realtime priority
  else
    match cl with
    | .batch => .runq .calendar (sd.calendar_queue_insidx + (32 - priority))
    | _ => .idle

theorem SchedPercpu.queue_insert (sd : SchedPercpu (Tid n)) (td : Tid n) (cl : PriorityClass)
    (interactive : Bool) (priority : Fin 64) : (sd.insert td cl interactive priority).queue =
      (sd.setQueue (sd.slotFor cl interactive priority)
        (sd.queue (sd.slotFor cl interactive priority) ++ [td])).queue := by
  funext slot
  -- the bitmap and the load are no part of the lists
  match slot with
  | .runq .realtime i => cases cl <;> cases interactive <;> rfl
  | .runq .calendar i => cases cl <;> cases interactive <;> rfl
  | .idle => cases cl <;> cases interactive <;> rfl

def queueFor (s : State n) (c : Fin (n + 1)) (td : Tid n) : QueueName n :=
  ⟨c, (s.cpus c).sched_data.slotFor (s.threads td).priority_class (s.threads td).interactive
    (s.threads td).priority⟩

theorem queue_insert (s : State n) (c : Fin (n + 1)) (td : Tid n) :
    (sched_insert_in_queue s c td).queue =
      update s.queue (queueFor s c td) (s.queue (queueFor s c td) ++ [td]) := by
  rw [← queue_setQueue]
  funext name
  unfold State.queue setQueue
  by_cases hcpu : name.cpu = c
  · rw [hcpu, sched_insert_in_queue_cpus]
    show ((s.cpus c).sched_data.insert td _ _ _).queue name.slot = _
    rw [SchedPercpu.queue_insert]
    show _ = ((setCpu s c _).cpus c).sched_data.queue name.slot
    rw [setCpu_self]
    rfl
  · rw [sched_insert_in_queue_cpus_ne s c td hcpu]
    show _ = ((setCpu s c _).cpus name.cpu).sched_data.queue name.slot
    rw [setCpu_ne _ _ hcpu]

section

variable (hr : Represents L s.queue)

include hr

theorem insert_represents (h : linkedIn s td = none) :
    Represents (L.insertTail (queueFor s c td) td) (sched_insert_in_queue s c td).queue := by
  rw [queue_insert]
  exact hr.insertTail (linkedIn_eq_none.mp h)

theorem tailq_remove_represents
    (h : tailq_remove s head td = some s') : Represents (L.remove head td) s'.queue := by
  unfold tailq_remove at h
  split at h
  · cases h
  · next name hname =>
    have hmem := mem_of_linkedIn hname
    obtain ⟨hok, rfl⟩ := of_guard h
    rw [queue_setQueue]
    by_cases hhead : head = name
    · rw [hhead]
      exact hr.remove hmem
    · exact hr.remove_through hmem (hok.resolve_left hhead) head

theorem tailq_remove_damages (hname : linkedIn s td = some name) (h : tailq_remove s head td = none)
    (q : QueueName n → List (Tid n)) : ¬ Represents (L.remove head td) q := by
  unfold tailq_remove at h
  rw [hname] at h
  dsimp only at h
  split at h
  · cases h
  · next hbad =>
    obtain ⟨hhead, hlast⟩ := not_or.mp hbad
    exact hr.remove_damages (not_not.mp hlast) hhead q

end

/-- **The lists stand for the pointers**: whatever pointers represent the
queues, `TAILQ_INSERT_TAIL` leaves queues exactly if the thread is in none,
and `TAILQ_REMOVE` of a linked thread exactly where `tailq_remove` returns;
the queues are then those of the model. -/
theorem tailq_represents_iff (hr : Represents L s.queue) (c : Fin (n + 1)) (head : QueueName n)
    (td : Tid n) :
    ((∃ q, Represents (L.insertTail (queueFor s c td) td) q) ↔ linkedIn s td = none) ∧
      (linkedIn s td = none → Represents (L.insertTail (queueFor s c td) td)
        (sched_insert_in_queue s c td).queue) ∧
      (linkedIn s td ≠ none → ((∃ q, Represents (L.remove head td) q) ↔
        tailq_remove s head td ≠ none)) ∧
      ∀ s', tailq_remove s head td = some s' → Represents (L.remove head td) s'.queue := by
  refine ⟨⟨fun h => ?_, fun h => ⟨_, insert_represents hr h⟩⟩, insert_represents hr,
    fun h => ⟨fun hq hnone => ?_, fun hsome => ?_⟩, fun s' => tailq_remove_represents hr⟩
  · obtain ⟨q, hq⟩ := h
    by_contra hlinked
    obtain ⟨name, hname⟩ := Option.ne_none_iff_exists'.1 hlinked
    exact hr.insertTail_damages (mem_of_linkedIn hname) _ q hq
  · obtain ⟨name, hname⟩ := Option.ne_none_iff_exists'.1 h
    obtain ⟨q, hq⟩ := hq
    exact tailq_remove_damages hr hname hnone q hq
  · obtain ⟨s', hs'⟩ := Option.ne_none_iff_exists'.1 hsome
    exact ⟨_, tailq_remove_represents hr hs'⟩

/-- Pointers after `TAILQ_INIT` of every queue. -/
def emptyLinks : Links (QueueName n) (Tid n) := ⟨fun _ => none, .first, .next⟩

/-- The first thread is queued on a CPU that has just booted, and taken out again. -/
theorem tailq_represents_iff_boot : Represents emptyLinks (bootAll (n := 0)).queue ∧
    Represents (emptyLinks.insertTail (queueFor bootAll 0 (.thread 0)) (.thread 0))
      (sched_insert_in_queue (bootAll (n := 0)) 0 (.thread 0)).queue ∧
    ∃ s', tailq_remove (sched_insert_in_queue (bootAll (n := 0)) 0 (.thread 0))
        (queueFor bootAll 0 (.thread 0)) (.thread 0) = some s' ∧
      Represents ((emptyLinks.insertTail (queueFor bootAll 0 (.thread 0)) (.thread 0)).remove
        (queueFor bootAll 0 (.thread 0)) (.thread 0)) s'.queue := by
  have hempty : ∀ name, (bootAll (n := 0)).queue name = [] := by
    intro name
    match name with
    | ⟨c, .idle⟩ | ⟨c, .runq .realtime i⟩ | ⟨c, .runq .calendar i⟩ => rfl
  have hr : Represents emptyLinks (bootAll (n := 0)).queue := by
    constructor <;> simp [hempty, Seg, emptyLinks]
  have hin := (tailq_represents_iff hr 0 ⟨0, .idle⟩ (.thread 0)).2.1
    (linkedIn_eq_none.2 (by simp [hempty]))
  obtain ⟨s', hremove⟩ := Option.isSome_iff_exists.mp
    (show (tailq_remove (sched_insert_in_queue (bootAll (n := 0)) 0 (.thread 0))
      (queueFor bootAll 0 (.thread 0)) (.thread 0)).isSome by decide +kernel)
  exact ⟨hr, hin, s', hremove, (tailq_represents_iff hin 0 _ _).2.2.2 s' hremove⟩

end Pointers

end Ule
