import Dufay.Framework.Wheel
import Dufay.Sched.Ule

/-! # The calendar queue as a wheel

The calendar queue of `core/sched/ule.c` is a `Wheel` of 64 places: its
hand is the run index, and `pick_batch_thread` takes the first thread of
the nearest queue that is not empty. A thread of priority `p` that is put
back goes to the queue at distance `33 - p`, because the insert index is
one ahead of the run index (`Leads`) once a tick has passed.
-/

namespace Ule

open SchedPercpu

open Function

variable {α : Type} [DecidableEq α] {n : Nat}

/-! ### Distances -/

/-- How far the search for a thread goes before it comes to queue `i`. -/
def distance (runidx i : Fin 64) : Nat := (i - runidx).val

theorem distance_lt : distance runidx i < 64 := (i - runidx).isLt

theorem distance_add : distance runidx (runidx + k) = k.val := by
  unfold distance
  rw [add_sub_cancel_left]

variable {i : Fin 64} {sd : SchedPercpu α} {next : α} {rest : List α}

theorem distance_inj (h : distance runidx i = distance runidx j) : i = j :=
  sub_left_injective (Fin.ext h)

theorem distance_succ :
    distance (runidx + 1) i = if distance runidx i = 0 then 63 else distance runidx i - 1 := by
  unfold distance
  have hsub : i - (runidx + 1) = i - runidx - 1 := sub_add_eq_sub_sub ..
  rw [hsub]
  generalize i - runidx = k
  revert k
  decide

/-! ### The pick -/

/-- The queue that `pick_batch_thread` takes a thread from. -/
def SchedPercpu.front (sd : SchedPercpu α) : Option (Fin 64) :=
  ((List.finRange 64).map fun k => sd.calendar_queue_runidx + k).find?
    fun i => !(sd.calendar_queue.queues i).isEmpty

theorem findSome_order {f : Fin 64 → Option β}
    (h : ((List.finRange 64).map fun k => runidx + k).findSome? f = some b) :
    ∃ k, f (runidx + k) = some b ∧ ∀ j < k, f (runidx + j) = none := by
  rw [List.findSome?_map] at h
  obtain ⟨before, k, after, horder, hk, hbefore⟩ := List.findSome?_eq_some_iff.mp h
  refine ⟨k, hk, fun j hj => hbefore j ?_⟩
  have hsorted := List.pairwise_lt_finRange 64
  have hmem := List.mem_finRange j
  rw [horder] at hsorted hmem
  obtain hmem | hmem := List.mem_append.mp hmem
  · exact hmem
  · obtain rfl | hmem := List.mem_cons.mp hmem
    · exact absurd hj (lt_irrefl j)
    · exact absurd hj (List.rel_of_pairwise_cons (List.pairwise_append.mp hsorted).2.1 hmem).not_gt

omit [DecidableEq α] in
theorem SchedPercpu.front_nearest (h : sd.front = some i) : sd.calendar_queue.queues i ≠ [] ∧
      ∀ j, sd.calendar_queue.queues j ≠ [] →
        distance sd.calendar_queue_runidx i ≤ distance sd.calendar_queue_runidx j := by
  rw [front, List.find?_eq_findSome?_guard] at h
  obtain ⟨k, hk, hbefore⟩ := findSome_order h
  obtain ⟨rfl, hne⟩ := Option.guard_eq_some_iff.mp hk
  refine ⟨by simpa using hne, fun j hj => ?_⟩
  rw [distance_add]
  by_contra hlt
  have hempty := hbefore _ (Fin.lt_def.mpr (Nat.not_le.mp hlt))
  rw [add_sub_cancel, Option.guard_eq_none_iff] at hempty
  exact hj (by simpa using hempty)

omit [DecidableEq α] in
theorem SchedPercpu.front_eq_none (h : sd.front = none) : sd.calendar_queue.queues i = [] := by
  have hempty := List.find?_eq_none.mp h i (mem_order _ i)
  rw [Bool.not_eq_true, Bool.not_eq_false', List.isEmpty_iff] at hempty
  exact hempty

/-- The loop of `pick_batch_thread`, for `fuel` rounds: the queues that are
examined, and what is found. -/
def Runqueue.batchLoop (runq : Runqueue α) (pinned : α → Bool) (migrate : Bool) :
    Nat → Nat → Nat → Option (List (Fin 64) × Option (Fin 64 × α))
  | 0, _, _ => none
  | fuel + 1, i, cnt =>
    let i := Fin.ofNat 64 (if 64 ≤ i then 0 else i)
    let retry := (runq.batchLoop pinned migrate fuel (i + 1) (cnt + 1)).map fun r => (i :: r.1, r.2)
    if 64 ≤ cnt then some ([], none)
    else if runq.bit i then
      match candidate pinned migrate (runq.queues i) with
      | some td => some ([i], some (i, td))
      | none => retry
    else retry

section pick

open Runqueue

variable {pinned : α → Bool} {migrate : Bool} {td : α}

omit [DecidableEq α] in
theorem batchLoop_eq (runq : Runqueue α) {i : Nat} {j : Fin 64}
    (hi : (if 64 ≤ i then 0 else i) = j.val)
    (hcnt : cnt + n = 64) : ∃ visited, visited <+: List.iterate (· + 1) j n ∧ ∀ fuel > n,
      runq.batchLoop pinned migrate fuel i cnt =
        some (visited, runq.scan pinned migrate (List.iterate (· + 1) j n)) := by
  induction n generalizing i j cnt with
  | zero =>
    refine ⟨[], List.nil_prefix, fun fuel hfuel => ?_⟩
    obtain ⟨fuel, rfl⟩ := Nat.exists_eq_add_of_lt hfuel
    exact if_pos (by omega)
  | succ n ih =>
    have hj : Fin.ofNat 64 (if 64 ≤ i then 0 else i) = j := by
      rw [hi]
      exact Fin.ofNat_val_eq_self j
    have hnext : (if 64 ≤ j.val + 1 then 0 else j.val + 1) = (j + 1).val := by
      rw [Fin.val_add]
      show _ = (j.val + 1) % 64
      split <;> omega
    obtain ⟨visited, hvisited, hloop⟩ := ih hnext (show cnt + 1 + n = 64 by omega)
    refine ⟨if runq.bit j ∧ (candidate pinned migrate (runq.queues j)).isSome then [j]
      else j :: visited, ?_, fun fuel hfuel => ?_⟩
    · split
      · exact List.prefix_append [j] _
      · exact (List.prefix_cons_inj j).mpr hvisited
    · obtain ⟨fuel, rfl⟩ := Nat.exists_eq_succ_of_ne_zero (Nat.ne_zero_of_lt hfuel)
      simp only [batchLoop, hj, hloop fuel (Nat.lt_of_succ_lt_succ hfuel), List.iterate, scan,
        Option.map_some]
      rw [if_neg (by omega)]
      cases runq.bit j with
      | false => rfl
      | true => cases candidate pinned migrate (runq.queues j) <;> rfl

omit [DecidableEq α] in
theorem candidate_eq_none (q : List α) : candidate pinned migrate q = none ↔
    ∀ x ∈ q, eligible pinned migrate x = false := by
  rw [candidate_eq_find, List.find?_eq_none]
  simp only [Bool.not_eq_true]

/-- `td` is the first eligible thread of the first queue that has one, in circular
order, and nothing else is taken. -/
def Picks (sd : SchedPercpu α) (pinned : α → Bool) (migrate : Bool) (td : α)
    (sd' : SchedPercpu α) : Prop :=
  ∃ k before after, (∀ j < k, ∀ x ∈ sd.calendar_queue.queues (sd.calendar_queue_runidx + j),
      eligible pinned migrate x = false) ∧
    sd.calendar_queue.queues (sd.calendar_queue_runidx + k) = before ++ td :: after ∧
    (∀ x ∈ before, eligible pinned migrate x = false) ∧ eligible pinned migrate td = true ∧
    sd'.calendar_queue.queues =
      update sd.calendar_queue.queues (sd.calendar_queue_runidx + k) (before ++ after) ∧
    Picked sd (sd.calendar_queue_runidx + k) td sd'

theorem Picks.of_some {sd' : SchedPercpu α} (hwf : sd.calendar_queue.Wf)
    (h : sd.pick_batch_thread pinned migrate = some (td, sd')) :
    Picks sd pinned migrate td sd' := by
  obtain ⟨i, hscan, hpicked⟩ := pick_batch_thread_some h
  rw [scan_eq_findSome hwf] at hscan
  obtain ⟨k, hk, hbefore⟩ := findSome_order hscan
  obtain ⟨x, hx, hpair⟩ := Option.map_eq_some_iff.mp hk
  cases hpair
  rw [candidate_eq_find] at hx
  obtain ⟨helig, before, after, hq, hfirst⟩ := List.find?_eq_some_iff_append.mp hx
  have hnot : ∀ x ∈ before, eligible pinned migrate x = false := fun x hx => by
    simpa using hfirst x hx
  have htd : td ∉ before := fun hin => by
    rw [hnot td hin] at helig
    cases helig
  refine ⟨k, before, after, fun j hj => ?_, hq, hnot, helig, ?_, hpicked⟩
  · exact (candidate_eq_none _).mp (Option.map_eq_none_iff.mp (hbefore j hj))
  · rw [hpicked.calendar_queue, remove, hq, List.erase_append_right _ htd, List.erase_cons_head]

omit [DecidableEq α] in
theorem iterate_eq_order (runidx : Fin 64) :
    List.iterate (· + 1) runidx 64 = (List.finRange 64).map fun k => runidx + k := by
  revert runidx
  decide +kernel

/-- **A pick from the calendar queue** examines each queue once at most, and takes the
first eligible thread in circular order, or none if there is none. -/
theorem pick_batch_thread_picks (sd : SchedPercpu α) (hwf : sd.calendar_queue.Wf)
    (pinned : α → Bool) (migrate : Bool) :
    (∃ visited, visited.Nodup ∧ ∀ fuel > 64,
      sd.calendar_queue.batchLoop pinned migrate fuel sd.calendar_queue_runidx 0 =
        some (visited, sd.calendar_queue.scan pinned migrate
          ((List.finRange 64).map fun k => sd.calendar_queue_runidx + k))) ∧
    (sd.pick_batch_thread pinned migrate = none ↔
      ∀ i, ∀ td ∈ sd.calendar_queue.queues i, eligible pinned migrate td = false) ∧
    ∀ td sd', sd.pick_batch_thread pinned migrate = some (td, sd') →
      Picks sd pinned migrate td sd' := by
  refine ⟨?_, ?_, fun td sd' h => .of_some hwf h⟩
  · obtain ⟨visited, hvisited, hloop⟩ := batchLoop_eq sd.calendar_queue
      (if_neg (Nat.not_le.mpr sd.calendar_queue_runidx.isLt)) (Nat.zero_add 64)
    rw [iterate_eq_order] at hvisited hloop
    have hnodup := (List.nodup_finRange 64).map (add_right_injective sd.calendar_queue_runidx)
    exact ⟨visited, hvisited.sublist.nodup hnodup, hloop⟩
  · rw [pick_batch_thread_none hwf]
    simp only [candidate_eq_none]

def twoBatch : SchedPercpu (Tid 0) :=
  (emptyQueues.insert (.thread 0) .batch false 20).insert (.thread 1) .batch false 20

/-- The first thread is pinned, and the second one is taken for migration. -/
theorem pick_batch_thread_picks_two : twoBatch.calendar_queue.Wf ∧
    ∃ sd', twoBatch.pick_batch_thread (· = .thread 0) true = some (.thread 1, sd') ∧
      Picks twoBatch (· = .thread 0) true (.thread 1) sd' := by
  have hwf : twoBatch.Wf := (emptyQueues_wf.insert ..).insert ..
  have hpick : (twoBatch.pick_batch_thread (· = .thread 0) true).map Prod.fst =
      some (.thread 1) := by decide +kernel
  obtain ⟨⟨_, sd'⟩, hsome, rfl⟩ := Option.map_eq_some_iff.mp hpick
  exact ⟨hwf.calendar, sd', hsome,
    (pick_batch_thread_picks twoBatch hwf.calendar _ _).2.2 _ _ hsome⟩

end pick

/-! ### Queues and places -/

/-- The queues hold the threads that wait, each in the queue at its
distance. -/
structure Arranged (queues : Fin 64 → List α) (runidx : Fin 64) (place : α → Option Nat) :
    Prop where
  nodup : ∀ i, (queues i).Nodup
  mem : ∀ td i, td ∈ queues i ↔ place td = some (distance runidx i)
  lt : ∀ td d, place td = some d → d < 64

variable {queues : Fin 64 → List α} {runidx : Fin 64} {place : α → Option Nat}

section

variable (h : Arranged queues runidx place)

include h

omit [DecidableEq α] in
theorem Arranged.queued
    (hplace : place td = some d) : ∃ i, distance runidx i = d ∧ td ∈ queues i := by
  have hdist : distance runidx (runidx + ⟨d, h.lt td d hplace⟩) = d := distance_add ..
  refine ⟨_, hdist, ?_⟩
  rw [h.mem, hdist]
  exact hplace

theorem Arranged.insert (htd : place td = none) (i : Fin 64) :
    Arranged (update queues i (queues i ++ [td])) runidx
      (update place td (some (distance runidx i))) := by
  have hnot : ∀ j, td ∉ queues j := by
    intro j hj
    rw [h.mem, htd] at hj
    exact absurd hj nofun
  constructor
  · refine (forall_update_iff _ fun _ => List.Nodup).mpr ⟨?_, fun j _ => h.nodup j⟩
    exact List.nodup_append_comm.mpr (List.nodup_cons.mpr ⟨hnot i, h.nodup i⟩)
  · intro x j
    by_cases hx : x = td
    · subst hx
      rw [update_self, Option.some_inj]
      by_cases hj : j = i
      · subst hj
        rw [update_self]
        simp
      · rw [update_of_ne hj]
        exact ⟨fun hmem => absurd hmem (hnot j), fun heq => absurd (distance_inj heq).symm hj⟩
    · rw [update_of_ne hx, ← h.mem]
      by_cases hj : j = i
      · subst hj
        rw [update_self, List.mem_append, List.mem_singleton]
        exact or_iff_left hx
      · rw [update_of_ne hj]
  · intro x d hx
    rw [update_apply] at hx
    split at hx
    · exact Option.some.inj hx ▸ distance_lt
    · exact h.lt x d hx

theorem Arranged.remove (htd : td ∈ queues i) :
    Arranged (update queues i ((queues i).erase td)) runidx (update place td none) := by
  constructor
  · exact (forall_update_iff _ fun _ => List.Nodup).mpr ⟨(h.nodup i).erase td, fun j _ => h.nodup j⟩
  · intro x j
    by_cases hx : x = td
    · subst hx
      rw [update_self]
      refine ⟨fun hmem => ?_, nofun⟩
      by_cases hj : j = i
      · rw [hj, update_self] at hmem
        exact absurd hmem (h.nodup i).not_mem_erase
      · -- it was in one queue only
        rw [update_of_ne hj, h.mem] at hmem
        rw [h.mem, hmem] at htd
        exact absurd (distance_inj (Option.some.inj htd)) hj
    · rw [update_of_ne hx, ← h.mem]
      by_cases hj : j = i
      · rw [hj, update_self]
        exact List.mem_erase_of_ne hx
      · rw [update_of_ne hj]
  · intro x d hx
    rw [update_apply] at hx
    split at hx
    · cases hx
    · exact h.lt x d hx

omit [DecidableEq α] in
theorem Arranged.increment (hzero : ∀ td, place td ≠ some 0) :
    Arranged queues (runidx + 1) fun td => (place td).map (· - 1) := by
  constructor
  · exact h.nodup
  · intro td j
    rw [h.mem, Option.map_eq_some_iff, distance_succ]
    constructor
    · intro hplace
      refine ⟨_, hplace, (if_neg ?_).symm⟩
      intro hd
      rw [hd] at hplace
      exact hzero td hplace
    · intro ⟨d, hplace, hd⟩
      have hlt := h.lt td d hplace
      have hne : d ≠ 0 := fun heq => hzero td (heq ▸ hplace)
      rw [hplace, Option.some_inj]
      by_cases hj : distance runidx j = 0
      · rw [if_pos hj] at hd
        omega
      · rw [if_neg hj] at hd
        omega
  · intro td d hd
    obtain ⟨d', hd', rfl⟩ := Option.map_eq_some_iff.mp hd
    have hlt := h.lt td d' hd'
    omega

end

/-! ### One turn -/

/-- Only timeshared threads are queued. -/
structure BatchOnly (sd : SchedPercpu α) : Prop where
  wf : sd.Wf
  realtime : ∀ i, sd.realtime_runq.queues i = []
  idle : sd.idle_queue = []

/-- The insert index is one ahead of the run index. -/
def Leads (sd : SchedPercpu α) : Prop := sd.calendar_queue_insidx = sd.calendar_queue_runidx + 1

omit [DecidableEq α] in
theorem Leads.distance_insert (h : Leads sd) (hlow : 1 ≤ p.val) (hhigh : p.val ≤ 32) :
    distance sd.calendar_queue_runidx (sd.calendar_queue_insidx + (32 - p)) = 33 - p.val := by
  rw [h, add_assoc, distance_add, Fin.val_add, Fin.sub_val_of_le hhigh]
  show (1 + (32 - p.val)) % 64 = 33 - p.val
  omega

omit [DecidableEq α] in
theorem distance_insert_le (h : sd.calendar_queue_insidx = sd.calendar_queue_runidx ∨ Leads sd)
    (hlow : 1 ≤ p.val) (hhigh : p.val ≤ 32) :
    distance sd.calendar_queue_runidx (sd.calendar_queue_insidx + (32 - p)) ≤ 33 - p.val := by
  obtain heq | hleads := h
  · rw [heq, distance_add, Fin.sub_val_of_le hhigh]
    show 32 - p.val ≤ 33 - p.val
    omega
  · exact Nat.le_of_eq (hleads.distance_insert hlow hhigh)

theorem advance_insidx_leads {sd : SchedPercpu (Tid n)}
    (h : sd.calendar_queue_insidx = sd.calendar_queue_runidx ∨ Leads sd) :
    Leads (advance_insidx sd) := by
  unfold advance_insidx
  obtain heq | hleads := h
  · rw [if_pos heq.symm]
    exact congrArg (· + 1) heq
  · split
    · next heq =>
      unfold Leads at hleads
      rw [← heq] at hleads
      exact absurd (left_eq_add.mp hleads) (by decide)
    · exact hleads

theorem advance_insidx_front (sd : SchedPercpu (Tid n)) : (advance_insidx sd).front = sd.front := by
  unfold advance_insidx
  split
  · rfl
  · rfl

theorem advance_insidx_calendar (sd : SchedPercpu (Tid n)) :
    (advance_insidx sd).calendar_queue = sd.calendar_queue ∧
      (advance_insidx sd).calendar_queue_runidx = sd.calendar_queue_runidx := by
  unfold advance_insidx
  split
  all_goals exact ⟨rfl, rfl⟩

theorem BatchOnly.advance_insidx {sd : SchedPercpu (Tid n)} (h : BatchOnly sd) :
    BatchOnly (advance_insidx sd) := by
  unfold Ule.advance_insidx
  split
  · exact ⟨⟨h.wf.realtime, h.wf.calendar⟩, h.realtime, h.idle⟩
  · exact h

/-- What is left when the pick takes `td` from queue `i`. -/
def SchedPercpu.took (sd : SchedPercpu α) (i : Fin 64) (td : α) : SchedPercpu α :=
  let sd' := { sd with calendar_queue := sd.calendar_queue.remove i td }
  if (sd'.calendar_queue.queues i).isEmpty then sd'.calendar_queue_increment else sd'

theorem select_front (h : BatchOnly sd) (hfront : sd.front = some i)
    (hq : sd.calendar_queue.queues i = next :: rest) (pinned : α → Bool)
    (hclass : f.priority_class = .batch) (hinteractive : f.interactive = false) :
    sd.sched_select_thread pinned (some f) false =
      some (next, { sd.took i next with load := (sd.took i next).load - 1 }) := by
  have hrealtime : sd.pick_realtime_thread pinned f.priority.val false = none :=
    (pick_realtime_thread_eq_none h.wf.realtime pinned _).mpr fun j _ => h.realtime j
  have hbatch : sd.pick_batch_thread pinned false = some (next, sd.took i next) := by
    unfold pick_batch_thread
    have hstatus : sd.calendar_queue.status ≠ 0 := by
      intro hzero
      rw [queues_eq_nil_of_status h.wf.calendar hzero i] at hq
      exact absurd hq nofun
    have hscan : sd.calendar_queue.scan pinned false
        ((List.finRange 64).map fun k => sd.calendar_queue_runidx + k) = some (i, next) := by
      obtain ⟨-, before, after, horder, hbefore⟩ := List.find?_eq_some_iff_append.mp hfront
      rw [Runqueue.scan_eq_findSome h.wf.calendar, List.findSome?_eq_some_iff]
      refine ⟨before, i, after, horder, by rw [hq]; rfl, fun j hj => ?_⟩
      have hempty := hbefore j hj
      rw [Bool.not_not, List.isEmpty_iff] at hempty
      rw [hempty]
      rfl
    rw [if_neg hstatus]
    simp only [hscan, Bool.not_false, Bool.and_true]
    split
    · next hempty => exact congrArg (fun x => some (next, x)) (if_pos hempty).symm
    · next hempty => exact congrArg (fun x => some (next, x)) (if_neg hempty).symm
  unfold sched_select_thread
  simp only [hrealtime, hbatch, Option.any_some, hclass, hinteractive]
  rfl

theorem select_none (h : BatchOnly sd) (hfront : sd.front = none) (pinned : α → Bool)
    (f : Filter) : sd.sched_select_thread pinned (some f) false = none := by
  rw [sched_select_thread_eq_none h.wf]
  intro helig
  obtain ⟨i, -, hi⟩ | ⟨-, ⟨i, hi⟩ | ⟨-, hidle⟩⟩ := helig
  · exact hi (h.realtime i)
  · exact hi (front_eq_none hfront)
  · exact hidle h.idle

theorem took_stay (hq : sd.calendar_queue.queues i = next :: other :: rest) :
    sd.took i next = { sd with calendar_queue := sd.calendar_queue.remove i next } := by
  refine if_neg ?_
  show ¬ (update sd.calendar_queue.queues i _ i).isEmpty = true
  rw [update_self, hq, List.erase_cons_head]
  exact nofun

theorem took_advance (h : Leads sd) (hq : sd.calendar_queue.queues i = [next]) : sd.took i next =
      { sd with
        calendar_queue := sd.calendar_queue.remove i next
        calendar_queue_runidx := sd.calendar_queue_runidx + 1
        calendar_queue_insidx := sd.calendar_queue_insidx + 1 } := by
  refine Eq.trans (if_pos ?_) (if_pos h.symm)
  show (update sd.calendar_queue.queues i _ i).isEmpty = true
  rw [update_self, hq, List.erase_cons_head]
  rfl

theorem Leads.took (h : Leads sd) (hq : sd.calendar_queue.queues i = next :: rest) :
    Leads (sd.took i next) := by
  cases rest with
  | nil =>
    rw [took_advance h hq]
    exact congrArg (· + 1) h
  | cons other rest =>
    rw [took_stay hq]
    exact h

theorem BatchOnly.took (h : BatchOnly sd) (hleads : Leads sd)
    (hq : sd.calendar_queue.queues i = next :: rest) : BatchOnly (sd.took i next) := by
  have hwf := h.wf.calendar.remove i next
  cases rest with
  | nil =>
    rw [took_advance hleads hq]
    exact ⟨⟨h.wf.realtime, hwf⟩, h.realtime, h.idle⟩
  | cons other rest =>
    rw [took_stay hq]
    exact ⟨⟨h.wf.realtime, hwf⟩, h.realtime, h.idle⟩

omit [DecidableEq α] in
theorem BatchOnly.insert (h : BatchOnly sd) (td : α) (p : Fin 64) :
    BatchOnly (sd.insert td .batch false p) :=
  ⟨h.wf.insert td .batch false p, h.realtime, h.idle⟩

theorem took_queues (hleads : Leads sd) (hq : sd.calendar_queue.queues i = next :: rest) :
    (sd.took i next).calendar_queue = sd.calendar_queue.remove i next := by
  cases rest with
  | nil => rw [took_advance hleads hq]
  | cons other rest => rw [took_stay hq]

omit [DecidableEq α] in
theorem insert_calendar : (sd.insert td .batch false p).calendar_queue =
        sd.calendar_queue.insert (sd.calendar_queue_insidx + (32 - p)) td ∧
      (sd.insert td .batch false p).calendar_queue_runidx = sd.calendar_queue_runidx :=
  ⟨rfl, rfl⟩

omit [DecidableEq α] in
theorem mem_of_insert (h : x ∈ (sd.insert td .batch false p).calendar_queue.queues j) :
    x = td ∨ x ∈ sd.calendar_queue.queues j := by
  rw [(insert_calendar ..).1] at h
  have hmem : x ∈ update sd.calendar_queue.queues (sd.calendar_queue_insidx + (32 - p))
      (sd.calendar_queue.queues (sd.calendar_queue_insidx + (32 - p)) ++ [td]) j := h
  by_cases hj : j = sd.calendar_queue_insidx + (32 - p)
  · rw [hj, update_self, List.mem_append, List.mem_singleton] at hmem
    rw [hj]
    exact hmem.symm
  · rw [update_of_ne hj] at hmem
    exact .inr hmem

theorem mem_of_took (hleads : Leads sd) (hq : sd.calendar_queue.queues i = next :: rest)
    (h : x ∈ (sd.took i next).calendar_queue.queues j) : x ∈ sd.calendar_queue.queues j := by
  rw [took_queues hleads hq] at h
  have hmem : x ∈ update sd.calendar_queue.queues i _ j := h
  by_cases hj : j = i
  · rw [hj, update_self] at hmem
    rw [hj]
    exact List.mem_of_mem_erase hmem
  · rw [update_of_ne hj] at hmem
    exact hmem

omit [DecidableEq α] in
theorem Arranged.nearest {w : Wheel α}
    (h : Arranged sd.calendar_queue.queues sd.calendar_queue_runidx w.place)
    (hfront : sd.front = some i) (htd : td ∈ sd.calendar_queue.queues i) :
    w.Nearest td (distance sd.calendar_queue_runidx i) := by
  refine ⟨(h.mem td i).mp htd, fun y e hy => ?_⟩
  obtain ⟨j, rfl, hj⟩ := h.queued hy
  exact (front_nearest hfront).2 j (List.ne_nil_of_mem hj)

omit [DecidableEq α] in
theorem Arranged.alone (h : Arranged queues runidx place) (hq : queues i = [td]) :
    ∀ x, x ≠ td → place x ≠ some (distance runidx i) := by
  intro x hx hplace
  rw [← h.mem, hq] at hplace
  exact hx (List.mem_singleton.mp hplace)

theorem Arranged.advance (h : Arranged queues runidx place) (hq : queues i = [td])
    (hnear : ∀ x d, place x = some d → distance runidx i ≤ d) :
    Arranged (update queues i ((queues i).erase td)) (runidx + 1)
      (update (fun x => (place x).map (· - 1)) td none) := by
  have hmem : td ∈ queues i := by
    rw [hq]
    exact List.mem_singleton_self td
  have hzero : ∀ x, update place td none x ≠ some 0 := by
    intro x hzero
    by_cases hx : x = td
    · rw [hx, update_self] at hzero
      exact absurd hzero nofun
    · rw [update_of_ne hx] at hzero
      have halone := h.alone hq x hx
      rw [Nat.le_zero.mp (hnear x 0 hzero)] at halone
      exact halone hzero
  have hplace : (fun x => (update place td none x).map (· - 1)) =
      update (fun x => (place x).map (· - 1)) td none := by
    funext x
    by_cases hx : x = td
    · rw [hx, update_self, update_self]
      rfl
    · rw [update_of_ne hx, update_of_ne hx]
  have hadvanced := (h.remove hmem).increment hzero
  rw [hplace] at hadvanced
  exact hadvanced

/-- **A turn** takes the first thread of the front and puts `w.turn` back:
a step of the wheel, if that does not put it behind others who wait at
the front. -/
theorem calendar_turn (hleads : Leads sd) {w : Wheel α}
    (hrep : Arranged sd.calendar_queue.queues sd.calendar_queue_runidx w.place)
    (hturn : w.place w.turn = none) (hfront : sd.front = some i)
    (hq : sd.calendar_queue.queues i = next :: rest) (hlow : 1 ≤ p.val)
    (hhigh : p.val ≤ 32) (hreach : reach w.turn = 33 - p.val)
    (hspread : rest ≠ [] → sd.calendar_queue_insidx + (32 - p) ≠ i) :
    ∃ place, w.Step reach (w.take reach place next) ∧
      Arranged ((sd.took i next).insert w.turn .batch false p).calendar_queue.queues
        ((sd.took i next).insert w.turn .batch false p).calendar_queue_runidx
        (w.take reach place next).place := by
  have hmem : next ∈ sd.calendar_queue.queues i := by
    rw [hq]
    exact List.mem_cons_self
  have hnear := hrep.nearest hfront hmem
  have hne : w.turn ≠ next := by
    intro heq
    have hplace := (hrep.mem next i).mp hmem
    rw [← heq, hturn] at hplace
    exact absurd hplace nofun
  cases rest with
  | cons other rest =>
    have hother : other ∈ sd.calendar_queue.queues i := by
      rw [hq]
      exact List.mem_cons_of_mem _ List.mem_cons_self
    have hnodup := hrep.nodup i
    rw [hq] at hnodup
    have hdiff : other ≠ next := by
      intro heq
      rw [heq] at hnodup
      exact (List.nodup_cons.mp hnodup).1 List.mem_cons_self
    have hdist := hleads.distance_insert hlow hhigh
    refine ⟨w.place, .stay hnear hdiff ((hrep.mem other i).mp hother) ?_, ?_⟩
    · rw [hreach, ← hdist]
      exact fun heq => hspread nofun (distance_inj heq)
    · rw [(insert_calendar ..).1, (insert_calendar ..).2, took_stay hq]
      have hwaits : update w.place next none w.turn = none := (update_of_ne hne ..).trans hturn
      have hinserted := (hrep.remove hmem).insert hwaits (sd.calendar_queue_insidx + (32 - p))
      rw [hdist, ← hreach] at hinserted
      exact hinserted
  | nil =>
    have hwaits : update (fun td => (w.place td).map (· - 1)) next none w.turn = none := by
      rw [update_of_ne hne, hturn]
      rfl
    have hdist := (hleads.took hq).distance_insert hlow hhigh
    refine ⟨_, .advance hnear (hrep.alone hq), ?_⟩
    rw [(insert_calendar ..).1, (insert_calendar ..).2]
    rw [took_advance hleads hq] at hdist ⊢
    have hinserted := (hrep.advance hq hnear.le).insert hwaits
      (sd.calendar_queue_insidx + 1 + (32 - p))
    rw [hdist, ← hreach] at hinserted
    exact hinserted

end Ule
