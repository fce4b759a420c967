import Dufay.Sched.Ule

/-! # Bookkeeping and order of the run queues

The queues of one CPU under any sequence of `sched_insert_in_queue`, the
pick functions and `sched_select_thread` of `core/sched/ule.c`.

The bitmaps always match the queues. The counter `load` is incremented
by the insertion and decremented by `sched_select_thread`; the pick
functions, which nothing else calls, leave it alone.

A larger number is a higher priority, and the comment in
`pick_realtime_thread` says that higher queues are searched first. The
loop goes upwards from `minprio`.
-/

open Lts Function

namespace Ule

open SchedPercpu

/-! ### The order of `pick_realtime_thread` -/

section Order

variable {α : Type} [DecidableEq α]

variable {td : α}

omit [DecidableEq α] in
theorem Runqueue.scan_append {runq : Runqueue α} (hwf : runq.Wf)
    (hbefore : ∀ j ∈ before, runq.queues j = []) (hi : runq.queues i = td :: rest) :
    runq.scan pinned false (before ++ i :: after) = some (i, td) := by
  induction before with
  | nil =>
    have hbit : runq.bit i = true := (hwf i).mpr (by rw [hi]; exact List.cons_ne_nil _ _)
    simp only [List.nil_append, scan, hbit, if_true, candidate, hi, Bool.false_eq_true, if_false,
      List.head?_cons]
  | cons j before ih =>
    have hbit : runq.bit j = false := by
      have hempty := hbefore j (List.mem_cons_self ..)
      cases hb : runq.bit j with
      | false => rfl
      | true => exact absurd hempty ((hwf j).mp hb)
    rw [List.cons_append, scan, hbit]
    exact ih fun k hk => hbefore k (List.mem_cons_of_mem _ hk)

/-- **`pick_realtime_thread` takes the lowest index**: the first thread of
the lowest queue from `minprio` on that is not empty. -/
theorem pick_realtime_thread_lowest {sd : SchedPercpu α} (hwf : sd.realtime_runq.Wf)
    (pinned : α → Bool) (hmin : minprio ≤ i.val) (hi : sd.realtime_runq.queues i = td :: rest)
    (hlow : ∀ j : Fin 64, minprio ≤ j.val → j < i → sd.realtime_runq.queues j = []) :
    sd.pick_realtime_thread pinned minprio false =
      some (td, { sd with realtime_runq := sd.realtime_runq.remove i td }) := by
  have hstatus : sd.realtime_runq.status ≠ 0 := by
    intro h
    rw [queues_eq_nil_of_status hwf h i] at hi
    cases hi
  -- the order of the search, split at the index
  have hmem : i ∈ (List.finRange 64).filter (fun i => decide (minprio ≤ i.val)) := by
    rw [List.mem_filter]
    exact ⟨List.mem_finRange i, decide_eq_true hmin⟩
  obtain ⟨before, after, hsplit⟩ := List.append_of_mem hmem
  have hsorted : ((List.finRange 64).filter (fun i => decide (minprio ≤ i.val))).Pairwise (· < ·) :=
    (List.pairwise_lt_finRange 64).filter _
  rw [hsplit, List.pairwise_append] at hsorted
  have hbefore : ∀ j ∈ before, sd.realtime_runq.queues j = [] := by
    intro j hj
    have hjmem : j ∈ (List.finRange 64).filter (fun i => decide (minprio ≤ i.val)) := by
      rw [hsplit]
      exact List.mem_append_left _ hj
    apply hlow j
    · exact of_decide_eq_true (List.mem_filter.mp hjmem).2
    · exact hsorted.2.2 j hj i (List.mem_cons_self ..)
  simp only [pick_realtime_thread, if_neg hstatus, hsplit, Runqueue.scan_append hwf hbefore hi]

/-- `pick_realtime_thread` as a search for the highest priority: nothing is
returned if and only if nothing is queued from `minprio` on, and
otherwise the first thread of the highest queue is removed and returned. -/
structure PicksHighest (sd : SchedPercpu α) (pinned : α → Bool) (minprio : Nat) : Prop where
  none_iff : sd.pick_realtime_thread pinned minprio false = none ↔
    ∀ i : Fin 64, minprio ≤ i.val → sd.realtime_runq.queues i = []
  highest : ∀ (i : Fin 64) (td : α) (rest : List α), minprio ≤ i.val →
    sd.realtime_runq.queues i = td :: rest →
    (∀ j, i < j → sd.realtime_runq.queues j = []) →
    sd.pick_realtime_thread pinned minprio false =
      some (td, { sd with realtime_runq := sd.realtime_runq.remove i td })

/-- All threads that are queued from `minprio` on are at one index. -/
def OneLevel (sd : SchedPercpu α) (minprio : Nat) : Prop :=
  ∀ i j : Fin 64, minprio ≤ i.val → minprio ≤ j.val →
    sd.realtime_runq.queues i ≠ [] → sd.realtime_runq.queues j ≠ [] → i = j

theorem remove_head_inj {runq : Runqueue α}
    (hi : runq.queues i = td :: rest) (h : runq.remove i td = runq.remove j x) : i = j := by
  by_contra hne
  have hqueue : (runq.remove i td).queues i = (runq.remove j x).queues i := by rw [h]
  simp only [Runqueue.remove, update_self, update_of_ne hne, hi, List.erase_cons_head] at hqueue
  exact absurd (congrArg List.length hqueue) (by simp)

/-- **Highest priority first**, for every content of the realtime queues and
every lower bound: `pick_realtime_thread` picks the highest priority if
and only if the threads from the bound on share one. -/
theorem picksHighest_iff (sd : SchedPercpu α) (hwf : sd.realtime_runq.Wf) (pinned : α → Bool)
    (minprio : Nat) : PicksHighest sd pinned minprio ↔ OneLevel sd minprio := by
  classical
  constructor
  · intro h i j hi hj hqi hqj
    -- the lowest and the highest index in use
    let used := Finset.univ.filter fun k : Fin 64 =>
      minprio ≤ k.val ∧ sd.realtime_runq.queues k ≠ []
    have hmem : ∀ k, k ∈ used ↔ minprio ≤ k.val ∧ sd.realtime_runq.queues k ≠ [] := by
      intro k
      simp [used]
    have hused : used.Nonempty := ⟨i, (hmem i).mpr ⟨hi, hqi⟩⟩
    obtain ⟨hlmin, hlne⟩ := (hmem _).mp (used.min'_mem hused)
    obtain ⟨hhmin, hhne⟩ := (hmem _).mp (used.max'_mem hused)
    obtain ⟨tl, restl, hl⟩ := List.exists_cons_of_ne_nil hlne
    obtain ⟨th, resth, hh⟩ := List.exists_cons_of_ne_nil hhne
    have hlowest := pick_realtime_thread_lowest hwf pinned hlmin hl (by
      intro k hk hlt
      by_contra hne
      exact absurd (used.min'_le k ((hmem k).mpr ⟨hk, hne⟩)) (not_le.mpr hlt))
    have hhighest := h.highest _ th resth hhmin hh (by
      intro k hlt
      by_contra hne
      have hk : minprio ≤ k.val := le_trans hhmin (le_of_lt hlt)
      exact absurd (used.le_max' k ((hmem k).mpr ⟨hk, hne⟩)) (not_le.mpr hlt))
    rw [hlowest, Option.some.injEq, Prod.mk.injEq] at hhighest
    have hrunq := congrArg realtime_runq hhighest.2
    have heq : used.min' hused = used.max' hused := remove_head_inj hl hrunq
    have hi' := (hmem i).mpr ⟨hi, hqi⟩
    have hj' := (hmem j).mpr ⟨hj, hqj⟩
    apply le_antisymm
    · exact (used.le_max' i hi').trans (heq ▸ used.min'_le j hj')
    · exact (used.le_max' j hj').trans (heq ▸ used.min'_le i hi')
  · intro h
    refine ⟨pick_realtime_thread_eq_none hwf pinned minprio, ?_⟩
    intro i td rest hmin hi _
    refine pick_realtime_thread_lowest hwf pinned hmin hi fun j hj hlt => ?_
    by_contra hne
    have hine : sd.realtime_runq.queues i ≠ [] := by
      rw [hi]
      exact List.cons_ne_nil _ _
    exact absurd (h j i hj hmin hne hine) (ne_of_lt hlt)

end Order

/-- A realtime thread of priority 40 is queued. -/
def oneRealtime : SchedPercpu (Tid 0) := emptyQueues.insert (.thread 0) .realtime false 40

theorem picksHighest_iff_oneRealtime :
    OneLevel oneRealtime 33 ∧ PicksHighest oneRealtime (fun _ => false) 33 := by
  have hwf : oneRealtime.Wf := emptyQueues_wf.insert _ _ _ _
  have hone : OneLevel oneRealtime 33 := by
    unfold OneLevel
    decide +kernel
  exact ⟨hone, (picksHighest_iff oneRealtime hwf.realtime (fun _ => false) 33).mpr hone⟩

/-- **The lower of two realtime threads is picked**: of thread 0 with
priority 40 and thread 1 with priority 50, the first. -/
theorem not_picksHighest :
    ¬ ∀ (sd : SchedPercpu (Tid 0)), sd.Wf → ∀ pinned minprio, PicksHighest sd pinned minprio := by
  intro h
  have hwf : (oneRealtime.insert (.thread 1) .realtime false 50).Wf :=
    (emptyQueues_wf.insert _ _ _ _).insert _ _ _ _
  have hhighest := (h _ hwf (fun _ => false) 33).highest 50 (.thread 1) [] (by decide) rfl
    (by decide +kernel)
  have hpick : ((oneRealtime.insert (.thread 1) .realtime false 50).pick_realtime_thread
      (fun _ => false) 33 false).map Prod.fst = some (.thread 0) := by decide +kernel
  rw [hhighest] at hpick
  exact absurd hpick (by decide)

/-! ### How many threads are queued -/

section Size

variable {α : Type} [DecidableEq α]

def Runqueue.size (runq : Runqueue α) : Nat := ∑ i, (runq.queues i).length

/-- The number of threads in the realtime, calendar and idle queues. -/
def SchedPercpu.size (sd : SchedPercpu α) : Nat :=
  sd.realtime_runq.size + sd.calendar_queue.size + sd.idle_queue.length

omit [DecidableEq α] in
theorem size_update (queues : Fin 64 → List α) (i : Fin 64) (q : List α) :
    (∑ j, (update queues i q j).length) + (queues i).length =
      (∑ j, (queues j).length) + q.length := by
  have hfun : (fun j => (update queues i q j).length) =
      update (fun j => (queues j).length) i q.length := by
    funext j
    by_cases h : j = i
    · subst h
      rw [update_self, update_self]
    · rw [update_of_ne h, update_of_ne h]
  rw [hfun]
  exact sum_update_add (fun j => (queues j).length) i q.length

omit [DecidableEq α] in
theorem Runqueue.size_insert (runq : Runqueue α) (i : Fin 64) (td : α) :
    (runq.insert i td).size = runq.size + 1 := by
  have h := size_update runq.queues i (runq.queues i ++ [td])
  rw [List.length_append, List.length_singleton] at h
  show (∑ j, (update runq.queues i (runq.queues i ++ [td]) j).length) = runq.size + 1
  unfold Runqueue.size
  omega

theorem Runqueue.size_remove {runq : Runqueue α}
    (hmem : td ∈ runq.queues i) : (runq.remove i td).size + 1 = runq.size := by
  have h := size_update runq.queues i ((runq.queues i).erase td)
  have hpos := List.length_pos_of_mem hmem
  rw [List.length_erase_of_mem hmem] at h
  show (∑ j, (update runq.queues i ((runq.queues i).erase td) j).length) + 1 = runq.size
  unfold Runqueue.size
  omega

omit [DecidableEq α] in
theorem SchedPercpu.size_insert (sd : SchedPercpu α) (td : α) (cl : PriorityClass)
    (interactive : Bool) (priority : Fin 64) :
    (sd.insert td cl interactive priority).size = sd.size + 1 ∧
      (sd.insert td cl interactive priority).load = sd.load + 1 := by
  unfold insert
  split
  · refine ⟨?_, rfl⟩
    simp only [size, Runqueue.size_insert]
    omega
  · split
    · refine ⟨?_, rfl⟩
      simp only [size, insert_calendar_queue, Runqueue.size_insert]
      omega
    · refine ⟨?_, rfl⟩
      simp only [size, List.length_append, List.length_singleton]
      omega

/-- `sd'` has one thread less than `sd`, and the same load. -/
structure Shrinks (sd sd' : SchedPercpu α) : Prop where
  wf : sd.Wf → sd'.Wf
  size : sd'.size + 1 = sd.size
  load : sd'.load = sd.load

section
variable {sd : SchedPercpu α}

theorem pick_realtime_thread_shrinks
    (h : sd.pick_realtime_thread pinned minprio migrate = some (td, sd')) : Shrinks sd sd' := by
  have htakes := pick_realtime_thread_takes h
  obtain ⟨i, hcand, rfl⟩ := pick_realtime_thread_some h
  have hsize := Runqueue.size_remove (Runqueue.mem_of_candidate hcand)
  refine ⟨htakes.wf, ?_, rfl⟩
  simp only [size]
  omega

theorem pick_batch_thread_shrinks (h : sd.pick_batch_thread pinned migrate = some (td, sd')) :
    Shrinks sd sd' := by
  obtain ⟨i, hscan, hpicked⟩ := pick_batch_thread_some h
  have hremove := Runqueue.size_remove
    (Runqueue.mem_of_candidate (Runqueue.candidate_of_scan hscan))
  refine ⟨(pick_batch_thread_takes h).wf, ?_, hpicked.load⟩
  simp only [size, hpicked.calendar_queue, hpicked.realtime_runq, hpicked.idle_queue]
  omega

theorem pick_idle_thread_shrinks (h : sd.pick_idle_thread pinned migrate = some (td, sd')) : Shrinks
    sd sd' := by
  have htakes := pick_idle_thread_takes h
  obtain ⟨hmem, -, rfl⟩ := pick_idle_thread_some h
  have hpos := List.length_pos_of_mem hmem
  refine ⟨htakes.wf, ?_, rfl⟩
  simp only [size, List.length_erase_of_mem hmem]
  omega

theorem sched_select_thread_shrinks (h : sd.sched_select_thread pinned cur migrate = some (td, sd'))
    :
    (sd.Wf → sd'.Wf) ∧ sd'.size + 1 = sd.size ∧ sd'.load = sd.load - 1 := by
  have hwf := (sched_select_thread_takes h).wf
  obtain ⟨sd₁, hpick, rfl⟩ := sched_select_thread_some h
  have hshrinks : Shrinks sd sd₁ := by
    obtain ⟨_, hp⟩ | hp | hp := hpick
    · exact pick_realtime_thread_shrinks hp
    · exact pick_batch_thread_shrinks hp
    · exact pick_idle_thread_shrinks hp
  exact ⟨hwf, hshrinks.size, congrArg (· - 1) hshrinks.load⟩

end

end Size

/-! ### Any sequence of calls -/

variable {n : Nat}

/-- The calls that change the queues of a CPU. What they read of a thread
(its class, its priority, whether it is pinned) comes with the call. -/
inductive QueueCall (n : Nat) where
  | sched_insert_in_queue (td : Tid n) (priority_class : PriorityClass) (interactive : Bool)
      (priority : Fin 64)
  | pick_realtime_thread (pinned : Tid n → Bool) (minprio : Nat) (migrate : Bool)
  | pick_batch_thread (pinned : Tid n → Bool) (migrate : Bool)
  | pick_idle_thread (pinned : Tid n → Bool) (migrate : Bool)
  | sched_select_thread (pinned : Tid n → Bool) (cur : Option Filter) (migrate : Bool)

structure Queues (n : Nat) where
  sched_data : SchedPercpu (Tid n)
  /-- History that no call reads: how many threads a pick function has taken
      that was not called by `sched_select_thread`. -/
  picked : Nat

/-- A pick function called on its own. -/
def Queues.pick (q : Queues n) (taken : Option (Tid n × SchedPercpu (Tid n))) : Queues n :=
  match taken with
  | some (_, sd) => ⟨sd, q.picked + 1⟩
  | none => q

/-- Only threads that are not queued are inserted. -/
def Queues.call (q : Queues n) : QueueCall n → Option (Queues n)
  | .sched_insert_in_queue td priority_class interactive priority =>
    if q.sched_data.count td = 0 then
      some { q with sched_data := q.sched_data.insert td priority_class interactive priority }
    else none
  | .pick_realtime_thread pinned minprio migrate =>
    some (q.pick (q.sched_data.pick_realtime_thread pinned minprio migrate))
  | .pick_batch_thread pinned migrate =>
    some (q.pick (q.sched_data.pick_batch_thread pinned migrate))
  | .pick_idle_thread pinned migrate =>
    some (q.pick (q.sched_data.pick_idle_thread pinned migrate))
  | .sched_select_thread pinned cur migrate =>
    match q.sched_data.sched_select_thread pinned cur migrate with
    | some (_, sd) => some { q with sched_data := sd }
    | none => some q

/-- The queues of a CPU, from `sched_cpu_init` on. -/
def queueSystem (n : Nat) : System (Queues n) (QueueCall n) where
  init := fun q => q = ⟨emptyQueues, 0⟩
  step := Queues.call

/-- The bitmaps match the queues, and the load is the number of threads that
are queued or were picked without it. -/
structure Accounted (q : Queues n) : Prop where
  wf : q.sched_data.Wf
  load : q.sched_data.load = UInt64.ofNat (q.sched_data.size + q.picked)

theorem Accounted.init : Accounted (⟨emptyQueues, 0⟩ : Queues n) where
  wf := emptyQueues_wf
  load := by
    simp [emptyQueues, size, Runqueue.size]

theorem Accounted.pick (h : Accounted q)
    (htaken : ∀ td sd, taken = some (td, sd) → Shrinks q.sched_data sd) :
    Accounted (q.pick taken) := by
  cases htake : taken with
  | none => exact h
  | some p =>
    have hshrinks := htaken p.1 p.2 htake
    refine ⟨hshrinks.wf h.wf, ?_⟩
    show p.2.load = UInt64.ofNat (p.2.size + (q.picked + 1))
    rw [hshrinks.load, h.load, ← hshrinks.size,
      show p.2.size + 1 + q.picked = p.2.size + (q.picked + 1) from by omega]

theorem Accounted.call {q : Queues n} (h : Accounted q)
    (hcall : q.call a = some q') : Accounted q' := by
  cases a with
  | sched_insert_in_queue td priority_class interactive priority =>
    simp only [Queues.call] at hcall
    split at hcall
    · cases hcall
      obtain ⟨hsize, hload⟩ := q.sched_data.size_insert td priority_class interactive priority
      refine ⟨h.wf.insert _ _ _ _, ?_⟩
      show (q.sched_data.insert td priority_class interactive priority).load = _
      rw [hload, h.load, hsize,
        show q.sched_data.size + 1 + q.picked = q.sched_data.size + q.picked + 1 from by omega]
      exact (UInt64.ofNat_add _ 1).symm
    · cases hcall
  | pick_realtime_thread pinned minprio migrate =>
    cases hcall
    exact h.pick fun td sd htake => pick_realtime_thread_shrinks htake
  | pick_batch_thread pinned migrate =>
    cases hcall
    exact h.pick fun td sd htake => pick_batch_thread_shrinks htake
  | pick_idle_thread pinned migrate =>
    cases hcall
    exact h.pick fun td sd htake => pick_idle_thread_shrinks htake
  | sched_select_thread pinned cur migrate =>
    simp only [Queues.call] at hcall
    split at hcall
    · next td sd hselect =>
      cases hcall
      obtain ⟨hwf, hsize, hload⟩ := sched_select_thread_shrinks hselect
      refine ⟨hwf h.wf, ?_⟩
      show sd.load = UInt64.ofNat (sd.size + q.picked)
      rw [hload, h.load, ← hsize, show sd.size + 1 + q.picked = sd.size + q.picked + 1 from by omega,
        UInt64.ofNat_add]
      exact UInt64.add_sub_cancel _ _
    · cases hcall
      exact h

/-- **Run-queue bookkeeping**, after any sequence of calls from
`sched_cpu_init` on: bit `i` of each bitmap is set if and only if queue
`i` is not empty, and `load`, a 64-bit number, is the number of threads
in the queues plus the number of those that a pick function took without
`sched_select_thread`. -/
theorem load_eq {q : Queues n} (hq : Reachable (queueSystem n) q) :
    (∀ i, q.sched_data.realtime_runq.bit i = true ↔ q.sched_data.realtime_runq.queues i ≠ []) ∧
    (∀ i, q.sched_data.calendar_queue.bit i = true ↔ q.sched_data.calendar_queue.queues i ≠ []) ∧
    q.sched_data.load.toNat = (q.sched_data.size + q.picked) % 2 ^ 64 := by
  have hacc : Accounted q := by
    refine ReachableBy.invariant ?_ ?_ hq
    · intro q hinit
      rw [show q = ⟨emptyQueues, 0⟩ from hinit]
      exact Accounted.init
    · intro q a q' h _ hcall
      exact h.call hcall
  refine ⟨hacc.wf.realtime, hacc.wf.calendar, ?_⟩
  rw [hacc.load]
  exact UInt64.toNat_ofNat'

/-- Two threads are inserted, and one is selected. -/
def insertAndSelect : List (QueueCall 0) := [.sched_insert_in_queue (.thread 0) .realtime false 40,
    .sched_insert_in_queue (.thread 1) .batch false 16,
    .sched_select_thread (fun _ => false) none false]

theorem load_eq_insertAndSelect :
    ∃ q, exec (queueSystem 0) ⟨emptyQueues, 0⟩ insertAndSelect = some q ∧
      q.sched_data.size = 1 ∧ q.sched_data.load.toNat = 1 := by
  refine run_imp (fun q => q.sched_data.size = 1 ∧ q.picked = 0) (by decide +kernel)
    fun q hq ⟨hsize, hpicked⟩ => ⟨hsize, ?_⟩
  have hload := (load_eq (Reachable.of_exec rfl hq)).2.2
  rwa [hsize, hpicked] at hload

/-- **A pick function does not count**: after an insertion and a call of
`pick_realtime_thread`, no thread is queued and the load is one. -/
theorem load_ne_size : ¬ ∀ (n : Nat) (q : Queues n), Reachable (queueSystem n) q →
      q.sched_data.load.toNat = q.sched_data.size % 2 ^ 64 := by
  intro h
  obtain ⟨q, hq, hload, hsize⟩ : ∃ q, exec (queueSystem 0) ⟨emptyQueues, 0⟩
      [.sched_insert_in_queue (.thread 0) .realtime false 40,
        .pick_realtime_thread (fun _ => false) 0 false] = some q ∧
      q.sched_data.load.toNat = 1 ∧ q.sched_data.size = 0 := by decide +kernel
  have heq := h 0 q (Reachable.of_exec rfl hq)
  rw [hload, hsize] at heq
  exact absurd heq (by decide)

end Ule
