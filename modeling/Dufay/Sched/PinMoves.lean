import Dufay.Sched.Pin

/-! # When pinning moves a thread

`PinMoves`: after `sched_pin` and the next dispatch of the old CPU, the
thread is in one place, on the new CPU, the bitmaps and the load counters
of both CPUs are right, no other thread has changed its CPU, and the
thread never runs on another CPU afterwards. The bitmaps and counters are
asked to be right as soon as `sched_pin` returns: the pick functions take
the first thread of a queue whose bit is set without a look whether there
is one.
-/

open Lts

namespace Ule

variable {n : Nat}

/-! ### The run-queue invariant -/

/-- The bitmaps and load counters are right, every thread is in one place at
most, and the threads in queues and `next_thread` fields are not running. -/
structure RunqueueInv (s : State n) : Prop where
  wf : ∀ d, (s.cpus d).sched_data.Wf
  load : ∀ d, (s.cpus d).sched_data.load = UInt64.ofNat (s.cpus d).sched_data.size
  once : ∀ k, places s (.thread k) ≤ 1
  idle : ∀ e, offCpu s (.idle e) = 0
  last_cpu : ∀ d k, (s.cpus d).current_thread = .thread k →
    (s.threads (.thread k)).last_cpu = some d
  waiting : ∀ k, 0 < offCpu s (.thread k) → (s.threads (.thread k)).state ≠ .running

/-- Thread `k` is running, or it is queued or a next thread. -/
def InPlace (s : State n) (k : Nat) : Prop :=
  (∃ d, (s.cpus d).current_thread = .thread k ∧ (s.threads (.thread k)).state = .running) ∨
    0 < offCpu s (.thread k)

theorem places_eq : places s td = ∑ d, (s.cpus d).holds td := by
  unfold places onCpu offCpu CpuLocal.holds
  rw [Finset.sum_add_distrib]

theorem holds_eq (s : State n) (d : Fin (n + 1)) (td : Tid n) : (s.cpus d).holds td =
      (s.cpus d).on td + (s.cpus d).next td + (s.cpus d).sched_data.count td := by
  unfold CpuLocal.holds CpuLocal.off
  omega

theorem count_pos_of_mem {s : State n} (h : td ∈ s.queue name) :
    0 < (s.cpus name.cpu).sched_data.count td :=
  (SchedPercpu.count_pos_iff _ _).mpr ⟨name.slot, h⟩

section Once

variable {s : State n} (hinv : RunqueueInv s) {d : Fin (n + 1)} {k : Nat}

include hinv

theorem RunqueueInv.only (hpos : 0 < (s.cpus d).holds (.thread k)) :
    (s.cpus d).holds (.thread k) = 1 ∧ ∀ e, e ≠ d → (s.cpus e).holds (.thread k) = 0 := by
  have hsum := hinv.once k
  rw [places_eq] at hsum
  have hle := Finset.single_le_sum (fun e _ => Nat.zero_le ((s.cpus e).holds (.thread k)))
    (Finset.mem_univ d)
  refine ⟨by omega, fun e he => ?_⟩
  have htwo : ∑ i ∈ {e, d}, (s.cpus i).holds (.thread k) ≤ ∑ i, (s.cpus i).holds (.thread k) :=
    Finset.sum_le_sum_of_subset (Finset.subset_univ _)
  rw [Finset.sum_pair he] at htwo
  omega

theorem RunqueueInv.unlinked (hpos : 0 < (s.cpus d).on (.thread k) + (s.cpus d).next (.thread k)) :
    linkedIn s (.thread k) = none := by
  rw [linkedIn_eq_none]
  intro name hmem
  have hcount := count_pos_of_mem hmem
  have hd := holds_eq s d (.thread k)
  obtain ⟨hone, hzero⟩ := hinv.only (show 0 < (s.cpus d).holds (.thread k) by omega)
  by_cases hcpu : name.cpu = d
  · rw [hcpu] at hcount
    omega
  · have hname := holds_eq s name.cpu (.thread k)
    rw [hzero _ hcpu] at hname
    omega

theorem RunqueueInv.next_thread (hnext : (s.cpus d).next_thread = some x) : ∃ j, x = .thread j := by
  match x with
  | .thread j => exact ⟨j, rfl⟩
  | .idle e =>
    have hle := off_le_offCpu s d (.idle e)
    rw [hinv.idle e] at hle
    unfold CpuLocal.off at hle
    rw [CpuLocal.next_eq hnext, if_pos rfl] at hle
    omega

theorem RunqueueInv.unlinked_next (hnext : (s.cpus d).next_thread = some x) :
    linkedIn s x = none := by
  obtain ⟨j, rfl⟩ := hinv.next_thread hnext
  apply hinv.unlinked (d := d)
  rw [CpuLocal.next_eq hnext, if_pos rfl]
  omega

theorem RunqueueInv.next_unlinked (d : Fin (n + 1)) :
    ((s.cpus d).next_thread.any fun x => (linkedIn s x).isSome) = false := by
  cases hnext : (s.cpus d).next_thread with
  | none => rfl
  | some x =>
    show (linkedIn s x).isSome = false
    rw [hinv.unlinked_next hnext]
    rfl

theorem RunqueueInv.current_ne_next (hcur : (s.cpus d).current_thread = .thread k)
    (e : Fin (n + 1)) : (s.cpus e).next_thread ≠ some (.thread k) := by
  intro hnext
  have hon : (s.cpus d).on (.thread k) = 1 := if_pos hcur
  have hd := holds_eq s d (.thread k)
  have he := holds_eq s e (.thread k)
  rw [CpuLocal.next_eq hnext, if_pos rfl] at he
  obtain ⟨hone, hzero⟩ := hinv.only (show 0 < (s.cpus d).holds (.thread k) by omega)
  by_cases hed : e = d
  · subst hed
    omega
  · rw [hzero e hed] at he
    omega

end Once

/-! ### Pinning as it should be -/

/-- The bitmaps and load counters of the two CPUs are right. -/
def BookKept (s : State n) (p c : Fin (n + 1)) : Prop :=
  ∀ d, d = p ∨ d = c → (s.cpus d).sched_data.Wf ∧
    (s.cpus d).sched_data.load = UInt64.ofNat (s.cpus d).sched_data.size

/-- Thread `j` is the current thread of `d` but has gone to sleep. -/
def Leaving (s : State n) (d : Fin (n + 1)) (j : Nat) : Prop :=
  (s.cpus d).current_thread = .thread j ∧ (s.threads (.thread j)).state ≠ .running

/-- From `s` to `s'`, thread `k` has moved to `c`, and the other threads are
on the CPUs they were on. -/
structure Moved (s s' : State n) (k : Nat) (c : Fin (n + 1)) : Prop where
  place : ∀ d, (s'.cpus d).holds (.thread k) = if d = c then 1 else 0
  others : ∀ d j, j ≠ k → ¬ Leaving s d j →
    (s'.cpus d).holds (.thread j) = (s.cpus d).holds (.thread j)

/-- **Pinning moves the thread**: after `sched_pin` and the next dispatch of
its last CPU `p`, thread `k` is on `c` and stays there. -/
def PinMoves (s : State n) (self : Fin (n + 1)) (k : Nat) (p c : Fin (n + 1)) : Prop :=
  ∃ s₁, sched_pin s self (.thread k) c = some s₁ ∧ BookKept s₁ p c ∧
    BookKept (dispatch_dpc s₁ p) p c ∧ Moved s (dispatch_dpc s₁ p) k c ∧
    ∀ s', Reachable ((system n).startedIn (dispatch_dpc s₁ p)) s' →
      ∀ d, d ≠ c → (s'.cpus d).current_thread ≠ .thread k

/-! ### When it does -/

/-- A running thread is queued on the new CPU and switched away from on the
old one. If it pins itself, no next thread is lost by that; if another CPU
pins it, the old CPU switches to its next thread or selects a thread, but
not both. -/
structure PinsRunning (s : State n) (caller : Fin (n + 1)) (k : Nat) (p c : Fin (n + 1)) : Prop where
  current : (s.cpus p).current_thread = .thread k
  running : (s.threads (.thread k)).state = .running
  queued : should_preempt (s.threads (.thread k)) (s.cpus c) = false
  switches : if p = caller then (s.cpus p).next_thread = none
    else Replaceable s p ↔ (s.cpus p).next_thread = none

/-- The bits that `sched_remove_from_queue` clears for priority `i`. -/
def cleared (i j : Fin 64) : Bool := !(int_mask i).getLsbD j

/-- If queue `i` is left empty without `td`, the bits that are cleared are
those of empty queues, and that of queue `i` is among them if it held
`td`. -/
def MaskRight (runq : Runqueue (Tid n)) (td : Tid n) (i : Fin 64) : Prop :=
  (runq.queues i).erase td = [] → (∀ j, cleared i j = true → (runq.queues j).erase td = []) ∧
      (td ∈ runq.queues i → cleared i i = true)

/-- The queue that `sched_remove_from_queue` looks for a thread in. -/
def lookedFor (s : State n) (p : Fin (n + 1)) (td : Tid n) : QueueName n :=
  match (s.threads td).runq with
  | none => ⟨p, .idle⟩
  | some (d, kind) => ⟨d, .runq kind (s.threads td).priority⟩

/-- The queues of `c` with its next thread in them, if it has one. -/
def displaced (s : State n) (c : Fin (n + 1)) : SchedPercpu (Tid n) :=
  match (s.cpus c).next_thread with
  | none => (s.cpus c).sched_data
  | some x => (s.cpus c).sched_data.insert x (s.threads x).priority_class
      (s.threads x).interactive (s.threads x).priority

/-- The queues of a CPU after `c` was preempted. -/
def queuesOf (s : State n) (c d : Fin (n + 1)) : SchedPercpu (Tid n) :=
  if d = c then displaced s c else (s.cpus d).sched_data

/-- A queued thread preempts the new CPU. It is in the queue of `p` that
`sched_remove_from_queue` looks for it in, or not the last of its queue;
the bits that are cleared are right; and the next dispatch does not find
another thread in place of a next thread. -/
structure PinsQueued (s : State n) (k : Nat) (p c : Fin (n + 1)) (slot : QueueSlot) : Prop where
  mem : .thread k ∈ (s.cpus p).sched_data.queue slot
  preempts : should_preempt (s.threads (.thread k)) (s.cpus c) = true
  found : lookedFor s p (.thread k) = ⟨p, slot⟩ ∨
    ((s.cpus p).sched_data.queue slot).getLast? ≠ some (.thread k)
  mask : ∀ d kind, (s.threads (.thread k)).runq = some (d, kind) → d = p ∨ d = c →
    MaskRight ((queuesOf s c d).runq kind) (.thread k) (s.threads (.thread k)).priority
  keeps : ¬ (Asks s p ∧ (s.cpus p).next_thread ≠ none ∧ ((s.cpus p).sched_data.setQueue slot
      (((s.cpus p).sched_data.queue slot).erase (.thread k))).Eligible (chargedFilter s p))

/-! ### What `sched_pin` does first -/

/-- The first writes of `sched_pin`. -/
def pinTo (s : State n) (td : Tid n) (c : Fin (n + 1)) : State n :=
  setThread s td { s.threads td with pinned := true, last_cpu := some c }

section First

variable {s : State n} {self p c : Fin (n + 1)} {td : Tid n}

theorem pinTo_threads_self :
    (pinTo s td c).threads td = { s.threads td with pinned := true, last_cpu := some c } :=
  setThread_self _ _ _

theorem pinTo_threads_ne (s : State n) (c : Fin (n + 1)) (h : x ≠ td) :
    (pinTo s td c).threads x = s.threads x := setThread_ne _ _ h

theorem should_preempt_pinTo (s : State n) (td : Tid n) (c : Fin (n + 1)) (cpu : CpuLocal n) :
    should_preempt ((pinTo s td c).threads td) cpu = should_preempt (s.threads td) cpu := by
  rw [pinTo_threads_self]
  rfl

theorem sched_pin_eq (hlast : (s.threads td).last_cpu = some p) (hne : p ≠ c) :
    sched_pin s self td c =
      if (insertedBy s c td).any fun x => (linkedIn s x).isSome then none
      else if (s.threads td).state = .running then
        some (yield_on_cpu (sched_try_preempt (pinTo s td c) c td) self p)
      else sched_remove_from_queue (sched_try_preempt (pinTo s td c) c td) p td := by
  have hinserted : insertedBy (pinTo s td c) c td = insertedBy s c td := by
    unfold insertedBy
    rw [should_preempt_pinTo]
    rfl
  unfold sched_pin
  dsimp only
  rw [hlast]
  dsimp only
  rw [if_neg hne]
  show (if (insertedBy (pinTo s td c) c td).any _ then _ else _) = _
  rw [hinserted]
  rfl

end First

theorem sched_insert_in_queue_threads_ne (s : State n) (c : Fin (n + 1))
    (h : x ≠ td) : (sched_insert_in_queue s c td).threads x = s.threads x :=
  setThread_ne _ _ h

theorem sched_try_preempt_thread {s : State n} {c : Fin (n + 1)} {td : Tid n}
    (hnext : (s.cpus c).next_thread ≠ some td) : (sched_try_preempt s c td).threads td =
      if should_preempt (s.threads td) (s.cpus c) then s.threads td
      else { s.threads td with state := .ready, runq := runq_of (s.threads td) c } := by
  unfold sched_try_preempt
  dsimp only
  split
  · split
    · next x hx =>
      have hne : td ≠ x := fun heq => hnext (heq ▸ hx)
      rw [sched_insert_in_queue_threads_ne _ _ hne, setCpu_threads]
    · rfl
  · exact setThread_self _ _ _

theorem sched_try_preempt_threads_ne {s : State n} {c : Fin (n + 1)} {td x : Tid n} (hx : x ≠ td)
    (hnext : (s.cpus c).next_thread ≠ some x) :
    (sched_try_preempt s c td).threads x = s.threads x := by
  unfold sched_try_preempt
  dsimp only
  split
  · split
    · next y hy =>
      have hne : x ≠ y := fun heq => hnext (heq ▸ hy)
      rw [sched_insert_in_queue_threads_ne _ _ hne, setCpu_threads]
    · rfl
  · exact sched_insert_in_queue_threads_ne s c hx

def Thread.placed (t : Thread n) (pinned : Bool) (state : ThreadState)
    (runq : Option (Fin (n + 1) × RunqKind)) (last_cpu : Option (Fin (n + 1))) : Thread n :=
  { t with pinned := pinned, state := state, runq := runq, last_cpu := last_cpu }

section Placed

variable (pinned : Bool) (state : ThreadState) (runq : Option (Fin (n + 1) × RunqKind))
  (last_cpu : Option (Fin (n + 1)))

theorem sched_update_interactivity_placed :
    sched_update_interactivity (t.placed pinned state runq last_cpu) =
      (sched_update_interactivity t).placed pinned state runq last_cpu := by
  have hclamp : sched_clamp_time (t.placed pinned state runq last_cpu) =
      (sched_clamp_time t).placed pinned state runq last_cpu := by
    unfold sched_clamp_time Thread.placed
    dsimp only
    repeat' split
    all_goals rfl
  unfold sched_update_interactivity
  rw [hclamp]
  rfl

theorem sched_recompute_priority_placed :
    (sched_recompute_priority ticks (t.placed pinned state runq last_cpu)).filter =
      (sched_recompute_priority ticks t).filter := by
  unfold sched_recompute_priority
  by_cases hscore : interactive_score t < INTERACTIVITY_THRESHOLD
  · have hscore' : interactive_score (t.placed pinned state runq last_cpu) <
        INTERACTIVITY_THRESHOLD := hscore
    rw [if_pos hscore, if_pos hscore']
    rfl
  · have hscore' : ¬ interactive_score (t.placed pinned state runq last_cpu) <
        INTERACTIVITY_THRESHOLD := hscore
    rw [if_neg hscore, if_neg hscore']
    rfl

theorem charge_tick_placed : (charge_tick ticks (t.placed pinned state runq last_cpu)).filter =
      (charge_tick ticks t).filter := by
  unfold charge_tick
  by_cases hbatch : t.priority_class = .batch
  · have hbatch' : (t.placed pinned state runq last_cpu).priority_class = .batch := hbatch
    have hcharged : ({ t.placed pinned state runq last_cpu with
        runtime := t.runtime + TICKS_TO_MS 1
        ticks := t.ticks + 1 } : Thread n) =
        Thread.placed { t with runtime := t.runtime + TICKS_TO_MS 1, ticks := t.ticks + 1 }
          pinned state runq last_cpu := rfl
    rw [if_pos hbatch, if_pos hbatch']
    show (sched_recompute_priority ticks (sched_update_interactivity
      { t.placed pinned state runq last_cpu with
        runtime := t.runtime + TICKS_TO_MS 1
        ticks := t.ticks + 1 })).filter = _
    rw [hcharged, sched_update_interactivity_placed]
    exact sched_recompute_priority_placed pinned state runq last_cpu
  · have hbatch' : ¬ (t.placed pinned state runq last_cpu).priority_class = .batch := hbatch
    rw [if_neg hbatch, if_neg hbatch']
    rfl

end Placed

/-! ### After a switch -/

section
variable (s : State n) (c : Fin (n + 1))

theorem leaves_sched_switch (next : Tid n) (j : Nat) :
    leaves (sched_switch s c (s.cpus c).current_thread next) c (.thread j) = 0 := by
  have hsw := sched_switch_switches s c next
  unfold leaves
  apply if_neg
  intro h
  obtain ⟨hcur, hnot⟩ := h
  rw [hsw.current] at hcur
  apply hnot
  refine ⟨?_, ?_⟩
  · rw [hsw.current, ← hcur]
    intro heq
    cases heq
  · rw [hsw.current]
    exact hsw.state_next

theorem sched_switch_next_thread (cur next : Tid n) :
    ((sched_switch s c cur next).cpus c).next_thread = none := by
  unfold sched_switch switch_to
  rw [setCpu_self]

theorem sched_yield_after : ((sched_yield s c).cpus c).next_thread = none ∧
      ∀ j, leaves (sched_yield s c) c (.thread j) = 0 := by
  match hsel : yield_selection s c with
  | some (next, sd) =>
    rw [sched_yield_some hsel]
    refine ⟨sched_switch_next_thread _ _ _ _, fun j => ?_⟩
    have h := leaves_sched_switch (setCpu s c ((s.cpus c).setQueues sd)) c next j
    rw [current_setQueues] at h
    exact h
  | none =>
    rw [sched_yield_none hsel]
    exact ⟨sched_switch_next_thread _ _ _ _, leaves_sched_switch s c _⟩

theorem dispatch_after_yield :
    Moves ((sched_yield s c).cpus c) ((dispatch_dpc (sched_yield s c) c).cpus c) (fun _ => 0)
      (fun _ => 0) := by
  have hdis := (dispatch_dpc_dispatches (sched_yield s c) c).moves
  obtain ⟨hnext, hleaves⟩ := sched_yield_after s c
  refine ⟨fun k => ?_, hdis.wf, hdis.defect⟩
  have h := hdis.holds k
  rw [CpuLocal.next_eq_zero hnext, hleaves] at h
  simpa using h

end

/-! ### Keeping the books -/

/-- The bitmaps and the load counter of one CPU are right. -/
def Kept (cpu : CpuLocal n) : Prop :=
  cpu.sched_data.Wf ∧ cpu.sched_data.load = UInt64.ofNat cpu.sched_data.size

theorem bookKept_iff (s : State n) (p c : Fin (n + 1)) :
    BookKept s p c ↔ Kept (s.cpus p) ∧ Kept (s.cpus c) := by
  constructor
  · intro h
    exact ⟨h p (.inl rfl), h c (.inr rfl)⟩
  · intro h d hd
    rcases hd with hd | hd
    · rw [hd]
      exact h.1
    · rw [hd]
      exact h.2

theorem Kept.moves (h : Kept cpu) (hmoves : Moves cpu cpu' gain loss) : Kept cpu' := by
  refine ⟨hmoves.wf h.1, ?_⟩
  rw [← SchedPercpu.defect_eq_zero, hmoves.defect, SchedPercpu.defect_eq_zero]
  exact h.2

theorem BookKept.dispatch_dpc (hne : p ≠ c)
    (h : BookKept s p c) : BookKept (dispatch_dpc s p) p c := by
  have hdis := dispatch_dpc_dispatches s p
  rw [bookKept_iff] at h ⊢
  refine ⟨h.1.moves hdis.moves, ?_⟩
  rw [hdis.ne c hne.symm]
  exact h.2

section Moving

variable {s s' : State n} {k : Nat} {p c : Fin (n + 1)} {loss : Nat → Nat}

theorem moved_iff (hinv : RunqueueInv s) (hne : p ≠ c) (hold : 0 < (s.cpus p).holds (.thread k))
    (hc : ∀ j, (s'.cpus c).holds (.thread j) =
      (s.cpus c).holds (.thread j) + if j = k then 1 else 0)
    (hp : ∀ j, (s'.cpus p).holds (.thread j) + loss j = (s.cpus p).holds (.thread j))
    (hrest : ∀ d j, d ≠ p → d ≠ c → (s'.cpus d).holds (.thread j) = (s.cpus d).holds (.thread j)) :
    Moved s s' k c ↔ loss k = 1 ∧ ∀ j, j ≠ k → ¬ Leaving s p j → loss j = 0 := by
  obtain ⟨hone, hzero⟩ := hinv.only hold
  constructor
  · intro h
    constructor
    · have hplace := h.place p
      have hpk := hp k
      rw [if_neg hne] at hplace
      omega
    · intro j hj hstays
      have hothers := h.others p j hj hstays
      have hpj := hp j
      omega
  · intro h
    obtain ⟨hk, hothers⟩ := h
    refine ⟨fun d => ?_, fun d j hj hstays => ?_⟩
    · by_cases hdc : d = c
      · rw [hdc, hc k, hzero c hne.symm, if_pos rfl, if_pos rfl]
      · rw [if_neg hdc]
        by_cases hdp : d = p
        · have hpk := hp k
          rw [hdp]
          omega
        · rw [hrest d k hdp hdc, hzero d hdp]
    · by_cases hdc : d = c
      · rw [hdc, hc j, if_neg hj, Nat.add_zero]
      · by_cases hdp : d = p
        · subst hdp
          have hpj := hp j
          rw [hothers j hj hstays] at hpj
          exact hpj
        · exact hrest d j hdp hdc

theorem RunqueueInv.next_none_iff (hinv : RunqueueInv s)
    (hk : (s.cpus p).next_thread ≠ some (.thread k)) :
    (∀ j, j ≠ k → ¬ Leaving s p j → (s.cpus p).next (.thread j) = 0) ↔
      (s.cpus p).next_thread = none := by
  constructor
  · intro h
    by_contra hsome
    obtain ⟨x, hx⟩ := Option.ne_none_iff_exists'.mp hsome
    obtain ⟨j, rfl⟩ := hinv.next_thread hx
    have hj : j ≠ k := fun heq => hk (heq ▸ hx)
    have hstays : ¬ Leaving s p j := fun hl => hinv.current_ne_next hl.1 p hx
    have h0 := h j hj hstays
    rw [CpuLocal.next_eq hx, if_pos rfl] at h0
    omega
  · intro h j _ _
    exact CpuLocal.next_eq_zero h _

end Moving

/-! ### Never elsewhere -/

theorem sched_switch_keeps_affinity {s : State n} {c : Fin (n + 1)} {next td : Tid n}
    (h : ((sched_switch s c (s.cpus c).current_thread next).cpus c).current_thread ≠ td) :
    ((sched_switch s c (s.cpus c).current_thread next).threads td).affinity =
      (s.threads td).affinity := by
  rw [(sched_switch_switches s c next).current] at h
  rw [sched_switch_affinity, if_neg h.symm]

theorem sched_yield_keeps_affinity {s : State n}
    (h : ((sched_yield s c).cpus c).current_thread ≠ td) :
    ((sched_yield s c).threads td).affinity = (s.threads td).affinity := by
  match hsel : yield_selection s c with
  | some (next, sd) =>
    rw [sched_yield_some hsel] at h ⊢
    have hsw := @sched_switch_keeps_affinity n (setCpu s c ((s.cpus c).setQueues sd)) c next td
    rw [current_setQueues] at hsw
    exact hsw h
  | none =>
    rw [sched_yield_none hsel] at h ⊢
    exact sched_switch_keeps_affinity h

theorem dispatch_dpc_keeps_affinity {s : State n}
    (h : ((dispatch_dpc s c).cpus c).current_thread ≠ td) :
    ((dispatch_dpc s c).threads td).affinity = (s.threads td).affinity := by
  have hswitch : ∀ s : State n, ((switch_next s c).cpus c).current_thread ≠ td →
      ((switch_next s c).threads td).affinity = (s.threads td).affinity := by
    intro s h
    unfold switch_next at h ⊢
    split
    · next next hnext =>
      rw [hnext] at h
      exact sched_switch_keeps_affinity h
    · rfl
  unfold dispatch_dpc at h ⊢
  rw [hswitch _ h]
  show ((if (s.cpus c).preemption_reason = .quantumEnd ∨
    (s.cpus c).preemption_reason = .migration then sched_reschedule s c else s).threads
      td).affinity = _
  split
  · exact sched_reschedule_affinity s c td
  · rfl

theorem pinMoves_iff_moved (hne : p ≠ c) (hpin : sched_pin s self (.thread k) c = some s₁)
    (haffinity : ((dispatch_dpc s₁ p).cpus p).holds (.thread k) = 0 →
      ((dispatch_dpc s₁ p).threads (.thread k)).affinity = (true, some c)) :
    PinMoves s self k p c ↔ BookKept s₁ p c ∧ Moved s (dispatch_dpc s₁ p) k c := by
  constructor
  · intro h
    obtain ⟨s₂, hpin', hkept, -, hmoved, -⟩ := h
    rw [hpin] at hpin'
    cases hpin'
    exact ⟨hkept, hmoved⟩
  · intro h
    obtain ⟨hkept, hmoved⟩ := h
    have hplace : ∀ d, d ≠ c → ((dispatch_dpc s₁ p).cpus d).holds (.thread k) = 0 := by
      intro d hd
      rw [hmoved.place d, if_neg hd]
    have hstays : StaysOn (dispatch_dpc s₁ p) k c := ⟨haffinity (hplace p hne), hplace⟩
    refine ⟨s₁, hpin, hkept, hkept.dispatch_dpc hne, hmoved, fun s' hs d hd => ?_⟩
    exact CpuLocal.current_ne_of_holds ((hstays.run hs).elsewhere d hd)

/-! ### The new CPU -/

section NewCpu

variable {s : State n} {k : Nat} {p c : Fin (n + 1)}

section
variable (s : State n) (k : Nat)

/-- The state after `sched_try_preempt` in `sched_pin`. -/
def offered (c : Fin (n + 1)) : State n := sched_try_preempt (pinTo s (.thread k) c) c (.thread k)

theorem offered_cpus_ne (hd : d ≠ c) : (offered s k c).cpus d = s.cpus d :=
  sched_try_preempt_cpus_ne (pinTo s (.thread k) c) c _ hd

theorem offered_moves (c : Fin (n + 1)) :
    Moves (s.cpus c) ((offered s k c).cpus c) (fun td => if td = .thread k then 1 else 0)
      (fun _ => 0) :=
  sched_try_preempt_moves (pinTo s (.thread k) c) c _

theorem offered_holds (c : Fin (n + 1)) (j : Nat) : ((offered s k c).cpus c).holds (.thread j) =
      (s.cpus c).holds (.thread j) + if j = k then 1 else 0 := by
  have h := (offered_moves s k c).holds j
  simpa using h

theorem offered_affinity (c : Fin (n + 1)) :
    ((offered s k c).threads (.thread k)).affinity = (true, some c) := by
  unfold offered
  rw [sched_try_preempt_affinity, pinTo_threads_self]
  rfl

end

theorem offered_kept (hinv : RunqueueInv s) (k : Nat) (hne : p ≠ c) :
    Kept ((offered s k c).cpus p) ∧ Kept ((offered s k c).cpus c) := by
  rw [offered_cpus_ne s k hne]
  exact ⟨⟨hinv.wf p, hinv.load p⟩, .moves ⟨hinv.wf c, hinv.load c⟩ (offered_moves s k c)⟩

theorem offered_thread (hnext : (s.cpus c).next_thread ≠ some (.thread k)) :
    (offered s k c).threads (.thread k) =
      if should_preempt (s.threads (.thread k)) (s.cpus c) then
        { s.threads (.thread k) with pinned := true, last_cpu := some c }
      else
        { s.threads (.thread k) with
          pinned := true
          last_cpu := some c
          state := .ready
          runq := runq_of (s.threads (.thread k)) c } := by
  have h := @sched_try_preempt_thread n (pinTo s (.thread k) c) c (.thread k) hnext
  rw [should_preempt_pinTo, pinTo_threads_self] at h
  exact h

theorem offered_threads_ne (hx : x ≠ .thread k)
    (hnext : (s.cpus c).next_thread ≠ some x) : (offered s k c).threads x = s.threads x := by
  have h := @sched_try_preempt_threads_ne n (pinTo s (.thread k) c) c (.thread k) x hx hnext
  rw [pinTo_threads_ne s c hx] at h
  exact h

/-- The state after `yield_on_cpu`, called by another CPU. -/
def asked (s : State n) (k : Nat) (p c : Fin (n + 1)) : State n :=
  setCpu (offered s k c) p { (offered s k c).cpus p with preemption_reason := .migration }

theorem asked_cpu (s : State n) (k : Nat) (hne : p ≠ c) :
    (asked s k p c).cpus p = { s.cpus p with preemption_reason := .migration } := by
  unfold asked
  rw [setCpu_self, offered_cpus_ne s k hne]

theorem asked_cpus_ne (s : State n) (k : Nat) (p c : Fin (n + 1)) (hd : d ≠ p) :
    (asked s k p c).cpus d = (offered s k c).cpus d := setCpu_ne _ _ hd

end NewCpu

/-! ### A running thread -/

section Running

variable {s : State n} {self p c : Fin (n + 1)} {k : Nat} (hinv : RunqueueInv s)
  (hcur : (s.cpus p).current_thread = .thread k)
  (hrun : (s.threads (.thread k)).state = .running)
  (hlast : (s.threads (.thread k)).last_cpu = some p) (hne : p ≠ c)

include hinv hcur

theorem RunqueueInv.inserted_running :
    ((insertedBy s c (.thread k)).any fun x => (linkedIn s x).isSome) = false := by
  have hon : (s.cpus p).on (.thread k) = 1 := if_pos hcur
  unfold insertedBy
  split
  · exact hinv.next_unlinked c
  · show (linkedIn s (.thread k)).isSome = false
    rw [hinv.unlinked (d := p) (by omega)]
    rfl

theorem chargedFilter_offered (hne : p ≠ c) :
    chargedFilter (offered s k c) p = chargedFilter s p := by
  have hthread := offered_thread (hinv.current_ne_next hcur c)
  unfold chargedFilter
  rw [offered_cpus_ne s k hne, hcur, hthread]
  split
  · exact charge_tick_placed true (s.threads (.thread k)).state (s.threads (.thread k)).runq
      (some c)
  · exact charge_tick_placed true .ready (runq_of (s.threads (.thread k)) c) (some c)

include hrun

theorem leaves_offered (hne : p ≠ c) (j : Nat) : leaves (offered s k c) p (.thread j) =
      if j = k ∧ should_preempt (s.threads (.thread k)) (s.cpus c) = false then 1 else 0 := by
  have hthread := offered_thread (hinv.current_ne_next hcur c)
  have hrequeued : Requeued (offered s k c) p ↔
      should_preempt (s.threads (.thread k)) (s.cpus c) = true := by
    unfold Requeued
    rw [offered_cpus_ne s k hne, hcur, hthread]
    split
    · next hp => simp [hp, hrun]
    · next hp => simp [hp]
  unfold leaves
  rw [offered_cpus_ne s k hne, hcur]
  simp only [hrequeued, Tid.thread.injEq, Bool.not_eq_true]

theorem moved_yield_iff (hne : p ≠ c) :
    Moved s (dispatch_dpc (sched_yield (offered s k c) p) p) k c ↔
      should_preempt (s.threads (.thread k)) (s.cpus c) = false ∧
        (s.cpus p).next_thread = none := by
  have hyield := sched_yield_moves (offered s k c) p
  have hdis := dispatch_dpc_dispatches (sched_yield (offered s k c) p) p
  have hafter := dispatch_after_yield (offered s k c) p
  have hcpu := offered_cpus_ne s k hne
  have hnext := hinv.current_ne_next hcur p
  have hmoved := @moved_iff n s (dispatch_dpc (sched_yield (offered s k c) p) p) k p c
    (fun j => (s.cpus p).next (.thread j) + leaves (offered s k c) p (.thread j)) hinv hne
    (CpuLocal.holds_pos_of_current hcur)
    (fun j => by rw [hdis.ne c hne.symm, sched_yield_cpus_ne _ hne.symm, offered_holds])
    (fun j => by
      have h1 := hafter.holds j
      have h2 := hyield.holds j
      rw [hcpu] at h2
      omega)
    (fun d j hp hc => by rw [hdis.ne d hp, sched_yield_cpus_ne _ hp, offered_cpus_ne s k hc])
  rw [hmoved, ← hinv.next_none_iff hnext]
  have hk0 : (s.cpus p).next (.thread k) = 0 := if_neg hnext
  simp only [leaves_offered hinv hcur hrun hne, true_and, hk0]
  constructor
  · intro h
    refine ⟨?_, fun j hj hstays => ?_⟩
    · by_contra hp
      have h1 := h.1
      rw [if_neg (by simp [hp])] at h1
      omega
    · have h2 := h.2 j hj hstays
      omega
  · intro h
    refine ⟨by rw [if_pos h.1], fun j hj hstays => ?_⟩
    rw [h.2 j hj hstays, if_neg fun hjk => hj hjk.1]

include hlast hne

theorem sched_pin_running :
    sched_pin s self (.thread k) c = some (yield_on_cpu (offered s k c) self p) := by
  rw [sched_pin_eq hlast hne, hinv.inserted_running hcur, if_neg Bool.false_ne_true, if_pos hrun]
  rfl

theorem pinMoves_self :
    PinMoves s p k p c ↔ should_preempt (s.threads (.thread k)) (s.cpus c) = false ∧
      (s.cpus p).next_thread = none := by
  have hpin : sched_pin s p (.thread k) c = some (sched_yield (offered s k c) p) := by
    rw [sched_pin_running hinv hcur hrun hlast hne, yield_on_cpu, if_pos rfl]
  have haffinity : ((dispatch_dpc (sched_yield (offered s k c) p) p).cpus p).holds (.thread k) = 0 →
      ((dispatch_dpc (sched_yield (offered s k c) p) p).threads (.thread k)).affinity =
        (true, some c) := by
    intro h
    have h' : ((sched_yield (offered s k c) p).cpus p).holds (.thread k) = 0 := by
      have hk := (dispatch_after_yield (offered s k c) p).holds k
      omega
    rw [dispatch_dpc_keeps_affinity (CpuLocal.current_ne_of_holds h),
      sched_yield_keeps_affinity (CpuLocal.current_ne_of_holds h'), offered_affinity]
  have hkept : BookKept (sched_yield (offered s k c) p) p c := by
    obtain ⟨hp, hc⟩ := offered_kept hinv k hne
    rw [bookKept_iff, sched_yield_cpus_ne _ hne.symm]
    exact ⟨hp.moves (sched_yield_moves _ p), hc⟩
  rw [pinMoves_iff_moved hne hpin haffinity, moved_yield_iff hinv hcur hrun hne]
  exact and_iff_right hkept

omit hrun hlast in
theorem selects_asked_iff : Selects (asked s k p c) p ↔ Replaceable s p := by
  have hcpu := asked_cpu s k hne
  have hwf : ((asked s k p c).cpus p).sched_data.Wf := by
    rw [hcpu]
    exact hinv.wf p
  have hfilter : chargedFilter (asked s k p c) p = chargedFilter s p := by
    rw [← chargedFilter_offered hinv hcur hne]
    unfold chargedFilter
    rw [hcpu, offered_cpus_ne s k hne]
    rfl
  rw [selects_iff hwf]
  unfold Replaceable
  rw [hfilter, hcpu]

omit hlast in
theorem leaves_asked (j : Nat) : leaves (asked s k p c) p (.thread j) =
    if j = k ∧ should_preempt (s.threads (.thread k)) (s.cpus c) = false then 1 else 0 := by
  rw [← leaves_offered hinv hcur hrun hne]
  apply leaves_congr
  · rw [asked_cpu s k hne, offered_cpus_ne s k hne]
  · rfl

omit hlast in
theorem moved_asked_iff : Moved s (dispatch_dpc (asked s k p c) p) k c ↔
    should_preempt (s.threads (.thread k)) (s.cpus c) = false ∧
      (Replaceable s p ↔ (s.cpus p).next_thread = none) := by
  have hcpu := asked_cpu s k hne
  have hcpu_ne := fun d hd => asked_cpus_ne s k p c (d := d) hd
  have hdis := dispatch_dpc_dispatches (asked s k p c) p
  have hnext := hinv.current_ne_next hcur p
  have hasks : Asks (asked s k p c) p := by
    unfold Asks
    rw [hcpu]
    exact .inr rfl
  have hmoved := @moved_iff n s (dispatch_dpc (asked s k p c) p) k p c
    (fun j => (if Replaceable s p then (s.cpus p).next (.thread j) else 0) +
      if Replaceable s p ∨ (s.cpus p).next_thread ≠ none then
        if j = k ∧ should_preempt (s.threads (.thread k)) (s.cpus c) = false then 1 else 0
      else 0) hinv hne (CpuLocal.holds_pos_of_current hcur)
    (fun j => by rw [hdis.ne c hne.symm, hcpu_ne c hne.symm, offered_holds])
    (fun j => by
      have h := hdis.moves.holds j
      rw [leaves_asked hinv hcur hrun hne, hcpu] at h
      simp only [hasks, true_and, selects_asked_iff hinv hcur hne] at h
      exact h)
    (fun d j hp hc => by rw [hdis.ne d hp, hcpu_ne d hp, offered_cpus_ne s k hc])
  have hk0 : (s.cpus p).next (.thread k) = 0 := if_neg hnext
  have hmissed := hinv.next_none_iff hnext
  have hothers : ∀ j, j ≠ k →
      ¬ (j = k ∧ should_preempt (s.threads (.thread k)) (s.cpus c) = false) :=
    fun j hj h => hj h.1
  rw [hmoved]
  by_cases hr : Replaceable s p
  · -- a next thread is lost
    simp only [true_and, hk0, hr, if_true, true_or, true_iff, Nat.zero_add]
    rw [← hmissed]
    constructor
    · intro h
      refine ⟨?_, fun j hj hstays => ?_⟩
      · by_contra hp
        have h1 := h.1
        rw [if_neg hp] at h1
        omega
      · have h2 := h.2 j hj hstays
        omega
    · intro h
      refine ⟨if_pos h.1, fun j hj hstays => ?_⟩
      rw [h.2 j hj hstays, if_neg (hothers j hj)]
  · -- without a next thread nothing is switched
    simp only [true_and, hr, if_false, false_or, false_iff, Nat.zero_add]
    constructor
    · intro h
      have h1 := h.1
      split at h1
      · next hnone =>
        refine ⟨?_, hnone⟩
        by_contra hp
        rw [if_neg hp] at h1
        omega
      · omega
    · intro h
      refine ⟨?_, fun j hj _ => ?_⟩
      · rw [if_pos h.2, if_pos h.1]
      · rw [if_neg (hothers j hj), ite_self]

theorem pinMoves_other (hself : p ≠ self) :
    PinMoves s self k p c ↔ should_preempt (s.threads (.thread k)) (s.cpus c) = false ∧
      (Replaceable s p ↔ (s.cpus p).next_thread = none) := by
  have hpin : sched_pin s self (.thread k) c = some (asked s k p c) := by
    rw [sched_pin_running hinv hcur hrun hlast hne, yield_on_cpu, if_neg hself]
    rfl
  have haffinity : ((dispatch_dpc (asked s k p c) p).cpus p).holds (.thread k) = 0 →
      ((dispatch_dpc (asked s k p c) p).threads (.thread k)).affinity = (true, some c) := by
    intro h
    rw [dispatch_dpc_keeps_affinity (CpuLocal.current_ne_of_holds h)]
    exact offered_affinity s k c
  have hkept : BookKept (asked s k p c) p c := by
    obtain ⟨hp, hc⟩ := offered_kept hinv k hne
    rw [offered_cpus_ne s k hne] at hp
    rw [bookKept_iff, asked_cpu s k hne, asked_cpus_ne s k p c hne.symm]
    exact ⟨hp, hc⟩
  rw [pinMoves_iff_moved hne hpin haffinity, moved_asked_iff hinv hcur hrun hne]
  exact and_iff_right hkept

/-- **A running thread** moves if it is queued on the new CPU and its old CPU
switches to one other thread. -/
theorem pinMoves_running : PinMoves s self k p c ↔ PinsRunning s self k p c := by
  by_cases hself : p = self
  · subst hself
    rw [pinMoves_self hinv hcur hrun hlast hne]
    constructor
    · intro h
      exact ⟨hcur, hrun, h.1, by rw [if_pos rfl]; exact h.2⟩
    · intro h
      have hswitches := h.switches
      rw [if_pos rfl] at hswitches
      exact ⟨h.queued, hswitches⟩
  · rw [pinMoves_other hinv hcur hrun hlast hne hself]
    constructor
    · intro h
      exact ⟨hcur, hrun, h.1, by rw [if_neg hself]; exact h.2⟩
    · intro h
      have hswitches := h.switches
      rw [if_neg hself] at hswitches
      exact ⟨h.queued, hswitches⟩

end Running

end Ule
