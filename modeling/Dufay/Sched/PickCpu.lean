import Dufay.Sched.CpuPlaces

/-! # Where a thread that becomes ready goes

`pick_cpu` and `sched_ready` of `core/sched/ule.c`. The comment in
`pick_cpu` gives the policy in three steps; `Policy` is that policy, over
any number of CPUs with any loads and published statuses.
`sched_try_preempt` evaluates the preemption test again on the CPU that
was picked.
-/

namespace Ule

variable {n : Nat}

/-! ### The policy -/

def State.load (s : State n) (c : Fin (n + 1)) : Nat := (s.cpus c).sched_data.load.toNat

/-- The thread goes back to the CPU it ran on last: it is pinned, or would
run there at once. -/
def GoesBack (s : State n) (t : Thread n) (c : Fin (n + 1)) : Prop :=
  t.last_cpu = some c ∧ (t.pinned = true ∨ should_preempt t (s.cpus c) = true)

structure Policy (s : State n) (t : Thread n) (c : Fin (n + 1)) : Prop where
  /-- 1. The last CPU, if the thread would run immediately or is pinned. -/
  last : ∀ d, GoesBack s t d → c = d
  /-- 2. The least loaded CPU on which the thread can run immediately. -/
  least_preempt : (∀ d, ¬ GoesBack s t d) → ∀ d, should_preempt t (s.cpus d) = true →
    should_preempt t (s.cpus c) = true ∧ s.load c ≤ s.load d
  /-- 3. The least loaded CPU overall. -/
  least : (∀ d, ¬ GoesBack s t d) → (∀ d, should_preempt t (s.cpus d) = false) →
    ∀ d, s.load c ≤ s.load d

/-! ### The two minima -/

/-- One round of the search for the least loaded CPU. -/
def keepLeast (s : State n) (best : Option (Fin (n + 1))) (c : Fin (n + 1)) :
    Option (Fin (n + 1)) :=
  match best, c with
  | none, c => some c
  | some b, c =>
    if (s.cpus c).sched_data.load < (s.cpus b).sched_data.load then some c else some b

theorem foldl_keepLeast (s : State n) (l : List (Fin (n + 1))) :
    l.foldl (keepLeast s) none = l.argmin s.load := by
  unfold List.argmin
  congr 1
  funext best c
  cases best with
  | none => rfl
  | some b =>
    show (if (s.cpus c).sched_data.load < (s.cpus b).sched_data.load then some c else some b) =
      if s.load c < s.load b then some c else some b
    by_cases hlt : s.load c < s.load b
    · rw [if_pos hlt, if_pos (UInt64.lt_iff_toNat_lt.mpr hlt)]
    · rw [if_neg hlt, if_neg fun h => hlt (UInt64.lt_iff_toNat_lt.mp h)]

/-- The CPUs that the thread would preempt. -/
def preemptible (s : State n) (t : Thread n) : List (Fin (n + 1)) :=
  (List.finRange (n + 1)).filter fun c => should_preempt t (s.cpus c)

theorem mem_preemptible : c ∈ preemptible s t ↔ should_preempt t (s.cpus c) = true := by
  simp [preemptible]

/-- What the loop of `pick_cpu` returns. -/
def search_cpu (s : State n) (t : Thread n) : Fin (n + 1) :=
  match (preemptible s t).argmin s.load with
  | some c => c
  | none => ((List.finRange (n + 1)).argmin s.load).getD ⟨0, Nat.succ_pos n⟩

theorem pick_cpu_eq (s : State n) (t : Thread n) : pick_cpu s t =
      match t.last_cpu with
      | some c => if should_preempt t (s.cpus c) || t.pinned then c else search_cpu s t
      | none => search_cpu s t := by
  have hsearch : search_cpu s t =
      match (preemptible s t).foldl (keepLeast s) none with
      | some c => c
      | none => ((List.finRange (n + 1)).foldl (keepLeast s) none).getD 0 := by
    rw [search_cpu, foldl_keepLeast, foldl_keepLeast]
    rfl
  rw [hsearch]
  unfold pick_cpu keepLeast preemptible
  rfl

theorem search_cpu_preemptible {s : State n} (hd : should_preempt t (s.cpus d) = true) :
    should_preempt t (s.cpus (search_cpu s t)) = true ∧ s.load (search_cpu s t) ≤ s.load d := by
  have hmem : d ∈ preemptible s t := mem_preemptible.mpr hd
  unfold search_cpu
  cases hmin : (preemptible s t).argmin s.load with
  | none =>
    rw [List.argmin_eq_none.mp hmin] at hmem
    cases hmem
  | some c => exact ⟨mem_preemptible.mp (List.argmin_mem hmin), List.le_of_mem_argmin hmem hmin⟩

theorem search_cpu_least {s : State n} (hnone : ∀ d, should_preempt t (s.cpus d) = false) :
    s.load (search_cpu s t) ≤ s.load d := by
  have hempty : preemptible s t = [] := by
    rw [List.eq_nil_iff_forall_not_mem]
    intro c hc
    rw [mem_preemptible, hnone c] at hc
    cases hc
  unfold search_cpu
  rw [hempty, List.argmin_nil]
  cases hmin : (List.finRange (n + 1)).argmin s.load with
  | none =>
    have hmem := List.mem_finRange d
    rw [List.argmin_eq_none.mp hmin] at hmem
    cases hmem
  | some c => exact List.le_of_mem_argmin (List.mem_finRange d) hmin

theorem pick_cpu_of_goesBack {s : State n} (h : GoesBack s t c) : pick_cpu s t = c := by
  rw [pick_cpu_eq, h.1]
  apply if_pos
  rw [Bool.or_eq_true]
  exact h.2.symm

theorem pick_cpu_of_not_goesBack {s : State n} (h : ∀ d, ¬ GoesBack s t d) :
    pick_cpu s t = search_cpu s t := by
  rw [pick_cpu_eq]
  cases hlast : t.last_cpu with
  | none => rfl
  | some c =>
    apply if_neg
    intro hback
    rw [Bool.or_eq_true] at hback
    exact h c ⟨hlast, hback.symm⟩

theorem pick_cpu_policy : Policy s t (pick_cpu s t) := by
  constructor
  · intro d hd
    exact pick_cpu_of_goesBack hd
  · intro hnot d hd
    rw [pick_cpu_of_not_goesBack hnot]
    exact search_cpu_preemptible hd
  · intro hnot hnone d
    rw [pick_cpu_of_not_goesBack hnot]
    exact search_cpu_least hnone

/-! ### On the CPU that is picked -/

section TryPreempt

variable {s : State n} {c : Fin (n + 1)} {td : Tid n}

theorem sched_try_preempt_preempts (h : should_preempt (s.threads td) (s.cpus c) = true) :
    ((sched_try_preempt s c td).cpus c).next_thread = some td ∧
      ∀ x, ((sched_try_preempt s c td).cpus c).sched_data.count x =
        (s.cpus c).sched_data.count x + (s.cpus c).next x := by
  unfold sched_try_preempt
  rw [if_pos h]
  generalize hcpu : { (s.cpus c).setNext (some td) with
    preemption_reason := .higherPriority } = cpu
  have hqueues : cpu.sched_data = (s.cpus c).sched_data := by
    rw [← hcpu]
    rfl
  have hset : cpu.next_thread = some td := by
    rw [← hcpu]
    rfl
  cases hnext : (s.cpus c).next_thread with
  | none =>
    rw [setCpu_self]
    refine ⟨hset, fun x => ?_⟩
    rw [hqueues, CpuLocal.next_eq_zero hnext, Nat.add_zero]
  | some y =>
    rw [sched_insert_in_queue_cpus, setCpu_self, ← hqueues]
    refine ⟨hset, fun x => ?_⟩
    rw [CpuLocal.next_eq hnext]
    exact SchedPercpu.count_insert cpu.sched_data y x _ _ _

theorem sched_try_preempt_queues (h : should_preempt (s.threads td) (s.cpus c) = false) :
    ((sched_try_preempt s c td).cpus c).next_thread = (s.cpus c).next_thread ∧
      ∀ x, ((sched_try_preempt s c td).cpus c).sched_data.count x =
        (s.cpus c).sched_data.count x + if x = td then 1 else 0 := by
  rw [sched_try_preempt_of_not h, sched_insert_in_queue_cpus]
  exact ⟨rfl, fun x => SchedPercpu.count_insert _ td x _ _ _⟩

theorem sched_try_preempt_off (s : State n) (c : Fin (n + 1)) (td x : Tid n) :
    ((sched_try_preempt s c td).cpus c).off x = (s.cpus c).off x + if x = td then 1 else 0 := by
  unfold CpuLocal.off
  cases h : should_preempt (s.threads td) (s.cpus c) with
  | true =>
    obtain ⟨hnext, hcount⟩ := sched_try_preempt_preempts h
    rw [hcount x, CpuLocal.next_eq hnext]
    omega
  | false =>
    obtain ⟨hnext, hcount⟩ := sched_try_preempt_queues h
    rw [hcount x, CpuLocal.next, hnext, ← CpuLocal.next]
    omega

end TryPreempt

/-- **Placement of a thread that becomes ready**, for any number of CPUs with
any loads and published statuses and any thread that is not queued: one
CPU, the one of the policy, is touched. On it the thread becomes the next
thread if it preempts, with the next thread that was there queued on the
same CPU, and is queued once otherwise. -/
theorem sched_ready_placement (s : State n) (td : Tid n)
    (hqueued : ∀ c, (s.cpus c).sched_data.count td = 0) : ∃ c, Policy s (s.threads td) c ∧
      (∀ d, d ≠ c → (sched_ready s td).cpus d = s.cpus d) ∧
      (should_preempt (s.threads td) (s.cpus c) = true →
        ((sched_ready s td).cpus c).next_thread = some td ∧
        ∀ x, ((sched_ready s td).cpus c).sched_data.count x =
          (s.cpus c).sched_data.count x + if (s.cpus c).next_thread = some x then 1 else 0) ∧
      (should_preempt (s.threads td) (s.cpus c) = false →
        ((sched_ready s td).cpus c).next_thread = (s.cpus c).next_thread ∧
        ((sched_ready s td).cpus c).sched_data.count td = 1 ∧
        ∀ x, x ≠ td →
          ((sched_ready s td).cpus c).sched_data.count x = (s.cpus c).sched_data.count x) := by
  refine ⟨pick_cpu s (s.threads td), pick_cpu_policy, ?_, sched_try_preempt_preempts, ?_⟩
  · intro d hd
    exact sched_try_preempt_cpus_ne s _ td hd
  · intro hnot
    obtain ⟨hnext, hcount⟩ := sched_try_preempt_queues hnot
    refine ⟨hnext, ?_, fun x hx => ?_⟩
    · rw [sched_ready, hcount td, hqueued, if_pos rfl]
    · rw [sched_ready, hcount x, if_neg hx, Nat.add_zero]

/-- CPU 0 runs a timeshared thread and CPU 1 is idle: a thread that has not
run yet goes to CPU 1, which it preempts. -/
theorem sched_ready_placement_oneRuns :
    (∀ c, ((oneRuns (n := 1) 0).cpus c).sched_data.count (.thread 2) = 0) ∧
      ((sched_ready (oneRuns (n := 1) 0) (.thread 2)).cpus 1).next_thread = some (.thread 2) ∧
      (sched_ready (oneRuns (n := 1) 0) (.thread 2)).cpus 0 = (oneRuns 0).cpus 0 := by
  have hqueued : ∀ c, ((oneRuns (n := 1) 0).cpus c).sched_data.count (.thread 2) = 0 := by
    decide +kernel
  obtain ⟨c, hpolicy, hother, hnext, -⟩ :=
    sched_ready_placement (oneRuns (n := 1) 0) (.thread 2) hqueued
  have hnot : ∀ d, ¬ GoesBack (oneRuns (n := 1) 0) ((oneRuns 0).threads (.thread 2)) d := by
    intro d hback
    cases hback.1
  have hpreempts := (hpolicy.least_preempt hnot 1 (by decide +kernel)).1
  have honly : ∀ c, should_preempt ((oneRuns (n := 1) 0).threads (.thread 2))
      ((oneRuns 0).cpus c) = true → c = 1 := by
    decide +kernel
  obtain rfl := honly c hpreempts
  exact ⟨hqueued, (hnext hpreempts).1, hother 0 (by decide)⟩

end Ule
