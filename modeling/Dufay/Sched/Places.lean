import Mathlib.Algebra.Order.BigOperators.Group.Finset
import Dufay.Sched.Ule

/-! # Where threads are

A thread can be the current thread of a CPU (`onCpu` counts the CPUs),
or sit in a `next_thread` or in a slot of a run queue (`offCpu` counts
those).
-/

namespace Ule

open CpuLocal

variable {n : Nat}

/-! ### Counting places -/

section
variable (cpu : CpuLocal n)

/-- Whether `td` is the current thread of a CPU, as a number. -/
def CpuLocal.on (td : Tid n) : Nat :=
  if cpu.current_thread = td then 1 else 0

/-- Whether `td` is the next thread of a CPU, as a number. -/
def CpuLocal.next (td : Tid n) : Nat :=
  if cpu.next_thread = some td then 1 else 0

/-- The places of one CPU that hold `td` without running it. -/
def CpuLocal.off (td : Tid n) : Nat := cpu.next td + cpu.sched_data.count td

@[simp] theorem CpuLocal.on_setQueues (sd : SchedPercpu (Tid n))
    (td : Tid n) : (cpu.setQueues sd).on td = cpu.on td := rfl

@[simp] theorem CpuLocal.on_setNext (next : Option (Tid n)) (td : Tid n) :
    (cpu.setNext next).on td = cpu.on td := rfl

theorem CpuLocal.off_setQueues (sd : SchedPercpu (Tid n)) (td : Tid n) :
    (cpu.setQueues sd).off td = cpu.next td + sd.count td :=
  rfl

end

theorem CpuLocal.next_eq_zero {cpu : CpuLocal n} (h : cpu.next_thread = none) (td : Tid n) :
    cpu.next td = 0 := by
  simp [next, h]

theorem CpuLocal.next_eq {cpu : CpuLocal n} {x : Tid n} (h : cpu.next_thread = some x)
    (td : Tid n) : cpu.next td = if td = x then 1 else 0 := by
  simp [next, h, eq_comm]

def onCpu (s : State n) (td : Tid n) : Nat := ∑ c, (s.cpus c).on td

/-- The number of `next_thread` fields and run-queue slots that hold `td`. -/
def offCpu (s : State n) (td : Tid n) : Nat := ∑ c, (s.cpus c).off td

def places (s : State n) (td : Tid n) : Nat := onCpu s td + offCpu s td

/-- The bitmaps of all CPUs agree with their queues. -/
def AllWf (s : State n) : Prop := ∀ c, (s.cpus c).sched_data.Wf

theorem sum_setCpu (f : CpuLocal n → Nat) (s : State n) (c : Fin (n + 1)) (cpu : CpuLocal n) :
    (∑ d, f ((setCpu s c cpu).cpus d)) + f (s.cpus c) = (∑ d, f (s.cpus d)) + f cpu := by
  have hfun : (fun d => f ((setCpu s c cpu).cpus d))
      = Function.update (fun d => f (s.cpus d)) c (f cpu) := by
    funext d
    by_cases h : d = c
    · subst h; simp
    · simp [h]
  rw [hfun]
  exact sum_update_add (fun d => f (s.cpus d)) c (f cpu)

section
variable (s : State n)

theorem onCpu_setCpu (c : Fin (n + 1)) (cpu : CpuLocal n) (td : Tid n) :
    onCpu (setCpu s c cpu) td + (s.cpus c).on td = onCpu s td + cpu.on td :=
  sum_setCpu (fun cpu => cpu.on td) s c cpu

theorem offCpu_setCpu (c : Fin (n + 1)) (cpu : CpuLocal n) (td : Tid n) :
    offCpu (setCpu s c cpu) td + (s.cpus c).off td = offCpu s td + cpu.off td :=
  sum_setCpu (fun cpu => cpu.off td) s c cpu

@[simp] theorem onCpu_setThread (x : Tid n) (t : Thread n) (td : Tid n) :
    onCpu (setThread s x t) td = onCpu s td := rfl

@[simp] theorem offCpu_setThread (x : Tid n) (t : Thread n) (td : Tid n) :
    offCpu (setThread s x t) td = offCpu s td := rfl

theorem onCpu_pos_iff (td : Tid n) : 0 < onCpu s td ↔ ∃ c, (s.cpus c).current_thread = td := by
  unfold onCpu
  rw [Finset.sum_pos_iff]
  constructor
  · rintro ⟨c, -, hc⟩
    refine ⟨c, ?_⟩
    by_contra hne
    simp [on, hne] at hc
  · rintro ⟨c, hc⟩
    exact ⟨c, Finset.mem_univ c, by simp [on, hc]⟩

theorem off_le_offCpu (c : Fin (n + 1)) (td : Tid n) : (s.cpus c).off td ≤ offCpu s td :=
  Finset.single_le_sum (f := fun c => (s.cpus c).off td) (fun _ _ => Nat.zero_le _)
    (Finset.mem_univ c)

end

variable {s : State n}

theorem AllWf.setCpu (h : AllWf s) (hcpu : cpu.sched_data.Wf) : AllWf (setCpu s c cpu) := by
  intro d
  by_cases hd : d = c
  · subst hd; rw [setCpu_self]; exact hcpu
  · rw [setCpu_ne _ _ hd]; exact h d

/-! ### Putting a thread into a place -/

/-- What putting `x` into a place does: one more place for `x`, no CPU runs
anything else, and the only thing that happens to a thread is that it
becomes `READY` because it sits in a queue now. -/
structure Enqueues (s s' : State n) (x : Tid n) : Prop where
  current : ∀ c, (s'.cpus c).current_thread = (s.cpus c).current_thread
  wf : AllWf s → AllWf s'
  off : ∀ td, offCpu s' td = offCpu s td + (if td = x then 1 else 0)
  wait_status : ∀ td, (s'.threads td).wait_status = (s.threads td).wait_status
  committing : ∀ td, (s'.threads td).committing = (s.threads td).committing
  readied : ∀ td, (s'.threads td).readied = (s.threads td).readied
  state : ∀ td, (s'.threads td).state = (s.threads td).state ∨
    ((s'.threads td).state = .ready ∧ (td = x ∨ 0 < offCpu s td))

theorem Enqueues.on (h : Enqueues s s' x) (td : Tid n) : onCpu s' td = onCpu s td := by
  unfold onCpu CpuLocal.on
  simp only [h.current]

theorem sched_insert_in_queue_enqueues (s : State n) (c : Fin (n + 1)) (x : Tid n) :
    Enqueues s (sched_insert_in_queue s c x) x := by
  constructor
  case current =>
    intro d
    by_cases hd : d = c
    · subst hd
      simp only [sched_insert_in_queue, setThread_cpus, setCpu_self]
      rfl
    · simp [sched_insert_in_queue, hd]
  case wf =>
    intro hwf
    exact hwf.setCpu ((hwf c).insert _ _ _ _)
  case off =>
    intro td
    have h := offCpu_setCpu s c ((s.cpus c).setQueues
      ((s.cpus c).sched_data.insert x (s.threads x).priority_class
        (s.threads x).interactive (s.threads x).priority)) td
    rw [off_setQueues, SchedPercpu.count_insert] at h
    unfold off at h
    simp only [sched_insert_in_queue, offCpu_setThread]
    omega
  case state =>
    intro td
    by_cases htd : td = x
    · subst htd; simp [sched_insert_in_queue]
    · simp [sched_insert_in_queue, htd]
  all_goals
    intro td
    by_cases htd : td = x
    · subst htd; simp [sched_insert_in_queue]
    · simp [sched_insert_in_queue, htd]

theorem sched_insert_in_queue_cpus {s : State n} {c : Fin (n + 1)} {x : Tid n} :
    (sched_insert_in_queue s c x).cpus c = (s.cpus c).setQueues
      ((s.cpus c).sched_data.insert x (s.threads x).priority_class (s.threads x).interactive
        (s.threads x).priority) := by
  simp [sched_insert_in_queue]

theorem sched_try_preempt_sched_data (s : State n) (c : Fin (n + 1)) (td : Tid n) :
    ((sched_try_preempt s c td).cpus c).sched_data = (s.cpus c).sched_data ∨
      ∃ x cl interactive priority, ((sched_try_preempt s c td).cpus c).sched_data =
        (s.cpus c).sched_data.insert x cl interactive priority := by
  unfold sched_try_preempt
  dsimp only
  split
  · cases hnext : (s.cpus c).next_thread with
    | none =>
      left
      rw [setCpu_self]
      rfl
    | some y =>
      right
      rw [sched_insert_in_queue_cpus, setCpu_self]
      exact ⟨y, _, _, _, rfl⟩
  · right
    rw [sched_insert_in_queue_cpus]
    exact ⟨td, _, _, _, rfl⟩

theorem sched_try_preempt_enqueues (s : State n) (c : Fin (n + 1)) (x : Tid n) :
    Enqueues s (sched_try_preempt s c x) x := by
  unfold sched_try_preempt
  dsimp only
  split
  -- the thread preempts; only three fields of the new `cpu` matter below
  · generalize hcpu : { (s.cpus c).setNext (some x) with
      preemption_reason := .higherPriority } = cpu
    have hcurr : cpu.current_thread = (s.cpus c).current_thread := by rw [← hcpu]; rfl
    have hqueues : cpu.sched_data = (s.cpus c).sched_data := by rw [← hcpu]; rfl
    have hnext' : cpu.next_thread = some x := by rw [← hcpu]; rfl
    have hcur := setCpu_congr s (·.current_thread) hcurr
    have hwf' : AllWf s → AllWf (setCpu s c cpu) := by
      intro hwf
      exact hwf.setCpu (hqueues ▸ hwf c)
    -- stated with the old next thread on the left, so that both cases can use it
    have hoff : ∀ td, offCpu (setCpu s c cpu) td + (s.cpus c).next td
        = offCpu s td + (if td = x then 1 else 0) := by
      intro td
      have h := offCpu_setCpu s c cpu td
      rw [← next_eq hnext' td]
      unfold off at h
      rw [hqueues] at h
      omega
    cases hnext : (s.cpus c).next_thread with
    | none =>
      refine ⟨hcur, hwf', ?_, fun _ => rfl, fun _ => rfl, fun _ => rfl, fun _ => .inl rfl⟩
      intro td
      rw [← hoff td, next_eq_zero hnext, Nat.add_zero]
    | some y =>
      -- the displaced thread leaves `next_thread` and enters a queue
      have hins := sched_insert_in_queue_enqueues (setCpu s c cpu) c y
      have hypos : 0 < offCpu s y := by
        have hle := off_le_offCpu s c y
        unfold off at hle
        rw [next_eq hnext, if_pos rfl] at hle
        omega
      refine ⟨fun d => (hins.current d).trans (hcur d), fun hwf => hins.wf (hwf' hwf), ?_,
        hins.wait_status, hins.committing, hins.readied, ?_⟩
      · intro td
        rw [hins.off td, ← next_eq hnext td]
        exact hoff td
      · intro td
        rcases hins.state td with h | ⟨h, hy⟩
        · exact .inl h
        · refine .inr ⟨h, ?_⟩
          rcases hy with rfl | hpos
          · exact .inr hypos
          · by_cases htx : td = x
            · exact .inl htx
            · have h' := hoff td
              rw [if_neg htx] at h'
              exact .inr (by omega)
  · exact sched_insert_in_queue_enqueues s c x

/-! ### Taking a thread out of a queue -/

theorem offCpu_takes (h : SchedPercpu.Takes (s.cpus c).sched_data x sd) (td : Tid n) :
    offCpu (setCpu s c ((s.cpus c).setQueues sd)) td + (if td = x then 1 else 0) = offCpu s td := by
  have hoff := offCpu_setCpu s c ((s.cpus c).setQueues sd) td
  have hc := h.count td
  rw [off_setQueues] at hoff
  unfold off at hoff
  omega

/-- What moving a thread from the queues of one CPU to another CPU does: no
thread changes its number of places. -/
structure Migrates (s s' : State n) : Prop where
  current : ∀ c, (s'.cpus c).current_thread = (s.cpus c).current_thread
  wf : AllWf s → AllWf s'
  off : ∀ td, offCpu s' td = offCpu s td
  wait_status : ∀ td, (s'.threads td).wait_status = (s.threads td).wait_status
  committing : ∀ td, (s'.threads td).committing = (s.threads td).committing
  readied : ∀ td, (s'.threads td).readied = (s.threads td).readied
  state : ∀ td, (s'.threads td).state = (s.threads td).state ∨
    ((s'.threads td).state = .ready ∧ 0 < offCpu s td)

theorem Migrates.refl (s : State n) : Migrates s s :=
  ⟨fun _ => rfl, id, fun _ => rfl, fun _ => rfl, fun _ => rfl, fun _ => rfl,
    fun _ => .inl rfl⟩

theorem Migrates.trans (h₁ : Migrates s₁ s₂) (h₂ : Migrates s₂ s₃) : Migrates s₁ s₃ where
  current := fun c => (h₂.current c).trans (h₁.current c)
  wf := fun hwf => h₂.wf (h₁.wf hwf)
  off := fun td => (h₂.off td).trans (h₁.off td)
  wait_status := fun td => (h₂.wait_status td).trans (h₁.wait_status td)
  committing := fun td => (h₂.committing td).trans (h₁.committing td)
  readied := fun td => (h₂.readied td).trans (h₁.readied td)
  state := fun td => by
    rcases h₂.state td with h | ⟨h, hpos⟩
    · rcases h₁.state td with h' | ⟨h', hpos'⟩
      · exact .inl (h.trans h')
      · exact .inr ⟨h.trans h', hpos'⟩
    · exact .inr ⟨h, h₁.off td ▸ hpos⟩

theorem current_setQueues (s : State n) (c d : Fin (n + 1)) (sd : SchedPercpu (Tid n)) :
    ((setCpu s c ((s.cpus c).setQueues sd)).cpus d).current_thread = (s.cpus d).current_thread :=
  setCpu_congr s (·.current_thread) (by rfl) d

theorem migrate_thread_migrates (h : migrate_thread s most dest = some s') : Migrates s s' := by
  unfold migrate_thread at h
  dsimp only at h
  split at h
  · next td sd hsel =>
    cases h
    -- out of the queues of `most`, into a place of `dest`: the two counts cancel
    have htakes := SchedPercpu.sched_select_thread_takes hsel
    have hoff := offCpu_takes htakes
    have henq := sched_try_preempt_enqueues (setCpu s most ((s.cpus most).setQueues sd)) dest td
    -- the thread that is moved was in a queue of `most`
    have hpos : 0 < offCpu s td := by
      have := hoff td
      simp only [if_true] at this
      omega
    refine ⟨fun c => (henq.current c).trans (current_setQueues s most c sd),
      fun hwf => henq.wf (hwf.setCpu (htakes.wf (hwf most))), ?_, henq.wait_status,
      henq.committing, henq.readied, ?_⟩
    · intro x
      rw [henq.off x, hoff x]
    · intro x
      rcases henq.state x with h | ⟨h, hx⟩
      · exact .inl h
      · refine .inr ⟨h, ?_⟩
        rcases hx with rfl | hx
        · exact hpos
        · have := hoff x
          omega
  · cases h

theorem balance_load_migrates (s : State n) : Migrates s (balance_load s) :=
  balance_load_loop_keeps (fun h hm => h.trans (migrate_thread_migrates hm)) (.refl s) _

/-! ### Switching -/

/-- The current thread of `c` goes back into a queue when it is switched
away from. -/
def Requeued (s : State n) (c : Fin (n + 1)) : Prop := (s.cpus c).current_thread ≠ .idle c ∧
    (s.threads (s.cpus c).current_thread).state = .running

instance (s : State n) (c : Fin (n + 1)) : Decidable (Requeued s c) :=
  inferInstanceAs (Decidable (_ ∧ _))

/-- What switching CPU `c` to `next` does. The next thread that the CPU had
loses that place, whichever thread is switched to. -/
structure Switches (s s' : State n) (c : Fin (n + 1)) (next : Tid n) : Prop where
  current : (s'.cpus c).current_thread = next
  current_ne : ∀ d, d ≠ c → (s'.cpus d).current_thread = (s.cpus d).current_thread
  wf : AllWf s → AllWf s'
  off : ∀ td, offCpu s' td + (s.cpus c).next td
    = offCpu s td + (if Requeued s c ∧ td = (s.cpus c).current_thread then 1 else 0)
  on : ∀ td, onCpu s' td + (s.cpus c).on td = onCpu s td + (if td = next then 1 else 0)
  wait_status : ∀ td, (s'.threads td).wait_status = (s.threads td).wait_status
  committing : ∀ td, (s'.threads td).committing = (s.threads td).committing
  readied : ∀ td, (s'.threads td).readied = (s.threads td).readied
  state_next : (s'.threads next).state = .running
  state : ∀ td, td ≠ next → (s'.threads td).state = (s.threads td).state ∨
    ((s'.threads td).state = .ready ∧ Requeued s c ∧ td = (s.cpus c).current_thread)

theorem sched_insert_in_queue_next (s : State n) (c : Fin (n + 1)) (x td : Tid n) :
    ((sched_insert_in_queue s c x).cpus c).next td = (s.cpus c).next td := by
  simp only [sched_insert_in_queue, setThread_cpus, setCpu_self]
  rfl

theorem put_back_of_requeued (h : Requeued s c) : put_back s c (s.cpus c).current_thread
      = sched_insert_in_queue s c (s.cpus c).current_thread :=
  if_pos h

theorem put_back_of_not_requeued (h : ¬ Requeued s c) :
    put_back s c (s.cpus c).current_thread = s :=
  if_neg h

section
variable (s : State n) (c : Fin (n + 1))

theorem switch_to_off (next td : Tid n) :
    offCpu (switch_to s c next) td + (s.cpus c).next td = offCpu s td := by
  have h : offCpu (switch_to s c next) td + (s.cpus c).off td
      = offCpu s td + (0 + (s.cpus c).sched_data.count td) :=
    offCpu_setCpu (setThread s next _) c _ td
  unfold off at h
  omega

theorem switch_to_on (next td : Tid n) : onCpu (switch_to s c next) td + (s.cpus c).on td
      = onCpu s td + (if td = next then 1 else 0) := by
  have h : onCpu (switch_to s c next) td + (s.cpus c).on td
      = onCpu s td + (if next = td then 1 else 0) :=
    onCpu_setCpu (setThread s next _) c _ td
  simpa only [eq_comm (a := next)] using h

theorem switch_to_threads (next : Tid n) :
    (switch_to s c next).threads = Function.update s.threads next
      { s.threads next with state := .running, last_cpu := some c } := rfl

end

theorem switch_to_wf (h : AllWf s) (c : Fin (n + 1)) (next : Tid n) :
    AllWf (switch_to s c next) := by
  have h' : AllWf (setThread s next
    { s.threads next with state := .running, last_cpu := some c }) := h
  exact h'.setCpu (h c)

theorem switch_to_switches (hr : ¬ Requeued s c) (next : Tid n) :
    Switches s (switch_to s c next) c next := by
  constructor
  case current => simp [switch_to]
  case current_ne => intro d hd; simp [switch_to, hd]
  case wf => exact fun hwf => switch_to_wf hwf c next
  case off =>
    intro td
    rw [switch_to_off, if_neg (fun h => hr h.1), Nat.add_zero]
  case on => exact switch_to_on s c next
  case state_next => simp [switch_to_threads]
  case state => intro td htd; left; simp [switch_to_threads, htd]
  all_goals
    intro td
    rw [switch_to_threads]
    by_cases htd : td = next
    · subst htd; simp
    · simp [htd]

theorem sched_switch_switches (s : State n) (c : Fin (n + 1)) (next : Tid n) :
    Switches s (sched_switch s c (s.cpus c).current_thread next) c next := by
  unfold sched_switch
  by_cases hr : Requeued s c
  · rw [put_back_of_requeued hr]
    have hnext := sched_insert_in_queue_next s c (s.cpus c).current_thread
    have hins := sched_insert_in_queue_enqueues s c (s.cpus c).current_thread
    generalize hm : sched_insert_in_queue s c (s.cpus c).current_thread = m at hnext hins
    -- the outgoing thread is `READY` now, so nothing is put back again
    have hr' : ¬ Requeued m c := by
      rintro ⟨-, hrun⟩
      rw [hins.current c, ← hm] at hrun
      simp [sched_insert_in_queue] at hrun
    have hsw := switch_to_switches hr' next
    constructor
    case current => exact hsw.current
    case current_ne => exact fun d hd => (hsw.current_ne d hd).trans (hins.current d)
    case wf => exact fun hwf => hsw.wf (hins.wf hwf)
    case off =>
      intro td
      have h := switch_to_off m c next td
      rw [hnext td, hins.off td] at h
      simp only [hr, true_and]
      exact h
    case on =>
      intro td
      have h := hsw.on td
      unfold on at h ⊢
      rw [hins.on td, hins.current c] at h
      exact h
    case wait_status => exact fun td => (hsw.wait_status td).trans (hins.wait_status td)
    case committing => exact fun td => (hsw.committing td).trans (hins.committing td)
    case readied => exact fun td => (hsw.readied td).trans (hins.readied td)
    case state_next => exact hsw.state_next
    case state =>
      intro td htd
      have hstate : ((switch_to m c next).threads td).state = (m.threads td).state := by
        simp [switch_to_threads, htd]
      rw [hstate, ← hm]
      by_cases hcur : td = (s.cpus c).current_thread
      · right
        exact ⟨by rw [hcur]; simp [sched_insert_in_queue], hr, hcur⟩
      · left
        simp [sched_insert_in_queue, hcur]
  · rw [put_back_of_not_requeued hr]
    exact switch_to_switches hr next

end Ule
