import Dufay.Sched.Places

/-! # No thread is lost or duplicated

A thread that has been readied and is not waiting should be in exactly
one place: the current thread of one CPU, the next thread of one CPU, or
one slot of one run queue.

The scheduler keeps this on every step but three. `sched_reschedule`
overwrites a next thread that is already set; `sched_switch`, reached
through `sched_yield`, clears one; and a wake that overtakes the sleeper
on its way into `sched_wait` puts a thread into a queue that is still
running.
-/

open Lts

namespace Ule

open SchedPercpu

variable {n : Nat}

/-! ### The invariant -/

/-- The thread is blocked: marked in `sched_wait`, with its wait still
unsatisfied. -/
def Waiting (t : Thread n) : Prop := t.state = .waiting ∧ t.wait_status = .committed

/-- The invariant of one thread, given the number of CPUs that run it and
the number of other places that hold it. -/
structure ThreadOk (t : Thread n) (on off : Nat) : Prop where
  fresh : t.readied = false → on = 0 ∧ off = 0 ∧ t.wait_status ≠ .committed ∧ t.committing = false
  placed : t.readied = true → ¬ Waiting t → on + off = 1
  waiting : Waiting t → off = 0 ∧ on ≤ 1
  running : 0 < on → t.state = .running ∨ Waiting t
  committing : t.committing = true → t.state ≠ .waiting ∧ t.wait_status = .committed

structure Placed (s : State n) : Prop where
  wf : AllWf s
  idle_off : ∀ c, offCpu s (.idle c) = 0
  idle_committing : ∀ c, (s.threads (.idle c)).committing = false
  own_idle : ∀ c d, (s.cpus c).current_thread = .idle d → c = d
  thread : ∀ k, ThreadOk (s.threads (.thread k)) (onCpu s (.thread k)) (offCpu s (.thread k))

/-! ### One thread at a time -/

variable {t t' : Thread n} {on off : Nat} {s s' : State n} {c : Fin (n + 1)}

/-- A thread that has been readied and is not blocked is in one place. -/
theorem ThreadOk.of_one_place (hrd : t.readied = true) (hnw : ¬ Waiting t) (hsum : on + off = 1)
    (hrun : 0 < on → t.state = .running)
    (hcom : t.committing = true → t.state ≠ .waiting ∧ t.wait_status = .committed) :
    ThreadOk t on off where
  fresh := by simp [hrd]
  placed := fun _ _ => hsum
  waiting := fun hw => absurd hw hnw
  running := fun hpos => .inl (hrun hpos)
  committing := hcom

section
variable (h : ThreadOk t on off)
include h

theorem ThreadOk.congr (hstate : t'.state = t.state)
    (hws : t'.wait_status = t.wait_status) (hcom : t'.committing = t.committing)
    (hrd : t'.readied = t.readied) : ThreadOk t' on off := by
  obtain ⟨h1, h2, h3, h4, h5⟩ := h
  unfold Waiting at *
  constructor <;> simp only [hstate, hws, hcom, hrd, Waiting] <;> assumption

theorem ThreadOk.of_waiting (hw : Waiting t) : t.readied = true ∧ t.committing = false := by
  constructor
  · by_contra hne
    exact (h.fresh (by simpa using hne)).2.2.1 hw.2
  · -- it is past `sched_wait`, or it would not be `WAITING`
    by_contra hne
    exact (h.committing (by simpa using hne)).1 hw.1

theorem ThreadOk.of_off_pos (hpos : 0 < off) :
    t.readied = true ∧ ¬ Waiting t ∧ on = 0 ∧ off = 1 := by
  -- both exclusions are by count: a fresh or a waiting thread has `off = 0`
  have hrd : t.readied = true := by
    by_contra hne
    have := (h.fresh (by simpa using hne)).2.1
    omega
  have hnw : ¬ Waiting t := by
    intro hw
    have := (h.waiting hw).1
    omega
  have hsum := h.placed hrd hnw
  exact ⟨hrd, hnw, by omega, by omega⟩

theorem ThreadOk.of_on_pos (hpos : 0 < on) : t.readied = true := by
  by_contra hne
  have := (h.fresh (by simpa using hne)).1
  omega

end

section
variable (h : ThreadOk t on off) (hws : t'.wait_status = t.wait_status)
  (hcom : t'.committing = t.committing) (hrd : t'.readied = t.readied)
include h hws hcom hrd

theorem ThreadOk.ready (hpos : 0 < off) (hstate : t'.state = .ready) : ThreadOk t' on off := by
  obtain ⟨hr, -, hon, hoff⟩ := h.of_off_pos hpos
  have hnw' : ¬ Waiting t' := by
    intro hw
    rw [Waiting, hstate] at hw
    exact absurd hw.1 (by decide)
  refine .of_one_place (hrd.trans hr) hnw' (by omega) (by omega) fun hc => ?_
  rw [hcom] at hc
  rw [hstate, hws]
  exact ⟨by decide, (h.committing hc).2⟩

theorem ThreadOk.switched_to (hpos : 0 < off) (hstate : t'.state = .running) : ThreadOk t' 1 0 := by
  obtain ⟨hr, -, -, -⟩ := h.of_off_pos hpos
  refine .of_one_place (hrd.trans hr) (fun hw => ?_) rfl (fun _ => hstate) fun hc => ?_
  · rw [Waiting, hstate] at hw
    exact absurd hw.1 (by decide)
  · rw [hcom] at hc
    rw [hstate, hws]
    exact ⟨by decide, (h.committing hc).2⟩

theorem ThreadOk.switched_away (hpos : 0 < on) :
    (t.state = .running → t'.state ≠ .waiting → ThreadOk t' 0 1) ∧
    (t.state ≠ .running → t'.state = t.state → ThreadOk t' 0 0) := by
  have hr := h.of_on_pos hpos
  constructor
  · intro hrun hnw
    refine .of_one_place (hrd.trans hr) (fun hw => hnw hw.1) rfl (by omega) fun hc => ?_
    rw [hcom] at hc
    rw [hws]
    exact ⟨hnw, (h.committing hc).2⟩
  · intro hnrun hsame
    have hw : Waiting t := by
      rcases h.running hpos with hrun | hw
      · exact absurd hrun hnrun
      · exact hw
    have hw' : Waiting t' := ⟨hsame.trans hw.1, hws.trans hw.2⟩
    constructor
    · intro hf
      rw [hrd, hr] at hf
      cases hf
    · intro _ hn
      exact absurd hw' hn
    · intro _
      omega
    · intro h0
      omega
    · intro hc
      rw [hcom] at hc
      exact absurd hw.1 (h.committing hc).1

end

theorem ThreadOk.place (hrd : t.readied = true) (hws : t.wait_status ≠ .committed)
    (hcom : t.committing = false) : ThreadOk t 0 1 :=
  .of_one_place hrd (fun hw => hws hw.2) rfl (by omega) (by simp [hcom])

theorem ThreadOk.of_fresh (h : Fresh t) : ThreadOk t 0 0 := by
  obtain ⟨hst, hws, hcom, hrd⟩ := h
  constructor
  · intro _
    exact ⟨rfl, rfl, by rw [hws]; decide, hcom⟩
  · intro hr
    rw [hrd] at hr
    cases hr
  · intro hw
    rw [Waiting, hst] at hw
    exact absurd hw.1 (by decide)
  · intro h0
    omega
  · intro hc
    rw [hcom] at hc
    cases hc

theorem ThreadOk.commit (h : ThreadOk t on off) (hpos : 0 < on) (hrun : t.state = .running)
    (hstate : t'.state = t.state) (hws : t'.wait_status = .committed) (hrd : t'.readied = t.readied)
      : ThreadOk t' on off := by
  have hnw : ∀ u : Thread n, u.state = .running → ¬ Waiting u := by
    intro u hu hw
    rw [Waiting, hu] at hw
    exact absurd hw.1 (by decide)
  have hrun' : t'.state = .running := hstate.trans hrun
  have hr := h.of_on_pos hpos
  refine .of_one_place (hrd.trans hr) (hnw t' hrun') (h.placed hr (hnw t hrun)) (fun _ => hrun') ?_
  exact fun _ => ⟨by rw [hrun']; decide, hws⟩

theorem ThreadOk.mark_waiting (h : ThreadOk t on off) (hpos : 0 < on) (hcom : t.committing = true)
    (hstate : t'.state = .waiting) (hws : t'.wait_status = t.wait_status)
    (hcom' : t'.committing = false) (hrd : t'.readied = t.readied) : ThreadOk t' on off := by
  obtain ⟨hnws, hcommitted⟩ := h.committing hcom
  have hr := h.of_on_pos hpos
  have hsum := h.placed hr (fun hw => hnws hw.1)
  have hw' : Waiting t' := ⟨hstate, hws.trans hcommitted⟩
  constructor
  · intro hf
    rw [hrd, hr] at hf
    cases hf
  · intro _ hnw
    exact absurd hw' hnw
  · intro _
    omega
  · intro _
    exact .inr hw'
  · intro hc
    rw [hcom'] at hc
    cases hc

theorem Placed.enqueue (henq : Enqueues s s' (.thread k)) (hwf : AllWf s)
    (hidle : ∀ c, offCpu s (.idle c) = 0) (hidlec : ∀ c, (s.threads (.idle c)).committing = false)
    (hown : ∀ c d, (s.cpus c).current_thread = .idle d → c = d) (hothers : ∀ j, j ≠ k →
      ThreadOk (s.threads (.thread j)) (onCpu s (.thread j)) (offCpu s (.thread j)))
    (hrd : (s.threads (.thread k)).readied = true)
    (hws : (s.threads (.thread k)).wait_status ≠ .committed)
    (hcom : (s.threads (.thread k)).committing = false) (hon : onCpu s (.thread k) = 0)
    (hoff : offCpu s (.thread k) = 0) : Placed s' where
  wf := henq.wf hwf
  idle_off := fun c => by
    rw [henq.off, hidle c]
    simp
  idle_committing := fun c => by
    rw [henq.committing]
    exact hidlec c
  own_idle := fun c d h => by
    rw [henq.current] at h
    exact hown c d h
  thread := fun j => by
    rw [henq.on, henq.off]
    by_cases hj : j = k
    · subst hj
      rw [hon, hoff, if_pos rfl]
      apply ThreadOk.place
      · rw [henq.readied]; exact hrd
      · rw [henq.wait_status]; exact hws
      · rw [henq.committing]; exact hcom
    -- the others hold as many places as before; one may have become `READY` in its queue
    · have hne : (Tid.thread j : Tid n) ≠ .thread k := fun h => hj (by cases h; rfl)
      rw [if_neg hne, Nat.add_zero]
      rcases henq.state (.thread j) with h | ⟨h, hx⟩
      · exact (hothers j hj).congr h (henq.wait_status _) (henq.committing _) (henq.readied _)
      · rcases hx with hx | hpos
        · exact absurd hx hne
        · exact (hothers j hj).ready (henq.wait_status _) (henq.committing _)
            (henq.readied _) hpos h

theorem Placed.migrate (h : Placed s) (hmig : Migrates s s') : Placed s' where
  wf := hmig.wf h.wf
  idle_off := fun c => by
    rw [hmig.off]
    exact h.idle_off c
  idle_committing := fun c => by
    rw [hmig.committing]
    exact h.idle_committing c
  own_idle := fun c d hcd => by
    rw [hmig.current] at hcd
    exact h.own_idle c d hcd
  thread := fun k => by
    have hon : onCpu s' (.thread k) = onCpu s (.thread k) := by
      unfold onCpu CpuLocal.on
      simp only [hmig.current]
    rw [hon, hmig.off]
    rcases hmig.state (.thread k) with hst | ⟨hst, hpos⟩
    · exact (h.thread k).congr hst (hmig.wait_status _) (hmig.committing _) (hmig.readied _)
    · exact (h.thread k).ready (hmig.wait_status _) (hmig.committing _) (hmig.readied _) hpos hst

theorem Placed.setCpu (h : Placed s) (hcur : cpu.current_thread = (s.cpus c).current_thread)
    (hoff : ∀ td, cpu.off td = (s.cpus c).off td) (hwf : cpu.sched_data.Wf) :
    Placed (setCpu s c cpu) where
  wf := h.wf.setCpu hwf
  idle_off := fun d => by
    have := offCpu_setCpu s c cpu (.idle d)
    rw [hoff, h.idle_off d] at this
    omega
  idle_committing := h.idle_committing
  own_idle := fun d e hde => h.own_idle d e ((setCpu_congr s (·.current_thread) hcur d).symm.trans hde)
  thread := fun k => by
    have hon' := onCpu_setCpu s c cpu (.thread k)
    have hoff' := offCpu_setCpu s c cpu (.thread k)
    rw [hoff] at hoff'
    have hone : cpu.on (.thread k) = (s.cpus c).on (.thread k) := by
      unfold CpuLocal.on
      rw [hcur]
    rw [hone] at hon'
    rw [show onCpu (Ule.setCpu s c cpu) (.thread k) = onCpu s (.thread k) by omega,
      show offCpu (Ule.setCpu s c cpu) (.thread k) = offCpu s (.thread k) by omega]
    exact h.thread k

theorem Placed.setThread (h : Placed s) (hidle : ∀ c, td = .idle c → t.committing = false)
    (hok : ∀ k, td = .thread k → ThreadOk t (onCpu s td) (offCpu s td)) :
    Placed (setThread s td t) where
  wf := h.wf
  idle_off := h.idle_off
  idle_committing := fun c => by
    by_cases hc : Tid.idle c = td
    · rw [hc, setThread_self]
      exact hidle c hc.symm
    · rw [setThread_ne _ _ hc]
      exact h.idle_committing c
  own_idle := h.own_idle
  thread := fun k => by
    rw [onCpu_setThread, offCpu_setThread]
    by_cases hk : Tid.thread k = td
    · rw [hk, setThread_self]
      exact hok k hk.symm
    · rw [setThread_ne _ _ hk]
      exact h.thread k

/-! ### Steps that switch -/

/-- A thread that the switch does not concern keeps its invariant, and so
does the outgoing one. The thread that is switched to has its own lemma.
-/
theorem ThreadOk.switch_other
    (hok : ThreadOk (s.threads (.thread k)) (onCpu s (.thread k)) (offCpu s (.thread k)))
    (hcur : ∀ d, (m.cpus d).current_thread = (s.cpus d).current_thread)
    (hthreads : m.threads = s.threads) (hsw : Switches m s' c next)
    (hne : (.thread k : Tid n) ≠ next)
    (hoff : offCpu m (.thread k) = offCpu s (.thread k) + (m.cpus c).next (.thread k)) :
    ThreadOk (s'.threads (.thread k)) (onCpu s' (.thread k)) (offCpu s' (.thread k)) := by
  have hon_eq : onCpu m (.thread k) = onCpu s (.thread k) := by
    unfold onCpu CpuLocal.on
    simp only [hcur]
  have hon := hsw.on (.thread k)
  have hoff' := hsw.off (.thread k)
  have hws := hsw.wait_status (.thread k)
  have hcom := hsw.committing (.thread k)
  have hrd := hsw.readied (.thread k)
  have hstate := hsw.state (.thread k) hne
  rw [hthreads] at hws hcom hrd hstate
  rw [if_neg hne, hon_eq, CpuLocal.on, hcur c] at hon
  simp only [Requeued, hthreads, hcur c] at hoff' hstate
  by_cases hc : Tid.thread k = (s.cpus c).current_thread
  · -- the outgoing thread
    have hpos : 0 < onCpu s (.thread k) := (onCpu_pos_iff s _).mpr ⟨c, hc.symm⟩
    obtain ⟨hput, hleave⟩ := hok.switched_away hws hcom hrd hpos
    rw [← hc] at hon hoff' hstate
    simp only [if_true, ne_eq, reduceCtorEq, not_false_eq_true, true_and, and_true] at hon hoff' hstate
    -- `put_back` goes by the state: a running thread is queued, a waiting one dropped
    by_cases hrun : (s.threads (.thread k)).state = .running
    · have hr := hok.of_on_pos hpos
      have hnw : ¬ Waiting (s.threads (.thread k)) := by
        intro hw
        rw [Waiting, hrun] at hw
        exact absurd hw.1 (by decide)
      have hsum := hok.placed hr hnw
      rw [if_pos hrun] at hoff'
      rw [show onCpu s' (.thread k) = 0 by omega, show offCpu s' (.thread k) = 1 by omega]
      apply hput hrun
      rcases hstate with h | ⟨h, -⟩
      · rw [h, hrun]; decide
      · rw [h]; decide
    · have hw : Waiting (s.threads (.thread k)) := by
        rcases hok.running hpos with h | h
        · exact absurd h hrun
        · exact h
      have hcount := hok.waiting hw
      rw [if_neg hrun] at hoff'
      rw [show onCpu s' (.thread k) = 0 by omega, show offCpu s' (.thread k) = 0 by omega]
      apply hleave hrun
      rcases hstate with h | ⟨-, h⟩
      · exact h
      · exact absurd h hrun
  · -- a thread of another CPU, or in a queue
    rw [if_neg (fun h => hc h.symm)] at hon
    rw [if_neg (fun h => hc h.2)] at hoff'
    rw [show onCpu s' (.thread k) = onCpu s (.thread k) by omega,
      show offCpu s' (.thread k) = offCpu s (.thread k) by omega]
    rcases hstate with h | ⟨-, -, h⟩
    · exact hok.congr h hws hcom hrd
    · exact absurd h hc

theorem Placed.switch_idle (h : Placed s)
    (hcur : ∀ d, (m.cpus d).current_thread = (s.cpus d).current_thread)
    (hthreads : m.threads = s.threads) (hsw : Switches m s' c next)
    (hoff : ∀ d, offCpu m (.idle d) = offCpu s (.idle d) + (m.cpus c).next (.idle d))
    (hnext : ∀ d, next = .idle d → c = d) :
    (∀ d, offCpu s' (.idle d) = 0) ∧ (∀ d, (s'.threads (.idle d)).committing = false) ∧
      (∀ d e, (s'.cpus d).current_thread = .idle e → d = e) := by
  refine ⟨?_, ?_, ?_⟩
  · intro d
    have hoff' := hsw.off (.idle d)
    -- a CPU runs no idle thread but its own, and that one is not put back
    have hnr : ¬ (Requeued m c ∧ Tid.idle d = (m.cpus c).current_thread) := by
      rintro ⟨⟨hne, -⟩, heq⟩
      rw [hcur c] at hne heq
      have hcd := h.own_idle c d heq.symm
      subst hcd
      exact hne heq.symm
    rw [if_neg hnr, hoff d, h.idle_off d] at hoff'
    omega
  · intro d
    rw [hsw.committing, hthreads]
    exact h.idle_committing d
  · intro d e hde
    by_cases hd : d = c
    · subst hd
      rw [hsw.current] at hde
      exact hnext e hde
    · rw [hsw.current_ne d hd, hcur d] at hde
      exact h.own_idle d e hde

/-- **Switching to a thread** that has just been taken out of its place.
`m` is the state before the switch, in which the thread may still be
the next thread of the CPU. -/
theorem Placed.switch_thread (h : Placed s)
    (hcur : ∀ d, (m.cpus d).current_thread = (s.cpus d).current_thread)
    (hthreads : m.threads = s.threads) (hwf : AllWf m) (hsw : Switches m s' c (.thread j))
    (htook : ∀ td, offCpu m td + (if td = .thread j then 1 else 0) =
      offCpu s td + (m.cpus c).next td) : Placed s' := by
  obtain ⟨hi1, hi2, hi3⟩ := h.switch_idle hcur hthreads hsw
    (fun d => by simpa using htook (.idle d)) (fun d hd => by cases hd)
  refine ⟨hsw.wf hwf, hi1, hi2, hi3, ?_⟩
  intro k
  by_cases hk : k = j
  · subst hk
    have ht := htook (.thread k)
    have hoff := hsw.off (.thread k)
    have hon := hsw.on (.thread k)
    rw [if_pos rfl] at ht hon
    -- the thread sat in a queue or was the next thread of `c`; either way in one place
    have hle : (m.cpus c).next (.thread k) ≤ offCpu m (.thread k) :=
      le_trans (Nat.le_add_right _ _) (off_le_offCpu m c (.thread k))
    have hpos : 0 < offCpu s (.thread k) := by omega
    obtain ⟨-, -, hon0, hoff1⟩ := (h.thread k).of_off_pos hpos
    -- it runs nowhere, so it is not the outgoing thread
    have hnc : ∀ d, (m.cpus d).current_thread ≠ .thread k := by
      intro d hd
      rw [hcur d] at hd
      have := (onCpu_pos_iff s (.thread k)).mpr ⟨d, hd⟩
      omega
    have hon_m : onCpu m (.thread k) = 0 := by
      by_contra hne
      obtain ⟨d, hd⟩ := (onCpu_pos_iff m (.thread k)).mp (Nat.pos_of_ne_zero hne)
      exact hnc d hd
    rw [CpuLocal.on, if_neg (hnc c), hon_m] at hon
    rw [if_neg (fun hr => hnc c hr.2.symm)] at hoff
    rw [show onCpu s' (.thread k) = 1 by omega, show offCpu s' (.thread k) = 0 by omega]
    have hws := hsw.wait_status (.thread k)
    have hcom := hsw.committing (.thread k)
    have hrd := hsw.readied (.thread k)
    rw [hthreads] at hws hcom hrd
    exact (h.thread k).switched_to hws hcom hrd hpos hsw.state_next
  · have hne : (.thread k : Tid n) ≠ .thread j := fun h => hk (by cases h; rfl)
    have ht := htook (.thread k)
    rw [if_neg hne, Nat.add_zero] at ht
    exact .switch_other (h.thread k) hcur hthreads hsw hne ht

theorem Placed.switch_to_idle (h : Placed s) (hnext : (s.cpus c).next_thread = none)
    (hsw : Switches s s' c (.idle c)) : Placed s' := by
  have hoff : ∀ td, offCpu s td = offCpu s td + (s.cpus c).next td := by
    intro td
    rw [CpuLocal.next_eq_zero hnext, Nat.add_zero]
  obtain ⟨hi1, hi2, hi3⟩ := h.switch_idle (fun _ => rfl) rfl hsw (fun d => hoff (.idle d))
    (fun d hd => by cases hd; rfl)
  refine ⟨hsw.wf h.wf, hi1, hi2, hi3, ?_⟩
  intro k
  exact .switch_other (h.thread k) (fun _ => rfl) rfl hsw (by simp) (hoff (.thread k))

/-- The steps that lose or duplicate a thread: a yield that clears a next
thread, a reschedule that overwrites one, and a wake that overtakes a
thread which has not switched away yet. -/
def Overtakes (s : State n) : Action n → Prop
  | .sched_yield c => (s.cpus c).next_thread ≠ none
  | .dispatch_reschedule c =>
    ((s.cpus c).dpc = .queue .quantumEnd ∨ (s.cpus c).dpc = .queue .migration) ∧
      (s.cpus c).next_thread ≠ none ∧
      (s.cpus c).sched_data.Eligible
        (charge_tick (s.cpus c).ticks (s.threads (s.cpus c).current_thread)).filter
  | .sched_wake _ k =>
    (s.threads (.thread k)).state ≠ .waiting ∨ ∃ d, (s.cpus d).current_thread = .thread k
  | _ => False

instance (s : State n) (a : Action n) : Decidable (Overtakes s a) := by
  cases a <;> unfold Overtakes <;> infer_instance

/-! ### Every other step keeps the invariant -/

theorem Placed.init (h : Init s) : Placed s := by
  have hon : ∀ k, onCpu s (.thread k) = 0 := by
    intro k
    by_contra hne
    obtain ⟨c, hc⟩ := (onCpu_pos_iff s _).mp (Nat.pos_of_ne_zero hne)
    obtain ⟨ticks, hcpu⟩ := h.cpu c
    rw [hcpu] at hc
    cases hc
  -- all queues are empty after `sched_cpu_init`
  have hoff : ∀ td, offCpu s td = 0 := by
    intro td
    unfold offCpu
    apply Finset.sum_eq_zero
    intro c _
    obtain ⟨ticks, hcpu⟩ := h.cpu c
    rw [hcpu]
    simp [CpuLocal.off, CpuLocal.next, sched_cpu_init, emptyQueues, count, Runqueue.count]
  refine ⟨?_, fun c => hoff _, ?_, ?_, ?_⟩
  · intro c
    obtain ⟨ticks, hcpu⟩ := h.cpu c
    rw [hcpu]
    exact emptyQueues_wf
  · intro c
    rw [h.idle c]
    rfl
  · intro c d hcd
    obtain ⟨ticks, hcpu⟩ := h.cpu c
    rw [hcpu] at hcd
    cases hcd
    rfl
  · intro k
    rw [hon k, hoff]
    exact .of_fresh (h.fresh k)

theorem recompute_rated (ticks : UInt64) (t : Thread n) :
    t.Rated (sched_recompute_priority ticks (sched_update_interactivity t)) :=
  (sched_update_interactivity_rated t).trans (sched_recompute_priority_rated ticks _)

theorem charge_tick_rated (ticks : UInt64) (t : Thread n) : t.Rated (charge_tick ticks t) := by
  unfold charge_tick
  split
  · refine Thread.Rated.trans ?_ (recompute_rated ticks _)
    exact ⟨_, _, _, _, _, rfl⟩
  · exact .refl t

theorem charge_tick_keeps (ticks : UInt64) : KeepsPlacement (charge_tick (n := n) ticks) :=
  .of_rated (charge_tick_rated ticks)

theorem wake_attributes_keeps (ticks : UInt64) :
    KeepsPlacement (wake_attributes (n := n) ticks) := by
  refine .of_rated fun t => Thread.Rated.trans ?_ (recompute_rated ticks _)
  exact ⟨_, _, _, _, _, rfl⟩

theorem Placed.sched_ready (h : Placed s) {k : Nat} (hnew : (s.threads (.thread k)).readied = false)
    : Placed (sched_ready (Ule.setThread s (.thread k)
      { s.threads (.thread k) with readied := true }) (.thread k)) := by
  obtain ⟨hon, hoff, hws, hcom⟩ := (h.thread k).fresh hnew
  unfold Ule.sched_ready
  refine .enqueue (sched_try_preempt_enqueues _ _ _) h.wf h.idle_off ?_ h.own_idle
    ?_ ?_ ?_ ?_ hon hoff
  · intro c
    rw [setThread_ne _ _ (by simp)]
    exact h.idle_committing c
  · intro j hj
    rw [setThread_ne _ _ (fun heq => hj (by cases heq; rfl))]
    exact h.thread j
  · rw [setThread_self]
  · rw [setThread_self]; exact hws
  · rw [setThread_self]; exact hcom

theorem Placed.sched_wake (h : Placed s) {k : Nat}
    (hws : (s.threads (.thread k)).wait_status = .committed)
    (hst : (s.threads (.thread k)).state = .waiting)
    (hcur : ∀ d, (s.cpus d).current_thread ≠ .thread k) : Placed (sched_wake s c (.thread k)) := by
  have hw : Waiting (s.threads (.thread k)) := ⟨hst, hws⟩
  have hkeep := wake_attributes_keeps (n := n) (s.cpus c).ticks
  have hoff := ((h.thread k).waiting hw).1
  have hon : onCpu s (.thread k) = 0 := by
    by_contra hne
    obtain ⟨d, hd⟩ := (onCpu_pos_iff s _).mp (Nat.pos_of_ne_zero hne)
    exact hcur d hd
  obtain ⟨hrd, hcom⟩ := (h.thread k).of_waiting hw
  unfold Ule.sched_wake Ule.sched_ready
  refine .enqueue (sched_try_preempt_enqueues _ _ _) h.wf h.idle_off ?_ h.own_idle
    ?_ ?_ ?_ ?_ hon hoff
  · intro d
    rw [setThread_ne _ _ (by simp)]
    exact h.idle_committing d
  · intro j hj
    rw [setThread_ne _ _ (fun heq => hj (by cases heq; rfl))]
    exact h.thread j
  · rw [setThread_self, hkeep.readied]; exact hrd
  · rw [setThread_self, hkeep.wait_status]; simp
  · rw [setThread_self, hkeep.committing]; exact hcom

theorem Placed.commit_wait (h : Placed s) (hni : (s.cpus c).current_thread ≠ .idle c)
    (hrun : (s.threads (s.cpus c).current_thread).state = .running) :
    Placed (Ule.setThread s (s.cpus c).current_thread
      { s.threads (s.cpus c).current_thread with
        wait_status := .committed, committing := true }) := by
  apply h.setThread
  · intro d hd
    have hcd := h.own_idle c d hd
    subst hcd
    exact absurd hd hni
  · intro k hk
    rw [hk] at hrun ⊢
    exact (h.thread k).commit ((onCpu_pos_iff s _).mpr ⟨c, hk⟩) hrun rfl rfl rfl

theorem Placed.sched_wait (h : Placed s)
    (hcom : (s.threads (s.cpus c).current_thread).committing = true) : Placed (sched_wait s c) := by
  unfold Ule.sched_wait
  apply h.setThread
  · intro d _
    rfl
  · intro k hk
    rw [hk] at hcom ⊢
    exact (h.thread k).mark_waiting ((onCpu_pos_iff s _).mpr ⟨c, hk⟩) hcom rfl rfl rfl rfl

theorem Placed.sched_yield (h : Placed s) (hnext : (s.cpus c).next_thread = none) :
    Placed (sched_yield s c) := by
  cases hsel : yield_selection s c with
  | none =>
    rw [sched_yield_none hsel]
    exact h.switch_to_idle hnext (sched_switch_switches s c (.idle c))
  | some p =>
    obtain ⟨x, sd⟩ := p
    rw [sched_yield_some hsel]
    have htakes := sched_select_thread_takes hsel
    have hoff := offCpu_takes htakes
    have hcur := current_setQueues s c
    have hself : ((Ule.setCpu s c ((s.cpus c).setQueues sd)).cpus c).current_thread
        = (s.cpus c).current_thread := hcur c sd
    cases x with
    | idle d =>
      -- idle threads are in no queue
      have := hoff (.idle d)
      rw [h.idle_off d, if_pos rfl] at this
      omega
    | thread j =>
      have hsw := sched_switch_switches (Ule.setCpu s c ((s.cpus c).setQueues sd)) c (.thread j)
      rw [hself] at hsw
      apply h.switch_thread (fun d => hcur d sd) rfl (h.wf.setCpu (htakes.wf (h.wf c))) hsw
      intro td
      have hn : ((Ule.setCpu s c ((s.cpus c).setQueues sd)).cpus c).next td = 0 := by
        rw [setCpu_self]
        exact CpuLocal.next_eq_zero hnext td
      rw [hn, hoff td, Nat.add_zero]

theorem advance_insidx_queues (sd : SchedPercpu (Tid n)) :
    (advance_insidx sd).realtime_runq = sd.realtime_runq ∧
    (advance_insidx sd).calendar_queue = sd.calendar_queue ∧
    (advance_insidx sd).idle_queue = sd.idle_queue ∧ (advance_insidx sd).load = sd.load := by
  unfold advance_insidx
  split <;> exact ⟨rfl, rfl, rfl, rfl⟩

theorem advance_insidx_count : (advance_insidx sd).count td = sd.count td := by
  obtain ⟨h1, h2, h3, -⟩ := advance_insidx_queues sd
  unfold count
  rw [h1, h2, h3]

theorem advance_insidx_wf (h : sd.Wf) : (advance_insidx sd).Wf := by
  obtain ⟨h1, h2, -⟩ := advance_insidx_queues sd
  exact ⟨h1 ▸ h.realtime, h2 ▸ h.calendar⟩

theorem advance_insidx_eligible : (advance_insidx sd).Eligible f ↔ sd.Eligible f := by
  obtain ⟨h1, h2, h3, -⟩ := advance_insidx_queues sd
  unfold Eligible
  rw [h1, h2, h3]

theorem Placed.sched_reschedule (h : Placed s) (hok : (s.cpus c).next_thread = none ∨
      ¬ (s.cpus c).sched_data.Eligible
      (charge_tick (s.cpus c).ticks (s.threads (s.cpus c).current_thread)).filter) :
    Placed (sched_reschedule s c) := by
  have hkeep := charge_tick_keeps (n := n) (s.cpus c).ticks
  have hwf := advance_insidx_wf (h.wf c)
  -- charging the tick changes attributes of the current thread only
  have hcharged : Placed (Ule.setThread s (s.cpus c).current_thread
      (charge_tick (s.cpus c).ticks (s.threads (s.cpus c).current_thread))) := by
    apply h.setThread
    · intro d hd
      rw [hkeep.committing, hd]
      exact h.idle_committing d
    · intro k hk
      rw [hk]
      exact (h.thread k).congr (hkeep.state _) (hkeep.wait_status _) (hkeep.committing _)
        (hkeep.readied _)
  unfold Ule.sched_reschedule
  dsimp only
  split
  · next x sd hsel =>
    -- a thread was selected, so it was eligible, and nothing is overwritten
    have hnext : (s.cpus c).next_thread = none := by
      rcases hok with hnone | hne
      · exact hnone
      · rw [← advance_insidx_eligible, ← sched_select_thread_eq_none hwf] at hne
        rw [hne] at hsel
        cases hsel
    have htakes := sched_select_thread_takes hsel
    refine hcharged.setCpu rfl ?_ (htakes.wf hwf)
    intro td
    -- the selected thread leaves its queue and becomes the next thread
    have hcount := htakes.count td
    rw [advance_insidx_count] at hcount
    have hx : (((s.cpus c).setQueues sd).setNext (some x)).next td = if td = x then 1 else 0 :=
      CpuLocal.next_eq rfl td
    have h0 : (s.cpus c).next td = 0 := CpuLocal.next_eq_zero hnext td
    show (((s.cpus c).setQueues sd).setNext (some x)).next td + sd.count td
      = (s.cpus c).next td + (s.cpus c).sched_data.count td
    omega
  · refine hcharged.setCpu rfl ?_ hwf
    intro td
    show (s.cpus c).next td + (advance_insidx (s.cpus c).sched_data).count td
      = (s.cpus c).next td + (s.cpus c).sched_data.count td
    rw [advance_insidx_count]

theorem Placed.dispatch_switch (h : Placed s) (hnext : (s.cpus c).next_thread = some x) :
    Placed (sched_switch s c (s.cpus c).current_thread x) := by
  have hsw := sched_switch_switches s c x
  cases x with
  | idle d =>
    -- idle threads are never a next thread
    have hle := off_le_offCpu s c (.idle d)
    rw [h.idle_off d, CpuLocal.off, CpuLocal.next_eq hnext, if_pos rfl] at hle
    omega
  | thread j =>
    apply h.switch_thread (fun _ => rfl) rfl h.wf hsw
    intro td
    rw [CpuLocal.next_eq hnext td]

theorem Placed.setCpu_same (h : Placed s) (hcur : cpu.current_thread = (s.cpus c).current_thread)
    (hnext : cpu.next_thread = (s.cpus c).next_thread)
    (hsd : cpu.sched_data = (s.cpus c).sched_data) : Placed (Ule.setCpu s c cpu) := by
  apply h.setCpu hcur
  · intro td
    unfold CpuLocal.off CpuLocal.next
    rw [hnext, hsd]
  · rw [hsd]
    exact h.wf c

theorem Placed.step {a : Action n} (h : Placed s) (hok : ¬ Overtakes s a)
    (hstep : step s a = some s') : Placed s' := by
  cases steps_of_step hstep with
  | sched_ready hnew => exact h.sched_ready hnew
  | commit_wait hcur hrun => exact h.commit_wait hcur hrun
  | sched_wait hcommit => exact h.sched_wait hcommit
  | sched_yield => exact h.sched_yield (by simpa [Overtakes] using hok)
  | sched_wake hwait =>
    simp only [Overtakes, not_or, not_not, not_exists] at hok
    exact h.sched_wake hwait hok.1 hok.2
  | hardclock => exact h.setCpu_same rfl rfl rfl
  | dispatch_enter => exact h.setCpu_same rfl rfl rfl
  | @reschedule c reason hdpc hreason =>
    have hnext : (s.cpus c).next_thread = none ∨ ¬ (s.cpus c).sched_data.Eligible
        (charge_tick (s.cpus c).ticks (s.threads (s.cpus c).current_thread)).filter := by
      by_contra hcon
      rw [not_or, not_not] at hcon
      apply hok
      refine ⟨?_, hcon⟩
      rw [hdpc]
      rcases hreason with rfl | rfl
      · exact .inl rfl
      · exact .inr rfl
    exact (h.sched_reschedule hnext).setCpu_same rfl rfl rfl
  | no_reschedule => exact h.setCpu_same rfl rfl rfl
  | switch hnext => exact (h.dispatch_switch hnext).setCpu_same rfl rfl rfl
  | no_switch => exact h.setCpu_same rfl rfl rfl
  | balance_load => exact h.migrate (balance_load_migrates s)
  | idle_steal =>
    exact h.migrate (idle_steal_keeps (fun h hm => h.trans (migrate_thread_migrates hm)) (.refl s) _)

theorem placed_of_reachable (hs : ReachableBy (system n) (fun s a => ¬ Overtakes s a) s) :
    Placed s :=
  hs.invariant (fun _ h => .init h) (fun _ _ _ h hok hstep => h.step hok hstep)

/-- **No thread is lost or duplicated** in any run in which no step
overwrites or clears a next thread that is set, or wakes a thread that
has not switched away: for any number of CPUs, every thread that has
been readied and is not waiting is in exactly one place. -/
theorem places_eq_one {s : State n}
    (hs : ReachableBy (system n) (fun s a => ¬ Overtakes s a) s) (k : Nat)
    (hrd : (s.threads (.thread k)).readied = true) (hnw : ¬ Waiting (s.threads (.thread k))) :
    places s (.thread k) = 1 := by
  have hp := placed_of_reachable hs
  exact (hp.thread k).placed hrd hnw

/-! ### A run that loses a thread

A realtime thread is made the next thread of a CPU whose quantum ends
before it dispatches. The reschedule picks a timeshared thread and
overwrites the realtime one. -/

/-- One CPU after boot. Thread 2 is realtime, the others are as
`make_kernel_thread` leaves them. -/
def bootOne : State 0 where
  cpus := sched_cpu_init 0
  threads := fun td =>
    match td with
    | .idle _ => idle_thread
    | .thread 2 => { make_kernel_thread with priority := 40, priority_class := .realtime }
    | .thread _ => make_kernel_thread

theorem bootOne_init : Init bootOne where
  cpu := fun c => ⟨0, rfl⟩
  idle := fun c => rfl
  fresh := fun k => by
    match k with
    | 0 | 1 | 2 | _ + 3 => exact ⟨rfl, rfl, rfl, rfl⟩

/-- Threads 0 and 1 are readied; the CPU leaves its idle thread. -/
def startRun : List (Action 0) :=
  [.sched_ready 0, .sched_ready 1, .dispatch_enter 0, .dispatch_reschedule 0, .dispatch_switch 0]

/-- The realtime thread is readied, and the quantum of the current thread
ends before the CPU dispatches. -/
def overwriteRun : List (Action 0) :=
  [.sched_ready 2, .hardclock 0, .dispatch_enter 0, .dispatch_reschedule 0]

/-- The hypotheses of `places_eq_one` hold along `startRun`, which leaves
thread 1 on the CPU and thread 0 in a queue. -/
theorem places_eq_one_startRun :
    ∃ s, execBy (system 0) (fun s a => ¬ Overtakes s a) bootOne startRun = some s ∧
      places s (.thread 0) = 1 ∧ places s (.thread 1) = 1 := by
  refine run_imp (fun s => ∀ k < 2, (s.threads (.thread k)).readied = true ∧
    (s.threads (.thread k)).state ≠ .waiting) (by decide +kernel) fun s hs h => ?_
  have hr := ReachableBy.of_execBy (.init bootOne_init) hs
  have hone : ∀ k < 2, places s (.thread k) = 1 :=
    fun k hk => places_eq_one hr k (h k hk).1 fun hw => (h k hk).2 hw.1
  exact ⟨hone 0 (by omega), hone 1 (by omega)⟩

/-- **A thread is lost**: without the condition on the steps, the invariant
fails in a reachable state of one CPU. -/
theorem thread_lost : ¬ ∀ (n : Nat) (s : State n), Reachable (system n) s → ∀ k,
      (s.threads (.thread k)).readied = true → ¬ Waiting (s.threads (.thread k)) →
      places s (.thread k) = 1 := by
  intro h
  obtain ⟨s, hs, hrd, hst, hzero⟩ : ∃ s, exec (system 0) bootOne (startRun ++ overwriteRun) =
      some s ∧ (s.threads (.thread 2)).readied = true ∧
      (s.threads (.thread 2)).state ≠ .waiting ∧ places s (.thread 2) = 0 := by decide +kernel
  have hone := h 0 s (.of_exec bootOne_init hs) 2 hrd (fun hw => hst hw.1)
  omega

/-! ### One CPU at a time -/

theorem ThreadOk.on_eq_one {t : Thread n} {i j : Nat} (h : ThreadOk t i j) (hi : 0 < i) : i = 1 ∧ j = 0 := by
  by_cases hw : Waiting t
  · obtain ⟨hoff, hle⟩ := h.waiting hw
    omega
  · have hone := h.placed (h.of_on_pos hi) hw
    omega

/-- Every thread is current on at most one CPU. -/
theorem Placed.current_unique (h : Placed s) (hc : (s.cpus c).current_thread = .thread k)
    (hd : (s.cpus d).current_thread = .thread k) : c = d := by
  by_contra hne
  have hon := (h.thread k).on_eq_one ((onCpu_pos_iff s _).2 ⟨c, hc⟩)
  have hle : ∑ e ∈ {c, d}, (s.cpus e).on (.thread k) ≤ onCpu s (.thread k) :=
    Finset.sum_le_sum_of_subset (Finset.subset_univ _)
  rw [Finset.sum_pair hne] at hle
  simp only [CpuLocal.on, hc, hd, if_true] at hle
  omega

/-- **No thread runs twice**: in every run without overtaking steps, the
current threads of the CPUs are distinct, idle threads included, and a
current thread is in no queue and is not the next thread of any CPU, so
that nothing can switch to it a second time. -/
theorem current_thread_injective
    (hs : ReachableBy (system n) (fun s a => ¬ Overtakes s a) s) :
    Function.Injective (fun c => (s.cpus c).current_thread) ∧
      ∀ c, offCpu s (s.cpus c).current_thread = 0 := by
  have hp := placed_of_reachable hs
  refine ⟨fun c d hcd => ?_, fun c => ?_⟩
  · match hc : (s.cpus c).current_thread with
    | .idle e => exact (hp.own_idle c e hc).trans (hp.own_idle d e (hcd.symm.trans hc)).symm
    | .thread k => exact hp.current_unique hc (hcd.symm.trans hc)
  · match hc : (s.cpus c).current_thread with
    | .idle e => exact hp.idle_off e
    | .thread k => exact ((hp.thread k).on_eq_one ((onCpu_pos_iff s _).2 ⟨c, hc⟩)).2

/-- Two threads are readied on two CPUs, and each CPU runs one of them. -/
theorem current_thread_injective_two :
    ∃ s : State 1, execBy (system 1) (fun s a => ¬ Overtakes s a) bootAll
        [.sched_ready 0, .dispatch_enter 0, .dispatch_reschedule 0, .dispatch_switch 0,
          .sched_ready 1, .dispatch_enter 1, .dispatch_reschedule 1, .dispatch_switch 1] = some s ∧
      (s.cpus 0).current_thread = .thread 0 ∧ (s.cpus 1).current_thread = .thread 1 ∧
      Function.Injective (fun c => (s.cpus c).current_thread) ∧
      ∀ c, offCpu s (s.cpus c).current_thread = 0 := by
  refine run_imp (fun s => (s.cpus 0).current_thread = .thread 0 ∧
    (s.cpus 1).current_thread = .thread 1) (by decide +kernel) fun s hs h => ?_
  exact ⟨h.1, h.2, current_thread_injective (.of_execBy (.init bootAll_init) hs)⟩

end Ule
