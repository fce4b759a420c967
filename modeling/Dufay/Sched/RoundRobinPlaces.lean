import Dufay.Sched.NoLostThread
import Dufay.Sched.RoundRobin

/-! # The round-robin scheduler: no thread is lost or duplicated

A thread that has been readied and does not wait should be in exactly one
place: it is the current thread, the next thread, or in the run queue.
(Between the two halves of `sched_yield` the thread that was chosen is in
a local variable of that function.)

Two kinds of step break this. `sched_reschedule` overwrites a next thread
that is set; this needs a quantum end that is still pending when the idle
thread runs, which a tick during `wait_any` (at `IPL_DISPATCH`) brings
about. And a wake of a thread that has not switched away yet gives it a
second place.
-/

open Lts Tailq
open Function (update update_apply update_self update_of_ne)

namespace Rr

open Ule (Tid Thread ThreadOk Waiting)

/-! ### Counting places -/

/-- Whether `td` runs, as a number. -/
def on (s : State) (td : Tid 0) : Nat := if s.current_thread = td then 1 else 0

/-- Whether an optional thread is `td`, as a number. -/
def slot (o : Option (Tid 0)) (td : Tid 0) : Nat := if o = some td then 1 else 0

/-- The places that hold `td` without running it; `q` is the run queue. -/
def off (s : State) (q : List (Tid 0)) (td : Tid 0) : Nat :=
  slot s.next_thread td + slot s.selected td + q.count td

@[simp] theorem slot_none : slot none td = 0 := rfl

theorem slot_some (x td : Tid 0) : slot (some x) td = if td = x then 1 else 0 := by
  simp [slot, eq_comm]

theorem count_snoc (q : List (Tid 0)) (x td : Tid 0) :
    (q ++ [x]).count td = q.count td + if td = x then 1 else 0 := by
  by_cases h : td = x
  · subst h
    simp
  · simp [h, Ne.symm h]

/-- The invariant, for the list `q` of the threads in the run queue. -/
structure PlacedBy (s : State) (q : List (Tid 0)) : Prop where
  runq : Represents s.runq (fun _ => q)
  idle_queue : idle ∉ q
  idle_next : s.next_thread ≠ some idle
  /-- A next thread is set for an idle CPU, or by the reschedule. -/
  next_thread : s.next_thread ≠ none → s.current_thread = idle ∨ s.dpc = .switch
  yielding : s.selected ≠ none → s.current_thread ≠ idle ∧ s.next_thread = none
  thread : ∀ k, ThreadOk (s.threads (.thread k)) (on s (.thread k)) (off s q (.thread k))

/-- The run queue is a list, and every thread is where it should be. -/
def Placed (s : State) : Prop := ∃ q, PlacedBy s q

/-! ### The run queue -/

theorem update_unit {α : Type} (q : α) (f : Unit → α) : update f () q = fun _ => q := by
  funext u
  simp

variable {q : List (Tid 0)} {s : State}

theorem represents_insertTail (h : Represents L (fun _ => q))
    (htd : td ∉ q) : Represents (L.insertTail () td) (fun _ => q ++ [td]) := by
  have hr := h.insertTail (h := ()) (fun _ => htd)
  rwa [update_unit] at hr

theorem represents_remove_first (h : Represents L (fun _ => q)) (hfirst : L.first () = some td) :
    ∃ q', q = td :: q' ∧ Represents (L.remove () td) (fun _ => q') := by
  rw [h.first_eq] at hfirst
  cases q with
  | nil => cases hfirst
  | cons x q' =>
    cases hfirst
    have hr := h.remove (h := ()) (List.mem_cons_self (a := td) (l := q'))
    rw [update_unit, List.erase_cons_head] at hr
    exact ⟨q', rfl, hr⟩

theorem PlacedBy.congr (h : PlacedBy s q) (hrunq : s'.runq = s.runq)
    (hcur : s'.current_thread = s.current_thread) (hnext : s'.next_thread = s.next_thread)
    (hsel : s'.selected = s.selected)
    (hdpc : s'.next_thread ≠ none → s'.current_thread = idle ∨ s'.dpc = .switch)
    (hth : ∀ k, ThreadOk (s'.threads (.thread k)) (on s (.thread k)) (off s q (.thread k))) :
    PlacedBy s' q where
  runq := hrunq ▸ h.runq
  idle_queue := h.idle_queue
  idle_next := hnext ▸ h.idle_next
  next_thread := hdpc
  yielding := by
    rw [hsel, hcur, hnext]
    exact h.yielding
  thread := fun k => by
    have hon : on s' (.thread k) = on s (.thread k) := by simp only [on, hcur]
    have hoff : off s' q (.thread k) = off s q (.thread k) := by simp only [off, hnext, hsel]
    rw [hon, hoff]
    exact hth k

theorem PlacedBy.setCurrent (h : PlacedBy s q)
    (ht : ∀ k, s.current_thread = .thread k → ThreadOk t (on s (.thread k)) (off s q (.thread k))) :
    PlacedBy (setThread s s.current_thread t) q := by
  refine h.congr rfl rfl rfl rfl h.next_thread (fun k => ?_)
  by_cases hk : s.current_thread = .thread k
  · rw [hk]
    simpa [setThread] using ht k hk
  · simpa [setThread, update_apply, Ne.symm hk] using h.thread k

theorem PlacedBy.enqueue (h : PlacedBy s q) (hon : on s (.thread k) = 0)
    (hoff : off s q (.thread k) = 0) (hrd : t.readied = true) (hws : t.wait_status ≠ .committed)
    (hcom : t.committing = false) :
    Placed (sched_enqueue_locked (setThread s (.thread k) t) (.thread k)) := by
  have hq : .thread k ∉ q := by
    intro hmem
    have := List.count_pos_iff.mpr hmem
    simp only [off] at hoff
    omega
  -- the thread itself has one place now, all others have what they had
  have hth : ∀ (s' : State) (q' : List (Tid 0)),
      s'.threads = update s.threads (.thread k) { t with last_cpu := some 0, state := .ready } →
      s'.current_thread = s.current_thread →
      (∀ j, off s' q' (.thread j) = off s q (.thread j) + if j = k then 1 else 0) →
      ∀ j, ThreadOk (s'.threads (.thread j)) (on s' (.thread j)) (off s' q' (.thread j)) := by
    intro s' q' hthreads hcur hoff' j
    have hon' : on s' (.thread j) = on s (.thread j) := by simp only [on, hcur]
    rw [hthreads, hon', hoff' j]
    by_cases hj : j = k
    · subst hj
      rw [update_self, hon, hoff, if_pos rfl]
      exact .place hrd hws hcom
    · rw [update_of_ne (by simpa using hj), if_neg hj]
      exact h.thread j
  rcases sched_enqueue_locked_cases (setThread s (.thread k) t) (.thread k) with
    ⟨hidle, hnone, heq⟩ | ⟨hbusy, heq⟩ <;> rw [heq]
  · -- an idle CPU without a next thread
    have hsel : s.selected = none := by
      by_contra hne
      exact (h.yielding hne).1 hidle
    have hnone' : s.next_thread = none := hnone
    refine ⟨q, h.runq, h.idle_queue, by simp, fun _ => .inl hidle,
      fun hne => absurd hsel hne, hth _ _ ?_ rfl (fun j => ?_)⟩
    · simp [setThread]
    · simp [off, setThread, hnone', slot_some]
      omega
  · have hrep := represents_insertTail h.runq hq
    refine ⟨q ++ [Ule.Tid.thread k], hrep, by simpa using h.idle_queue, h.idle_next, h.next_thread,
      h.yielding, hth _ _ ?_ rfl (fun j => ?_)⟩
    · simp [insertTail, setThread]
    · simp only [off, insertTail, setThread, count_snoc, Ule.Tid.thread.injEq]
      omega

/-! ### Switching -/

/-- What a switch to `new` leaves in the queue. -/
def queueAfter (s : State) (q : List (Tid 0)) : List (Tid 0) :=
  if s.current_thread ≠ idle ∧ (s.threads s.current_thread).state = .running then
    q ++ [s.current_thread]
  else q

theorem sched_switch_runq (s : State) (new : Tid 0) : (sched_switch s s.current_thread new).runq =
      if s.current_thread ≠ idle ∧ (s.threads s.current_thread).state = .running then
        s.runq.insertTail () s.current_thread
      else s.runq := by
  unfold sched_switch put_back
  split <;> rfl

theorem PlacedBy.current_not_queued (h : PlacedBy s q) (hcur : s.current_thread ≠ idle) :
    s.current_thread ∉ q := by
  intro hmem
  match hk : s.current_thread with
  | .idle 0 => exact hcur hk
  | .thread k =>
    rw [hk] at hmem
    have hpos : 0 < off s q (.thread k) := by
      have := List.count_pos_iff.mpr hmem
      simp only [off]
      omega
    have hon := ((h.thread k).of_off_pos hpos).2.2.1
    simp [on, hk] at hon

theorem PlacedBy.outgoing (h : PlacedBy s q)
    (hcur : s.current_thread = .thread k) (hnew : .thread k ≠ new) :
    ThreadOk ((sched_switch s s.current_thread new).threads (.thread k)) 0
      ((queueAfter s q).count (.thread k)) := by
  have hpos : 0 < on s (.thread k) := by simp [on, hcur]
  have hcount : q.count (.thread k) = 0 := by
    rw [List.count_eq_zero, ← hcur]
    exact h.current_not_queued (by simp [hcur])
  by_cases hrun : (s.threads (.thread k)).state = .running
  · have hback : queueAfter s q = q ++ [.thread k] := by
      simp [queueAfter, hcur, hrun]
    have hth : (sched_switch s s.current_thread new).threads (.thread k)
        = { s.threads (.thread k) with state := .ready } := by
      simp [sched_switch, switch_to, put_back, insertTail, setThread, hcur, hrun, update_of_ne hnew]
    rw [hback, hth, count_snoc, hcount, if_pos rfl]
    have haway := @ThreadOk.switched_away _ _ { s.threads (.thread k) with state := .ready }
      _ _ (h.thread k) rfl rfl rfl hpos
    exact haway.1 hrun (by simp)
  · have hback : queueAfter s q = q := by
      simp [queueAfter, hcur, hrun]
    have hth : (sched_switch s s.current_thread new).threads (.thread k)
        = s.threads (.thread k) := by
      simp [sched_switch, switch_to, put_back, setThread, hcur, hrun, update_of_ne hnew]
    rw [hback, hth, hcount]
    exact ((h.thread k).switched_away rfl rfl rfl hpos).2 hrun rfl

theorem PlacedBy.incoming (h : PlacedBy s q)
    (hslot : slot s.next_thread (.thread k) + slot s.selected (.thread k) = 1) :
    ThreadOk ((sched_switch s s.current_thread (.thread k)).threads (.thread k)) 1
      ((queueAfter s q).count (.thread k)) := by
  have hpos : 0 < off s q (.thread k) := by
    simp only [off]
    omega
  obtain ⟨-, -, hon, hoff⟩ := (h.thread k).of_off_pos hpos
  have hcur : s.current_thread ≠ .thread k := by
    intro heq
    simp [on, heq] at hon
  have hcount : (queueAfter s q).count (.thread k) = 0 := by
    have : q.count (.thread k) = 0 := by
      simp only [off] at hoff
      omega
    unfold queueAfter
    split
    · rw [count_snoc, this, if_neg (Ne.symm hcur)]
    · exact this
  have hth : (sched_switch s s.current_thread (.thread k)).threads (.thread k)
      = { s.threads (.thread k) with state := .running } := by
    unfold sched_switch put_back
    split <;> simp [switch_to, insertTail, setThread, Ne.symm hcur]
  rw [hcount, hth]
  exact (h.thread k).switched_to rfl rfl rfl hpos rfl

/-- A switch to a thread that leaves its place: `hslot` says that apart from
the queue only `new` sits somewhere. -/
theorem PlacedBy.sched_switch {s' : State} (h : PlacedBy s q) (new : Tid 0)
    (hslot : ∀ td, td ≠ idle → slot s.next_thread td + slot s.selected td = slot (some new) td)
    (hrunq : s'.runq = (Rr.sched_switch s s.current_thread new).runq)
    (hthreads : s'.threads = (Rr.sched_switch s s.current_thread new).threads)
    (hcur : s'.current_thread = new) (hnext : s'.next_thread = none) (hsel : s'.selected = none) :
    Placed s' := by
  refine ⟨queueAfter s q, ?_, ?_, ?_, ?_, ?_, ?_⟩
  · rw [hrunq, sched_switch_runq]
    unfold queueAfter
    split
    · next hc => exact represents_insertTail h.runq (h.current_not_queued hc.1)
    · exact h.runq
  · unfold queueAfter
    split
    · next hc => simpa [h.idle_queue] using Ne.symm hc.1
    · exact h.idle_queue
  · simp [hnext]
  · exact fun hne => absurd hnext hne
  · exact fun hne => absurd hsel hne
  · intro k
    have hoff : off s' (queueAfter s q) (.thread k) = (queueAfter s q).count (.thread k) := by
      simp [off, hnext, hsel]
    rw [hoff, hthreads]
    by_cases hk : new = .thread k
    · subst hk
      have hone := hslot (.thread k) (by simp)
      rw [slot_some, if_pos rfl] at hone
      have hon : on s' (.thread k) = 1 := by simp [on, hcur]
      rw [hon]
      exact h.incoming hone
    · have hon : on s' (.thread k) = 0 := by simp [on, hcur, hk]
      rw [hon]
      by_cases hc : s.current_thread = .thread k
      · exact h.outgoing hc (Ne.symm hk)
      · -- a thread that the switch does not concern
        have hzero := hslot (.thread k) (by simp)
        rw [slot_some, if_neg (Ne.symm hk)] at hzero
        have hth : (Rr.sched_switch s s.current_thread new).threads (.thread k)
            = s.threads (.thread k) := by
          unfold Rr.sched_switch put_back
          split <;> simp [switch_to, insertTail, setThread, Ne.symm hk, Ne.symm hc]
        have hcount : (queueAfter s q).count (.thread k) = q.count (.thread k) := by
          unfold queueAfter
          split
          · rw [count_snoc, if_neg (Ne.symm hc), Nat.add_zero]
          · rfl
        have hok := h.thread k
        simp only [on, off, if_neg hc, hzero, Nat.zero_add] at hok
        rw [hth, hcount]
        exact hok

/-! ### The races -/

/-- The steps that lose or duplicate a thread: a reschedule that overwrites a
next thread, and a wake of a thread that has not switched away. -/
def Overtakes (s : State) : Action → Prop
  | .dispatch_reschedule =>
    (s.dpc = .queue .quantumEnd ∨ s.dpc = .queue .migration) ∧ s.next_thread ≠ none ∧
      s.runq.first () ≠ none
  | .sched_wake k =>
    (s.threads (.thread k)).state ≠ .waiting ∨ s.current_thread = .thread k
  | _ => False

instance (s : State) (a : Action) : Decidable (Overtakes s a) :=
  match a with
  | .sched_ready .. | .commit_wait | .sched_wait | .yield_select | .yield_switch
  | .sched_wake .. | .hardclock | .dispatch_enter | .dispatch_reschedule
  | .dispatch_switch => by
    unfold Overtakes
    infer_instance

theorem Placed.init (h : Init s) : Placed s := by
  obtain ⟨L, -, hrunq⟩ := h.runq
  refine ⟨[], ?_, by simp, by simp [h.next_thread], by simp [h.next_thread],
    by simp [h.selected], ?_⟩
  · rw [hrunq]
    exact ⟨fun _ => by simp [Seg, Links.init], fun _ => List.nodup_nil, fun _ _ _ hx => by cases hx⟩
  · intro k
    have hon : on s (.thread k) = 0 := by simp [on, h.current_thread]
    have hoff : off s [] (.thread k) = 0 := by simp [off, h.next_thread, h.selected]
    rw [hon, hoff]
    exact Ule.ThreadOk.of_fresh (h.fresh k)

/-! ### Every other step keeps the invariant -/

theorem PlacedBy.reschedule (h : PlacedBy s q) (hsel : s.selected = none)
    (hok : s.next_thread = none ∨ s.runq.first () = none) :
    Placed { sched_reschedule s with preemption_reason := .none, dpc := .switch } := by
  unfold sched_reschedule
  split
  · next newtd hfirst =>
    have hnext : s.next_thread = none := by
      rcases hok with hn | hf
      · exact hn
      · rw [hf] at hfirst
        cases hfirst
    obtain ⟨q', rfl, hrep⟩ := represents_remove_first h.runq hfirst
    have hidle := h.idle_queue
    simp only [List.mem_cons, not_or] at hidle
    refine ⟨q', hrep, hidle.2, ?_, fun _ => .inr rfl, fun hne => absurd hsel hne, fun k => ?_⟩
    · simpa [remove] using Ne.symm hidle.1
    · have hoff : off { remove { s with next_thread := some newtd } newtd with
          preemption_reason := .none, dpc := .switch } q' (.thread k)
            = off s (newtd :: q') (.thread k) := by
        simp only [off, remove, hnext, slot_none, slot_some, List.count_cons, beq_iff_eq]
        simp only [eq_comm (a := newtd)]
        omega
      rw [hoff]
      exact h.thread k
  · exact ⟨q, h.congr rfl rfl rfl rfl (fun _ => .inr rfl) h.thread⟩

theorem PlacedBy.yield_select (h : PlacedBy s q) (hout : Outside s) (hcur : s.current_thread ≠ idle)
    : Placed (yield_select s) := by
  have hnext : s.next_thread = none := by
    by_contra hne
    rcases h.next_thread hne with hidle | hdpc
    · exact hcur hidle
    · rw [hout.1] at hdpc
      cases hdpc
  unfold Rr.yield_select
  split
  · refine ⟨q, h.runq, h.idle_queue, h.idle_next, h.next_thread, fun _ => ⟨hcur, hnext⟩,
      fun k => ?_⟩
    have hoff : off { s with selected := some idle } q (.thread k) = off s q (.thread k) := by
      simp [off, hout.2, slot]
    rw [hoff]
    exact h.thread k
  · next td hfirst =>
    obtain ⟨q', rfl, hrep⟩ := represents_remove_first h.runq hfirst
    have hidle := h.idle_queue
    simp only [List.mem_cons, not_or] at hidle
    refine ⟨q', hrep, hidle.2, h.idle_next, h.next_thread, fun _ => ⟨hcur, hnext⟩, fun k => ?_⟩
    have hoff : off (remove { s with selected := some td } td) q' (.thread k)
        = off s (td :: q') (.thread k) := by
      simp only [off, remove, hout.2, slot_none, slot_some, List.count_cons, beq_iff_eq]
      simp only [eq_comm (a := td)]
      omega
    rw [hoff]
    exact h.thread k

theorem Placed.step {s' : State} {a : Action} (h : Placed s) (hok : ¬ Overtakes s a)
    (hstep : Rr.step s a = some s') : Placed s' := by
  obtain ⟨q, h⟩ := h
  cases effect_of_step hstep with
  | sched_ready k hrd =>
    obtain ⟨hon, hoff, hws, hcom⟩ := (h.thread k).fresh hrd
    exact h.enqueue hon hoff rfl hws hcom
  | sched_wake k hws =>
    simp only [Overtakes, not_or, not_not] at hok
    have hwait : Waiting (s.threads (.thread k)) := ⟨hok.1, hws⟩
    have hon : on s (.thread k) = 0 := if_neg hok.2
    obtain ⟨hrd, hcom⟩ := (h.thread k).of_waiting hwait
    exact h.enqueue hon ((h.thread k).waiting hwait).1 hrd (by simp) hcom
  | commit_wait hcur hrun hcom =>
    refine ⟨q, h.setCurrent (fun k hk => ?_)⟩
    rw [hk] at hrun hcom ⊢
    exact (h.thread k).commit (by simp [on, hk]) hrun rfl rfl rfl
  | sched_wait hcur hcom =>
    refine ⟨q, h.setCurrent (fun k hk => ?_)⟩
    rw [hk] at hcom ⊢
    exact (h.thread k).mark_waiting (by simp [on, hk]) hcom rfl rfl rfl rfl
  | yield_select hout hcur => exact h.yield_select hout hcur
  | yield_switch next hsel hdpc =>
    have hnext := (h.yielding (by simp [hsel])).2
    refine h.sched_switch next (fun td _ => ?_) ?_ ?_ rfl rfl ?_
    · simp [hnext, hsel]
    all_goals
      unfold Rr.yield_switch Rr.sched_switch put_back
      split <;> rfl
  | hardclock => exact ⟨q, h.congr rfl rfl rfl rfl h.next_thread h.thread⟩
  | dispatch_enter hdpc =>
    refine ⟨q, h.congr rfl rfl rfl rfl (fun hne => .inl ?_) h.thread⟩
    rcases h.next_thread hne with hidle | hsw
    · exact hidle
    · rw [hdpc] at hsw
      cases hsw
  | reschedule reason hdpc hreason hsel =>
    refine h.reschedule hsel ?_
    have hq : s.dpc = .queue .quantumEnd ∨ s.dpc = .queue .migration := by
      rw [hdpc]
      rcases hreason with rfl | rfl
      · exact .inl rfl
      · exact .inr rfl
    by_contra hne
    simp only [not_or] at hne
    exact hok ⟨hq, hne⟩
  | no_reschedule => exact ⟨q, h.congr rfl rfl rfl rfl (fun _ => .inr rfl) h.thread⟩
  | switch next hdpc hnext =>
    have hsel : s.selected = none := by
      by_contra hne
      rw [(h.yielding hne).2] at hnext
      cases hnext
    refine h.sched_switch next (fun td _ => ?_) rfl rfl rfl rfl ?_
    · simp [hnext, hsel]
    · unfold Rr.sched_switch put_back
      split <;> exact hsel
  | no_switch hdpc hnext =>
    exact ⟨q, h.congr rfl rfl rfl rfl (fun hne => absurd hnext hne) h.thread⟩

/-! ### Exactly one place -/

inductive Place where
  | current_thread
  | next_thread
  | runq
  deriving DecidableEq

def At (s : State) (td : Tid 0) : Place → Prop
  | .current_thread => s.current_thread = td
  | .next_thread => s.next_thread = some td
  | .runq => Linked s.runq () td

theorem PlacedBy.existsUnique_at (h : PlacedBy s q) (hsel : s.selected ≠ some (.thread k))
    (hone : on s (.thread k) + off s q (.thread k) = 1) : ∃! p, At s (.thread k) p := by
  have hslot : slot s.selected (.thread k) = 0 := if_neg hsel
  have hrunq : At s (.thread k) .runq ↔ 0 < q.count (.thread k) := by
    rw [List.count_pos_iff]
    exact h.runq.linked_iff () _
  have hcur : At s (.thread k) .current_thread ↔ 0 < on s (.thread k) := by
    simp only [At, on]
    split <;> simp_all
  have hnext : At s (.thread k) .next_thread ↔ 0 < slot s.next_thread (.thread k) := by
    simp only [At, slot]
    split <;> simp_all
  simp only [off, hslot] at hone
  have hp : 0 < on s (.thread k) ∨ 0 < slot s.next_thread (.thread k) ∨ 0 < q.count (.thread k) := by
    omega
  rcases hp with hp | hp | hp
  · refine ⟨.current_thread, hcur.mpr hp, fun p hat => ?_⟩
    cases p with
    | current_thread => rfl
    | next_thread => have := hnext.mp hat; omega
    | runq => have := hrunq.mp hat; omega
  · refine ⟨.next_thread, hnext.mpr hp, fun p hat => ?_⟩
    cases p with
    | current_thread => have := hcur.mp hat; omega
    | next_thread => rfl
    | runq => have := hrunq.mp hat; omega
  · refine ⟨.runq, hrunq.mpr hp, fun p hat => ?_⟩
    cases p with
    | current_thread => have := hcur.mp hat; omega
    | next_thread => have := hnext.mp hat; omega
    | runq => rfl

/-- **No thread is lost or duplicated** by the round-robin scheduler in any
run in which no reschedule overwrites a next thread and no wake overtakes
the thread it wakes: every thread that has been readied and does not wait
is in exactly one place, unless a yield has chosen it and is about to
switch to it. -/
theorem exactly_one_place {s : State} (hs : ReachableBy system (fun s a => ¬ Overtakes s a) s)
    (k : Nat) (hsel : s.selected ≠ some (.thread k))
    (hrd : (s.threads (.thread k)).readied = true) (hnw : ¬ Waiting (s.threads (.thread k))) :
    ∃! p, At s (.thread k) p := by
  have hplaced : Placed s :=
    hs.invariant (fun _ h => .init h) (fun _ _ _ h hok hstep => h.step hok hstep)
  obtain ⟨q, h⟩ := hplaced
  exact h.existsUnique_at hsel ((h.thread k).placed hrd hnw)

/-- Two threads are readied, and the first one runs and blocks. -/
def startRun : List Action := .sched_ready 0 :: .sched_ready 1 :: dispatch ++ block

/-- Along `startRun` the second thread ends up on the CPU. -/
theorem exactly_one_place_startRun :
    ∃ s, execBy system (fun s a => ¬ Overtakes s a) boot startRun = some s ∧
      ∃! p, At s (.thread 1) p := by
  refine run_imp (fun s => s.selected = none ∧ (s.threads (.thread 1)).readied = true ∧
      (s.threads (.thread 1)).state = .running)
    (by decide +kernel) fun s hexec ⟨hsel, hrd, hst⟩ => ?_
  have hr := ReachableBy.of_execBy (.init boot_init) hexec
  refine exactly_one_place hr 1 (by simp [hsel]) hrd fun hw => ?_
  rw [Waiting, hst] at hw
  cases hw.1

/-- The second thread blocks too. The clock ticks while it is in `wait_any`,
so that the quantum end is still pending when the CPU idles. -/
def tickRun : List Action := [.commit_wait, .hardclock, .sched_wait, .yield_select, .yield_switch]

/-- The DPCs of the next dispatch wake both threads. -/
def wakeRun : List Action :=
  [.hardclock, .dispatch_enter, .sched_wake 0, .sched_wake 1, .dispatch_reschedule]

/-- **A thread is lost**: both threads are woken on the idle CPU, the first
one becomes the next thread, and the reschedule for the old quantum end
puts the second one in its place. -/
theorem woken_thread_lost : ¬ ∀ s, Reachable system s → ∀ k, s.selected = none →
      (s.threads (.thread k)).readied = true → ¬ Waiting (s.threads (.thread k)) →
      ∃! p, At s (.thread k) p := by
  intro h
  obtain ⟨s, hexec, hsel, hrd, hst, hcur, hnext, hfirst⟩ : ∃ s,
      exec system boot (startRun ++ tickRun ++ wakeRun) = some s ∧ s.selected = none ∧
      (s.threads (.thread 0)).readied = true ∧ (s.threads (.thread 0)).state = .ready ∧
      s.current_thread = idle ∧ s.next_thread = some (.thread 1) ∧ s.runq.first () = none := by
    decide +kernel
  have hnw : ¬ Waiting (s.threads (.thread 0)) := by
    intro hw
    rw [Waiting, hst] at hw
    cases hw.1
  obtain ⟨p, hat, -⟩ := h s (.of_exec boot_init hexec) 0 hsel hrd hnw
  cases p with
  | current_thread =>
    rw [At, hcur] at hat
    cases hat
  | next_thread =>
    rw [At, hnext] at hat
    cases hat
  | runq => exact not_linked_of_first_none hfirst _ hat

end Rr
