import Dufay.Framework.Tailq
import Dufay.Sched.Ule

/-! # The round-robin scheduler on one CPU

`core/sched/rr.c` with `dispatch_dpc` (`core/ipl.c`) and `hardclock`
(`core/clock.c`), the run queue at the level of its pointers.

`sched_yield` raises no IPL, so it is two steps: the choice of the next
thread, made under the lock of the run queue, and the switch to it. An
interrupt may come in between, and its DPCs may ready threads; but the
yielding thread holds its own lock for that long, and whatever else
takes that lock on this CPU spins for ever (`sched_reschedule`, a wake of
the yielding thread). `sched_wait` and `dispatch_dpc` are split as for
the ULE scheduler. The stores of `sched_switch` and the context switch
are one step.

The IPL and the pending bits are left open: the clock ticks, and
`dispatch_dpc` is entered, at any time it is not running already.
-/

open Lts Tailq Function

namespace Rr

open Ule (Tid Thread PreemptionReason DpcPhase)

/-- `cpu->idle_thread`. -/
abbrev idle : Tid 0 := .idle (0 : Fin 1)

structure State where
  current_thread : Tid 0
  next_thread : Option (Tid 0)
  preemption_reason : PreemptionReason
  /-- `sched_data.runq` and the `runqueue_hook`s. -/
  runq : Links Unit (Tid 0)
  dpc : DpcPhase
  /-- The local `next` of `sched_yield`, while the current thread has chosen
      and not switched yet; it holds its own lock then. -/
  selected : Option (Tid 0)
  threads : Tid 0 → Thread 0

def setThread (s : State) (td : Tid 0) (t : Thread 0) : State :=
  { s with threads := update s.threads td t }

/-- `TAILQ_INSERT_TAIL(&sched_data.runq, td, runqueue_hook)`. -/
def insertTail (s : State) (td : Tid 0) : State :=
  { s with runq := s.runq.insertTail () td }

/-- `TAILQ_REMOVE(&sched_data.runq, td, runqueue_hook)`. -/
def remove (s : State) (td : Tid 0) : State :=
  { s with runq := s.runq.remove () td }

/-! ### Operations -/

section
variable (s : State)

/-- `sched_enqueue_locked`; `pick_cpu` has one CPU to pick. -/
def sched_enqueue_locked (thread : Tid 0) : State :=
  let s := setThread s thread { s.threads thread with last_cpu := some (0 : Fin 1), state := .ready }
  if s.current_thread = idle ∧ s.next_thread = none then
    -- cause a preemption
    { s with next_thread := some thread, preemption_reason := .higherPriority }
  else insertTail s thread

def sched_ready (thread : Tid 0) : State := sched_enqueue_locked s thread

/-- `sched_wake`; its caller has just satisfied the wait. -/
def sched_wake (td : Tid 0) : State :=
  sched_ready (setThread s td { s.threads td with wait_status := .satisfied }) td

/-- The first half of `sched_switch`: a thread that is still running goes
to the end of the queue. -/
def put_back (cur : Tid 0) : State :=
  if cur ≠ idle ∧ (s.threads cur).state = .running then
    insertTail (setThread s cur { s.threads cur with state := .ready }) cur
  else s

/-- The second half of `sched_switch`. -/
def switch_to (new : Tid 0) : State :=
  setThread { s with next_thread := none, current_thread := new } new
    { s.threads new with state := .running }

def sched_switch (cur new : Tid 0) : State := switch_to (put_back s cur) new

/-- `sched_reschedule`: the first thread of the queue becomes `next_thread`,
whatever that was. -/
def sched_reschedule : State :=
  match s.runq.first () with
  | some newtd => remove { s with next_thread := some newtd } newtd
  | none => s

/-- `sched_yield` up to the release of the run queue's lock. -/
def yield_select : State :=
  match s.runq.first () with
  -- nothing to run, go idle
  | none => { s with selected := some idle }
  | some next => remove { s with selected := some next } next

/-- The rest of `sched_yield`. -/
def yield_switch (next : Tid 0) : State :=
  sched_switch { s with selected := none } s.current_thread next

/-- `sched_wait`, before its call of `sched_yield`. -/
def sched_wait : State := setThread s s.current_thread
    { s.threads s.current_thread with state := .waiting, committing := false }

/-- `hardclock`: the idle thread does not take a quantum end. -/
def hardclock : State :=
  { s with
    preemption_reason :=
      if s.current_thread ≠ idle then .quantumEnd else s.preemption_reason }

end

/-- `dispatch_dpc` calls `sched_reschedule` for these reasons. -/
def Reschedules (reason : PreemptionReason) : Prop := reason = .quantumEnd ∨ reason = .migration

instance (reason : PreemptionReason) : Decidable (Reschedules reason) :=
  inferInstanceAs (Decidable (_ ∨ _))

/-! ### The transition system -/

inductive Action where
  /-- `sched_ready` of the new thread `k`. -/
  | sched_ready (k : Nat)
  /-- The current thread commits its wait. -/
  | commit_wait
  /-- The current thread, having committed, enters `sched_wait`. -/
  | sched_wait
  /-- `sched_yield`, called directly or at the end of `sched_wait`, chooses. -/
  | yield_select
  /-- `sched_yield` switches. -/
  | yield_switch
  /-- The committed wait of `k` is satisfied, and `k` is woken. -/
  | sched_wake (k : Nat)
  | hardclock
  /-- `dispatch_dpc` is entered and loads the preemption reason. -/
  | dispatch_enter
  /-- The DPC queue has been run: reschedule if the reason asks for it. -/
  | dispatch_reschedule
  /-- Switch to `next_thread`, if there is one. -/
  | dispatch_switch
  deriving DecidableEq

/-- The current thread is not inside `dispatch_dpc` or `sched_yield`. -/
def Outside (s : State) : Prop := s.dpc = .out ∧ s.selected = none

instance (s : State) : Decidable (Outside s) := inferInstanceAs (Decidable (_ ∧ _))

def step (s : State) : Action → Option State
  | .sched_ready k =>
    let t := s.threads (.thread k)
    if t.readied then none
    else some (sched_ready (setThread s (.thread k) { t with readied := true }) (.thread k))
  | .commit_wait =>
    let td := s.current_thread
    let t := s.threads td
    if Outside s ∧ td ≠ idle ∧ t.state = .running ∧ t.committing = false then
      some (setThread s td { t with wait_status := .committed, committing := true })
    else none
  | .sched_wait =>
    if Outside s ∧ s.current_thread ≠ idle ∧ (s.threads s.current_thread).committing = true then
      some (sched_wait s)
    else none
  | .yield_select =>
    if Outside s ∧ s.current_thread ≠ idle then some (yield_select s) else none
  | .yield_switch =>
    match s.selected with
    | some next => if s.dpc = .out then some (yield_switch s next) else none
    | none => none
  | .sched_wake k =>
    -- a thread inside `sched_yield` holds the lock that the wake takes
    if (s.threads (.thread k)).wait_status = .committed ∧
        ¬ (s.selected ≠ none ∧ s.current_thread = .thread k) then
      some (sched_wake s (.thread k))
    else none
  | .hardclock => some (hardclock s)
  | .dispatch_enter =>
    if s.dpc = .out then some { s with dpc := .queue s.preemption_reason } else none
  | .dispatch_reschedule =>
    match s.dpc with
    | .queue reason =>
      if Reschedules reason then
        -- so does `sched_reschedule`
        if s.selected = none then
          some { sched_reschedule s with preemption_reason := .none, dpc := .switch }
        else none
      else some { s with preemption_reason := .none, dpc := .switch }
    | .out | .switch => none
  | .dispatch_switch =>
    if s.dpc = .switch then
      match s.next_thread with
      | some next => some { sched_switch s s.current_thread next with dpc := .out }
      | none => some { s with dpc := .out }
    else none

/-- After `sched_cpu_init`; the hooks of all threads were zeroed by
`make_kernel_thread`. -/
structure Init (s : State) : Prop where
  current_thread : s.current_thread = idle
  next_thread : s.next_thread = none
  runq : ∃ L : Links Unit (Tid 0), (∀ td, L.fwd (.next td) = none) ∧ s.runq = L.init ()
  dpc : s.dpc = .out
  selected : s.selected = none
  fresh : ∀ k, Ule.Fresh (s.threads (.thread k))

def system : System State Action where
  init := Init
  step := step

/-! ### What the operations change -/

theorem sched_enqueue_locked_cases (s : State) (td : Tid 0) :
    (s.current_thread = idle ∧ s.next_thread = none ∧ sched_enqueue_locked s td =
        { setThread s td { s.threads td with last_cpu := some (0 : Fin 1), state := .ready } with
          next_thread := some td, preemption_reason := .higherPriority }) ∨
    (¬ (s.current_thread = idle ∧ s.next_thread = none) ∧ sched_enqueue_locked s td =
        insertTail (setThread s td { s.threads td with last_cpu := some (0 : Fin 1), state :=
          .ready })
          td) := by
  unfold sched_enqueue_locked
  by_cases h : s.current_thread = idle ∧ s.next_thread = none
  · exact .inl ⟨h.1, h.2, if_pos h⟩
  · exact .inr ⟨h, if_neg h⟩

inductive Effect (s : State) : Action → State → Prop where
  | sched_ready (k : Nat) (hrd : (s.threads (.thread k)).readied = false) :
      Effect s (.sched_ready k) (Rr.sched_ready
        (setThread s (.thread k) { s.threads (.thread k) with readied := true }) (.thread k))
  | commit_wait (hcur : s.current_thread ≠ idle)
      (hrun : (s.threads s.current_thread).state = .running)
      (hcom : (s.threads s.current_thread).committing = false) :
      Effect s .commit_wait (setThread s s.current_thread
        { s.threads s.current_thread with wait_status := .committed, committing := true })
  | sched_wait (hcur : s.current_thread ≠ idle)
      (hcom : (s.threads s.current_thread).committing = true) :
      Effect s .sched_wait (Rr.sched_wait s)
  | yield_select (hout : Outside s) (hcur : s.current_thread ≠ idle) :
      Effect s .yield_select (Rr.yield_select s)
  | yield_switch (next : Tid 0) (hsel : s.selected = some next) (hdpc : s.dpc = .out) :
      Effect s .yield_switch (Rr.yield_switch s next)
  | sched_wake (k : Nat) (hws : (s.threads (.thread k)).wait_status = .committed) :
      Effect s (.sched_wake k) (Rr.sched_wake s (.thread k))
  | hardclock : Effect s .hardclock (Rr.hardclock s)
  | dispatch_enter (hdpc : s.dpc = .out) :
      Effect s .dispatch_enter { s with dpc := .queue s.preemption_reason }
  | reschedule (reason : PreemptionReason) (hdpc : s.dpc = .queue reason)
      (hreason : Reschedules reason) (hsel : s.selected = none) :
      Effect s .dispatch_reschedule
        { sched_reschedule s with preemption_reason := .none, dpc := .switch }
  | no_reschedule (reason : PreemptionReason) (hdpc : s.dpc = .queue reason)
      (hreason : ¬ Reschedules reason) :
      Effect s .dispatch_reschedule { s with preemption_reason := .none, dpc := .switch }
  | switch (next : Tid 0) (hdpc : s.dpc = .switch) (hnext : s.next_thread = some next) :
      Effect s .dispatch_switch { sched_switch s s.current_thread next with dpc := .out }
  | no_switch (hdpc : s.dpc = .switch) (hnext : s.next_thread = none) :
      Effect s .dispatch_switch { s with dpc := .out }

theorem effect_of_step (h : step s a = some s') : Effect s a s' := by
  cases a <;> simp only [step] at h
  case sched_ready k =>
    split at h
    · cases h
    · next hrd =>
      cases h
      exact .sched_ready k (by simpa using hrd)
  case commit_wait =>
    obtain ⟨hc, rfl⟩ := of_guard h
    exact .commit_wait hc.2.1 hc.2.2.1 hc.2.2.2
  case sched_wait =>
    obtain ⟨hc, rfl⟩ := of_guard h
    exact .sched_wait hc.2.1 hc.2.2
  case yield_select =>
    obtain ⟨hc, rfl⟩ := of_guard h
    exact .yield_select hc.1 hc.2
  case yield_switch =>
    split at h
    · next next hsel =>
      obtain ⟨hdpc, rfl⟩ := of_guard h
      exact .yield_switch next hsel hdpc
    · cases h
  case sched_wake k =>
    obtain ⟨hc, rfl⟩ := of_guard h
    exact .sched_wake k hc.1
  case hardclock =>
    cases h
    exact .hardclock
  case dispatch_enter =>
    obtain ⟨hdpc, rfl⟩ := of_guard h
    exact .dispatch_enter hdpc
  case dispatch_reschedule =>
    split at h
    · next reason hdpc =>
      split at h
      · next hreason =>
        obtain ⟨hsel, rfl⟩ := of_guard h
        exact .reschedule reason hdpc hreason hsel
      · next hreason =>
        cases h
        exact .no_reschedule reason hdpc hreason
    · cases h
    · cases h
  case dispatch_switch =>
    split at h
    · next hdpc =>
      split at h
      · next next hnext =>
        cases h
        exact .switch next hdpc hnext
      · next hnext =>
        cases h
        exact .no_switch hdpc hnext
    · cases h

/-! ### Idling over ready work -/

/-- The switch of a yield that leaves a queued thread behind an idle CPU: the
idle thread was chosen, and the yielding thread goes back into the queue
or another one has been queued since the choice. -/
def Strands (s : State) : Action → Prop
  | .yield_switch => s.selected = some idle ∧
      ((s.threads s.current_thread).state = .running ∨ s.runq.first () ≠ none)
  | _ => False

instance (s : State) (a : Action) : Decidable (Strands s a) := by
  cases a <;> unfold Strands <;> infer_instance

/-- An idle CPU with no next thread has an empty queue; and the idle thread
is nowhere it could be taken from. -/
structure Fed (s : State) : Prop where
  links : ∀ sl, s.runq.fwd sl ≠ some idle
  next_thread : s.next_thread ≠ some idle
  runq : s.current_thread = idle → s.next_thread = none → s.runq.first () = none

theorem insertTail_links {L : Links Unit (Tid 0)} (h : ∀ sl, L.fwd sl ≠ some idle)
    (htd : td ≠ idle) (sl : Slot Unit (Tid 0)) : (L.insertTail () td).fwd sl ≠ some idle := by
  simp only [Links.insertTail, update_apply]
  split
  · simpa using htd
  · split
    · simp
    · exact h sl

theorem remove_links {L : Links Unit (Tid 0)} (h : ∀ sl, L.fwd sl ≠ some idle) (td : Tid 0)
    (sl : Slot Unit (Tid 0)) : (L.remove () td).fwd sl ≠ some idle := by
  simp only [Links.remove, update_apply]
  split
  · exact h _
  · exact h sl

theorem Fed.init {s : State} (h : Init s) : Fed s := by
  obtain ⟨L, hL, hrunq⟩ := h.runq
  refine ⟨?_, ?_, ?_⟩
  · intro sl
    rw [hrunq]
    cases sl with
    | first u => simp [Links.init]
    | next td => simp [Links.init, hL]
  · rw [h.next_thread]
    simp
  · intro _ _
    rw [hrunq]
    simp [Links.first, Links.init]

theorem Fed.enqueue (h : Fed s) (k : Nat) : Fed (sched_enqueue_locked s (.thread k)) := by
  rcases sched_enqueue_locked_cases s (.thread k) with ⟨-, -, heq⟩ | ⟨hbusy, heq⟩ <;> rw [heq]
  · exact ⟨h.links, by simp, fun _ hn => by simp at hn⟩
  · exact ⟨insertTail_links h.links (by simp), h.next_thread,
      fun hcur hn => absurd ⟨hcur, hn⟩ hbusy⟩

theorem Fed.put_back (h : ∀ sl, s.runq.fwd sl ≠ some idle) (cur : Tid 0)
    (sl : Slot Unit (Tid 0)) : (put_back s cur).runq.fwd sl ≠ some idle := by
  unfold Rr.put_back
  split
  · next hcur => exact insertTail_links h hcur.1 sl
  · exact h sl

theorem Fed.sched_switch {s : State} (h : Fed s) (cur : Tid 0) {new : Tid 0} (hnew : new ≠ idle) :
    Fed (sched_switch s cur new) :=
  ⟨Fed.put_back h.links cur, by simp [Rr.sched_switch, switch_to, setThread],
    fun hcur => absurd hcur hnew⟩

theorem Fed.step {s s' : State} {a : Action} (h : Fed s) (hok : ¬ Strands s a)
    (hstep : Rr.step s a = some s') : Fed s' := by
  cases effect_of_step hstep with
  | sched_ready k => exact .enqueue (s := setThread s _ _) ⟨h.links, h.next_thread, h.runq⟩ k
  | sched_wake k => exact .enqueue (s := setThread s _ _) ⟨h.links, h.next_thread, h.runq⟩ k
  | commit_wait | sched_wait | hardclock | dispatch_enter | no_reschedule | no_switch =>
    exact ⟨h.links, h.next_thread, h.runq⟩
  | yield_select _ hcur =>
    unfold Rr.yield_select
    split
    · exact ⟨h.links, h.next_thread, h.runq⟩
    · exact ⟨remove_links h.links _, h.next_thread, fun hidle => absurd hidle hcur⟩
  | yield_switch next hsel =>
    by_cases hnext : next = idle
    · -- the idle thread was chosen: nothing is put back, nothing was queued
      subst hnext
      simp only [Strands, hsel, true_and, not_or, not_not] at hok
      have hback : Rr.put_back { s with selected := none } s.current_thread
          = { s with selected := none } := if_neg (fun hc => hok.1 hc.2)
      unfold Rr.yield_switch Rr.sched_switch
      rw [hback]
      exact ⟨h.links, by simp [switch_to, setThread], fun _ _ => hok.2⟩
    · have hsame : Fed { s with selected := none } := ⟨h.links, h.next_thread, h.runq⟩
      exact hsame.sched_switch _ hnext
  | reschedule =>
    unfold sched_reschedule
    split
    · next newtd hfirst =>
      have hnew : newtd ≠ idle := fun heq => h.links (.first ()) (heq ▸ hfirst)
      exact ⟨remove_links h.links _, by simpa [remove] using hnew, fun _ hn => by cases hn⟩
    · exact ⟨h.links, h.next_thread, h.runq⟩
  | switch next _ hnext =>
    have hne : next ≠ idle := fun heq => h.next_thread (heq ▸ hnext)
    have hsw := h.sched_switch s.current_thread hne
    exact ⟨hsw.links, hsw.next_thread, hsw.runq⟩

/-- **An idle CPU has nothing queued** in any run in which no switch of a
yield to the idle thread leaves a queued thread behind. -/
theorem runq_empty_of_idle {s : State} (hs : ReachableBy system (fun s a => ¬ Strands s a) s)
    (hcur : s.current_thread = idle) (hnext : s.next_thread = none) : s.runq.first () = none := by
  have hfed : Fed s := hs.invariant (fun _ h => .init h) (fun _ _ _ h hok hstep => h.step hok hstep)
  exact hfed.runq hcur hnext

/-- The CPU after boot, no thread readied yet. -/
def boot : State where
  current_thread := idle
  next_thread := none
  preemption_reason := .none
  runq := { fwd := fun _ => none, last := fun _ => .first (), prev := fun _ => .first () }
  dpc := .out
  selected := none
  threads := fun _ => Ule.make_kernel_thread

theorem boot_init : Init boot where
  current_thread := rfl
  next_thread := rfl
  runq := by
    refine ⟨boot.runq, fun _ => rfl, ?_⟩
    simp [boot, Links.init]
  dpc := rfl
  selected := rfl
  fresh := fun _ => ⟨rfl, rfl, rfl, rfl⟩

/-- `dispatch_dpc` from beginning to end, without DPCs. -/
def dispatch : List Action := [.dispatch_enter, .dispatch_reschedule, .dispatch_switch]

def block : List Action := [.commit_wait, .sched_wait, .yield_select, .yield_switch]

/-- A thread is readied, runs and blocks; the CPU idles with an empty queue. -/
theorem runq_empty_of_idle_block :
    ∃ s, execBy system (fun s a => ¬ Strands s a) boot (.sched_ready 0 :: dispatch ++ block)
        = some s ∧
      s.current_thread = idle ∧ s.next_thread = none ∧ s.runq.first () = none := by
  refine run_imp (fun s => s.current_thread = idle ∧ s.next_thread = none) (by decide +kernel)
    fun s hexec ⟨hcur, hnext⟩ => ⟨hcur, hnext, ?_⟩
  exact runq_empty_of_idle (.of_execBy (.init boot_init) hexec) hcur hnext

/-- **The CPU idles over a ready thread**: a thread that yields although it
is the only one goes behind the idle thread, for which the quantum never
ends. -/
theorem idles_over_ready_thread :
    ¬ ∀ s, Reachable system s → s.current_thread = idle → s.next_thread = none →
      s.runq.first () = none := by
  intro h
  obtain ⟨s, hexec, hcur, hnext, hfirst⟩ : ∃ s,
      exec system boot (.sched_ready 0 :: dispatch ++ [.yield_select, .yield_switch]) = some s ∧
      s.current_thread = idle ∧ s.next_thread = none ∧ s.runq.first () = some (.thread 0) := by
    decide +kernel
  have hempty := h s (.of_exec boot_init hexec) hcur hnext
  rw [hfirst] at hempty
  cases hempty

end Rr
