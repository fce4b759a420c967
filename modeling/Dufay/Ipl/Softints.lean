import Dufay.Framework.Lts

/-! # Software interrupts

`core/ipl.c` and the entry and exit of an interrupt
(`isr_handler_main` of `arch/amd64/idt.c`) on one CPU.

A step is one access to the state that others can see: a store of the
level, a test of `pending_softints`. The functions in progress are kept on
the stack of the thread that called them, because `dispatch_dpc` may
switch to another thread in the middle. Requests come from this CPU and
from others at any time; an interrupt comes whenever the interrupt flag is
set.

A request sets the bit of `IPL_DISPATCH`, but the bit that is cleared
before `dispatch_dpc` is that of the level being returned to.
-/

open Lts Function

namespace Ipl

/-- `ipl_t` -/
inductive Level where
  | zero
  | dispatch
  | device
  | high
  deriving DecidableEq

/-- The values of the enumeration. -/
def Level.val : Level → Nat
  | .zero => 0
  | .dispatch => 1
  | .device => 13
  | .high => 15

inductive Frame where
  /-- `ipl_lower` has stored the level, below `IPL_DISPATCH`. -/
  | ipl_lower (ipl : Level)
  /-- The handler called by `isr_handler_main`. -/
  | handler (oldipl : Level)
  /-- `isr_handler_main` has restored a level below `IPL_DISPATCH`. -/
  | isr_exit (oldipl : Level)
  /-- The end of `isr_handler_main`. -/
  | isr_return
  | dispatch_software_interrupts (ipl : Level)
  /-- In the body of `dispatch_dpc`. -/
  | dispatch_dpc (int_state : Bool) (oldipl : Level)
  deriving DecidableEq

/-- `struct cpu_local`, as far as the level and the software interrupts go,
and the stacks of the threads. -/
structure Cpu where
  ipl : Level
  pending_softints : UInt8
  /-- The interrupt flag. -/
  interrupts : Bool
  current_thread : Nat
  stack_of : Nat → List Frame
  /-- History that no step reads: whether there was a request since
      `dispatch_dpc` was last entered, and how often it has been. -/
  requested : Bool
  entries : Nat

def Cpu.setStack (cpu : Cpu) (fs : List Frame) : Cpu :=
  { cpu with stack_of := update cpu.stack_of cpu.current_thread fs }

/-- The calls of the current thread, innermost first. -/
def Cpu.stack (cpu : Cpu) : List Frame := cpu.stack_of cpu.current_thread

/-! ### The functions of `ipl.c` -/

section
variable (pending_softints : UInt8) (ipl : Level)

def is_softint_pending : Bool := decide (pending_softints.toNat >>> ipl.val ≠ 0)

def clear_softint_pending : UInt8 := pending_softints &&& ~~~ (UInt8.ofNat (1 <<< ipl.val))

def set_softint_pending : UInt8 := pending_softints ||| UInt8.ofNat (1 <<< ipl.val)

end

/-- `ipl_raise`, if its assertion holds. -/
def ipl_raise (cpu : Cpu) (ipl : Level) : Option Cpu :=
  if cpu.ipl.val ≤ ipl.val then
    some { cpu with
      ipl := ipl
      interrupts := if Level.dispatch.val < ipl.val then false else cpu.interrupts }
  else none

/-- `ipl_lower` up to its test, if its assertion holds. -/
def ipl_lower (cpu : Cpu) (ipl : Level) : Option Cpu :=
  if ipl.val ≤ cpu.ipl.val then
    let cpu := { cpu with
      ipl := ipl
      interrupts := if ipl.val ≤ Level.dispatch.val then true else cpu.interrupts }
    some (if ipl.val < Level.dispatch.val then cpu.setStack (.ipl_lower ipl :: cpu.stack) else cpu)
  else none

/-- `isr_handler_main` up to the call of the handler. -/
def isr_enter (cpu : Cpu) : Cpu :=
  { cpu with ipl := .device, interrupts := false }.setStack (.handler cpu.ipl :: cpu.stack)

/-- The entry of `dispatch_dpc`, on top of the calls `fs`. -/
def dispatch_enter (cpu : Cpu) (fs : List Frame) : Cpu :=
  { cpu with
    ipl := .dispatch
    interrupts := true
    requested := false
    entries := cpu.entries + 1 }.setStack (.dispatch_dpc cpu.interrupts cpu.ipl :: fs)

/-- The innermost call `f` goes on; `fs` are the calls around it. -/
def run (cpu : Cpu) (fs : List Frame) : Frame → Cpu
  | .ipl_lower ipl =>
    if is_softint_pending cpu.pending_softints ipl then
      cpu.setStack (.dispatch_software_interrupts ipl :: fs)
    else cpu.setStack fs
  | .handler oldipl =>
    { cpu with ipl := oldipl }.setStack
      (if oldipl.val < Level.dispatch.val then .isr_exit oldipl :: fs else .isr_return :: fs)
  | .isr_exit oldipl =>
    if is_softint_pending cpu.pending_softints oldipl then
      cpu.setStack (.dispatch_software_interrupts oldipl :: .isr_return :: fs)
    else cpu.setStack (.isr_return :: fs)
  -- the interrupted code had the flag set
  | .isr_return => { cpu with interrupts := true }.setStack fs
  | .dispatch_software_interrupts ipl =>
    if is_softint_pending cpu.pending_softints ipl then
      dispatch_enter
        { cpu with pending_softints := clear_softint_pending cpu.pending_softints ipl } fs
    else cpu.setStack fs
  | .dispatch_dpc int_state oldipl =>
    { cpu with
      ipl := oldipl
      interrupts := if int_state then cpu.interrupts else false }.setStack fs

/-! ### The system -/

inductive Action where
  /-- `set_softint_pending(cpu, IPL_DISPATCH)`, by any CPU. -/
  | request
  | ipl_raise (ipl : Level)
  | ipl_lower (ipl : Level)
  | interrupt
  /-- The innermost call goes on: the handler returns, the DPCs have been
      run, or the next test is made. -/
  | run
  /-- Switch to the thread `k`. -/
  | switch (k : Nat)
  deriving DecidableEq

/-- Threads, handlers and DPCs raise and lower the level. -/
def Cpu.mayCall (cpu : Cpu) : Bool :=
  match cpu.stack with
  | [] | .handler _ :: _ | .dispatch_dpc _ _ :: _ => true
  | .ipl_lower _ :: _ | .isr_exit _ :: _ | .isr_return :: _
  | .dispatch_software_interrupts _ :: _ => false

/-- Threads and `dispatch_dpc` switch. -/
def Cpu.maySwitch (cpu : Cpu) : Bool :=
  match cpu.stack with
  | [] | .dispatch_dpc _ _ :: _ => true
  | .ipl_lower _ :: _ | .handler _ :: _ | .isr_exit _ :: _ | .isr_return :: _
  | .dispatch_software_interrupts _ :: _ => false

def step (cpu : Cpu) : Action → Option Cpu
  | .request =>
    some { cpu with
      pending_softints := set_softint_pending cpu.pending_softints .dispatch
      requested := true }
  | .ipl_raise ipl => if cpu.mayCall then ipl_raise cpu ipl else none
  | .ipl_lower ipl => if cpu.mayCall then ipl_lower cpu ipl else none
  | .interrupt => if cpu.interrupts then some (isr_enter cpu) else none
  | .run =>
    match cpu.stack with
    | f :: fs => some (run cpu fs f)
    | [] => none
  | .switch k => if cpu.maySwitch then some { cpu with current_thread := k } else none

/-- No request has been made and no call is in progress. -/
structure Init (cpu : Cpu) : Prop where
  pending_softints : cpu.pending_softints = 0
  stack_of : ∀ k, cpu.stack_of k = []
  requested : cpu.requested = false
  entries : cpu.entries = 0

def system : System Cpu Action where
  init := Init
  step := step

/-! ### The bit of a request stays set -/

/-- The level that a pending test is for. -/
def Frame.tested : Frame → Option Level
  | .ipl_lower ipl | .isr_exit ipl | .dispatch_software_interrupts ipl => some ipl
  | .handler _ | .isr_return | .dispatch_dpc _ _ => none

/-- The pending bits: set by the first request and never cleared. -/
structure Sticky (cpu : Cpu) : Prop where
  pending : cpu.pending_softints = if cpu.requested = true ∨ 0 < cpu.entries then 2 else 0
  tested : ∀ k, ∀ f ∈ cpu.stack_of k, ∀ ipl, f.tested = some ipl → ipl = .zero

theorem eq_zero_of_lt_dispatch {ipl : Level} (h : ipl.val < Level.dispatch.val) : ipl = .zero := by
  cases ipl
  case zero => rfl
  all_goals exact absurd h (by decide)

variable {cpu : Cpu}

theorem Sticky.init (h : Init cpu) : Sticky cpu where
  pending := by simp [h.pending_softints, h.requested, h.entries]
  tested := fun k f hf => by
    rw [h.stack_of k] at hf
    cases hf

theorem Sticky.setStack {cpu' : Cpu} (h : Sticky cpu)
    (hpend : cpu'.pending_softints = cpu.pending_softints) (hreq : cpu'.requested = cpu.requested)
    (hent : cpu'.entries = cpu.entries)
    (hstacks : cpu'.stack_of = update cpu.stack_of cpu.current_thread fs)
    (hfs : ∀ f ∈ fs, f ∈ cpu.stack ∨ ∀ ipl, f.tested = some ipl → ipl = .zero) : Sticky cpu' where
  pending := by
    rw [hpend, hreq, hent]
    exact h.pending
  tested := fun k f hf => by
    rw [hstacks, update_apply] at hf
    split at hf
    · rcases hfs f hf with hold | hnew
      · exact h.tested _ f hold
      · exact hnew
    · exact h.tested k f hf

theorem Sticky.replace (h : Sticky cpu) (hf : cpu.stack = f :: fs) (gs : List Frame)
    (hpend : cpu'.pending_softints = cpu.pending_softints) (hreq : cpu'.requested = cpu.requested)
    (hent : cpu'.entries = cpu.entries)
    (hstacks : cpu'.stack_of = update cpu.stack_of cpu.current_thread (gs ++ fs))
    (hgs : ∀ g ∈ gs, ∀ ipl, g.tested = some ipl → ipl = .zero) : Sticky cpu' := by
  refine h.setStack hpend hreq hent hstacks (fun g hg => ?_)
  rcases List.mem_append.mp hg with hg | hg
  · exact .inr (hgs g hg)
  · exact .inl (by rw [hf]; exact List.mem_cons_of_mem _ hg)

theorem Sticky.run {f : Frame} (h : Sticky cpu) (hf : cpu.stack = f :: fs) :
    Sticky (run cpu fs f) := by
  -- the level that `f` tests for
  have hzero : ∀ ipl, f.tested = some ipl → ipl = .zero :=
    h.tested _ f (by rw [← Cpu.stack, hf]; exact List.mem_cons_self)
  cases f with
  | ipl_lower ipl =>
    have := hzero ipl rfl
    subst this
    unfold Ipl.run
    dsimp only
    split
    · exact h.replace hf [.dispatch_software_interrupts .zero] rfl rfl rfl rfl
        (by simp [Frame.tested])
    · exact h.replace hf [] rfl rfl rfl rfl (by simp)
  | handler oldipl =>
    unfold Ipl.run
    dsimp only
    split
    · next hlt =>
      have := eq_zero_of_lt_dispatch hlt
      subst this
      exact h.replace hf [.isr_exit .zero] rfl rfl rfl rfl (by simp [Frame.tested])
    · exact h.replace hf [.isr_return] rfl rfl rfl rfl (by simp [Frame.tested])
  | isr_exit oldipl =>
    have := hzero oldipl rfl
    subst this
    unfold Ipl.run
    dsimp only
    split
    · exact h.replace hf [.dispatch_software_interrupts .zero, .isr_return] rfl rfl rfl
        rfl (by simp [Frame.tested])
    · exact h.replace hf [.isr_return] rfl rfl rfl rfl (by simp [Frame.tested])
  | isr_return => exact h.replace hf [] rfl rfl rfl rfl (by simp)
  | dispatch_dpc int_state oldipl => exact h.replace hf [] rfl rfl rfl rfl (by simp)
  | dispatch_software_interrupts ipl =>
    have := hzero ipl rfl
    subst this
    unfold Ipl.run
    dsimp only
    split
    · next hset =>
      refine ⟨?_, fun k g hg => ?_⟩
      · -- the bits were set, and stay so
        have hpend := h.pending
        split at hpend
        · simp only [dispatch_enter, Cpu.setStack, hpend]
          rw [if_pos (.inr (Nat.succ_pos _))]
          decide
        · rw [hpend] at hset
          exact absurd hset (by decide)
      · simp only [dispatch_enter, Cpu.setStack, update_apply] at hg
        split at hg
        · rcases List.mem_cons.mp hg with rfl | hmem
          · exact fun ipl hipl => by cases hipl
          · exact h.tested cpu.current_thread g
              (by rw [← Cpu.stack, hf]; exact List.mem_cons_of_mem _ hmem)
        · exact h.tested k g hg
    · exact h.replace hf [] rfl rfl rfl rfl (by simp)

theorem Sticky.step {cpu' : Cpu} {a : Action} (h : Sticky cpu) (hstep : Ipl.step cpu a = some cpu')
    : Sticky cpu' := by
  cases a <;> simp only [Ipl.step] at hstep
  case request =>
    cases hstep
    refine ⟨?_, h.tested⟩
    have hpend := h.pending
    simp only [true_or, if_true]
    rw [hpend]
    split <;> decide
  case ipl_raise ipl =>
    simp only [Ipl.ipl_raise] at hstep
    split at hstep
    · split at hstep
      · cases hstep
        exact ⟨h.pending, h.tested⟩
      · cases hstep
    · cases hstep
  case ipl_lower ipl =>
    simp only [Ipl.ipl_lower] at hstep
    split at hstep
    · split at hstep
      · cases hstep
        split
        · next hlt =>
          have := eq_zero_of_lt_dispatch hlt
          subst this
          refine h.setStack rfl rfl rfl rfl (fun f hf => ?_)
          rcases List.mem_cons.mp hf with rfl | hf
          · exact .inr (fun ipl hipl => by cases hipl; rfl)
          · exact .inl hf
        · exact ⟨h.pending, h.tested⟩
      · cases hstep
    · cases hstep
  case interrupt =>
    split at hstep
    · cases hstep
      refine h.setStack rfl rfl rfl rfl (fun f hf => ?_)
      rcases List.mem_cons.mp hf with rfl | hf
      · exact .inr (fun ipl hipl => by cases hipl)
      · exact .inl hf
    · cases hstep
  case run =>
    split at hstep
    · next f fs hf =>
      cases hstep
      exact h.run hf
    · cases hstep
  case switch k =>
    split at hstep
    · cases hstep
      exact ⟨h.pending, h.tested⟩
    · cases hstep

theorem Sticky.of_reachableBy {ok : Cpu → Action → Prop} (hs : ReachableBy system ok cpu) :
    Sticky cpu := by
  refine ReachableBy.invariant ?_ ?_ hs
  · exact fun cpu h => Sticky.init h
  · exact fun cpu a cpu' h _ hstep => .step h hstep

/-! ### One dispatch for each request -/

/-- What a step should satisfy: `dispatch_dpc` is entered only after a
request, and a return to `IPL_ZERO` with no request since the last entry
finds nothing pending. -/
structure ServicedOnce (cpu cpu' : Cpu) : Prop where
  enter : cpu.entries < cpu'.entries → cpu.requested = true
  return_to_zero : cpu.ipl ≠ .zero → cpu'.ipl = .zero → cpu'.requested = false →
    cpu'.pending_softints = 0

/-- The CPU is about to test for a dispatch. -/
def Cpu.dispatching (cpu : Cpu) : Bool :=
  match cpu.stack with
  | .dispatch_software_interrupts _ :: _ => true
  | _ => false

/-- Since `dispatch_dpc` was last entered there was no request, and the CPU
returns to `IPL_ZERO` or goes through `dispatch_software_interrupts`
nevertheless. -/
def Unrequested (cpu : Cpu) (a : Action) : Prop := cpu.requested = false ∧ 0 < cpu.entries ∧
    ((cpu.ipl ≠ .zero ∧ (step cpu a).map Cpu.ipl = some .zero) ∨
      (a = .run ∧ cpu.dispatching = true))

instance (cpu : Cpu) (a : Action) : Decidable (Unrequested cpu a) :=
  inferInstanceAs (Decidable (_ ∧ _ ∧ (_ ∨ _)))

theorem entries_of_step (hstep : step cpu a = some cpu') :
    (cpu'.entries = cpu.entries ∧ (a ≠ .request → cpu'.requested = cpu.requested)) ∨
    (a = .run ∧ cpu.dispatching = true ∧ cpu.pending_softints ≠ 0 ∧ cpu'.ipl ≠ .zero) := by
  cases a <;> simp only [step] at hstep
  case request =>
    cases hstep
    exact .inl ⟨rfl, fun h => absurd rfl h⟩
  case ipl_raise ipl =>
    simp only [ipl_raise] at hstep
    split at hstep
    · split at hstep
      · cases hstep
        exact .inl ⟨rfl, fun _ => rfl⟩
      · cases hstep
    · cases hstep
  case ipl_lower ipl =>
    simp only [ipl_lower] at hstep
    split at hstep
    · split at hstep
      · cases hstep
        left
        split <;> exact ⟨rfl, fun _ => rfl⟩
      · cases hstep
    · cases hstep
  case interrupt =>
    split at hstep
    · cases hstep
      exact .inl ⟨rfl, fun _ => rfl⟩
    · cases hstep
  case switch k =>
    split at hstep
    · cases hstep
      exact .inl ⟨rfl, fun _ => rfl⟩
    · cases hstep
  case run =>
    split at hstep
    · next f fs hf =>
      cases hstep
      cases f with
      | dispatch_software_interrupts ipl =>
        unfold run
        dsimp only
        split
        · next hset =>
          refine .inr ⟨rfl, by simp [Cpu.dispatching, hf], ?_, by simp [dispatch_enter, Cpu.setStack]⟩
          intro hzero
          rw [hzero] at hset
          simp [is_softint_pending] at hset
        · exact .inl ⟨rfl, fun _ => rfl⟩
      | ipl_lower ipl =>
        left
        unfold run
        dsimp only
        split <;> exact ⟨rfl, fun _ => rfl⟩
      | isr_exit oldipl =>
        left
        unfold run
        dsimp only
        split <;> exact ⟨rfl, fun _ => rfl⟩
      | handler oldipl => exact .inl ⟨rfl, fun _ => rfl⟩
      | isr_return => exact .inl ⟨rfl, fun _ => rfl⟩
      | dispatch_dpc int_state oldipl => exact .inl ⟨rfl, fun _ => rfl⟩
    · cases hstep

/-- **One dispatch for each request**, in every run in which the CPU returns
to `IPL_ZERO` and goes through `dispatch_software_interrupts` only after a
request that `dispatch_dpc` has not been entered for, once it has been
entered at all. -/
theorem serviced_once {cpu cpu' : Cpu} {a : Action}
    (hs : ReachableBy system (fun cpu a => ¬ Unrequested cpu a) cpu) (hok : ¬ Unrequested cpu a)
    (hstep : step cpu a = some cpu') : ServicedOnce cpu cpu' := by
  have hst := Sticky.of_reachableBy hs
  have hst' := hst.step hstep
  constructor
  · intro hlt
    rcases entries_of_step hstep with ⟨heq, -⟩ | ⟨ha, hdisp, hpend, -⟩
    · omega
    · by_contra hreq
      have hreq : cpu.requested = false := by simpa using hreq
      -- a bit is set, so `dispatch_dpc` was entered before, without a request since
      have hent : 0 < cpu.entries := by
        by_contra hzero
        have hp := hst.pending
        rw [if_neg (by simp [hreq, hzero])] at hp
        exact hpend hp
      exact hok ⟨hreq, hent, .inr ⟨ha, hdisp⟩⟩
  · intro hne hzero hreq'
    have hret : (step cpu a).map Cpu.ipl = some .zero := by
      rw [hstep, Option.map_some, hzero]
    rcases entries_of_step hstep with ⟨heq, hreq⟩ | ⟨-, -, -, hipl⟩
    · have hnoreq : a ≠ .request := by
        rintro rfl
        cases hstep
        exact hne hzero
      have hent : cpu'.entries = 0 := by
        by_contra hpos
        exact hok ⟨(hreq hnoreq).symm.trans hreq', by omega, .inl ⟨hne, hret⟩⟩
      have hp := hst'.pending
      rwa [if_neg (by simp [hreq', hent])] at hp
    · exact absurd hzero hipl

/-- The CPU at `IPL_ZERO` with interrupts on. -/
def boot : Cpu where
  ipl := .zero
  pending_softints := 0
  interrupts := true
  current_thread := 0
  stack_of := fun _ => []
  requested := false
  entries := 0

theorem boot_init : Init boot := ⟨rfl, fun _ => rfl, rfl, rfl⟩

/-- An interrupt whose handler makes a request, up to the entry of
`dispatch_dpc`. -/
def tick : List Action := [.interrupt, .request, .run, .run, .run]

/-- A tick is dispatched; another request comes while the DPCs run, and the
next tick is dispatched as well. -/
theorem serviced_once_tick : ∃ cpu cpu', execBy system (fun cpu a => ¬ Unrequested cpu a) boot
        (tick ++ [.request, .run, .run] ++ tick.take 4) = some cpu ∧
      step cpu .run = some cpu' ∧ cpu.entries < cpu'.entries ∧ ServicedOnce cpu cpu' := by
  obtain ⟨cpu, hexec, hreq, cpu', hstep, hent⟩ : ∃ cpu, execBy system
      (fun cpu a => ¬ Unrequested cpu a) boot (tick ++ [.request, .run, .run] ++ tick.take 4) =
        some cpu ∧ cpu.requested = true ∧
      ∃ cpu', step cpu .run = some cpu' ∧ cpu.entries < cpu'.entries := by decide +kernel
  have hok : ¬ Unrequested cpu .run := by
    rintro ⟨hno, -⟩
    rw [hreq] at hno
    cases hno
  have hr := ReachableBy.of_execBy (.init boot_init) hexec
  exact ⟨cpu, cpu', hexec, hstep, hent, serviced_once hr hok hstep⟩

/-- **A dispatch without a request, and a bit that stays set**: after one
request, its dispatch returns to `IPL_ZERO` with the bit of the request;
and a thread that raises the level and lowers it again enters
`dispatch_dpc` once more. -/
theorem dispatch_without_request : (¬ ∀ cpu a cpu', Reachable system cpu → step cpu a = some cpu' →
      cpu.entries < cpu'.entries → cpu.requested = true) ∧
    (¬ ∀ cpu a cpu', Reachable system cpu → step cpu a = some cpu' →
      cpu.ipl ≠ .zero → cpu'.ipl = .zero → cpu'.requested = false →
      cpu'.pending_softints = 0) := by
  constructor
  · intro h
    obtain ⟨cpu, hexec, hreq, cpu', hstep, hent⟩ : ∃ cpu, exec system boot
        (tick ++ [.run, .run] ++ [.ipl_raise .dispatch, .ipl_lower .zero, .run]) = some cpu ∧
        cpu.requested = false ∧
        ∃ cpu', step cpu .run = some cpu' ∧ cpu.entries < cpu'.entries := by decide +kernel
    have hreq' := h cpu .run cpu' (.of_exec boot_init hexec) hstep hent
    rw [hreq] at hreq'
    cases hreq'
  · intro h
    obtain ⟨cpu, hexec, hipl, cpu', hstep, hipl', hreq, hpending⟩ : ∃ cpu,
        exec system boot tick = some cpu ∧ cpu.ipl ≠ .zero ∧
        ∃ cpu', step cpu .run = some cpu' ∧ cpu'.ipl = .zero ∧ cpu'.requested = false ∧
          cpu'.pending_softints ≠ 0 := by decide +kernel
    exact hpending (h cpu .run cpu' (.of_exec boot_init hexec) hstep hipl hipl' hreq)

end Ipl
