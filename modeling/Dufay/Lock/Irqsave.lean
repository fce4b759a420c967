import Mathlib.Data.Fintype.Basic
import Dufay.Framework.Lts

/-! # Spinlocks that save the interrupt state

`spinlock_irqsave` and `spinrelease_irqsave` of `core/lock.h`, for any
number of CPUs that run paired sections on one lock.

A step is one statement of the two functions: save the interrupt state
into the lock, disable interrupts, try to acquire; release, restore from
the lock. Outside of the two functions a CPU may set its own interrupt
flag as it likes, before a section and inside its body.

The saved state lives in the lock and is written before the lock is
held, so a CPU that only begins to wait overwrites what the holder will
restore.
-/

open Lts Function

namespace Lock

structure Spinlock where
  lock : Bool
  interrupts : Bool
  deriving DecidableEq

/-- Where a CPU is in its section. -/
inductive Pc where
  | outside
  /-- `spinlock_irqsave`: the state is saved, about to disable interrupts. -/
  | saved
  /-- About to try the lock. -/
  | spinning
  /-- In the body of the section. -/
  | holding
  /-- `spinrelease_irqsave`: the lock is free, about to restore. -/
  | released
  deriving DecidableEq

/-- From the save to the restore. -/
def Pc.inSection : Pc → Bool
  | .outside => false
  | .saved | .spinning | .holding | .released => true

structure State (ι : Type) where
  spinlock : Spinlock
  /-- The interrupt-enable flag of a CPU. -/
  flag : ι → Bool
  pc : ι → Pc
  /-- History that no step reads: the flag of a CPU immediately before its
      last `spinlock_irqsave`. -/
  before : ι → Bool

variable {ι : Type} [DecidableEq ι]

/-- `arch_enable_interrupts` and `arch_disable_interrupts` -/
@[simps -fullyApplied] def State.setFlag (s : State ι) (c : ι) (b : Bool) : State ι :=
  { s with flag := update s.flag c b }

@[simps -fullyApplied] def State.setPc (s : State ι) (c : ι) (pc : Pc) : State ι :=
  { s with pc := update s.pc c pc }

inductive Action (ι : Type) where
  /-- The next statement of the CPU's section. -/
  | run (c : ι)
  /-- Other code of the CPU sets its interrupt flag. -/
  | setFlag (c : ι) (b : Bool)
  deriving DecidableEq

/-- One statement of `spinlock_irqsave` or `spinrelease_irqsave`. -/
def run (s : State ι) (c : ι) : State ι :=
  match s.pc c with
  | .outside =>
    -- spinlock->interrupts = arch_interrupt_state();
    { s with
      spinlock := { s.spinlock with interrupts := s.flag c }
      pc := update s.pc c .saved
      before := update s.before c (s.flag c) }
  | .saved => (s.setFlag c false).setPc c .spinning
  | .spinning =>
    -- one attempt of raw_spinlock
    if s.spinlock.lock then s
    else { s with spinlock := { s.spinlock with lock := true } }.setPc c .holding
  | .holding => { s with spinlock := { s.spinlock with lock := false } }.setPc c .released
  | .released =>
    if s.spinlock.interrupts then (s.setFlag c true).setPc c .outside
    else (s.setFlag c false).setPc c .outside

/-- Other code runs outside of the two functions. -/
def step (s : State ι) : Action ι → Option (State ι)
  | .run c => some (run s c)
  | .setFlag c b =>
    match s.pc c with
    | .outside | .holding => some (s.setFlag c b)
    | .saved | .spinning | .released => none

/-- Initially the lock is free and every CPU is outside. -/
def Init (s : State ι) : Prop := s.spinlock.lock = false ∧ ∀ c, s.pc c = .outside

def system (ι : Type) [DecidableEq ι] : System (State ι) (Action ι) where
  init := Init
  step := step

inductive Moves (s : State ι) : Action ι → State ι → Prop where
  | save {c : ι} : s.pc c = .outside → Moves s (.run c)
        { s with
          spinlock := { s.spinlock with interrupts := s.flag c }
          pc := update s.pc c .saved
          before := update s.before c (s.flag c) }
  | disable {c : ι} : s.pc c = .saved → Moves s (.run c) ((s.setFlag c false).setPc c .spinning)
  | spin {c : ι} : s.pc c = .spinning → s.spinlock.lock = true → Moves s (.run c) s
  | acquire {c : ι} : s.pc c = .spinning → s.spinlock.lock = false →
      Moves s (.run c) ({ s with spinlock := { s.spinlock with lock := true } }.setPc c .holding)
  | release {c : ι} : s.pc c = .holding → Moves s (.run c)
        ({ s with spinlock := { s.spinlock with lock := false } }.setPc c .released)
  | restore {c : ι} : s.pc c = .released →
      Moves s (.run c) ((s.setFlag c s.spinlock.interrupts).setPc c .outside)
  | setFlag {c : ι} {b : Bool} : s.pc c = .outside ∨ s.pc c = .holding →
      Moves s (.setFlag c b) (s.setFlag c b)

variable {s s' : State ι} {a : Action ι} {c : ι}

theorem moves_of_step (h : (system ι).step s a = some s') : Moves s a s' := by
  cases a with
  | run c =>
    obtain rfl : run s c = s' := Option.some.inj h
    unfold run
    split
    · next hpc => exact .save hpc
    · next hpc => exact .disable hpc
    · next hpc =>
      split
      · next hlock => exact .spin hpc hlock
      · next hlock => exact .acquire hpc (by simpa using hlock)
    · next hpc => exact .release hpc
    · next hpc =>
      -- both branches store the saved state into the flag
      have hrestore := Moves.restore hpc
      cases hint : s.spinlock.interrupts with
      | true => simpa [hint] using hrestore
      | false => simpa [hint] using hrestore
  | setFlag c b =>
    simp only [system, step] at h
    split at h
    · next hpc =>
      cases h
      exact .setFlag (.inl hpc)
    · next hpc =>
      cases h
      exact .setFlag (.inr hpc)
    all_goals cases h

/-! ### What is restored -/

/-- The step does not save a state that differs from the one a CPU inside
its section is to get back. -/
def Undisturbed (s : State ι) : Action ι → Prop
  | .run c => s.pc c = .outside → ∀ d, (s.pc d).inSection = true → s.before d = s.flag c
  | .setFlag _ _ => True

instance [Fintype ι] (s : State ι) (a : Action ι) : Decidable (Undisturbed s a) := by
  cases a <;> unfold Undisturbed <;> infer_instance

/-- The lock holds the state of every CPU that is inside its section. -/
def Kept (s : State ι) : Prop := ∀ c, (s.pc c).inSection = true → s.spinlock.interrupts = s.before c

theorem Kept.move (h : Kept s) (hin : (s.pc c).inSection = true)
    (hpc : s'.pc = update s.pc c pc) (hbefore : s'.before = s.before)
    (hint : s'.spinlock.interrupts = s.spinlock.interrupts) : Kept s' := by
  intro d hd
  rw [hbefore, hint]
  by_cases hdc : d = c
  · rw [hdc]
    exact h c hin
  · rw [hpc, update_of_ne hdc] at hd
    exact h d hd

theorem Kept.step (h : Kept s) (hok : Undisturbed s a) (hmove : Moves s a s') : Kept s' := by
  cases hmove with
  | @save c hpc =>
    intro d hd
    by_cases hdc : d = c
    · subst hdc
      simp
    · simp only [update_of_ne hdc] at hd ⊢
      exact (hok hpc d hd).symm
  | disable hpc => exact h.move (by rw [hpc]; rfl) rfl rfl rfl
  | spin _ _ => exact h
  | acquire hpc _ => exact h.move (by rw [hpc]; rfl) rfl rfl rfl
  | release hpc => exact h.move (by rw [hpc]; rfl) rfl rfl rfl
  | restore hpc => exact h.move (by rw [hpc]; rfl) rfl rfl rfl
  | setFlag _ => exact h

theorem kept_of_undisturbed (hs : ReachableBy (system ι) Undisturbed s) : Kept s := by
  refine ReachableBy.invariant (fun s h c hc => ?_)
    (fun s a s' h hok hst => h.step hok (moves_of_step hst)) hs
  rw [h.2 c] at hc
  cases hc

/-- **The interrupt state comes back**, on any number of CPUs and in every
interleaving in which no CPU saves a state that differs from the one a
CPU inside its section entered with: when `spinrelease_irqsave` is done,
the flag of the CPU is the one from immediately before its
`spinlock_irqsave`. -/
theorem irqsave_restores (hs : ReachableBy (system ι) Undisturbed s)
    (hpc : s.pc c = .released) (hst : (system ι).step s (.run c) = some s') :
    s'.pc c = .outside ∧ s'.flag c = s.before c := by
  have hkept : s.spinlock.interrupts = s.before c := kept_of_undisturbed hs c (by rw [hpc]; rfl)
  have hmove := moves_of_step hst
  cases hmove with
  | restore _ => simp [hkept]
  | save h => simp [hpc] at h
  | disable h => simp [hpc] at h
  | spin h _ => simp [hpc] at h
  | acquire h _ => simp [hpc] at h
  | release h => simp [hpc] at h

/-- Two CPUs outside, with the flags `f`. -/
def twoCpus (f : Fin 2 → Bool) : State (Fin 2) where
  spinlock := ⟨false, false⟩
  flag := f
  pc := fun _ => .outside
  before := f

theorem twoCpus_init : (system (Fin 2)).init (twoCpus f) := ⟨rfl, fun _ => rfl⟩

/-- Both CPUs enter with interrupts on, and CPU 1 waits for CPU 0. -/
theorem irqsave_restores_contended :
    ∃ s s', execBy (system (Fin 2)) Undisturbed (twoCpus fun _ => true)
        [.run 0, .run 0, .run 1, .run 0, .run 1, .run 1, .run 0] = some s ∧
      s.pc 0 = .released ∧ (system (Fin 2)).step s (.run 0) = some s' ∧
      s'.pc 0 = .outside ∧ s'.flag 0 = s.before 0 := by
  obtain ⟨s, hs, hpc⟩ : ∃ s, execBy (system (Fin 2)) Undisturbed (twoCpus fun _ => true)
      [.run 0, .run 0, .run 1, .run 0, .run 1, .run 1, .run 0] = some s ∧
      s.pc 0 = .released := ⟨_, rfl, rfl⟩
  exact ⟨s, run s 0, hs, hpc, rfl, irqsave_restores (.of_execBy (.init (twoCpus_init)) hs) hpc rfl⟩

/-- **A waiter overwrites the state of the holder**: CPU 0 enters with
interrupts on and gets the lock, CPU 1 comes with interrupts off and
only saves its state. CPU 0 leaves with interrupts off. -/
theorem irqsave_restores_foreign :
    ¬ ∀ (s s' : State (Fin 2)) (c : Fin 2), Reachable (system (Fin 2)) s → s.pc c = .released →
      (system (Fin 2)).step s (.run c) = some s' → s'.flag c = s.before c := by
  intro h
  obtain ⟨s, hs, hpc, hflag, hbefore⟩ : ∃ s, exec (system (Fin 2)) (twoCpus fun c => c = 0)
      [.run 0, .run 0, .run 0, .run 1, .run 0] = some s ∧ s.pc 0 = .released ∧
      (run s 0).flag 0 = false ∧ s.before 0 = true := ⟨_, rfl, rfl, rfl, rfl⟩
  have heq := h s (run s 0) 0 (.of_exec (twoCpus_init) hs) hpc rfl
  rw [hflag, hbefore] at heq
  cases heq

end Lock
