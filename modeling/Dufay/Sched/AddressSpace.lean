import Dufay.Sched.Ule

/-! # Threads and the active address space

`thread_switch` and `thread_load` of `core/thread.c` under the
`sched_switch` of the ULE scheduler, for any number of CPUs, threads and
processes.

`thread_switch` activates a pmap when the two threads have different ones,
but it activates that of the thread it switches away from.
-/

open Lts

namespace AddressSpace

open Ule (Tid)

variable {n : Nat} {π : Type} [DecidableEq π]

/-- `struct address_space`, with the pmap of its page table. -/
structure Space (π : Type) where
  pmap : π

/-- `struct process`: `as` may be null. -/
structure Process (π : Type) where
  as : Option (Space π)

/-- The scheduler, and the pmap last activated on each CPU. -/
structure State (n : Nat) (π : Type) where
  sched : Ule.State n
  active : Fin (n + 1) → Option π

section
variable (s : State n π) (c : Fin (n + 1))

def State.current : Tid n := (s.sched.cpus c).current_thread

def pmap_activate (pmap : π) : State n π :=
  { s with active := Function.update s.active c (some pmap) }

/-- `arch_context_switch` and `arch_load_context`: the caller has made `td`
the current thread. -/
def load_context (td : Tid n) : State n π :=
  { s with sched := Ule.setCpu s.sched c { s.sched.cpus c with current_thread := td } }

end

section process

-- `thread::process`
variable (process : Tid n → Option (Process π))

/-- `td->process->as->page_table->pmap`, if none of the pointers is null. -/
def pmap_of (td : Tid n) : Option π := (process td).bind fun p => p.as.map Space.pmap

section
variable (s : State n π) (c : Fin (n + 1))

/-- `thread_switch`; it does not survive a null pointer on the way to either
pmap. -/
def thread_switch (cur next : Tid n) : Option (State n π) :=
  match pmap_of process cur, pmap_of process next with
  | some curPmap, some nextPmap =>
    let s := if curPmap ≠ nextPmap then pmap_activate s c curPmap else s
    some (load_context s c next)
  | _, _ => none

def thread_load (td : Tid n) : State n π :=
  match pmap_of process td with
  | some pmap => load_context (pmap_activate s c pmap) c td
  | none => load_context s c td

def sched_switch (next : Tid n) : Option (State n π) :=
  thread_switch process { s with sched := Ule.sched_switch s.sched c (s.current c) next } c
    (s.current c) next

end

/-! ### The system -/

inductive Action (n : Nat) where
  | sched_switch (c : Fin (n + 1)) (next : Tid n)
  | thread_switch (c : Fin (n + 1)) (next : Tid n)
  | thread_load (c : Fin (n + 1)) (td : Tid n)
  deriving DecidableEq

def step (s : State n π) : Action n → Option (State n π)
  | .sched_switch c next => sched_switch process s c next
  | .thread_switch c next => thread_switch process s c (s.current c) next
  | .thread_load c td => some (thread_load process s c td)

/-- The active pmap of CPU `c` is the pmap of its current thread. -/
def Agrees (s : State n π) (c : Fin (n + 1)) : Prop :=
  ∀ pmap, pmap_of process (s.current c) = some pmap → s.active c = some pmap

/-- Every CPU runs its idle thread in the address space that boot activated. -/
structure Init (s : State n π) : Prop where
  idle : ∀ c, s.current c = .idle c
  active : ∀ c, Agrees process s c

def system : System (State n π) (Action n) where
  init := Init process
  step := step process

omit [DecidableEq π] in
@[simp] theorem load_context_current : (load_context s c td).current c = td := by
  simp [load_context, State.current]

variable {s : State n π} {c : Fin (n + 1)}

theorem thread_switch_of_eq (hcur : pmap_of process cur = some pmap)
    (hnext : pmap_of process next = some pmap) :
    thread_switch process s c cur next = some (load_context s c next) := by
  simp [thread_switch, hcur, hnext]

theorem thread_switch_of_ne (hcur : pmap_of process cur = some p)
    (hnext : pmap_of process next = some q) (hne : p ≠ q) :
    thread_switch process s c cur next = some (load_context (pmap_activate s c p) c next) := by
  simp [thread_switch, hcur, hnext, hne]

theorem thread_switch_agrees_iff
    (hagree : ∀ pmap, pmap_of process cur = some pmap → s.active c = some pmap)
    (h : thread_switch process s c cur next = some s') :
    Agrees process s' c ↔ pmap_of process cur = pmap_of process next := by
  match hcur : pmap_of process cur, hnext : pmap_of process next with
  | some p, some q =>
    by_cases hpq : p = q
    · subst hpq
      rw [thread_switch_of_eq process hcur hnext] at h
      cases h
      simp only [iff_true]
      intro pmap hp
      rw [load_context_current, hnext] at hp
      cases hp
      exact hagree p hcur
    · rw [thread_switch_of_ne process hcur hnext hpq] at h
      cases h
      simp only [Option.some.injEq, hpq, iff_false]
      intro hbad
      have hact := hbad q (by rw [load_context_current, hnext])
      simp only [load_context, pmap_activate, Function.update_self, Option.some.injEq] at hact
      exact hpq hact
  | none, _ => simp [thread_switch, hcur] at h
  | some p, none => simp [thread_switch, hcur, hnext] at h

theorem thread_switch_ne (hd : d ≠ c) (h : thread_switch process s c cur next = some s') :
    s'.current d = s.current d ∧ s'.active d = s.active d := by
  unfold thread_switch at h
  split at h
  · cases h
    split <;> simp [load_context, pmap_activate, State.current, hd]
  · cases h

omit [DecidableEq π] in
theorem Agrees.congr (h : Agrees process s c) (hcur : s'.current c = s.current c)
    (hact : s'.active c = s.active c) : Agrees process s' c := by
  intro pmap hp
  rw [hcur] at hp
  rw [hact]
  exact h pmap hp

theorem sched_switch_current_ne (s : Ule.State n) (cur next : Tid n) (h : d ≠ c) :
    ((Ule.sched_switch s c cur next).cpus d).current_thread = (s.cpus d).current_thread := by
  unfold Ule.sched_switch Ule.put_back
  split <;> simp [Ule.switch_to, Ule.sched_insert_in_queue, h]

/-- The switch is between threads of one address space. -/
def SameSpace (s : State n π) : Action n → Prop
  | .sched_switch c next | .thread_switch c next =>
    pmap_of process (s.current c) = pmap_of process next
  | .thread_load _ _ => True

instance (s : State n π) (a : Action n) : Decidable (SameSpace process s a) := by
  cases a <;> unfold SameSpace <;> infer_instance

/-- Every CPU runs its thread in the right address space. -/
def AllAgree (s : State n π) : Prop := ∀ c, Agrees process s c

theorem AllAgree.step {s' : State n π} {a : Action n} (h : AllAgree process s)
    (hok : SameSpace process s a) (hstep : step process s a = some s') : AllAgree process s' := by
  intro d
  cases a with
  | sched_switch c next =>
    -- the state that `thread_switch` is called in
    let mid : State n π := { s with sched := Ule.sched_switch s.sched c (s.current c) next }
    by_cases hd : d = c
    · subst hd
      exact (thread_switch_agrees_iff (s := mid) process (h d) hstep).mpr hok
    · obtain ⟨hcur, hact⟩ := thread_switch_ne (s := mid) process hd hstep
      exact (h d).congr process (hcur.trans (sched_switch_current_ne s.sched _ next hd)) hact
  | thread_switch c next =>
    by_cases hd : d = c
    · subst hd
      exact (thread_switch_agrees_iff process (h d) hstep).mpr hok
    · obtain ⟨hcur, hact⟩ := thread_switch_ne process hd hstep
      exact (h d).congr process hcur hact
  | thread_load c td =>
    cases hstep
    by_cases hd : d = c
    · subst hd
      intro pmap hp
      unfold thread_load at hp ⊢
      split
      · next q hq =>
        simp only [hq, load_context_current] at hp
        cases hp
        simp [load_context, pmap_activate]
      · next hq =>
        simp only [hq, load_context_current] at hp
        cases hp
    · refine (h d).congr process ?_ ?_
      all_goals
        unfold thread_load
        split <;> simp [load_context, pmap_activate, State.current, hd]

/-- **The active address space is that of the running thread** on every CPU,
in every run that switches only between threads of one address space. -/
theorem active_eq_pmap_of_current {s : State n π}
    (hs : ReachableBy (system process) (fun s a => SameSpace process s a) s) (c : Fin (n + 1))
    (pmap : π) (hp : pmap_of process (s.current c) = some pmap) : s.active c = some pmap := by
  have hall : AllAgree process s := by
    refine ReachableBy.invariant ?_ ?_ hs
    · exact fun s h => h.active
    · exact fun s a s' h hok hstep => AllAgree.step process h hok hstep
  exact hall c pmap hp

end process

/-- Threads 0 and 1 belong to two processes with pmaps of their own; the idle
thread and all others belong to the kernel. -/
def twoProcesses : Tid 0 → Option (Process Nat)
  | .thread 0 => some ⟨some ⟨1⟩⟩
  | .thread 1 => some ⟨some ⟨2⟩⟩
  | .idle _ | .thread _ => some ⟨some ⟨0⟩⟩

/-- One CPU after boot, with the kernel's pmap active. -/
def boot : State 0 Nat where
  sched :=
    { cpus := Ule.sched_cpu_init 0
      threads := fun td =>
        match td with
        | .idle _ => Ule.idle_thread
        | .thread _ => Ule.make_kernel_thread }
  active := fun _ => some 0

theorem boot_init : Init twoProcesses boot where
  idle := fun _ => rfl
  active := fun _ _ hp => hp

/-- Kernel threads switch among themselves, and the CPU loads a thread of the
first process. -/
theorem active_eq_pmap_of_current_load :
    ∃ s, execBy (system twoProcesses) (fun s a => SameSpace twoProcesses s a) boot
        [.sched_switch 0 (.thread 5), .sched_switch 0 (.thread 6), .thread_load 0 (.thread 0)]
        = some s ∧ s.current 0 = .thread 0 ∧ s.active 0 = some 1 := by
  refine run_imp (fun s => s.current 0 = .thread 0) (by decide +kernel)
    fun s hexec hcur => ⟨hcur, ?_⟩
  have hr := ReachableBy.of_execBy (.init boot_init) hexec
  exact active_eq_pmap_of_current twoProcesses hr 0 1 (by rw [hcur]; rfl)

/-- **The wrong address space**: the CPU switches from the idle thread to a
thread of the first process, and the pmap of the kernel stays active. -/
theorem wrong_address_space :
    ¬ ∀ (n : Nat) (process : Tid n → Option (Process Nat)) (s : State n Nat),
      Reachable (system process) s → ∀ c pmap, pmap_of process (s.current c) = some pmap →
      s.active c = some pmap := by
  intro h
  obtain ⟨s, hexec, hcur, hactive⟩ : ∃ s, exec (system twoProcesses) boot
      [.sched_switch 0 (.thread 0)] = some s ∧ s.current 0 = .thread 0 ∧ s.active 0 = some 0 := by
    decide +kernel
  have hact := h 0 twoProcesses s (.of_exec boot_init hexec) 0 1 (by rw [hcur]; rfl)
  rw [hactive] at hact
  cases hact

end AddressSpace
