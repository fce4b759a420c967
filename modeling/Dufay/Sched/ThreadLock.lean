import Mathlib.Data.Fintype.Basic
import Dufay.Framework.Lts

/-! # Who holds a thread's lock

The lock of `struct thread` in the ULE scheduler (`core/sched/ule.c`), in
`dispatch_dpc` (`core/ipl.c`), in the context switch
(`arch/amd64/thread.asm`) and at the entry of a new thread
(`amd64_thread_entry`), for any number of CPUs and threads.

A step makes at most one access to a lock. The functions in progress are
on the stack of the thread that called them, since `sched_switch` returns
only when the thread is switched to again, on whatever CPU. Which thread
the scheduler picks, and what `sched_pin` finds in `last_cpu` and `state`,
is left to the action; a thread that is running is not picked.

`amd64_context_switch` unlocks the thread it leaves. `Unpaired` lists the
places that unlock it once more, or that switch without the lock.
-/

open Lts Function

namespace ThreadLock

variable {κ τ : Type} [Fintype κ] [DecidableEq κ] [DecidableEq τ]

/-- A call in progress, by what it does next. -/
inductive Frame (τ : Type) where
  /-- `sched_yield` holds the caller's lock. -/
  | yield_locked
  /-- `sched_yield`, back from `sched_switch`, releases the lock. -/
  | yield_resumed
  /-- `sched_wait` holds the caller's lock. -/
  | wait_locked
  /-- `sched_wait` calls `sched_yield`. -/
  | wait_yield
  /-- `sched_wake` holds the lock of `td`. -/
  | wake_locked (td : τ)
  /-- `sched_wake` calls `sched_ready`. -/
  | wake_ready (td : τ)
  /-- `sched_ready` holds the lock of `td`. -/
  | ready_locked (td : τ)
  /-- `sched_pin` holds the lock of `td`. -/
  | pin_locked (td : τ)
  /-- `sched_pin`, back from `yield_on_cpu`, releases the lock of `td`. -/
  | pin_resumed (td : τ)
  /-- `amd64_thread_entry` -/
  | entry (prev : Option τ)
  /-- `dispatch_dpc` runs the DPCs. -/
  | dispatch
  /-- `sched_reschedule` holds the lock of the current thread. -/
  | reschedule_locked
  /-- `dispatch_dpc`, back from `sched_switch`. -/
  | dispatch_resumed
  deriving DecidableEq

structure State (κ τ : Type) where
  /-- Who holds the lock of a thread; its word is zero if nobody does. -/
  holder : τ → Option κ
  /-- `current_thread` -/
  current : κ → τ
  /-- The calls of a thread, innermost first. -/
  stack : τ → List (Frame τ)
  /-- Whether the thread has been switched to before. -/
  started : τ → Bool

section
variable (s : State κ τ)

/-- `xchg` of the lock's word with 1 finds it zero. -/
def acquire (c : κ) (td : τ) : Option (State κ τ) :=
  if s.holder td = none then some { s with holder := update s.holder td (some c) }
  else none

/-- The lock's word is set to zero, whoever held it. -/
def release (td : τ) : State κ τ :=
  { s with holder := update s.holder td none }

/-- Replace the calls of the thread that runs on `c`. -/
def setStack (c : κ) (fs : List (Frame τ)) : State κ τ :=
  { s with stack := update s.stack (s.current c) fs }

/-- The stacks after a switch from `prev` to `next`: a new thread starts at
its entry, with `prev` in `rax`. -/
def switchStack (prev next : τ) : τ → List (Frame τ) :=
  if s.started next then s.stack else update s.stack next [.entry (some prev)]

/-- `amd64_context_switch` on `c`, from its current thread, which is
unlocked. -/
def amd64_context_switch (c : κ) (next : τ) : State κ τ :=
  { release s (s.current c) with
    current := update s.current c next
    stack := switchStack s (s.current c) next
    started := update s.started next true }

end

/-! ### The system -/

inductive Action (κ τ : Type) where
  /-- A thread or DPC on `c` calls a function, which takes a lock. -/
  | sched_yield (c : κ)
  | sched_wait (c : κ)
  | sched_wake (c : κ) (td : τ)
  | sched_ready (c : κ) (td : τ)
  | sched_pin (c : κ) (td : τ)
  /-- `sched_yield` on `c` switches to `next`. -/
  | yield_switch (c : κ) (next : τ)
  /-- `sched_pin` on `c` calls `yield_on_cpu` for `c` itself. -/
  | pin_switch (c : κ) (next : τ)
  | dispatch_enter (c : κ)
  | sched_reschedule (c : κ)
  /-- `dispatch_dpc` switches to `next_thread`. -/
  | dispatch_switch (c : κ) (next : τ)
  /-- The innermost call on `c` is done: `dispatch_dpc`, or the entry of a
      thread that was loaded and not switched to. -/
  | leave (c : κ)
  /-- The innermost call on `c` makes the release that it is at. -/
  | release (c : κ)
  deriving DecidableEq

/-- The current thread may call a function of the scheduler. -/
def mayCall : List (Frame τ) → Bool
  | [] | .dispatch :: _ => true
  | _ => false

/-- The innermost call on `c` takes the lock of `td`, in a new call `f`. -/
def call (s : State κ τ) (c : κ) (td : τ) (f : Frame τ) : Option (State κ τ) :=
  if mayCall (s.stack (s.current c)) then
    (acquire s c td).map fun locked => setStack locked c (f :: s.stack (s.current c))
  else none

/-- The innermost call on `c` goes on as the calls `fs` and switches to
`next`. -/
def switch (s : State κ τ) (c : κ) (next : τ) (fs : List (Frame τ)) : Option (State κ τ) :=
  if ∀ d, s.current d ≠ next then some (amd64_context_switch (setStack s c fs) c next) else none

/-- The lock that the call releases next, and the calls that remain; `td` is
the thread that runs. -/
def next_release (td : τ) : List (Frame τ) → Option (τ × List (Frame τ))
  | .yield_resumed :: fs => some (td, fs)
  | .wait_locked :: fs => some (td, .wait_yield :: fs)
  | .wake_locked x :: fs => some (x, .wake_ready x :: fs)
  | .ready_locked x :: fs => some (x, fs)
  | .pin_locked x :: fs => some (x, fs)
  | .pin_resumed x :: fs => some (x, fs)
  | .entry (some prev) :: fs => some (prev, fs)
  | .reschedule_locked :: fs => some (td, .dispatch :: fs)
  | _ => none

def step (s : State κ τ) : Action κ τ → Option (State κ τ)
  | .sched_yield c =>
    let td := s.current c
    match s.stack td with
    -- the end of `sched_wait`
    | .wait_yield :: fs => (acquire s c td).map fun s => setStack s c (.yield_locked :: fs)
    | _ => call s c td .yield_locked
  | .sched_wait c => call s c (s.current c) .wait_locked
  | .sched_wake c td => call s c td (.wake_locked td)
  | .sched_ready c td =>
    match s.stack (s.current c) with
    -- the end of `sched_wake`
    | .wake_ready x :: fs =>
      if x = td then (acquire s c td).map fun s => setStack s c (.ready_locked td :: fs) else none
    | _ => call s c td (.ready_locked td)
  | .sched_pin c td => call s c td (.pin_locked td)
  | .yield_switch c next =>
    match s.stack (s.current c) with
    | .yield_locked :: fs => switch s c next (.yield_resumed :: fs)
    | _ => none
  | .pin_switch c next =>
    match s.stack (s.current c) with
    | .pin_locked td :: fs => switch s c next (.pin_resumed td :: fs)
    | _ => none
  | .dispatch_enter c =>
    match s.stack (s.current c) with
    | [] => some (setStack s c [.dispatch])
    | .wait_yield :: fs => some (setStack s c (.dispatch :: .wait_yield :: fs))
    | _ => none
  | .sched_reschedule c =>
    match s.stack (s.current c) with
    | .dispatch :: fs =>
      (acquire s c (s.current c)).map fun s => setStack s c (.reschedule_locked :: fs)
    | _ => none
  | .dispatch_switch c next =>
    match s.stack (s.current c) with
    | .dispatch :: fs => switch s c next (.dispatch_resumed :: fs)
    | _ => none
  | .leave c =>
    match s.stack (s.current c) with
    | .dispatch :: fs | .dispatch_resumed :: fs | .entry none :: fs => some (setStack s c fs)
    | _ => none
  | .release c =>
    (next_release (s.current c) (s.stack (s.current c))).map fun p =>
      setStack (release s p.1) c p.2

/-- The CPUs run different threads, some of which were just loaded
(`thread_load`); no lock is held and no other thread has run. -/
structure Init (s : State κ τ) : Prop where
  holder : ∀ td, s.holder td = none
  injective : Function.Injective s.current
  stack : ∀ td, s.stack td = [] ∨ s.stack td = [.entry none]
  started : ∀ c, s.started (s.current c) = true

def system : System (State κ τ) (Action κ τ) where
  init := Init
  step := step

/-! ### Releases -/

/-- The release that a step makes: by which CPU, and of whose lock. -/
def released (s : State κ τ) : Action κ τ → Option (κ × τ)
  | .release c => (next_release (s.current c) (s.stack (s.current c))).map fun p => (c, p.1)
  | .yield_switch c _ | .pin_switch c _ | .dispatch_switch c _ => some (c, s.current c)
  | _ => none

/-- The lock that the call `f` of thread `td` holds. -/
def Frame.locks (td : τ) : Frame τ → Option τ
  | .yield_locked | .wait_locked | .reschedule_locked => some td
  | .wake_locked x | .ready_locked x | .pin_locked x => some x
  | .yield_resumed | .wait_yield | .wake_ready _ | .pin_resumed _ | .entry _ | .dispatch
  | .dispatch_resumed => none

/-- The call is at a release, after a switch has unlocked the thread. -/
def releasesAgain : List (Frame τ) → Bool
  | .yield_resumed :: _ | .pin_resumed _ :: _ | .entry _ :: _ => true
  | _ => false

/-- The call is in `sched_pin`, with the lock of another thread than `td`. -/
def pinsOther (td : τ) : List (Frame τ) → Bool
  | .pin_locked x :: _ => decide (x ≠ td)
  | _ => false

/-- The releases without an acquire of their own: after a switch has unlocked
the thread (at the end of `sched_yield` and `sched_pin`, at the entry of a
new thread), and the unlock of a switch by a caller that has not taken the
lock (`dispatch_dpc`, and `sched_pin` of another thread than the current
one). -/
def Unpaired (s : State κ τ) : Action κ τ → Prop
  | .release c => releasesAgain (s.stack (s.current c)) = true
  | .pin_switch c _ => pinsOther (s.current c) (s.stack (s.current c)) = true
  | .dispatch_switch _ _ => True
  | _ => False

instance (s : State κ τ) (a) : Decidable (Unpaired s a) := by
  cases a <;> unfold Unpaired <;> infer_instance

/-! ### The invariant -/

/-- The calls hold no lock. -/
def Free (td : τ) (fs : List (Frame τ)) : Prop := ∀ f ∈ fs, f.locks td = none

/-- Only the innermost call of a thread that runs holds a lock, for the CPU it
runs on. -/
structure Disciplined (s : State κ τ) : Prop where
  injective : Function.Injective s.current
  held : ∀ c f fs x, s.stack (s.current c) = f :: fs → f.locks (s.current c) = some x →
    s.holder x = some c
  below : ∀ td f fs, s.stack td = f :: fs → Free td fs
  suspended : ∀ td, (∀ c, s.current c ≠ td) → Free td (s.stack td)

variable {fs : List (Frame τ)} {s : State κ τ}

omit [DecidableEq τ] in
theorem Free.tail (h : Free td (f :: fs)) :
    Free td fs := fun g hg => h g (List.mem_cons_of_mem f hg)

omit [DecidableEq τ] in
theorem Free.cons {td : τ} {f : Frame τ} (hf : f.locks td = none) (h : Free td fs) :
    Free td (f :: fs) := by
  intro g hg
  rcases List.mem_cons.mp hg with rfl | hg
  · exact hf
  · exact h g hg

omit [Fintype κ] [DecidableEq κ] [DecidableEq τ] in
theorem Disciplined.init (h : Init s) : Disciplined s := by
  have hfree : ∀ td, Free td (s.stack td) := by
    intro td f hf
    rcases h.stack td with hs | hs <;> rw [hs] at hf
    · cases hf
    · rw [List.mem_singleton.mp hf]
      rfl
  refine ⟨h.injective, ?_, ?_, fun td _ => hfree td⟩
  · intro c f fs x hs hx
    have hnone := hfree (s.current c) f (by rw [hs]; exact List.mem_cons_self)
    rw [hnone] at hx
    cases hx
  · intro td f fs hs
    have hall := hfree td
    rw [hs] at hall
    exact hall.tail

section

omit [Fintype κ]

theorem Disciplined.replace (h : Disciplined s)
    (hother : ∀ d x, d ≠ c → s.holder x = some d → holder x = some d)
    (hheld : ∀ f gs x, fs = f :: gs → f.locks (s.current c) = some x → holder x = some c)
    (hbelow : ∀ f gs, fs = f :: gs → Free (s.current c) gs) :
    Disciplined (setStack { s with holder := holder } c fs) where
  injective := h.injective
  held := by
    intro d f gs x hs hx
    by_cases hd : d = c
    · subst hd
      simp only [setStack, update_self] at hs
      exact hheld f gs x hs hx
    · have hne : s.current d ≠ s.current c := fun heq => hd (h.injective heq)
      simp only [setStack, update_of_ne hne] at hs
      exact hother d x hd (h.held d f gs x hs hx)
  below := by
    intro td f gs hs
    by_cases htd : td = s.current c
    · subst htd
      simp only [setStack, update_self] at hs
      exact hbelow f gs hs
    · simp only [setStack, update_of_ne htd] at hs
      exact h.below td f gs hs
  suspended := by
    intro td hno
    have htd : td ≠ s.current c := fun heq => hno c heq.symm
    simp only [setStack, update_of_ne htd]
    exact h.suspended td hno

theorem Disciplined.acquire (h : Disciplined s)
    (hstep : (acquire s c td).map (fun s => setStack s c (f :: fs)) = some s')
    (hf : f.locks (s.current c) = some td) (hfs : Free (s.current c) fs) : Disciplined s' := by
  unfold ThreadLock.acquire at hstep
  split at hstep
  · next hfree =>
    cases hstep
    refine h.replace ?_ ?_ ?_
    · intro d x hd hx
      have hne : x ≠ td := by
        rintro rfl
        rw [hfree] at hx
        cases hx
      rw [update_of_ne hne, hx]
    · intro g gs x hs hx
      cases hs
      rw [hf] at hx
      cases hx
      exact update_self ..
    · intro g gs hs
      cases hs
      exact hfs
  · cases hstep

theorem Disciplined.release (h : Disciplined s) {c : κ} {td : τ} (hheld : s.holder td = some c)
    (hfs : Free (s.current c) fs) : Disciplined (setStack (release s td) c fs) := by
  refine h.replace ?_ ?_ ?_
  · intro d x hd hx
    have hne : x ≠ td := by
      rintro rfl
      rw [hheld] at hx
      cases hx
      exact hd rfl
    rw [update_of_ne hne, hx]
  · intro f gs x hs hx
    rw [hfs f (by rw [hs]; exact List.mem_cons_self)] at hx
    cases hx
  · intro f gs hs
    subst hs
    exact hfs.tail

theorem Disciplined.setStack (h : Disciplined s) (hfs : Free (s.current c) fs) :
    Disciplined (setStack s c fs) := by
  refine h.replace (fun _ _ _ hx => hx) ?_ ?_
  · intro f gs x hs hx
    rw [hfs f (by rw [hs]; exact List.mem_cons_self)] at hx
    cases hx
  · intro f gs hs
    subst hs
    exact hfs.tail

end

omit [Fintype κ] [DecidableEq κ] in
theorem switchStack_cases (s : State κ τ) (prev next td : τ) :
    switchStack s prev next td = s.stack td ∨
      (td = next ∧ switchStack s prev next td = [.entry (some prev)]) := by
  unfold switchStack
  split
  · exact .inl rfl
  · by_cases htd : td = next
    · subst htd
      exact .inr ⟨rfl, update_self ..⟩
    · exact .inl (update_of_ne htd ..)

omit [Fintype κ] in
theorem Disciplined.load (h : Disciplined s) (prev : τ)
    (hfree : Free (s.current c) (s.stack (s.current c))) (hnext : ∀ d, s.current d ≠ next)
    : Disciplined { s with
      current := update s.current c next
      stack := switchStack s prev next
      started := started } := by
  have hnextFree : Free next (switchStack s prev next next) := by
    rcases switchStack_cases s prev next next with heq | ⟨-, heq⟩ <;> rw [heq]
    · exact h.suspended next hnext
    · exact .cons rfl (fun _ hf => by cases hf)
  constructor
  case injective =>
    intro d e hde
    dsimp only at hde
    by_cases hd : d = c <;> by_cases he : e = c
    · rw [hd, he]
    · subst hd
      rw [update_self, update_of_ne he] at hde
      exact absurd hde.symm (hnext e)
    · subst he
      rw [update_self, update_of_ne hd] at hde
      exact absurd hde (hnext d)
    · rw [update_of_ne hd, update_of_ne he] at hde
      exact h.injective hde
  case held =>
    intro d f fs x hs hx
    dsimp only at hs hx ⊢
    by_cases hd : d = c
    · subst hd
      rw [update_self] at hs hx
      rw [hnextFree f (by rw [hs]; exact List.mem_cons_self)] at hx
      cases hx
    · rw [update_of_ne hd] at hs hx
      rcases switchStack_cases s prev next (s.current d) with heq | ⟨heq, -⟩
      · rw [heq] at hs
        exact h.held d f fs x hs hx
      · exact absurd heq (hnext d)
  case below =>
    intro td f fs hs
    dsimp only at hs
    rcases switchStack_cases s prev next td with heq | ⟨-, heq⟩ <;> rw [heq] at hs
    · exact h.below td f fs hs
    · cases hs
      exact fun _ hf => by cases hf
  case suspended =>
    intro td hno
    dsimp only at hno ⊢
    have htd : td ≠ next := by
      rintro rfl
      exact hno c (update_self ..)
    rcases switchStack_cases s prev next td with heq | ⟨heq, -⟩
    · rw [heq]
      by_cases hcur : td = s.current c
      · subst hcur
        exact hfree
      · refine h.suspended td (fun d hd => ?_)
        have hdc : d ≠ c := by
          rintro rfl
          exact hcur hd.symm
        exact hno d (by rw [update_of_ne hdc, hd])
    · exact absurd heq htd

theorem Disciplined.switch (h : Disciplined s)
    (hstep : switch s c next fs = some s') (hheld : s.holder (s.current c) = some c)
    (hfs : Free (s.current c) fs) : Disciplined s' := by
  unfold ThreadLock.switch at hstep
  obtain ⟨hnext, rfl⟩ := of_guard hstep
  have hrel := h.release hheld hfs
  refine hrel.load (s.current c) ?_ hnext
  simpa [ThreadLock.setStack, ThreadLock.release] using hfs

omit [DecidableEq τ] in
theorem next_release_cases (h : next_release td fs = some (x, gs)) :
    ∃ f rest, fs = f :: rest ∧ (Free td rest → Free td gs) ∧ (f.locks td = some x ∨
        f = .yield_resumed ∨ (∃ y, f = .pin_resumed y) ∨ ∃ prev, f = .entry prev) := by
  unfold next_release at h
  split at h <;> cases h
  · exact ⟨_, _, rfl, id, .inr (.inl rfl)⟩
  · exact ⟨_, _, rfl, .cons rfl, .inl rfl⟩
  · exact ⟨_, _, rfl, .cons rfl, .inl rfl⟩
  · exact ⟨_, _, rfl, id, .inl rfl⟩
  · exact ⟨_, _, rfl, id, .inl rfl⟩
  · exact ⟨_, _, rfl, id, .inr (.inr (.inl ⟨_, rfl⟩))⟩
  · exact ⟨_, _, rfl, id, .inr (.inr (.inr ⟨_, rfl⟩))⟩
  · exact ⟨_, _, rfl, .cons rfl, .inl rfl⟩

omit [Fintype κ] [DecidableEq κ] in
theorem Disciplined.holder_of_release (h : Disciplined s) (hok : ¬ Unpaired s (.release c))
    (hrel : next_release (s.current c) (s.stack (s.current c)) = some (x, gs)) :
    s.holder x = some c ∧ Free (s.current c) gs := by
  obtain ⟨f, rest, hs, hfree, hf⟩ := next_release_cases hrel
  refine ⟨?_, hfree (h.below _ f rest hs)⟩
  rcases hf with hf | rfl | ⟨y, rfl⟩ | ⟨prev, rfl⟩
  · exact h.held c f rest x hs hf
  all_goals exact absurd (by simp only [Unpaired, hs, releasesAgain]) hok

omit [Fintype κ] in
theorem Disciplined.call (h : Disciplined s)
    (hstep : call s c td f = some s') (hf : f.locks (s.current c) = some td) : Disciplined s' := by
  unfold ThreadLock.call at hstep
  split at hstep
  · next hmay =>
    -- the calls around a new one hold no lock
    have hfree : Free (s.current c) (s.stack (s.current c)) := by
      unfold mayCall at hmay
      split at hmay
      · next heq =>
        rw [heq]
        exact fun _ hg => by cases hg
      · next fs heq =>
        rw [heq]
        exact .cons rfl (h.below _ _ fs heq)
      · cases hmay
    exact h.acquire hstep hf hfree
  · cases hstep

theorem Disciplined.step {s' : State κ τ} {a : Action κ τ} (h : Disciplined s)
    (hok : ¬ Unpaired s a) (hstep : ThreadLock.step s a = some s') : Disciplined s' := by
  cases a <;> simp only [ThreadLock.step] at hstep
  case sched_yield c =>
    split at hstep
    · next fs hs => exact h.acquire hstep rfl (h.below _ _ fs hs)
    · exact h.call hstep rfl
  case sched_wait c => exact h.call hstep rfl
  case sched_wake c td => exact h.call hstep rfl
  case sched_ready c td =>
    split at hstep
    · next x fs hs =>
      split at hstep
      · exact h.acquire hstep rfl (h.below _ _ fs hs)
      · cases hstep
    · exact h.call hstep rfl
  case sched_pin c td => exact h.call hstep rfl
  case yield_switch c next =>
    split at hstep
    · next fs hs =>
      exact h.switch hstep (h.held c _ fs _ hs rfl) (.cons rfl (h.below _ _ fs hs))
    · cases hstep
  case pin_switch c next =>
    split at hstep
    · next td fs hs =>
      have htd : td = s.current c := by
        by_contra hne
        exact hok (by simpa [Unpaired, hs, pinsOther] using hne)
      subst htd
      exact h.switch hstep (h.held c _ fs _ hs rfl) (.cons rfl (h.below _ _ fs hs))
    · cases hstep
  case dispatch_enter c =>
    split at hstep
    · cases hstep
      exact h.setStack (.cons rfl (fun _ hf => by cases hf))
    · next fs hs =>
      cases hstep
      exact h.setStack (.cons rfl (.cons rfl (h.below _ _ fs hs)))
    · cases hstep
  case sched_reschedule c =>
    split at hstep
    · next fs hs => exact h.acquire hstep rfl (h.below _ _ fs hs)
    · cases hstep
  case dispatch_switch c next => exact absurd trivial hok
  case leave c =>
    split at hstep
    · next fs hs =>
      cases hstep
      exact h.setStack (h.below _ _ fs hs)
    · next fs hs =>
      cases hstep
      exact h.setStack (h.below _ _ fs hs)
    · next fs hs =>
      cases hstep
      exact h.setStack (h.below _ _ fs hs)
    · cases hstep
  case release c =>
    obtain ⟨p, hrel, heq⟩ := Option.map_eq_some_iff.mp hstep
    subst heq
    obtain ⟨hheld, hfree⟩ := h.holder_of_release hok hrel
    exact h.release hheld hfree

/-- **Releases are by the holder**: in every run without the unpaired
releases, a CPU that releases a thread's lock holds it. -/
theorem release_by_holder {s s' : State κ τ} {a : Action κ τ}
    (hs : ReachableBy system (fun s a => ¬ Unpaired s a) s) (hok : ¬ Unpaired s a)
    (hstep : step s a = some s') {c : κ} {td : τ} (hrel : released s a = some (c, td)) :
    s.holder td = some c := by
  have h : Disciplined s := by
    refine ReachableBy.invariant ?_ ?_ hs
    · exact fun s h => Disciplined.init h
    · exact fun s a s' h hok hstep => .step h hok hstep
  cases a <;> simp only [released] at hrel
  case release d =>
    obtain ⟨p, hp, heq⟩ := Option.map_eq_some_iff.mp hrel
    cases heq
    exact (h.holder_of_release hok hp).1
  case yield_switch d next =>
    cases hrel
    simp only [step] at hstep
    split at hstep
    · next fs hs => exact h.held c _ fs _ hs rfl
    · cases hstep
  case pin_switch d next =>
    cases hrel
    simp only [step] at hstep
    split at hstep
    · next x fs hs =>
      have hx : x = s.current c := by
        by_contra hne
        exact hok (by simpa [Unpaired, hs, pinsOther] using hne)
      subst hx
      exact h.held c _ fs _ hs rfl
    · cases hstep
  case dispatch_switch d next => exact absurd trivial hok
  all_goals cases hrel

/-- Two CPUs run threads 0 and 1; no other thread has started. -/
def boot : State (Fin 2) Nat where
  holder := fun _ => none
  current := fun c => c.val
  stack := fun _ => []
  started := fun td => decide (td < 2)

theorem boot_init : Init boot where
  holder := fun _ => rfl
  injective := fun _ _ h => Fin.ext h
  stack := fun _ => .inl rfl
  started := fun c => decide_eq_true c.isLt

/-- CPU 0 takes the lock of its thread in order to yield. -/
theorem release_by_holder_yield :
    ∃ s, execBy system (fun s a => ¬ Unpaired s a) boot [.sched_yield 0] = some s ∧
      released s (.yield_switch 0 2) = some (0, 0) ∧ s.holder 0 = some 0 := by
  refine run_imp (fun s => released s (.yield_switch 0 2) = some (0, 0) ∧
      (step s (.yield_switch 0 2)).isSome) (by decide +kernel) fun s hexec ⟨hrel, hs⟩ => ⟨hrel, ?_⟩
  obtain ⟨s', hstep⟩ := Option.isSome_iff_exists.mp hs
  have hr := ReachableBy.of_execBy (.init boot_init) hexec
  exact release_by_holder (a := .yield_switch 0 2) hr (fun hun => hun) hstep hrel

/-- **A lock of another CPU is released**: thread 0 yields to a new thread,
CPU 1 takes the lock of thread 0 to wake it, and the entry of the new
thread unlocks thread 0 once more. -/
theorem release_of_foreign_lock :
    ¬ ∀ (s s' : State (Fin 2) Nat) (a : Action (Fin 2) Nat) (c : Fin 2) (td : Nat),
      Reachable system s → step s a = some s' → released s a = some (c, td) →
      s.holder td = some c := by
  intro h
  obtain ⟨s, hexec, hrel, hs, hholder⟩ : ∃ s : State (Fin 2) Nat,
      exec system boot [.sched_yield 0, .yield_switch 0 2, .sched_wake 1 0] = some s ∧
      released s (.release 0) = some (0, 0) ∧ (step s (.release 0)).isSome ∧
      s.holder 0 = some 1 := by decide +kernel
  obtain ⟨s', hstep⟩ := Option.isSome_iff_exists.mp hs
  have hheld := h s s' (.release 0) 0 0 (.of_exec boot_init hexec) hstep hrel
  rw [hholder] at hheld
  cases hheld

end ThreadLock
