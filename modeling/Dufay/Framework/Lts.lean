import Mathlib.Logic.Function.Basic

/-! # Labelled transition systems with executable steps

A `System` is an initial predicate and a partial step function. All the
nondeterminism of a system (which agent moves, what it calls) sits in
the action, so a run is a list of actions and can be evaluated.

Safety is stated over `ReachableBy ok`: the states reached by steps that
each meet a condition `ok` on the state before the step. The condition is
how the absence of a known race enters a theorem about whole runs.
-/

namespace Lts

universe u v

/-- A transition system: `step s a = none` means that `a` is not enabled
in `s`. -/
structure System (State : Type u) (Action : Type v) where
  init : State → Prop
  step : State → Action → Option State

variable {State : Type u} {Action : Type v}

/-- The system started in one given state, for what holds from there on. -/
def System.startedIn (sys : System State Action) (s₀ : State) : System State Action where
  init := fun s => s = s₀
  step := sys.step

theorem of_guard {p : Prop} [Decidable p]
    (h : (if p then some s else none) = some s') : p ∧ s = s' := by
  split at h
  · next hp => exact ⟨hp, Option.some.inj h⟩
  · cases h

/-! ### Reachability -/

/-- States reached from an initial state by steps that all meet `ok`. -/
inductive ReachableBy (sys : System State Action) (ok : State → Action → Prop) : State → Prop where
  | init {s : State} : sys.init s → ReachableBy sys ok s
  | step {s s' : State} (a : Action) :
      ReachableBy sys ok s → ok s a → sys.step s a = some s' → ReachableBy sys ok s'

def Reachable (sys : System State Action) : State → Prop := ReachableBy sys (fun _ _ => True)

variable {sys : System State Action} {ok : State → Action → Prop}

/-- **Invariant rule**: what holds initially and is kept by every step that
meets `ok` holds in every state reached. -/
theorem ReachableBy.invariant {inv : State → Prop} (hinit : ∀ s, sys.init s → inv s)
    (hstep : ∀ s a s', inv s → ok s a → sys.step s a = some s' → inv s')
    {s : State} (hs : ReachableBy sys ok s) : inv s := by
  induction hs with
  | init h => exact hinit _ h
  | step a _ hok hst ih => exact hstep _ a _ ih hok hst

/-- **Invariant rule, relative form**: an invariant that has been
established already may be used in the step of the next one. -/
theorem ReachableBy.invariant_of {aux inv : State → Prop} (haux : ∀ s, ReachableBy sys ok s → aux s)
    (hinit : ∀ s, sys.init s → inv s)
    (hstep : ∀ s a s', aux s → inv s → ok s a → sys.step s a = some s' → inv s')
    {s : State} (hs : ReachableBy sys ok s) : inv s := by
  induction hs with
  | init h => exact hinit _ h
  | step a hr hok hst ih => exact hstep _ a _ (haux _ hr) ih hok hst

theorem ReachableBy.mono (himp : ∀ s a, ok s a → ok' s a) (hs : ReachableBy sys ok s) :
    ReachableBy sys ok' s := by
  induction hs with
  | init h => exact .init h
  | step a _ hok hst ih => exact .step a ih (himp _ _ hok) hst

/-- Run a list of actions, checking `ok` before every step. -/
def execBy (sys : System State Action) (ok : State → Action → Prop)
    [∀ s a, Decidable (ok s a)] : State → List Action → Option State
  | s, [] => some s
  | s, a :: as =>
    if ok s a then
      match sys.step s a with
      | some s' => execBy sys ok s' as
      | none => none
    else none

def exec (sys : System State Action) : State → List Action → Option State :=
  execBy sys (fun _ _ => True)

theorem ReachableBy.of_execBy [∀ s a, Decidable (ok s a)] :
    ∀ {s s' : State}, ReachableBy sys ok s → execBy sys ok s as = some s' →
      ReachableBy sys ok s' := by
  induction as with
  | nil =>
    intro s s' hs h
    cases h
    exact hs
  | cons a as ih =>
    intro s s' hs h
    simp only [execBy] at h
    split at h
    · next hok =>
      split at h
      · next hst => exact ih (.step a hs hok hst) h
      · cases h
    · cases h

theorem Reachable.of_exec (hs : sys.init s) (h : exec sys s as = some s') : Reachable sys s' :=
  ReachableBy.of_execBy (.init hs) h

/-- What holds where a run ends is found by running it. -/
instance decidableExistsRun {o : Option State} {P : State → Prop} [DecidablePred P] :
    Decidable (∃ s, o = some s ∧ P s) :=
  match o with
  | some s => decidable_of_iff (P s) (by simp)
  | none => .isFalse (by simp)

/-- **Evaluated run**: of the state where a run ends, what the evaluation
finds and what follows from that. -/
theorem run_imp {o : Option State} {Q : State → Prop} (P : State → Prop)
    (h : ∃ s, o = some s ∧ P s) (himp : ∀ s, o = some s → P s → Q s) : ∃ s, o = some s ∧ Q s :=
  h.imp fun s hs => ⟨hs.1, himp s hs.1 hs.2⟩

theorem exec_cons (h : sys.step s a = some s') : exec sys s (a :: as) = exec sys s' as := by
  simp only [exec, execBy, if_true, h]

end Lts
