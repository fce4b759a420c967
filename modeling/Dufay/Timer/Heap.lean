import Dufay.Timer.Deadlock

/-! # Timers and the heaps they are in

A timer's state and its place in a heap change in separate steps, under
different locks. In between, a pending timer is in the hands of one CPU:
`timer_start` has made it pending and not inserted it yet, `timer_stop`
has removed it and not stored `TIMER_STOPPED` yet, or
`timer_handle_expiry` has popped it and not made it `RUNNING` yet.

The last of these is what `timer_stop` cannot tell from a timer in the
heap. If it reads `TIMER_PENDING` between a handler's pop and its
compare-and-swap, or if the pop comes between the read and the removal,
it removes a timer that is not in the heap.
-/

open Lts Function

namespace Timer

open State
open Wait (TimerState)

variable {n : Nat} {s s' : State n} {c : Fin n} {t : Nat}

/-! ### Where a timer is -/

/-- The timer is in no heap. -/
def OffHeap (s : State n) (t : Nat) : Prop := ∀ k, t ∉ s.timers k

/-- The timer that a CPU has popped and not finished with. -/
def Pc.expiring : Pc → Option Nat
  | .expiryCas t | .expiryLock t | .expirySignal t | .expiryStore t => some t
  | _ => none

/-- The timer that a CPU may have in its hands: pending, and in no heap. -/
def Pc.carries : Pc → Option Nat
  | .startArm t _ | .startInsert t | .stopSpin t | .stopStore t | .expiryCas t => some t
  | _ => none

/-- No handler is at work on the timer. -/
def NotPopped (s : State n) (t : Nat) : Prop := ∀ c, (s.pc c).expiring ≠ some t

/-- A pending timer, in the hands of one of the other functions. -/
def Taken (s : State n) (t : Nat) : Prop := s.state t = .pending ∧ OffHeap s t ∧ NotPopped s t

/-- No other CPU's handler is at work on the timer. -/
def Alone (s : State n) (c : Fin n) (t : Nat) : Prop := ∀ c', (s.pc c').expiring = some t → c' = c

/-- What a CPU knows of the timer that it works on. -/
def Pc.HeapOk (s : State n) (c : Fin n) : Pc → Prop
  | .startArm t _ => Taken s t
  | .startInsert t => Taken s t ∧ s.cpu t = some c
  | .stopRead t => s.state t ≠ .stopped
  | .stopRemove t => s.state t = .pending ∧ ∃ k, s.cpu t = some k ∧ t ∈ s.timers k
  | .stopSpin t => s.state t = .running ∨ Taken s t
  | .stopStore t => Taken s t
  | .expiryCas t => s.state t = .pending ∧ OffHeap s t ∧ Alone s c t
  | .expiryLock t | .expirySignal t | .expiryStore t => s.state t = .running ∧ Alone s c t
  | _ => True

structure HeapOk (s : State n) : Prop where
  /-- A timer in a heap is pending, and in the heap of its CPU. -/
  heap : ∀ k t, t ∈ s.timers k → s.state t = .pending ∧ s.cpu t = some k
  nodup : ∀ k, (s.timers k).Nodup
  pcs : ∀ c, (s.pc c).HeapOk s c
  /-- A pending timer is in a heap or in the hands of a CPU. -/
  pending : ∀ t, s.state t = .pending → (∃ k, t ∈ s.timers k) ∨ ∃ c, (s.pc c).carries = some t

variable {pc : Pc}

theorem Pc.timer_of_expiring (h : pc.expiring = some t) : pc.timer = some t := by
  cases pc <;> first | exact h | cases h

theorem Pc.timer_of_carries (h : pc.carries = some t) : pc.timer = some t := by
  cases pc <;> first | exact h | cases h

theorem Pc.timer_of_holds (h : pc.holds = some t) : pc.timer = some t := by
  cases pc <;> first | exact h | cases h

theorem Pc.eq_of_timer (h : pc.timer = some t ∨ pc.timer = none) (hu : pc.timer = some u) :
    u = t := by
  rcases h with h | h
  · rw [h] at hu
    exact (Option.some.inj hu).symm
  · rw [h] at hu
    cases hu

theorem HeapOk.of_expiring (h : HeapOk s) (hc : (s.pc c).expiring = some t) :
    (s.pc c = .expiryCas t ∧ s.state t = .pending ∧ OffHeap s t ∨ s.state t = .running) ∧
      Alone s c t := by
  -- by cases on where the handler is; every other program counter has popped nothing
  have hpc := h.pcs c
  revert hc hpc
  cases s.pc c with
  | expiryCas u =>
    intro hc hpc
    cases hc
    exact ⟨.inl ⟨rfl, hpc.1, hpc.2.1⟩, hpc.2.2⟩
  | expiryLock u | expirySignal u | expiryStore u =>
    intro hc hpc
    cases hc
    exact ⟨.inr hpc.1, hpc.2⟩
  | _ => exact fun hc => by cases hc

theorem HeapOk.notPopped_of_mem (h : HeapOk s) (ht : t ∈ s.timers k) : NotPopped s t := by
  intro c hc
  rcases (h.of_expiring hc).1 with ⟨-, -, hoff⟩ | hrun
  · exact hoff k ht
  · rw [(h.heap k t ht).1] at hrun
    cases hrun

theorem LockOk.alone (h : LockOk s) (hc : (s.pc c).holds = some t) (hnot : NotPopped s t)
    (hne : c' ≠ c) : (s.pc c').timer ≠ some t := by
  intro htimer
  by_cases hholds : (s.pc c').holds = some t
  · have hl := h c' t hholds
    rw [h c t hc] at hl
    exact hne (Option.some.inj hl).symm
  -- without the lock only a handler works on the timer, and that has popped it
  · rcases Pc.of_not_holds htimer hholds with hcas | hwait
    · exact hnot c' (by rw [hcas]; rfl)
    · exact hnot c' (by rw [hwait]; rfl)

/-! ### Steps that concern one timer -/

theorem Pc.HeapOk.of_timer_none (h : pc.timer = none) : pc.HeapOk s c := by
  cases pc <;> trivial

theorem Pc.HeapOk.frame (h : pc.HeapOk s c) (htimer : pc.timer = some t)
    (hstate : s'.state t = s.state t) (hcpu : s'.cpu t = s.cpu t)
    (hmem : ∀ k, t ∈ s'.timers k ↔ t ∈ s.timers k)
    (hexp : ∀ c', (s'.pc c').expiring = some t → (s.pc c').expiring = some t) : pc.HeapOk s' c := by
  -- the four facts that `Pc.HeapOk` is made of, each carried over by itself
  have hoff : OffHeap s t → OffHeap s' t := fun hoff k hk => hoff k ((hmem k).mp hk)
  have htaken : Taken s t → Taken s' t := by
    rintro ⟨hst, ho, hnot⟩
    exact ⟨hstate.trans hst, hoff ho, fun c' hc' => hnot c' (hexp c' hc')⟩
  have halone : Alone s c t → Alone s' c t := fun ha c' hc' => ha c' (hexp c' hc')
  cases pc with
  | startArm u _ | stopStore u =>
    cases htimer
    exact htaken h
  | startInsert u =>
    cases htimer
    exact ⟨htaken h.1, hcpu.trans h.2⟩
  | stopRead u =>
    cases htimer
    exact fun hst => h (hstate ▸ hst)
  | stopRemove u =>
    cases htimer
    obtain ⟨hst, k, hk, hin⟩ := h
    exact ⟨hstate.trans hst, k, hcpu.trans hk, (hmem k).mpr hin⟩
  | stopSpin u =>
    cases htimer
    exact h.imp (hstate.trans ·) htaken
  | expiryCas u =>
    cases htimer
    exact ⟨hstate.trans h.1, hoff h.2.1, halone h.2.2⟩
  | expiryLock u | expirySignal u | expiryStore u =>
    cases htimer
    exact ⟨hstate.trans h.1, halone h.2⟩
  | _ => trivial

/-- **The frame rule**: a step that touches timer `t` only. -/
theorem HeapOk.touch (h : HeapOk s) (t : Nat)
    (hstate : ∀ u, u ≠ t → s'.state u = s.state u) (hcpu : ∀ u, u ≠ t → s'.cpu u = s.cpu u)
    (hmem : ∀ u, u ≠ t → ∀ k, u ∈ s'.timers k ↔ u ∈ s.timers k)
    (hexp : ∀ c u, u ≠ t → (s'.pc c).expiring = some u → (s.pc c).expiring = some u)
    (hcar : ∀ c u, u ≠ t → (s.pc c).carries = some u → (s'.pc c).carries = some u)
    (hrest : ∀ c u, u ≠ t → (s'.pc c).timer = some u → s'.pc c = s.pc c)
    (hpcs : ∀ c, (s'.pc c).timer = some t → (s'.pc c).HeapOk s' c)
    (hheap : ∀ k, t ∈ s'.timers k → s'.state t = .pending ∧ s'.cpu t = some k)
    (hnodup : ∀ k, (s'.timers k).Nodup) (hpend : s'.state t = .pending →
      (∃ k, t ∈ s'.timers k) ∨ ∃ c, (s'.pc c).carries = some t) : HeapOk s' where
  heap := fun k u hu => by
    by_cases hut : u = t
    · rw [hut] at hu ⊢
      exact hheap k hu
    · rw [hstate u hut, hcpu u hut]
      exact h.heap k u ((hmem u hut k).mp hu)
  nodup := hnodup
  pcs := fun c => by
    cases htimer : (s'.pc c).timer with
    | none => exact Pc.HeapOk.of_timer_none htimer
    | some u =>
      by_cases hut : u = t
      · exact hpcs c (by rw [htimer, hut])
      · have hsame := hrest c u hut htimer
        rw [hsame] at htimer ⊢
        exact (h.pcs c).frame htimer (hstate u hut) (hcpu u hut) (hmem u hut)
          (fun c' hc' => hexp c' u hut hc')
  pending := fun u hu => by
    by_cases hut : u = t
    · rw [hut] at hu ⊢
      exact hpend hu
    · rw [hstate u hut] at hu
      rcases h.pending u hu with ⟨k, hk⟩ | ⟨c, hc⟩
      · exact .inl ⟨k, (hmem u hut k).mpr hk⟩
      · exact .inr ⟨c, hcar c u hut hc⟩

theorem HeapOk.move (h : HeapOk s) (c : Fin n) (t : Nat) (hpc : s'.pc = update s.pc c pc)
    (hold : (s.pc c).timer = some t ∨ (s.pc c).timer = none)
    (hnew : pc.timer = some t ∨ pc.timer = none) (hstate : ∀ u, u ≠ t → s'.state u = s.state u)
    (hcpu : ∀ u, u ≠ t → s'.cpu u = s.cpu u)
    (hmem : ∀ u, u ≠ t → ∀ k, u ∈ s'.timers k ↔ u ∈ s.timers k) (hown : pc.HeapOk s' c)
    (hothers : ∀ c', c' ≠ c → (s.pc c').timer = some t → (s.pc c').HeapOk s' c')
    (hheap : ∀ k, t ∈ s'.timers k → s'.state t = .pending ∧ s'.cpu t = some k)
    (hnodup : ∀ k, (s'.timers k).Nodup)
    (hpend : s'.state t = .pending → (∃ k, t ∈ s'.timers k) ∨ ∃ c, (s'.pc c).carries = some t) :
    HeapOk s' := by
  have hpc_self : s'.pc c = pc := by rw [hpc, update_self]
  have hpc_ne : ∀ c', c' ≠ c → s'.pc c' = s.pc c' := by
    intro c' hc'
    rw [hpc, update_of_ne hc']
  refine h.touch t hstate hcpu hmem ?_ ?_ ?_ ?_ hheap hnodup hpend
  · intro c' u hu hc'
    by_cases hcc : c' = c
    · rw [hcc, hpc_self] at hc'
      exact absurd (Pc.eq_of_timer hnew (Pc.timer_of_expiring hc')) hu
    · rwa [hpc_ne c' hcc] at hc'
  · intro c' u hu hc'
    by_cases hcc : c' = c
    · rw [hcc] at hc'
      exact absurd (Pc.eq_of_timer hold (Pc.timer_of_carries hc')) hu
    · rwa [hpc_ne c' hcc]
  · intro c' u hu hc'
    by_cases hcc : c' = c
    · rw [hcc, hpc_self] at hc'
      exact absurd (Pc.eq_of_timer hnew hc') hu
    · exact hpc_ne c' hcc
  · intro c' hc'
    by_cases hcc : c' = c
    · rw [hcc, hpc_self]
      exact hown
    · rw [hpc_ne c' hcc] at hc' ⊢
      exact hothers c' hcc hc'

theorem HeapOk.setPc (h : HeapOk s) (c : Fin n) (t : Nat) (hpc : s'.pc = update s.pc c pc)
    (hold : (s.pc c).timer = some t ∨ (s.pc c).timer = none)
    (hnew : pc.timer = some t ∨ pc.timer = none) (hstate : s'.state = s.state)
    (hcpu : s'.cpu = s.cpu) (htimers : s'.timers = s.timers)
    (hexp : pc.expiring = some t → (s.pc c).expiring = some t) (hown : pc.HeapOk s c)
    (hcar : (s.pc c).carries = some t → s.state t = .pending → pc.carries = some t) :
    HeapOk s' := by
  have hexp' : ∀ c', (s'.pc c').expiring = some t → (s.pc c').expiring = some t := by
    intro c' hc'
    rw [hpc] at hc'
    by_cases hcc : c' = c
    · rw [hcc, update_self] at hc'
      rw [hcc]
      exact hexp hc'
    · rwa [update_of_ne hcc] at hc'
  have hframe : ∀ {c' : Fin n} {pc' : Pc}, pc'.timer = some t → pc'.HeapOk s c' →
      pc'.HeapOk s' c' := by
    intro c' pc' htimer hok
    exact hok.frame htimer (by rw [hstate]) (by rw [hcpu]) (fun k => by rw [htimers]) hexp'
  refine h.move c t hpc hold hnew (fun u _ => by rw [hstate]) (fun u _ => by rw [hcpu])
    (fun u _ k => by rw [htimers]) ?_ ?_ ?_ ?_ ?_
  -- what the CPU has to know is known before the step, and the step changes nothing in it
  · cases htimer : pc.timer with
    | none => exact Pc.HeapOk.of_timer_none htimer
    | some u =>
      rw [Pc.eq_of_timer hnew htimer] at htimer
      exact hframe htimer hown
  · exact fun c' _ hc' => hframe hc' (h.pcs c')
  · rw [hstate, hcpu, htimers]
    exact fun k => h.heap k t
  · rw [htimers]
    exact h.nodup
  · intro hst
    rw [hstate] at hst
    rcases h.pending t hst with hin | ⟨c', hc'⟩
    · rw [htimers]
      exact .inl hin
    · refine .inr ⟨c', ?_⟩
      rw [hpc]
      by_cases hcc : c' = c
      · rw [hcc] at hc' ⊢
        rw [update_self]
        exact hcar hc' hst
      · rwa [update_of_ne hcc]

/-! ### The heap operations -/

theorem mem_insert_of_ne (hu : u ≠ t) :
    u ∈ (pairing_heap_insert s c t).timers k ↔ u ∈ s.timers k := by
  by_cases hk : k = c
  · simp [pairing_heap_insert, hk, hu]
  · simp [pairing_heap_insert, hk]

theorem mem_remove_of_ne (hu : u ≠ t) :
    u ∈ (pairing_heap_remove s c t).timers k ↔ u ∈ s.timers k := by
  by_cases hk : k = c
  · simp [pairing_heap_remove, hk, List.mem_erase_of_ne hu]
  · simp [pairing_heap_remove, hk]

theorem HeapOk.offHeap_remove (h : HeapOk s) (ht : t ∈ s.timers c) :
    OffHeap (pairing_heap_remove s c t) t := by
  intro k hk
  by_cases hkc : k = c
  · subst hkc
    simp only [pairing_heap_remove, update_self] at hk
    exact (h.nodup k).not_mem_erase hk
  -- in the heap of another CPU it would have two CPUs
  · simp only [pairing_heap_remove, update_of_ne hkc] at hk
    have hcpu := (h.heap c t ht).2
    rw [(h.heap k t hk).2] at hcpu
    exact hkc (Option.some.inj hcpu)

theorem HeapOk.nodup_remove (h : HeapOk s) : ((pairing_heap_remove s c t).timers k).Nodup := by
  by_cases hkc : k = c
  · subst hkc
    simp only [pairing_heap_remove, update_self]
    exact (h.nodup k).erase t
  · simp only [pairing_heap_remove, update_of_ne hkc]
    exact h.nodup k

/-- `timer_stop` does not read `TIMER_PENDING` between the pop and the
compare-and-swap of a handler, and no pop comes between its read and
its removal of the timer. -/
def Unraced (s : State n) : Action n → Prop
  | .pop _ t => ∀ k, s.pc k ≠ .stopRemove t
  | .run c =>
    match s.pc c with
    | .stopRead t => s.state t = .pending → ∀ k, s.pc k ≠ .expiryCas t
    | _ => True
  | _ => True

instance (s : State n) (a : Action n) : Decidable (Unraced s a) :=
  match a with
  | .pop _ t => inferInstanceAs (Decidable (∀ k, s.pc k ≠ .stopRemove t))
  | .run c =>
    decidable_of_iff ((match s.pc c with
      | .stopRead t => decide (s.state t = .pending → ∀ k, s.pc k ≠ .expiryCas t)
      | _ => true) = true) (by
        unfold Unraced
        dsimp only
        split
        · exact decide_eq_true_iff
        · simp)
  | .timer_init _ | .timer_start _ _ _ | .timer_stop _ _ | .timer_handle_expiry _ | .tick _
  | .wait _ _ | .unwait _ _ => inferInstanceAs (Decidable True)

/-! ### The steps -/

section

variable (h : HeapOk s)

include h

section

variable (hlocks : LockOk s)

include hlocks

theorem HeapOk.mem_of_pending (hpc : s.pc c = .stopRead t)
    (hst : s.state t = .pending) (hrace : ∀ k, s.pc k ≠ .expiryCas t) :
    ∃ k, s.cpu t = some k ∧ t ∈ s.timers k := by
  rcases h.pending t hst with ⟨k, hk⟩ | ⟨c', hc'⟩
  · exact ⟨k, (h.heap k t hk).2, hk⟩
  · exfalso
    have hne : c' ≠ c := by
      intro heq
      rw [heq, hpc] at hc'
      cases hc'
    -- the other hands that a pending timer can be in hold the lock
    have hnot : NotPopped s t := by
      intro k hk
      rcases (h.of_expiring hk).1 with ⟨hcas, -⟩ | hrun
      · exact hrace k hcas
      · rw [hst] at hrun
        cases hrun
    exact hlocks.alone (by rw [hpc]; rfl) hnot hne (Pc.timer_of_carries hc')

theorem HeapOk.own (c : Fin n) (t : Nat) (hholds : (s.pc c).holds = some t) (hnot : NotPopped s t)
    (hpc : s'.pc = update s.pc c pc) (htimer : pc.timer = some t)
    (hexp : pc.expiring = none) (hstate : ∀ u, u ≠ t → s'.state u = s.state u)
    (hcpu : ∀ u, u ≠ t → s'.cpu u = s.cpu u)
    (hmem : ∀ u, u ≠ t → ∀ k, u ∈ s'.timers k ↔ u ∈ s.timers k)
    (hown : NotPopped s' t → pc.HeapOk s' c)
    (hheap : ∀ k, t ∈ s'.timers k → s'.state t = .pending ∧ s'.cpu t = some k)
    (hnodup : ∀ k, (s'.timers k).Nodup)
    (hpend : s'.state t = .pending → (∃ k, t ∈ s'.timers k) ∨ pc.carries = some t) : HeapOk s' := by
  -- the step pops nothing, so the timer is still nobody's
  have hnot' : NotPopped s' t := by
    intro k hk
    rw [hpc] at hk
    rw [update_apply] at hk
    split at hk
    · rw [hexp] at hk
      cases hk
    · exact hnot k hk
  refine h.move c t hpc (.inl (Pc.timer_of_holds hholds)) (.inl htimer) hstate hcpu hmem
    (hown hnot') ?_ hheap hnodup ?_
  · exact fun c' hne hc' => absurd hc' (hlocks.alone hholds hnot hne)
  · intro hst
    rcases hpend hst with hin | hcar
    · exact .inl hin
    · exact .inr ⟨c, by rw [hpc, update_self]; exact hcar⟩

theorem HeapOk.start_pending (hpc : s.pc c = .startCas t ns) (hst : s.state t = .stopped) :
    HeapOk ((s.setState t .pending).setPc c (.startArm t ns)) := by
  -- a stopped timer is in no heap and no handler has it
  have hoff : OffHeap s t := by
    intro k hk
    rw [(h.heap k t hk).1] at hst
    cases hst
  have hnot : NotPopped s t := by
    intro k hk
    rcases (h.of_expiring hk).1 with ⟨-, hpend, -⟩ | hrun
    · rw [hst] at hpend
      cases hpend
    · rw [hst] at hrun
      cases hrun
  refine h.own hlocks c t (by rw [hpc]; rfl) hnot rfl rfl rfl ?_ (fun _ _ => rfl)
    (fun _ _ _ => .rfl) ?_ (fun k hk => absurd hk (hoff k)) h.nodup (fun _ => .inr rfl)
  · intro u hu
    simp [hu]
  · exact fun hnot' => ⟨by simp, hoff, hnot'⟩

theorem HeapOk.start_arm {deadline : UInt64}
    {armed : Option (Nat × UInt64)} (hpc : s.pc c = .startArm t ns) : HeapOk ({ s with
      deadline := update s.deadline t deadline
      cpu := update s.cpu t (some c)
      armed := update s.armed t armed }.setPc c (.startInsert t)) := by
  have htaken := h.pcs c
  rw [hpc] at htaken
  obtain ⟨hst, hoff, hnot⟩ := htaken
  refine h.own hlocks c t (by rw [hpc]; rfl) hnot rfl rfl rfl (fun _ _ => rfl) ?_
    (fun _ _ _ => .rfl) ?_ (fun k hk => absurd hk (hoff k)) h.nodup (fun _ => .inr rfl)
  · intro u hu
    simp [hu]
  · exact fun hnot' => ⟨⟨hst, hoff, hnot'⟩, by simp⟩

theorem HeapOk.start_insert (hpc : s.pc c = .startInsert t) :
    HeapOk ((pairing_heap_insert s c t).setPc c (.startRelease t)) := by
  have htaken := h.pcs c
  rw [hpc] at htaken
  obtain ⟨⟨hst, hoff, hnot⟩, hcpu⟩ := htaken
  have hin : t ∈ (pairing_heap_insert s c t).timers c := by simp [pairing_heap_insert]
  refine h.own hlocks c t (by rw [hpc]; rfl) hnot rfl rfl rfl (fun _ _ => rfl) (fun _ _ => rfl)
    (fun u hu k => mem_insert_of_ne hu) (fun _ => trivial) ?_ ?_ (fun _ => .inl ⟨c, hin⟩)
  · intro k hk
    by_cases hkc : k = c
    · rw [hkc]
      exact ⟨hst, hcpu⟩
    · simp only [setPc_timers, pairing_heap_insert, update_of_ne hkc] at hk
      exact absurd hk (hoff k)
  · intro k
    by_cases hkc : k = c
    · subst hkc
      simp only [setPc_timers, pairing_heap_insert, update_self]
      exact List.nodup_cons.mpr ⟨hoff k, h.nodup k⟩
    · simp only [setPc_timers, pairing_heap_insert, update_of_ne hkc]
      exact h.nodup k

theorem HeapOk.stop_remove {k : Fin n} (hpc : s.pc c = .stopRemove t) (hk : s.cpu t = some k) :
    HeapOk ((pairing_heap_remove s k t).setPc c (.stopSpin t)) := by
  have hknow := h.pcs c
  rw [hpc] at hknow
  -- here the exclusion of the race pays: the timer is still in the heap of its CPU
  obtain ⟨hst, k', hk', hin⟩ := hknow
  rw [hk] at hk'
  cases hk'
  have hoff := h.offHeap_remove hin
  exact h.own hlocks c t (by rw [hpc]; rfl) (h.notPopped_of_mem hin) rfl rfl rfl (fun _ _ => rfl)
    (fun _ _ => rfl) (fun u hu j => mem_remove_of_ne hu)
    (fun hnot' => Or.inr ⟨hst, hoff, hnot'⟩) (fun j hj => absurd hj (hoff j))
    (fun j => h.nodup_remove) (fun _ => .inr rfl)

theorem HeapOk.stop_store (hpc : s.pc c = .stopStore t) :
    HeapOk ((s.setState t .stopped).setPc c (.stopRelease t)) := by
  have htaken := h.pcs c
  rw [hpc] at htaken
  obtain ⟨hst, hoff, hnot⟩ := htaken
  refine h.own hlocks c t (by rw [hpc]; rfl) hnot rfl rfl rfl ?_ (fun _ _ => rfl)
    (fun _ _ _ => .rfl) (fun _ => trivial) (fun k hk => absurd hk (hoff k)) h.nodup ?_
  · intro u hu
    simp [hu]
  · intro hpend
    simp at hpend

end

theorem HeapOk.pop (hpc : s.pc c = .expiryLoop) (hin : t ∈ s.timers c)
    (hrace : ∀ k, s.pc k ≠ .stopRemove t) :
    HeapOk ((pairing_heap_remove s c t).setPc c (.expiryCas t)) := by
  have hst := (h.heap c t hin).1
  -- the timer is pending and goes from the heap into the hands of the handler
  have hoff := h.offHeap_remove hin
  have hnot := h.notPopped_of_mem hin
  refine h.move c t rfl (.inr (by rw [hpc]; rfl)) (.inl rfl) (fun _ _ => rfl) (fun _ _ => rfl)
    (fun u hu k => mem_remove_of_ne hu) ?_ ?_ (fun k hk => absurd hk (hoff k))
    (fun k => h.nodup_remove) ?_
  · refine ⟨hst, hoff, ?_⟩
    intro c' hc'
    by_contra hne
    rw [setPc_pc, update_of_ne hne] at hc'
    exact hnot c' hc'
  · -- no other CPU can have thought that it had the timer
    intro c' hne htimer
    have hknow := h.pcs c'
    have hremove := hrace c'
    have hexp := hnot c'
    revert hknow hremove hexp htimer
    cases s.pc c' with
    | startArm u _ | stopStore u =>
      intro htimer hknow
      cases htimer
      exact absurd hin (hknow.2.1 c)
    | startInsert u =>
      intro htimer hknow
      cases htimer
      exact absurd hin (hknow.1.2.1 c)
    | stopRead u => exact fun _ hknow _ _ => hknow
    | stopRemove u =>
      intro htimer _ hremove
      cases htimer
      exact absurd rfl hremove
    | stopSpin u =>
      intro htimer hknow
      cases htimer
      rcases hknow with hrun | htaken
      · rw [hst] at hrun
        cases hrun
      · exact absurd hin (htaken.2.1 c)
    | expiryCas u | expiryLock u | expirySignal u | expiryStore u =>
      intro htimer _ _ hexp
      exact absurd htimer hexp
    | _ => exact fun _ _ _ _ => trivial
  · exact fun _ => .inr ⟨c, by rw [setPc_pc, update_self]; rfl⟩

theorem HeapOk.expiry_running (hpc : s.pc c = .expiryCas t) :
    HeapOk ((s.setState t .running).setPc c (.expiryLock t)) := by
  have hknow := h.pcs c
  rw [hpc] at hknow
  obtain ⟨hst, hoff, halone⟩ := hknow
  have hpopped : (s.pc c).expiring = some t := by
    rw [hpc]
    rfl
  refine h.move c t rfl (.inl (by rw [hpc]; rfl)) (.inl rfl) ?_ (fun _ _ => rfl)
    (fun _ _ _ => .rfl) ?_ ?_ (fun k hk => absurd hk (hoff k)) h.nodup ?_
  · intro u hu
    simp [hu]
  · refine ⟨by simp, ?_⟩
    intro c' hc'
    by_contra hne
    rw [setPc_pc, update_of_ne hne] at hc'
    exact hne (halone c' hc')
  -- of the others only a stop can be at work on the timer: it goes on to spin on `RUNNING`
  · intro c' hne htimer
    have hknow := h.pcs c'
    have hexp : (s.pc c').expiring ≠ some t := fun hc' => hne (halone c' hc')
    revert hknow hexp htimer
    cases s.pc c' with
    | startArm u _ | stopStore u =>
      intro htimer hknow
      cases htimer
      exact absurd hpopped (hknow.2.2 c)
    | startInsert u =>
      intro htimer hknow
      cases htimer
      exact absurd hpopped (hknow.1.2.2 c)
    | stopRead u =>
      intro htimer _ _
      cases htimer
      simp [Pc.HeapOk]
    | stopRemove u =>
      intro htimer hknow
      cases htimer
      obtain ⟨-, k, -, hin⟩ := hknow
      exact absurd hin (hoff k)
    | stopSpin u =>
      intro htimer _ _
      cases htimer
      exact .inl (by simp)
    | expiryCas u | expiryLock u | expirySignal u | expiryStore u =>
      intro htimer _ hexp
      exact absurd htimer hexp
    | _ => exact fun _ _ _ => trivial
  · intro hpend
    simp at hpend

theorem HeapOk.expiry_store (hlocks : LockOk s) (hpc : s.pc c = .expiryStore t) :
    HeapOk ((s.setState t .stopped).setPc c (.expiryRelease t)) := by
  have hknow := h.pcs c
  rw [hpc] at hknow
  obtain ⟨hst, halone⟩ := hknow
  have hoff : OffHeap s t := by
    intro k hk
    rw [(h.heap k t hk).1] at hst
    cases hst
  refine h.move c t rfl (.inl (by rw [hpc]; rfl)) (.inl rfl) ?_ (fun _ _ => rfl)
    (fun _ _ _ => .rfl) trivial ?_ (fun k hk => absurd hk (hoff k)) h.nodup ?_
  · intro u hu
    simp [hu]
  · -- the others would hold the lock or have popped the timer too
    intro c' hne htimer
    exfalso
    by_cases hholds : (s.pc c').holds = some t
    · have hl := hlocks c' t hholds
      rw [hlocks c t (by rw [hpc]; rfl)] at hl
      exact hne (Option.some.inj hl).symm
    · rcases Pc.of_not_holds htimer hholds with hcas | hwait
      · exact hne (halone c' (by rw [hcas]; rfl))
      · exact hne (halone c' (by rw [hwait]; rfl))
  · intro hpend
    simp at hpend

theorem HeapOk.goOn (hpc : s.pc c = old)
    (hpc' : s'.pc = update s.pc c pc) (hold : old.timer = some t)
    (hnew : pc.timer = some t ∨ pc.timer = none) (hstate : s'.state = s.state)
    (hcpu : s'.cpu = s.cpu) (htimers : s'.timers = s.timers)
    (hexp : pc.expiring = none ∨ pc.expiring = old.expiring)
    (hcar : old.carries = none ∨ s.state t ≠ .pending ∨ pc.carries = old.carries)
    (hown : pc.HeapOk s c) : HeapOk s' := by
  refine h.setPc c t hpc' (.inl (by rw [hpc, hold])) hnew hstate hcpu htimers ?_ hown ?_
  · intro hx
    rcases hexp with hexp | hexp
    · rw [hexp] at hx
      cases hx
    · rw [hpc, ← hexp, hx]
  · intro hx hst
    rw [hpc] at hx
    rcases hcar with hcar | hcar | hcar
    · rw [hcar] at hx
      cases hx
    · exact absurd hst hcar
    · rw [hcar, hx]

theorem HeapOk.run (hlocks : LockOk s) (hrace : Unraced s (.run c))
    (hrun : Runs s c s') : HeapOk s' := by
  have hknow := h.pcs c
  cases hrun with
  | start_pending hpc hst => exact h.start_pending hlocks hpc hst
  | start_arm hpc => exact h.start_arm hlocks hpc
  | start_insert hpc => exact h.start_insert hlocks hpc
  | stop_remove hpc hk => exact h.stop_remove hlocks hpc hk
  | stop_store hpc => exact h.stop_store hlocks hpc
  | expiry_running hpc _ => exact h.expiry_running hpc
  | expiry_store hpc => exact h.expiry_store hlocks hpc
  | start_busy hpc _ | start_release hpc | stop_stopped hpc _ | stop_release hpc
  | expiry_release hpc =>
    exact h.goOn hpc rfl rfl (by simp [Pc.timer]) rfl rfl rfl (.inl rfl) (.inl rfl) trivial
  | stop_check hpc hst =>
    exact h.goOn hpc rfl rfl (.inl rfl) rfl rfl rfl (.inl rfl) (.inl rfl) hst
  | stop_pending hpc hst =>
    simp only [Unraced, hpc] at hrace
    exact h.goOn hpc rfl rfl (.inl rfl) rfl rfl rfl (.inl rfl) (.inl rfl)
      ⟨hst, h.mem_of_pending hlocks hpc hst (hrace hst)⟩
  | @stop_other t hpc hst =>
    rw [hpc] at hknow
    -- neither stopped nor pending
    have hrunning : s.state t = .running := by
      have hne : s.state t ≠ .stopped := hknow
      cases hs : s.state t with
      | running => rfl
      | pending => exact absurd hs hst
      | stopped => exact absurd hs hne
    exact h.goOn hpc rfl rfl (.inl rfl) rfl rfl rfl (.inl rfl) (.inl rfl) (.inl hrunning)
  | stop_spin hpc hst =>
    rw [hpc] at hknow
    exact h.goOn hpc rfl rfl (.inl rfl) rfl rfl rfl (.inl rfl) (.inr (.inr rfl))
      (hknow.resolve_left hst)
  | expiry_end hpc =>
    refine h.setPc c 0 rfl (.inr (by rw [hpc]; rfl)) (.inr rfl) rfl rfl rfl
      (fun hx => by cases hx) trivial ?_
    rw [hpc]
    exact fun hx => by cases hx
  | expiry_canceled hpc hst =>
    exact h.goOn hpc rfl rfl (.inr rfl) rfl rfl rfl (.inl rfl) (.inr (.inl hst)) trivial
  | expiry_lock hpc _ | expiry_signal hpc =>
    rw [hpc] at hknow
    exact h.goOn hpc rfl rfl (.inl rfl) rfl rfl rfl (.inr rfl) (.inl rfl) hknow

theorem HeapOk.step (hlocks : LockOk s) {a : Action n} (hrace : Unraced s a)
    (hmove : Moves s a s') : HeapOk s' := by
  -- the three calls: an idle CPU has no timer in its hands and takes none
  have hidle : ∀ {c : Fin n} {t : Nat} {pc : Pc} {s' : State n}, s.pc c = .idle →
      s'.pc = update s.pc c pc → (pc.timer = some t ∨ pc.timer = none) →
      s'.state = s.state → s'.cpu = s.cpu → s'.timers = s.timers →
      pc.expiring = none → pc.HeapOk s c → HeapOk s' := by
    intro c t pc s' hpc hpc' hnew hstate hcpu htimers hexp hown
    refine h.setPc c t hpc' (.inr (by rw [hpc]; rfl)) hnew hstate hcpu htimers ?_ hown ?_
    · rw [hexp]
      exact fun hx => by cases hx
    · rw [hpc]
      exact fun hx => by cases hx
  cases hmove with
  | timer_start hpc _ | timer_stop hpc _ =>
    exact hidle hpc rfl (.inl rfl) rfl rfl rfl rfl trivial
  | timer_handle_expiry hpc =>
    exact hidle (t := 0) hpc rfl (.inr rfl) rfl rfl rfl rfl trivial
  | pop hpc hin _ => exact h.pop hpc hin hrace
  | run hrun => exact h.run hlocks hrace hrun
  | tick | wait | unwait => exact ⟨h.heap, h.nodup, h.pcs, h.pending⟩
  | @timer_init t hunused =>
    obtain ⟨hst, -, -, hnobody⟩ := hunused
    refine h.touch t ?_ ?_ (fun _ _ _ => .rfl) (fun _ _ _ hx => hx) (fun _ _ _ hx => hx)
      (fun _ _ _ _ => rfl) ?_ ?_ h.nodup ?_
    · intro u hu
      simp [timer_init, hu]
    · intro u hu
      simp [timer_init, hu]
    · exact fun c hc => absurd hc (hnobody c).1
    · exact fun k hk => absurd hk (hnobody k).2
    · intro hpend
      simp [timer_init] at hpend

end

theorem HeapOk.init (h : Init s) : HeapOk s := by
  constructor
  · intro k t ht
    rw [h.timers] at ht
    cases ht
  · intro k
    rw [h.timers]
    exact List.nodup_nil
  · intro c
    rw [h.pc]
    trivial
  · intro t ht
    rw [h.state] at ht
    cases ht

theorem heapOk_of_unraced (hs : ReachableBy (system n) Unraced s) : HeapOk s := by
  refine hs.invariant_of (fun _ hr => lockOk_of_reachable hr) (fun _ hinit => .init hinit) ?_
  intro s a s' hlocks h hrace hstep
  exact h.step hlocks hrace (moves_of_step hstep)

/-- **Heap membership**, in every run without the two races:
`pairing_heap_remove` is applied only to a timer that is in the heap of
its CPU, and `pairing_heap_insert` only to a timer that is in no heap. -/
theorem heap_membership (hs : ReachableBy (system n) Unraced s) :
    (∀ c t, s.pc c = .stopRemove t → ∃ k, s.cpu t = some k ∧ t ∈ s.timers k) ∧
    ∀ c t, s.pc c = .startInsert t → ∀ k, t ∉ s.timers k := by
  have h := heapOk_of_unraced hs
  constructor
  · intro c t hpc
    have hknow := h.pcs c
    rw [hpc] at hknow
    exact hknow.2
  · intro c t hpc
    have hknow := h.pcs c
    rw [hpc] at hknow
    exact hknow.1.2.1

/-- A stop on CPU 1 of a timer that waits in the heap of CPU 0 finds it
there. -/
theorem heap_membership_stop : ∃ s, execBy (system 2) Unraced (boot 2)
        [.timer_start 0 0 0, .run 0, .run 0, .run 0, .run 0, .timer_stop 1 0, .run 1, .run 1] =
          some s ∧ s.pc 1 = .stopRemove 0 ∧ ∃ k, s.cpu 0 = some k ∧ 0 ∈ s.timers k := by
  refine run_imp (fun s => s.pc 1 = .stopRemove 0) ⟨_, rfl, rfl⟩ fun s hs hpc => ⟨hpc, ?_⟩
  exact (heap_membership (.of_execBy (.init (boot_init 2)) hs)).1 1 0 hpc

/-- **A timer may be removed that is in no heap**: the handler of CPU 0 has
popped it and not made it `RUNNING` when the stop on CPU 1 reads
`TIMER_PENDING`. -/
theorem heap_membership_raced : ¬ ∀ (n : Nat) (s : State n), Reachable (system n) s →
      (∀ c t, s.pc c = .stopRemove t → ∃ k, s.cpu t = some k ∧ t ∈ s.timers k) ∧
      ∀ c t, s.pc c = .startInsert t → ∀ k, t ∉ s.timers k := by
  intro h
  obtain ⟨s, hs, hpc, hempty⟩ : ∃ s, exec (system 2) (boot 2)
      [.timer_start 0 0 0, .run 0, .run 0, .run 0, .run 0, .timer_handle_expiry 0, .pop 0 0,
        .timer_stop 1 0, .run 1, .run 1] = some s ∧
      s.pc 1 = .stopRemove 0 ∧ ∀ k, s.timers k = [] := ⟨_, rfl, rfl, by decide⟩
  obtain ⟨k, -, hin⟩ := (h 2 s (.of_exec (boot_init 2) hs)).1 1 0 hpc
  rw [hempty k] at hin
  cases hin

/-- Insertion fails with it: CPU 1 stops the popped timer and starts it again
before the handler of CPU 0 goes on, stores `TIMER_STOPPED` to the timer
in the heap of CPU 1, and so lets it be started and inserted once more. -/
example : ∃ s, exec (system 2) (boot 2)
    ([.timer_start 0 0 0, .run 0, .run 0, .run 0, .run 0, .timer_handle_expiry 0, .pop 0 0,
      .timer_stop 1 0, .run 1, .run 1, .run 1, .run 1, .run 0, .run 1, .run 1,
      .timer_start 1 0 1, .run 1, .run 1, .run 1, .run 1, .run 0, .run 0, .run 0, .run 0,
      .timer_start 1 0 1, .run 1, .run 1]) = some s ∧
    s.pc 1 = .startInsert 0 ∧ 0 ∈ s.timers 1 :=
  ⟨_, rfl, rfl, by decide⟩

end Timer
