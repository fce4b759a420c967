import Dufay.Wait.Steps

/-! # The invariant of waiting

Which waitblocks of a thread are in use is a matter of its program
counter alone: `Pc.Live` gives, for every point of `wait_any`, the
waitblocks that were installed and not yet given up. A waitblock in use
is linked exactly as long as it is active and no signaller has taken it
off the list.

Two steps break the invariant: a back-out that removes a waitblock which
is no longer active, and a call with timeout 0 that returns while a
waitblock of its own is active. `Clean` excludes the two.
-/

open Lts Tailq

namespace Wait

open Ule (WaitStatus)

variable {cfg : Config} {s s' : State} {q q' : Oid → List Waitblock} {t : Nat}

/-! ### Waitblocks in use -/

/-- One of the waitblocks `lo .. hi - 1` of a call. -/
def InWindow (c : Call) (t lo hi : Nat) (o : Oid) (wb : Waitblock) : Prop :=
  ∃ i, lo ≤ i ∧ i < hi ∧ wb = c.waitblock t i ∧ o = c.object t i

/-- The waitblocks that a thread has installed and not given up. -/
def Pc.Live (t : Nat) (o : Oid) (wb : Waitblock) : Pc → Prop
  | .scan c i => InWindow c t 0 i o wb
  | .check c none => InWindow c t 0 c.count o wb
  | .check c (some n) => InWindow c t 0 n o wb
  | .backout c n i => InWindow c t i n o wb
  | .start c | .commit c | .blocked c => InWindow c t 0 c.count o wb
  | .stopEnter c | .stopSpin c | .stopStore c => InWindow c t 0 c.count o wb
  | .final c i _ => InWindow c t i c.count o wb
  | .idle | .returned _ _ | .signalling _ => False

/-- The call that a thread is in. -/
def Pc.call : Pc → Option Call
  | .scan c _ | .check c _ | .backout c _ _ | .start c | .commit c | .blocked c => some c
  | .stopEnter c | .stopSpin c | .stopStore c | .final c _ _ | .returned c _ => some c
  | .idle | .signalling _ => none

/-- The waitblock that a signaller has taken off a list and not dealt with
yet. -/
def flight : Option Holder → Option Waitblock
  | some (.signal _ (.case1 wb)) => some wb
  | some (.signal _ (.case2 wb)) => some wb
  | some (.signal _ (.case3 wb)) => some wb
  | _ => none

theorem waitblock_thread (c : Call) (t i : Nat) : (c.waitblock t i).thread = t := by
  unfold Call.waitblock
  split <;> rfl

theorem waitblock_inj {c : Call} (h : c.waitblock t i = c.waitblock t j) : i = j := by
  unfold Call.waitblock at h
  split at h
  · next hi =>
    split at h
    · next hj =>
      rw [hi] at hj
      cases hj
      rfl
    · cases h
  · split at h
    · cases h
    · cases h
      rfl

theorem inWindow_succ :
    InWindow c t (lo + 1) hi o wb ↔ InWindow c t lo hi o wb ∧ wb ≠ c.waitblock t lo := by
  constructor
  · rintro ⟨j, hlo, hj, hw, ho⟩
    refine ⟨⟨j, by omega, hj, hw, ho⟩, fun heq => ?_⟩
    have := waitblock_inj (hw.symm.trans heq)
    omega
  · rintro ⟨⟨j, hlo, hj, hw, ho⟩, hne⟩
    have hji : j ≠ lo := fun hji => hne (hji ▸ hw)
    exact ⟨j, by omega, hj, hw, ho⟩

theorem inWindow_grow : InWindow c t 0 (hi + 1) o wb ↔
      InWindow c t 0 hi o wb ∨ o = c.object t hi ∧ wb = c.waitblock t hi := by
  constructor
  · rintro ⟨j, hlo, hj, hw, ho⟩
    by_cases hji : j = hi
    · subst hji
      exact .inr ⟨ho, hw⟩
    · exact .inl ⟨j, hlo, by omega, hw, ho⟩
  · rintro (⟨j, hlo, hj, hw, ho⟩ | ⟨ho, hw⟩)
    · exact ⟨j, hlo, by omega, hw, ho⟩
    · exact ⟨hi, Nat.zero_le _, Nat.lt_succ_self hi, hw, ho⟩

theorem index_of_lt {c : Call} (t : Nat) (h : i + 1 < c.count) :
    c.waitblock t i = .internal t i ∧ c.object t i = .obj (c.objects.getD i 0) := by
  -- the timer, if there is one, comes last
  have hne : c.timer_i ≠ some i := by
    unfold Call.timer_i
    unfold Call.count at h
    split at h
    · next ht =>
      rw [if_pos ht]
      intro heq
      cases heq
      omega
    · next ht => simp [ht]
  simp [Call.waitblock, Call.object, hne]

theorem object_eq_timeout {c : Call} {id : Nat} (h : c.object t i = .timeout u id) :
    u = t ∧ id = c.id := by
  unfold Call.object at h
  split at h
  · cases h
    exact ⟨rfl, rfl⟩
  · cases h

theorem Pc.Live.exists {pc : Pc} (h : pc.Live t o wb) :
    ∃ c i, pc.call = some c ∧ wb = c.waitblock t i ∧ o = c.object t i := by
  have key : ∀ {c lo hi}, pc.call = some c → InWindow c t lo hi o wb →
      ∃ c i, pc.call = some c ∧ wb = c.waitblock t i ∧ o = c.object t i := by
    rintro c lo hi hc ⟨i, -, -, hwb, ho⟩
    exact ⟨c, i, hc, hwb, ho⟩
  -- by cases on the program counter: each window lies in the call's waitblocks
  match pc, h with
  | .scan c _, h => exact key rfl h
  | .check c none, h => exact key rfl h
  | .check c (some _), h => exact key rfl h
  | .backout c _ _, h => exact key rfl h
  | .start c, h => exact key rfl h
  | .commit c, h => exact key rfl h
  | .blocked c, h => exact key rfl h
  | .stopEnter c, h => exact key rfl h
  | .stopSpin c, h => exact key rfl h
  | .stopStore c, h => exact key rfl h
  | .final c _ _, h => exact key rfl h

theorem Pc.Live.object_eq {pc : Pc} (h : pc.Live t o wb) (h' : pc.Live t o' wb) : o = o' := by
  obtain ⟨c, i, hc, hwb, ho⟩ := h.exists
  obtain ⟨c', i', hc', hwb', ho'⟩ := h'.exists
  rw [hc] at hc'
  cases hc'
  rw [hwb] at hwb'
  rw [ho, ho', waitblock_inj hwb']

/-! ### The wait status and the signal of a call -/

/-- What the wait status can be at a program counter. -/
def Pc.StatusOk (st : WaitStatus) : Pc → Prop
  | .scan c i => i ≤ c.count ∧ st ≠ .committed
  | .check _ none | .start _ | .commit _ => st ≠ .committed
  | .check c (some n) => n < c.count ∧ st = .satisfied
  | .backout c n i => i ≤ n ∧ n < c.count ∧ st = .satisfied
  | .blocked _ => st = .committed
  | .stopEnter _ | .stopSpin _ | .stopStore _ => st = .satisfied
  | .final c i _ => i ≤ c.count ∧ st = .satisfied
  | .idle | .returned _ _ | .signalling _ => True

/-- No waitblock `< hi` of the call is signaled. -/
def NoneSignaled (c : Call) (t hi : Nat) (wbst : Waitblock → WaitblockStatus) : Prop :=
  ∀ i < hi, wbst (c.waitblock t i) ≠ .signaled

/-- The call received one signal, through waitblock `j < hi`, and this one
alone is signaled. -/
def OneSignaled (c : Call) (t hi j : Nat) (dl : List (Oid × Option Waitblock))
    (wbst : Waitblock → WaitblockStatus) : Prop :=
  dl = [(c.object t j, some (c.waitblock t j))] ∧
    ∀ i < hi, wbst (c.waitblock t i) = .signaled ↔ i = j

/-- A call that found no signaled object: it has received no signal as long
as it is unsatisfied, and one through a waitblock otherwise. -/
def OpenOk (c : Call) (t hi : Nat) (st : WaitStatus) (dl : List (Oid × Option Waitblock))
    (wbst : Waitblock → WaitblockStatus) : Prop :=
  (st ≠ .satisfied → dl = [] ∧ NoneSignaled c t hi wbst) ∧
    (st = .satisfied → ∃ j < hi, OneSignaled c t hi j dl wbst)

/-- A call that found object `n` signaled: it took that signal, or (case #1)
it had received one already, through a waitblock that the back-out
has yet to reach. -/
def ClosedOk (c : Call) (t lo n : Nat) (dl : List (Oid × Option Waitblock))
    (wbst : Waitblock → WaitblockStatus) : Prop :=
  (dl = [(c.object t n, none)] ∧ NoneSignaled c t n wbst) ∨
    ∃ j, lo ≤ j ∧ j < n ∧ OneSignaled c t n j dl wbst

/-- What a call has received at a program counter. -/
def Pc.SignalsOk (t : Nat) (st : WaitStatus) (dl : List (Oid × Option Waitblock))
    (wbst : Waitblock → WaitblockStatus) : Pc → Prop
  | .scan c i => OpenOk c t i st dl wbst
  | .check c none | .start c | .commit c | .blocked c => OpenOk c t c.count st dl wbst
  | .stopEnter c | .stopSpin c | .stopStore c => OpenOk c t c.count st dl wbst
  | .final c i satisfier => OpenOk c t c.count st dl wbst ∧
      ∀ j, satisfier = some j ↔ j < i ∧ j < c.count ∧ wbst (c.waitblock t j) = .signaled
  | .check c (some n) => ClosedOk c t 0 n dl wbst
  | .backout c n i => ClosedOk c t i n dl wbst
  | .returned c result => (∃ d, dl = [d]) ∧ ∀ i, result = some i → ∃ via, dl = [(c.object t i, via)]
  | .idle | .signalling _ => True

/-! ### The invariant -/

structure ThreadOk (s : State) (q : Oid → List Waitblock) (t : Nat) : Prop where
  linked : ∀ o wb, wb.thread = t →
    (wb ∈ q o ↔ (s.pc t).Live t o wb ∧ s.wb_status wb = .active ∧ flight (s.lock o) ≠ some wb)
  flight : ∀ o wb, wb.thread = t → flight (s.lock o) = some wb →
    (s.pc t).Live t o wb ∧ s.wb_status wb = .active
  status : (s.pc t).StatusOk (s.status t)
  signals : (s.pc t).SignalsOk t (s.status t) (s.delivered t) s.wb_status
  decremented : ∀ o ∈ s.decremented t, ∃ via, (o, via) ∈ s.delivered t
  id : ∀ c, (s.pc t).call = some c → c.id < s.calls t

/-- The invariant: the pointers represent the lists `q`, every thread and
every lock holder is where it should be. -/
structure Ok (s : State) (q : Oid → List Waitblock) : Prop where
  represents : Represents s.links q
  thread : ∀ t, ThreadOk s q t
  agent : ∀ o who pc t, s.lock o = some (.signal who pc) → who.thread = some t →
    s.pc t = .signalling o
  case2 : ∀ o who wb, s.lock o = some (.signal who (.case2 wb)) → s.status wb.thread ≠ .inProgress
  case3 : ∀ o who wb, s.lock o = some (.signal who (.case3 wb)) → s.status wb.thread = .satisfied
  stop : ∀ t c, s.pc t = .stopSpin c ∨ s.pc t = .stopStore c →
    s.lock (.timeout t c.id) = some .timer_stop

/-- What a thread at a program counter must find for its next step not to
break the invariant. -/
def Pc.Clean (s : State) (t : Nat) : Pc → Prop
  | .backout _ n i => i < n → s.wb_status (.internal t i) = .active
  | .check c none => c.timeout = 0 → s.status t = .satisfied →
    ∀ i < c.count, s.wb_status (c.waitblock t i) ≠ .active
  | _ => True

instance (s : State) (t : Nat) (pc : Pc) : Decidable (pc.Clean s t) := by
  unfold Pc.Clean
  split <;> infer_instance

/-- The two steps that break the invariant are excluded. -/
def Clean (s : State) : Action → Prop
  | .run t => (s.pc t).Clean s t
  | _ => True

instance (s : State) (a : Action) : Decidable (Clean s a) := by
  cases a <;> unfold Clean <;> infer_instance

/-! ### Steps that concern one thread -/

/-- A step from `s` to `s'` leaves every thread but `t` alone. -/
structure Frame (s s' : State) (q q' : Oid → List Waitblock) (t : Nat) : Prop where
  pc : ∀ u, u ≠ t → s'.pc u = s.pc u
  status : ∀ u, u ≠ t → s'.status u = s.status u
  delivered : ∀ u, u ≠ t → s'.delivered u = s.delivered u
  decremented : ∀ u, u ≠ t → s'.decremented u = s.decremented u
  calls : ∀ u, u ≠ t → s'.calls u = s.calls u
  wb_status : ∀ wb, wb.thread ≠ t → s'.wb_status wb = s.wb_status wb
  mem : ∀ o wb, wb.thread ≠ t → (wb ∈ q' o ↔ wb ∈ q o)
  flight : ∀ o wb, wb.thread ≠ t → (flight (s'.lock o) = some wb ↔ flight (s.lock o) = some wb)

theorem Pc.SignalsOk.congr {pc : Pc} (h : pc.SignalsOk t st dl wbst)
    (hwb : ∀ wb, wb.thread = t → wbst' wb = wbst wb) : pc.SignalsOk t st dl wbst' := by
  have hget : ∀ (c : Call) i, wbst' (c.waitblock t i) = wbst (c.waitblock t i) :=
    fun c i => hwb _ (waitblock_thread c t i)
  -- every status that occurs is that of a waitblock of a call of `t`
  unfold Pc.SignalsOk OpenOk ClosedOk OneSignaled NoneSignaled at *
  simp only [hget]
  exact h

theorem ThreadOk.frame (h : ThreadOk s q u) (hf : Frame s s' q q' t) (hu : u ≠ t) :
    ThreadOk s' q' u where
  linked := fun o wb hwb => by
    have hne : wb.thread ≠ t := hwb ▸ hu
    rw [hf.mem o wb hne, hf.pc u hu, hf.wb_status wb hne, Ne, hf.flight o wb hne]
    exact h.linked o wb hwb
  flight := fun o wb hwb hfl => by
    have hne : wb.thread ≠ t := hwb ▸ hu
    rw [hf.pc u hu, hf.wb_status wb hne]
    exact h.flight o wb hwb ((hf.flight o wb hne).mp hfl)
  status := by
    rw [hf.pc u hu, hf.status u hu]
    exact h.status
  signals := by
    rw [hf.pc u hu, hf.status u hu, hf.delivered u hu]
    exact h.signals.congr (fun wb hwb => hf.wb_status wb (hwb ▸ hu))
  decremented := by
    rw [hf.decremented u hu, hf.delivered u hu]
    exact h.decremented
  id := by
    rw [hf.pc u hu, hf.calls u hu]
    exact h.id

theorem Ok.not_agent (h : Ok s q) (hpc : ∀ o, s.pc t ≠ .signalling o) (o : Oid)
    (who : Signaller) (pc : SignalPc) (hlock : s.lock o = some (.signal who pc)) :
    who.thread ≠ some t :=
  fun hw => hpc o (h.agent o who pc t hlock hw)

theorem Ok.own (h : Ok s q) (hrep : Represents s'.links q') (hf : Frame s s' q q' t)
    (ht : ThreadOk s' q' t) (hlock : s'.lock = s.lock)
    (hagent : ∀ o who pc, s.lock o = some (.signal who pc) → who.thread ≠ some t)
    (hst : s'.status t = s.status t ∨ (s.status t ≠ .satisfied ∧ s'.status t ≠ .inProgress))
    (hstop : ∀ c, s'.pc t = .stopSpin c ∨ s'.pc t = .stopStore c →
      s.lock (.timeout t c.id) = some .timer_stop) : Ok s' q' where
  represents := hrep
  thread := fun u => by
    by_cases hu : u = t
    · rw [hu]
      exact ht
    · exact (h.thread u).frame hf hu
  agent := fun o who pc u hl hw => by
    rw [hlock] at hl
    have hne : u ≠ t := fun heq => hagent o who pc hl (heq ▸ hw)
    rw [hf.pc u hne]
    exact h.agent o who pc u hl hw
  case2 := fun o who wb hl => by
    rw [hlock] at hl
    have hs := h.case2 o who wb hl
    by_cases hu : wb.thread = t
    · rw [hu] at hs ⊢
      rcases hst with hst | hst
      · rw [hst]
        exact hs
      · exact hst.2
    · rw [hf.status _ hu]
      exact hs
  case3 := fun o who wb hl => by
    rw [hlock] at hl
    have hs := h.case3 o who wb hl
    by_cases hu : wb.thread = t
    · rw [hu] at hs ⊢
      rcases hst with hst | hst
      · rw [hst]
        exact hs
      · exact absurd hs hst.1
    · rw [hf.status _ hu]
      exact hs
  stop := fun u c hu => by
    rw [hlock]
    by_cases hut : u = t
    · subst hut
      exact hstop c hu
    · rw [hf.pc u hut] at hu
      exact h.stop u c hu

theorem Ok.same (h : Ok s q) (hpc : s'.pc = s.pc) (hst : s'.status = s.status)
    (hwb : s'.wb_status = s.wb_status) (hlinks : s'.links = s.links) (hlock : s'.lock = s.lock)
    (hcalls : s'.calls = s.calls) (hdl : s'.delivered = s.delivered)
    (hdec : s'.decremented = s.decremented) : Ok s' q where
  represents := hlinks ▸ h.represents
  thread := fun t => by
    obtain ⟨h1, h2, h3, h4, h5, h6⟩ := h.thread t
    constructor <;> simp only [hpc, hst, hwb, hlock, hcalls, hdl, hdec] <;> assumption
  agent := by simpa only [hpc, hlock] using h.agent
  case2 := by simpa only [hst, hlock] using h.case2
  case3 := by simpa only [hst, hlock] using h.case3
  stop := by simpa only [hpc, hlock] using h.stop

end Wait
