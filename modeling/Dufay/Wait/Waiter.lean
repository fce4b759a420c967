import Dufay.Wait.Invariant

/-! # The waiting side keeps the invariant

What a thread does inside `wait_any`: it moves on, installs a
waitblock, takes a signal that is already there, and gives waitblocks
up again in the back-out and in the final scan.
-/

open Lts Tailq Function

namespace Wait

open Wait

open State
open Ule (WaitStatus)

variable {cfg : Config} {s s' : State} {q q' : Oid → List Waitblock} {t : Nat}

/-! ### Moving a thread on -/

theorem Frame.setPc (s : State) (q : Oid → List Waitblock) (t : Nat) (pc : Pc) :
    Frame s (s.setPc t pc) q q t where
  pc := fun u hu => by simp [hu]
  status := fun _ _ => rfl
  delivered := fun _ _ => rfl
  decremented := fun _ _ => rfl
  calls := fun _ _ => rfl
  wb_status := fun _ _ => rfl
  mem := fun _ _ _ => .rfl
  flight := fun _ _ _ => .rfl

section

variable {pc : Pc}
  (hlive : ∀ o wb, s.wb_status wb = .active → (pc.Live t o wb ↔ (s.pc t).Live t o wb))
  (hst : pc.StatusOk (s.status t))
  (hsig : pc.SignalsOk t (s.status t) (s.delivered t) s.wb_status)
  (hcall : ∀ c, pc.call = some c → (s.pc t).call = some c)

include hlive hst hsig hcall

theorem ThreadOk.setPc (h : ThreadOk s q t) : ThreadOk (s.setPc t pc) q t where
  linked := fun o wb hwb => by
    rw [h.linked o wb hwb, setPc_pc, update_self, setPc_wb_status, setPc_lock]
    constructor
    · rintro ⟨hl, ha, hf⟩
      exact ⟨(hlive o wb ha).mpr hl, ha, hf⟩
    · rintro ⟨hl, ha, hf⟩
      exact ⟨(hlive o wb ha).mp hl, ha, hf⟩
  flight := fun o wb hwb hf => by
    obtain ⟨hl, ha⟩ := h.flight o wb hwb hf
    rw [setPc_pc, update_self]
    exact ⟨(hlive o wb ha).mpr hl, ha⟩
  status := by
    rw [setPc_pc, update_self]
    exact hst
  signals := by
    rw [setPc_pc, update_self]
    exact hsig
  decremented := h.decremented
  id := fun c hc => by
    rw [setPc_pc, update_self] at hc
    exact h.id c (hcall c hc)

theorem Ok.setPc (h : Ok s q)
    (hagent : ∀ o who pc, s.lock o = some (.signal who pc) → who.thread ≠ some t)
    (hstop : ∀ c, pc = .stopSpin c ∨ pc = .stopStore c →
      s.lock (.timeout t c.id) = some .timer_stop) : Ok (s.setPc t pc) q := by
  refine h.own (t := t) ?_ (.setPc s q t pc) (.setPc hlive hst hsig hcall (h.thread t)) rfl
    hagent (.inl rfl) ?_
  · exact h.represents
  intro c hc
  rw [setPc_pc, update_self] at hc
  exact hstop c hc

end

theorem Ok.goOn (h : Ok s q) {pc : Pc} (hpc : s.pc t = old) (hns : ∀ o, old ≠ .signalling o)
    (hlive : ∀ o wb, pc.Live t o wb ↔ old.Live t o wb) (hst : pc.StatusOk (s.status t))
    (hsig : pc.SignalsOk t (s.status t) (s.delivered t) s.wb_status)
    (hcall : ∀ c, pc.call = some c → old.call = some c)
    (hstop : ∀ c, pc = .stopSpin c ∨ pc = .stopStore c →
      s.lock (.timeout t c.id) = some .timer_stop) : Ok (s.setPc t pc) q := by
  subst hpc
  exact .setPc (fun o wb _ => hlive o wb) hst hsig hcall h (h.not_agent hns) hstop

/-! ### Behind the wait

All the waitblocks are in use and the wait is satisfied, whether the
timeout timer has to be stopped first or not. -/

theorem after_wait_live (c : Call) (o : Oid) (wb : Waitblock) :
    (after_wait c).Live t o wb ↔ InWindow c t 0 c.count o wb := by
  unfold after_wait
  split <;> exact .rfl

theorem after_wait_status (c : Call) : (after_wait c).StatusOk .satisfied := by
  unfold after_wait
  split
  · rfl
  · exact ⟨Nat.zero_le _, rfl⟩

theorem after_wait_signals (c : Call) (hsig : OpenOk c t c.count st dl wbst) :
    (after_wait c).SignalsOk t st dl wbst := by
  unfold after_wait
  split
  · exact hsig
  · refine ⟨hsig, ?_⟩
    intro j
    simp

theorem after_wait_call (c : Call) : (after_wait c).call = some c := by
  unfold after_wait
  split <;> rfl

theorem after_wait_ne_stop (c c' : Call) :
    ¬ (after_wait c = .stopSpin c' ∨ after_wait c = .stopStore c') := by
  unfold after_wait
  split <;> simp

/-! ### Installing and removing a waitblock -/

theorem Ok.not_mem_of_not_live (h : Ok s q)
    (hl : ∀ o, ¬ (s.pc wb.thread).Live wb.thread o wb) (o : Oid) : wb ∉ q o := by
  intro hmem
  exact hl o (((h.thread wb.thread).linked o wb rfl).mp hmem).1

theorem ThreadOk.mem_of_live (h : ThreadOk s q t)
    (hwb : wb.thread = t) (hl : (s.pc t).Live t o wb) (ha : s.wb_status wb = .active)
    (hlock : s.lock o = none) : wb ∈ q o := by
  apply (h.linked o wb hwb).mpr
  refine ⟨hl, ha, ?_⟩
  rw [hlock]
  intro hf
  cases hf

theorem not_live_next (c : Call) (t i : Nat) (o : Oid) :
    ¬ (Pc.scan c i).Live t o (c.waitblock t i) := by
  rintro ⟨j, -, hj, hwb, -⟩
  have hij := waitblock_inj hwb
  omega

variable {c : Call} {i : Nat}

theorem OpenOk.install (h : OpenOk c t i st dl wbst) :
    OpenOk c t (i + 1) st dl (update wbst (c.waitblock t i) .active) := by
  have hsignaled : ∀ j < i + 1,
      (update wbst (c.waitblock t i) .active (c.waitblock t j) = .signaled ↔
        j < i ∧ wbst (c.waitblock t j) = .signaled) := by
    intro j hj
    by_cases hji : j = i
    · rw [hji, update_self]
      simp
    · have hne : c.waitblock t j ≠ c.waitblock t i := fun heq => hji (waitblock_inj heq)
      rw [update_of_ne hne]
      exact ⟨fun hs => ⟨by omega, hs⟩, And.right⟩
  constructor
  · intro hns
    refine ⟨(h.1 hns).1, fun j hj hs => ?_⟩
    obtain ⟨hji, hs⟩ := (hsignaled j hj).mp hs
    exact (h.1 hns).2 j hji hs
  · intro hs
    obtain ⟨k, hk, hdl, hone⟩ := h.2 hs
    refine ⟨k, by omega, hdl, fun j hj => ?_⟩
    rw [hsignaled j hj]
    constructor
    · rintro ⟨hji, hs⟩
      exact (hone j hji).mp hs
    · rintro rfl
      exact ⟨hk, (hone j hk).mpr rfl⟩

theorem Ok.install (h : Ok s q) (hpc : s.pc t = .scan c i) (hi : i < c.count) : Ok ({ s with
      links := s.links.insertTail (c.object t i) (c.waitblock t i)
      wb_status := update s.wb_status (c.waitblock t i) .active }.setPc t
        (.scan c (i + 1)))
      (update q (c.object t i) (q (c.object t i) ++ [c.waitblock t i])) := by
  have ht := h.thread t
  have hthr := waitblock_thread c t i
  have hfresh : ∀ o, ¬ (s.pc t).Live t o (c.waitblock t i) := by
    rw [hpc]
    exact not_live_next c t i
  have hnot : ∀ o, c.waitblock t i ∉ q o := by
    apply h.not_mem_of_not_live
    rw [hthr]
    exact hfresh
  have hst := ht.status
  have hsig := ht.signals
  rw [hpc] at hst hsig
  -- first the frame, then the linkage of `t` itself, where only the new waitblock differs
  refine h.own (t := t) (h.represents.insertTail hnot) ?_ ?_ rfl
    (h.not_agent (by simp [hpc])) (.inl rfl) (by simp)
  · constructor
    · intro u hu
      simp [hu]
    · exact fun _ _ => rfl
    · exact fun _ _ => rfl
    · exact fun _ _ => rfl
    · exact fun _ _ => rfl
    · intro wb hwb
      have hne : wb ≠ c.waitblock t i := fun heq => hwb (heq ▸ hthr)
      simp [hne]
    · intro o wb hwb
      have hne : wb ≠ c.waitblock t i := fun heq => hwb (heq ▸ hthr)
      simp [mem_insertTail, hne]
    · exact fun _ _ _ => .rfl
  · constructor
    · intro o wb hwb
      rw [mem_insertTail, ht.linked o wb hwb]
      simp only [setPc_pc, update_self, setPc_wb_status, setPc_lock, hpc]
      show _ ↔ InWindow c t 0 (i + 1) o wb ∧ _
      rw [inWindow_grow]
      by_cases heq : wb = c.waitblock t i
      · subst heq
        rw [update_self]
        constructor
        · rintro (hold | hnew)
          · exact absurd hold.1 (not_live_next c t i o)
          · exact ⟨.inr hnew, rfl, fun hf => hfresh o (ht.flight o _ hthr hf).1⟩
        · rintro ⟨hold | hnew, -⟩
          · exact absurd hold (not_live_next c t i o)
          · exact .inr hnew
      · rw [update_of_ne heq]
        constructor
        · rintro (⟨hold, hrest⟩ | hnew)
          · exact ⟨.inl hold, hrest⟩
          · exact absurd hnew.2 heq
        · rintro ⟨hold | hnew, hrest⟩
          · exact .inl ⟨hold, hrest⟩
          · exact absurd hnew.2 heq
    · intro o wb hwb hf
      obtain ⟨hl, ha⟩ := ht.flight o wb hwb hf
      have hne : wb ≠ c.waitblock t i := fun heq => hfresh o (heq ▸ hl)
      rw [hpc] at hl
      simp only [setPc_pc, update_self, setPc_wb_status, update_of_ne hne]
      exact ⟨inWindow_grow.mpr (.inl hl), ha⟩
    · simp only [setPc_pc, update_self, setPc_status]
      exact ⟨hi, hst.2⟩
    · simp only [setPc_pc, update_self, setPc_status, setPc_delivered, setPc_wb_status]
      exact .install hsig
    · exact ht.decremented
    · intro c' hc'
      simp only [setPc_pc, update_self, Pc.call, Option.some.injEq] at hc'
      subst hc'
      exact ht.id c (by rw [hpc]; rfl)

theorem Ok.unlink (h : Ok s q) (pc : Pc) (st : WaitblockStatus)
    (hthr : wb.thread = t) (hmem : wb ∈ q o) (hns : ∀ o, s.pc t ≠ .signalling o)
    (hlive : ∀ o' wb', pc.Live t o' wb' ↔ (s.pc t).Live t o' wb' ∧ wb' ≠ wb)
    (hstat : pc.StatusOk (s.status t))
    (hsig : pc.SignalsOk t (s.status t) (s.delivered t) (update s.wb_status wb st))
    (hcall : ∀ c, pc.call = some c → (s.pc t).call = some c)
    (hstop : ∀ c, ¬ (pc = .stopSpin c ∨ pc = .stopStore c)) : Ok ({ s with
      wb_status := update s.wb_status wb st
      links := s.links.remove o wb }.setPc t pc)
      (update q o ((q o).erase wb)) := by
  have ht := h.thread t
  -- the lists, the waitblocks in use and their statuses lose the same waitblock
  have hmem' := h.represents.mem_remove hmem
  refine h.own (t := t) (h.represents.remove hmem) ?_ ?_ rfl (h.not_agent hns) (.inl rfl) ?_
  · constructor
    · intro u hu
      simp [hu]
    · exact fun _ _ => rfl
    · exact fun _ _ => rfl
    · exact fun _ _ => rfl
    · exact fun _ _ => rfl
    · intro wb' hwb'
      have hne : wb' ≠ wb := fun heq => hwb' (heq ▸ hthr)
      simp [hne]
    · intro o' wb' hwb'
      have hne : wb' ≠ wb := fun heq => hwb' (heq ▸ hthr)
      simp [hmem', hne]
    · exact fun _ _ _ => .rfl
  · constructor
    · intro o' wb' hwb'
      rw [hmem', ht.linked o' wb' hwb']
      simp only [setPc_pc, update_self, setPc_wb_status, setPc_lock, hlive]
      by_cases heq : wb' = wb
      all_goals simp [heq]
    · intro o' wb' hwb' hf
      obtain ⟨hl, ha⟩ := ht.flight o' wb' hwb' hf
      -- what is linked is not in flight
      have hne : wb' ≠ wb := by
        intro heq
        subst heq
        obtain ⟨hl', -, hnf⟩ := (ht.linked o wb' hthr).mp hmem
        rw [hl'.object_eq hl] at hnf
        exact hnf hf
      simp only [setPc_pc, update_self, setPc_wb_status, update_of_ne hne]
      exact ⟨(hlive o' wb').mpr ⟨hl, hne⟩, ha⟩
    · simp only [setPc_pc, update_self]
      exact hstat
    · simp only [setPc_pc, update_self]
      exact hsig
    · exact ht.decremented
    · intro c hc
      simp only [setPc_pc, update_self] at hc
      exact ht.id c (hcall c hc)
  · intro c hc
    simp only [setPc_pc, update_self] at hc
    exact absurd hc (hstop c)

/-! ### Beginning a wait -/

section
variable (h : Ok s q) {id : Nat} (hid : s.calls t ≤ id)
include h hid

theorem Ok.not_live_timeout : ¬ (s.pc wb.thread).Live wb.thread (.timeout t id) wb := by
  intro hl
  obtain ⟨c, i, hc, -, ho⟩ := hl.exists
  obtain ⟨ht, hci⟩ := object_eq_timeout ho.symm
  have hlt := (h.thread wb.thread).id c hc
  rw [← ht, ← hci] at hlt
  omega

theorem Ok.queue_timeout_eq_nil : q (.timeout t id) = [] := by
  rw [List.eq_nil_iff_forall_not_mem]
  intro wb hmem
  exact h.not_live_timeout hid (((h.thread wb.thread).linked _ wb rfl).mp hmem).1

theorem Ok.flight_timeout : flight (s.lock (.timeout t id)) = none := by
  cases hf : flight (s.lock (.timeout t id)) with
  | none => rfl
  | some wb => exact absurd ((h.thread wb.thread).flight _ wb rfl hf).1 (h.not_live_timeout hid)

end

theorem begin_wait_fields (s : State) (t : Nat) (c : Call) :
    (begin_wait s t c).pc = update s.pc t (.scan c 0) ∧
    (begin_wait s t c).status = update s.status t .inProgress ∧
    (begin_wait s t c).calls = update s.calls t (s.calls t + 1) ∧
    (begin_wait s t c).delivered = update s.delivered t [] ∧
    (begin_wait s t c).decremented = update s.decremented t [] ∧
    (∀ wb, wb.thread ≠ t → (begin_wait s t c).wb_status wb = s.wb_status wb) ∧
    ((begin_wait s t c).links = s.links ∨
      (begin_wait s t c).links = s.links.init (.timeout t c.id)) ∧
    (∀ o, (begin_wait s t c).lock o = s.lock o ∨
      (o = .timeout t c.id ∧ (begin_wait s t c).lock o = none)) := by
  unfold begin_wait
  split
  · refine ⟨rfl, rfl, rfl, rfl, rfl, ?_, .inr rfl, ?_⟩
    · intro wb hwb
      have hne : wb ≠ .timer t c.id := fun heq => hwb (heq ▸ rfl)
      simp [hne]
    · intro o
      by_cases ho : o = .timeout t c.id
      · exact .inr ⟨ho, by simp [ho]⟩
      · exact .inl (by simp [ho])
  · exact ⟨rfl, rfl, rfl, rfl, rfl, fun _ _ => rfl, .inl rfl, fun _ => .inl rfl⟩

theorem Ok.flight_begin_wait (h : Ok s q) (hid : c.id = s.calls t) :
    flight ((begin_wait s t c).lock o) = flight (s.lock o) := by
  obtain ⟨-, -, -, -, -, -, -, hlock⟩ := begin_wait_fields s t c
  rcases hlock o with hl | ⟨ho, hl⟩
  · rw [hl]
  · rw [hl, ho, h.flight_timeout hid.ge]
    rfl

theorem lock_of_begin_wait (h : (begin_wait s t c).lock o = some hold) : s.lock o = some hold := by
  obtain ⟨-, -, -, -, -, -, -, hlock⟩ := begin_wait_fields s t c
  rcases hlock o with hl | ⟨-, hl⟩
  · rw [← hl, h]
  · rw [hl] at h
    cases h

theorem Ok.begin_wait_frame (h : Ok s q) (hid : c.id = s.calls t) :
    Frame s (begin_wait s t c) q q t := by
  obtain ⟨hpc, hst, hcalls, hdl, hdec, hwb, -, -⟩ := begin_wait_fields s t c
  constructor
  · intro u hu
    simp [hpc, hu]
  · intro u hu
    simp [hst, hu]
  · intro u hu
    simp [hdl, hu]
  · intro u hu
    simp [hdec, hu]
  · intro u hu
    simp [hcalls, hu]
  · exact hwb
  · exact fun _ _ _ => .rfl
  · intro o wb _
    rw [h.flight_begin_wait hid]

theorem ThreadOk.flight_of_idle (h : ThreadOk s q t) (hpc : s.pc t = .idle)
    (hwb : wb.thread = t) : Wait.flight (s.lock o) ≠ some wb := by
  intro hf
  have hl := (h.flight o wb hwb hf).1
  rw [hpc] at hl
  exact hl

theorem Ok.begin_wait_thread (h : Ok s q) (hpc : s.pc t = .idle) (hid : c.id = s.calls t) :
    ThreadOk (begin_wait s t c) q t := by
  obtain ⟨hpc', hst', hcalls', hdl', hdec', -, -, -⟩ := begin_wait_fields s t c
  have ht := h.thread t
  constructor
  · intro o wb hwb
    rw [ht.linked o wb hwb, hpc, hpc', update_self]
    constructor
    · rintro ⟨hl, -⟩
      exact hl.elim
    · rintro ⟨⟨i, -, hi, -⟩, -⟩
      omega
  · intro o wb hwb hf
    rw [h.flight_begin_wait hid] at hf
    exact absurd hf (ht.flight_of_idle hpc hwb)
  · rw [hpc', hst', update_self, update_self]
    exact ⟨Nat.zero_le _, by simp⟩
  · rw [hpc', hst', hdl', update_self, update_self, update_self]
    constructor
    · intro _
      exact ⟨rfl, fun i hi => absurd hi (by omega)⟩
    · intro hs
      cases hs
  · rw [hdec', update_self]
    intro o ho
    cases ho
  · intro c' hc'
    rw [hpc', update_self] at hc'
    cases hc'
    rw [hcalls', update_self]
    omega

theorem Ok.begin_wait (h : Ok s q) (hpc : s.pc t = .idle) (hid : c.id = s.calls t) :
    Ok (begin_wait s t c) q := by
  obtain ⟨hpc', -, -, -, -, -, hlinks, hlock⟩ := begin_wait_fields s t c
  have hf := h.begin_wait_frame hid
  -- a waitblock that a signaller has belongs to another thread
  have hstatus : ∀ {o who pc wb}, s.lock o = some (.signal who pc) →
      flight (some (.signal who pc)) = some wb →
      (Wait.begin_wait s t c).status wb.thread = s.status wb.thread := by
    intro o who pc wb hl hfl
    apply hf.status
    intro heq
    exact (h.thread t).flight_of_idle hpc heq (by rw [hl, hfl])
  constructor
  · rcases hlinks with hl | hl
    · rw [hl]
      exact h.represents
    · rw [hl]
      exact h.represents.init (h.queue_timeout_eq_nil hid.ge)
  · intro u
    by_cases hu : u = t
    · rw [hu]
      exact h.begin_wait_thread hpc hid
    · exact (h.thread u).frame hf hu
  · intro o who pc u hl hw
    have hu := h.agent o who pc u (lock_of_begin_wait hl) hw
    have hne : u ≠ t := by
      intro heq
      rw [heq, hpc] at hu
      cases hu
    rw [hf.pc u hne]
    exact hu
  · intro o who wb hl
    have hl := lock_of_begin_wait hl
    rw [hstatus hl rfl]
    exact h.case2 o who wb hl
  · intro o who wb hl
    have hl := lock_of_begin_wait hl
    rw [hstatus hl rfl]
    exact h.case3 o who wb hl
  · intro u c' hu
    have hut : u ≠ t := by
      intro heq
      rw [heq, hpc', update_self] at hu
      simp at hu
    rw [hf.pc u hut] at hu
    rcases hlock (.timeout u c'.id) with hl | ⟨ho, -⟩
    · rw [hl]
      exact h.stop u c' hu
    · rw [Oid.timeout.injEq] at ho
      exact absurd ho.1 hut

theorem Ok.take (h : Ok s q) (hpc : s.pc t = .scan c i) (hi : i < c.count)
    (hst : s.status t = .inProgress) :
    Ok ((dispatch_object_consume cfg (satisfy s t (c.object t i) none) (c.object t i)
      t).setPc t (.check c (some i))) q := by
  have ht := h.thread t
  have hsig := ht.signals
  rw [hpc] at hsig
  -- in progress, so no signal has come yet: this one is the first
  obtain ⟨hdl, hnone⟩ := hsig.1 (by rw [hst]; simp)
  refine h.own (t := t) ?_ ?_ ?_ (by simp [satisfy]) (h.not_agent (by simp [hpc])) ?_ ?_
  · simpa [satisfy] using h.represents
  · constructor
    · intro u hu
      simp [satisfy, hu]
    · intro u hu
      simp [satisfy, hu]
    · intro u hu
      simp [satisfy, hu]
    · intro u hu
      simp only [setPc_decremented]
      unfold dispatch_object_consume
      split
      · rfl
      · simp [satisfy, hu]
    · intro u _
      simp [satisfy]
    · intro wb _
      simp [satisfy]
    · exact fun _ _ _ => .rfl
    · intro o wb _
      simp [satisfy]
  · constructor
    · intro o wb hwb
      rw [ht.linked o wb hwb, hpc]
      simp [satisfy, Pc.Live]
    · intro o wb hwb hf
      have hf' := ht.flight o wb hwb (by simpa [satisfy] using hf)
      rw [hpc] at hf'
      simpa [satisfy, Pc.Live] using hf'
    · simp only [setPc_pc, update_self, setPc_status, consume_status, satisfy]
      exact ⟨hi, rfl⟩
    · simp only [setPc_pc, update_self, setPc_status, consume_status, setPc_delivered,
        consume_delivered, setPc_wb_status, consume_wb_status, satisfy]
      refine .inl ⟨by rw [hdl]; rfl, hnone⟩
    · intro o ho
      have hmem := mem_consume_decremented _ _ _ _ ho
      simp only [setPc_delivered, consume_delivered, satisfy, update_self]
      rcases hmem with hold | ⟨rfl, -⟩
      · obtain ⟨via, hvia⟩ := ht.decremented o hold
        exact ⟨via, List.mem_append_left _ hvia⟩
      · exact ⟨none, by simp⟩
    · intro c' hc'
      simp only [setPc_pc, update_self, Pc.call, Option.some.injEq] at hc'
      subst hc'
      simpa [satisfy] using ht.id c (by rw [hpc]; rfl)
  · right
    rw [hst]
    simp [satisfy]
  · intro c' hc'
    simp at hc'

/-! ### Leaving the loops -/

theorem Ok.scan_late (h : Ok s q) (hpc : s.pc t = .scan c i) (hi : i < c.count)
    (hst : s.status t ≠ .inProgress) : Ok (s.setPc t (.check c (some i))) q := by
  have hstat := (h.thread t).status
  have hsig := (h.thread t).signals
  rw [hpc] at hstat hsig
  have hsat : s.status t = .satisfied := by
    cases hs : s.status t with
    | inProgress => exact absurd hs hst
    | committed => exact absurd hs hstat.2
    | satisfied => rfl
  -- the signal came through a waitblock that the back-out has yet to reach
  obtain ⟨j, hj, hone⟩ := hsig.2 hsat
  exact h.goOn hpc (by simp) (fun _ _ => .rfl) ⟨hi, hsat⟩
    (.inr ⟨j, Nat.zero_le _, hj, hone⟩) (fun _ hc => hc) (by simp)

theorem Ok.backout (h : Ok s q) (hpc : s.pc t = .backout c n i) (hi : i < n)
    (hlock : s.lock (.obj (c.objects.getD i 0)) = none)
    (hact : s.wb_status (.internal t i) = .active) : ∃ q', Ok ({ s with
      wb_status := update s.wb_status (.internal t i) .inactive
      links := s.links.remove (.obj (c.objects.getD i 0)) (.internal t i) }.setPc t
        (.backout c n (i + 1))) q' := by
  have ht := h.thread t
  have hstat := ht.status
  have hsig := ht.signals
  rw [hpc] at hstat hsig
  obtain ⟨hwb, hobj⟩ := index_of_lt t (show i + 1 < c.count by have := hstat.2.1; omega)
  have hlive : (s.pc t).Live t (.obj (c.objects.getD i 0)) (.internal t i) := by
    rw [hpc]
    exact ⟨i, le_refl i, hi, hwb.symm, hobj.symm⟩
  have hmem := ht.mem_of_live rfl hlive hact hlock
  refine ⟨_, h.unlink _ _ rfl hmem (by simp [hpc]) ?_ ⟨hi, hstat.2⟩ ?_ ?_ (by simp)⟩
  · -- the window shrinks by the removed waitblock
    intro o' wb'
    rw [hpc, ← hwb]
    exact inWindow_succ
  · have hsame : ∀ j, (update s.wb_status (.internal t i) .inactive (c.waitblock t j) =
        .signaled) = (s.wb_status (c.waitblock t j) = .signaled) := by
      intro j
      by_cases heq : c.waitblock t j = .internal t i
      · simp [heq, hact]
      · simp [heq]
    rcases hsig with ⟨hdl, hnone⟩ | ⟨j, hij, hj, hdl, hone⟩
    · refine .inl ⟨hdl, ?_⟩
      intro j hj
      rw [Ne, hsame]
      exact hnone j hj
    · refine .inr ⟨j, ?_, hj, hdl, ?_⟩
      · -- the signaled waitblock is not the active one that was removed
        have hji : j ≠ i := by
          intro hji
          have := (hone j hj).mpr rfl
          rw [hji, hwb, hact] at this
          cases this
        omega
      · intro k hk
        rw [hsame]
        exact hone k hk
  · intro c' hc'
    rw [hpc]
    exact hc'

theorem final_signals (hi : i < c.count) (h : (Pc.final c i satisfier).SignalsOk t st dl wbst)
    (hsat : (wbst (c.waitblock t i) = .signaled ∧ satisfier = none ∧ satisfier' = some i) ∨
      (wbst (c.waitblock t i) ≠ .signaled ∧ satisfier' = satisfier)) :
    (Pc.final c (i + 1) satisfier').SignalsOk t st dl wbst := by
  obtain ⟨hopen, hiff⟩ := h
  refine ⟨hopen, ?_⟩
  intro j
  rcases hsat with ⟨hs, hnone, hsome⟩ | ⟨hns, heq⟩
  · rw [hsome]
    constructor
    · intro hj
      cases hj
      exact ⟨Nat.lt_succ_self i, hi, hs⟩
    · rintro ⟨hj, hjc, hjs⟩
      by_cases hji : j = i
      · rw [hji]
      · have := (hiff j).mpr ⟨by omega, hjc, hjs⟩
        rw [hnone] at this
        cases this
  · rw [heq, hiff j]
    constructor
    · rintro ⟨hj, hjc, hjs⟩
      exact ⟨by omega, hjc, hjs⟩
    · rintro ⟨hj, hjc, hjs⟩
      have hji : j ≠ i := fun hji => hns (hji ▸ hjs)
      exact ⟨by omega, hjc, hjs⟩

section
variable (h : Ok s q) {satisfier : Option Nat} (hpc : s.pc t = .final c i satisfier)
  (hi : i < c.count)
include h hpc hi

theorem Ok.final_pass (hna : s.wb_status (c.waitblock t i) ≠ .active)
    (hsat : (s.wb_status (c.waitblock t i) = .signaled ∧ satisfier = none ∧ satisfier' = some i) ∨
      (s.wb_status (c.waitblock t i) ≠ .signaled ∧ satisfier' = satisfier)) :
    Ok (s.setPc t (.final c (i + 1) satisfier')) q := by
  have hstat := (h.thread t).status
  have hsig := (h.thread t).signals
  rw [hpc] at hstat hsig
  refine h.setPc ?_ ⟨hi, hstat.2⟩ (final_signals hi hsig hsat) ?_ (h.not_agent (by simp [hpc]))
    (by simp)
  · intro o wb hact
    rw [hpc]
    constructor
    · rintro ⟨j, hij, hj, hw, ho⟩
      exact ⟨j, by omega, hj, hw, ho⟩
    · rintro ⟨j, hij, hj, hw, ho⟩
      have hji : j ≠ i := by
        intro hji
        rw [hw, hji] at hact
        exact hna hact
      exact ⟨j, by omega, hj, hw, ho⟩
  · intro c' hc'
    rw [hpc]
    exact hc'

theorem Ok.final_active (hlock : s.lock (c.object t i) = none)
    (hact : s.wb_status (c.waitblock t i) = .active) :
    ∃ q', Ok ({ s with links := s.links.remove (c.object t i) (c.waitblock t i) }.setPc t
      (.final c (i + 1) satisfier)) q' := by
  have ht := h.thread t
  have hstat := ht.status
  have hsig := ht.signals
  rw [hpc] at hstat hsig
  have hlive : (s.pc t).Live t (c.object t i) (c.waitblock t i) := by
    rw [hpc]
    exact ⟨i, le_refl i, hi, rfl, rfl⟩
  have hmem := ht.mem_of_live (waitblock_thread c t i) hlive hact hlock
  -- the final scan leaves the status as it is, which is `unlink` with the same status
  have hsame : update s.wb_status (c.waitblock t i) .active = s.wb_status := by
    rw [← hact]
    exact update_eq_self _ _
  have hunlink := h.unlink (.final c (i + 1) satisfier) .active
    (waitblock_thread c t i) hmem (by simp [hpc]) ?_ ⟨hi, hstat.2⟩ ?_ ?_ (by simp)
  · rw [hsame] at hunlink
    exact ⟨_, hunlink⟩
  · intro o' wb'
    rw [hpc]
    exact inWindow_succ
  · rw [hsame]
    exact final_signals hi hsig (.inr ⟨by rw [hact]; simp, rfl⟩)
  · intro c' hc'
    rw [hpc]
    exact hc'

end

theorem Ok.commit (h : Ok s q) (hpc : s.pc t = .commit c) (hst : s.status t = .inProgress) :
    Ok ({ s with status := update s.status t .committed }.setPc t (.blocked c)) q := by
  have ht := h.thread t
  have hsig := ht.signals
  rw [hpc, hst] at hsig
  refine h.own (t := t) h.represents ?_ ?_ rfl (h.not_agent (by simp [hpc])) ?_ (by simp)
  · constructor
    · intro u hu
      simp [hu]
    · intro u hu
      simp [hu]
    · exact fun _ _ => rfl
    · exact fun _ _ => rfl
    · exact fun _ _ => rfl
    · exact fun _ _ => rfl
    all_goals exact fun _ _ _ => .rfl
  · constructor
    · intro o wb hwb
      rw [ht.linked o wb hwb, hpc]
      simp [Pc.Live]
    · intro o wb hwb hf
      have hf' := ht.flight o wb hwb hf
      rw [hpc] at hf'
      simpa [Pc.Live] using hf'
    · simp [Pc.StatusOk]
    · simp only [setPc_pc, update_self, setPc_status, setPc_delivered, setPc_wb_status]
      exact ⟨fun _ => hsig.1 (by simp), fun habs => by cases habs⟩
    · exact ht.decremented
    · intro c' hc'
      simp only [setPc_pc, update_self, Pc.call, Option.some.injEq] at hc'
      subst hc'
      exact ht.id c (by rw [hpc]; rfl)
  · right
    rw [hst]
    simp

theorem Ok.stopped (h : Ok s q) (hpc : s.pc t = .stopEnter c ∨ s.pc t = .stopStore c) :
    Ok (s.setPc t (.final c 0 none)) q := by
  have hstat := (h.thread t).status
  have hsig := (h.thread t).signals
  -- `timer_stop` returns at once or after its loop; both know the same
  have hsat : s.status t = .satisfied ∧
      OpenOk c t c.count (s.status t) (s.delivered t) s.wb_status ∧
      (∀ o wb, (s.pc t).Live t o wb ↔ InWindow c t 0 c.count o wb) ∧
      (s.pc t).call = some c ∧ ∀ o, s.pc t ≠ .signalling o := by
    rcases hpc with hpc | hpc <;> rw [hpc] at hstat hsig ⊢ <;>
      exact ⟨hstat, hsig, fun _ _ => .rfl, rfl, by simp⟩
  obtain ⟨hs, hopen, hlive, hcall, hns⟩ := hsat
  refine h.setPc ?_ ⟨Nat.zero_le _, hs⟩ ⟨hopen, by simp⟩ ?_ (h.not_agent hns) (by simp)
  · intro o wb _
    rw [hlive]
    exact .rfl
  · rw [hcall]
    exact fun _ hc => hc

theorem Ok.final_end (h : Ok s q) {satisfier : Option Nat} (hpc : s.pc t = .final c i satisfier)
    (hi : c.count ≤ i) :
    Ok (s.setPc t (.returned c (if satisfier = c.timer_i then none else satisfier))) q := by
  have hstat := (h.thread t).status
  have hsig := (h.thread t).signals
  rw [hpc] at hstat hsig
  refine h.setPc ?_ trivial ?_ ?_ (h.not_agent (by simp [hpc])) (by simp)
  · intro o wb _
    rw [hpc]
    constructor
    · exact fun hl => hl.elim
    · rintro ⟨j, hij, hj, -⟩
      omega
  · -- the result is the signaled waitblock, through which the signal came
    obtain ⟨hopen, hiff⟩ := hsig
    obtain ⟨j, hj, hdl, hone⟩ := hopen.2 hstat.2
    refine ⟨⟨_, hdl⟩, ?_⟩
    intro k hk
    have hsatk : satisfier = some k := by
      split at hk
      · cases hk
      · exact hk
    obtain ⟨-, hkc, hks⟩ := (hiff k).mp hsatk
    have hkj := (hone k hkc).mp hks
    rw [← hkj] at hdl
    exact ⟨_, hdl⟩
  · rw [hpc]
    exact fun _ hc => hc

end Wait
