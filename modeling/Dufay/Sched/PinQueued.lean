import Dufay.Sched.PinMoves

/-! # Pinning a queued thread

`sched_remove_from_queue` decrements the load of the CPU it is told,
unlinks the thread from the queue that it is in, and clears bits of the
bitmap that `runq` points to if the queue of the thread's priority is
empty then (`Unlinks`). These need not be about one CPU or one queue.
-/

open Lts Tailq Function

namespace Ule

open CpuLocal

open SchedPercpu

variable {n : Nat}

/-! ### What depends on the lists only -/

namespace SchedPercpu

variable {α : Type} {sd sd' : SchedPercpu α}

theorem runq_setRunq (sd : SchedPercpu α) (kind kind' : RunqKind) (runq : Runqueue α) :
    (sd.setRunq kind runq).runq kind' = if kind' = kind then runq else sd.runq kind' := by
  match kind, kind' with
  | .realtime, .realtime => rfl
  | .realtime, .calendar => rfl
  | .calendar, .realtime => rfl
  | .calendar, .calendar => rfl

variable (h : sd'.queue = sd.queue)

include h

theorem runq_queues_congr (kind : RunqKind) : (sd'.runq kind).queues = (sd.runq kind).queues := by
  funext i
  exact congrFun h (.runq kind i)

theorem lists_congr : sd'.realtime_runq.queues = sd.realtime_runq.queues ∧
    sd'.calendar_queue.queues = sd.calendar_queue.queues ∧ sd'.idle_queue = sd.idle_queue :=
  ⟨runq_queues_congr h .realtime, runq_queues_congr h .calendar, congrFun h .idle⟩

theorem size_congr : sd'.size = sd.size := by
  obtain ⟨hrt, hcal, hidle⟩ := lists_congr h
  unfold size Runqueue.size
  rw [hrt, hcal, hidle]

theorem count_congr [DecidableEq α] : sd'.count x = sd.count x := by
  obtain ⟨hrt, hcal, hidle⟩ := lists_congr h
  unfold count Runqueue.count
  rw [hrt, hcal, hidle]

theorem eligible_congr [DecidableEq α] : sd'.Eligible f ↔ sd.Eligible f := by
  obtain ⟨hrt, hcal, hidle⟩ := lists_congr h
  unfold Eligible
  rw [hrt, hcal, hidle]

end SchedPercpu

/-! ### Changing queues -/

/-- From `s` to `s'` only queues, bitmaps and loads have changed. -/
structure QueuesOnly (s s' : State n) : Prop where
  threads : s'.threads = s.threads
  cpu : ∀ d, s'.cpus d = (s.cpus d).setQueues (s'.cpus d).sched_data

theorem QueuesOnly.refl (s : State n) : QueuesOnly s s := ⟨rfl, fun _ => rfl⟩

variable {s : State n}

theorem QueuesOnly.setQueues (h : QueuesOnly s s') (c : Fin (n + 1))
    (sd : SchedPercpu (Tid n)) : QueuesOnly s (setCpu s' c ((s'.cpus c).setQueues sd)) := by
  refine ⟨h.threads, fun d => ?_⟩
  by_cases hd : d = c
  · rw [hd, setCpu_self, h.cpu c]
    rfl
  · rw [setCpu_ne _ _ hd]
    exact h.cpu d

def State.status (s : State n) (d : Fin (n + 1)) (kind : RunqKind) : BitVec 64 :=
  ((s.cpus d).sched_data.runq kind).status

/-- **Unlinking** `td` from queue `name`: the load of `p` is decremented, and
if the queue of its priority in `runq` is empty then, the bits of
`int_mask` are cleared there. -/
structure Unlinks (s s' : State n) (p : Fin (n + 1)) (td : Tid n) (name : QueueName n) : Prop where
  only : QueuesOnly s s'
  queue : s'.queue = Function.update s.queue name ((s.queue name).erase td)
  load : ∀ d, (s'.cpus d).sched_data.load = (s.cpus d).sched_data.load - if d = p then 1 else 0
  status : ∀ d kind, s'.status d kind =
    if (s.threads td).runq = some (d, kind) ∧
        s'.queue ⟨d, .runq kind (s.threads td).priority⟩ = [] then
      s.status d kind &&& int_mask (s.threads td).priority
    else s.status d kind

section Primitives

variable (s : State n)

theorem decrement_load_queue : (decrement_load s p).queue = s.queue := by
  funext name
  refine setCpu_congr s (·.sched_data.queue name.slot) ?_ name.cpu
  match name.slot with
  | .runq .realtime i => rfl
  | .runq .calendar i => rfl
  | .idle => rfl

theorem decrement_load_load : ((decrement_load s p).cpus d).sched_data.load =
      (s.cpus d).sched_data.load - if d = p then 1 else 0 := by
  unfold decrement_load
  by_cases hd : d = p
  · rw [hd, setCpu_self, if_pos rfl]
    rfl
  · rw [setCpu_ne _ _ hd, if_neg hd, UInt64.sub_zero]

theorem decrement_load_status : (decrement_load s p).status d kind = s.status d kind := by
  refine setCpu_congr s (fun cpu => (cpu.sched_data.runq kind).status) ?_ d
  cases kind with
  | realtime => rfl
  | calendar => rfl

variable (name : QueueName n) (q : List (Tid n))

theorem setQueue_load :
    ((setQueue s name q).cpus d).sched_data.load = (s.cpus d).sched_data.load :=
  setCpu_congr s (·.sched_data.load) (load_setQueue _ _ _) d

theorem setQueue_status : (setQueue s name q).status d kind = s.status d kind := by
  refine setCpu_congr s (fun cpu => (cpu.sched_data.runq kind).status) ?_ d
  match name.slot, kind with
  | .runq .realtime i, .realtime => rfl
  | .runq .realtime i, .calendar => rfl
  | .runq .calendar i, .realtime => rfl
  | .runq .calendar i, .calendar => rfl
  | .idle, .realtime => rfl
  | .idle, .calendar => rfl

variable (c : Fin (n + 1)) (kind : RunqKind) (i : Fin 64)

theorem clear_status_queue : (clear_status s c kind i).queue = s.queue := by
  funext name
  refine setCpu_congr s (·.sched_data.queue name.slot) ?_ name.cpu
  match name.slot, kind with
  | .runq .realtime j, .realtime => rfl
  | .runq .realtime j, .calendar => rfl
  | .runq .calendar j, .realtime => rfl
  | .runq .calendar j, .calendar => rfl
  | .idle, .realtime => rfl
  | .idle, .calendar => rfl

theorem clear_status_load :
    ((clear_status s c kind i).cpus d).sched_data.load = (s.cpus d).sched_data.load := by
  refine setCpu_congr s (·.sched_data.load) ?_ d
  cases kind with
  | realtime => rfl
  | calendar => rfl

theorem clear_status_status : (clear_status s c kind i).status d kind' =
      if d = c ∧ kind' = kind then s.status d kind' &&& int_mask i else s.status d kind' := by
  unfold State.status clear_status
  by_cases hd : d = c
  · rw [hd, setCpu_self]
    show (((s.cpus c).sched_data.setRunq kind _).runq kind').status = _
    rw [runq_setRunq]
    by_cases hkind : kind' = kind
    · rw [hkind, if_pos rfl, if_pos ⟨rfl, rfl⟩]
    · rw [if_neg hkind, if_neg fun h => hkind h.2]
  · rw [setCpu_ne _ _ hd, if_neg fun h => hd h.1]

end Primitives

theorem linkedIn_decrement_load : linkedIn (decrement_load s p) td = linkedIn s td := by
  unfold linkedIn
  rw [decrement_load_queue]

theorem tailq_remove_some
    (h : tailq_remove (decrement_load s p) head td = some s₁) : ∃ name, linkedIn s td = some name ∧
      s₁ = setQueue (decrement_load s p) name ((s.queue name).erase td) := by
  unfold tailq_remove at h
  rw [linkedIn_decrement_load, decrement_load_queue] at h
  split at h
  · cases h
  · next name hname =>
    split at h
    · cases h
      exact ⟨name, hname, rfl⟩
    · cases h

theorem tailq_remove_isSome (hname : linkedIn s td = some name) :
    (∃ s₁, tailq_remove (decrement_load s p) head td = some s₁) ↔
      head = name ∨ (s.queue name).getLast? ≠ some td := by
  unfold tailq_remove
  rw [linkedIn_decrement_load, hname, decrement_load_queue]
  dsimp only
  split
  · next hok => exact ⟨fun _ => hok, fun _ => ⟨_, rfl⟩⟩
  · next hbad =>
    constructor
    · intro h
      obtain ⟨s₁, hs₁⟩ := h
      cases hs₁
    · intro hok
      exact absurd hok hbad

theorem unlinks_setQueue (hkeep : ∀ d kind, (s.threads td).runq = some (d, kind) →
      (setQueue (decrement_load s p) name ((s.queue name).erase td)).queue ⟨d,
      .runq kind (s.threads td).priority⟩ ≠ []) :
    Unlinks s (setQueue (decrement_load s p) name ((s.queue name).erase td)) p td name := by
  refine ⟨((QueuesOnly.refl s).setQueues p _).setQueues name.cpu _, ?_, fun d => ?_,
    fun d kind => ?_⟩
  · rw [queue_setQueue, decrement_load_queue]
  · rw [setQueue_load, decrement_load_load]
  · rw [setQueue_status, decrement_load_status, if_neg fun h => hkeep d kind h.1 h.2]

theorem unlinks_clear_status (hrunq : (s.threads td).runq = some (d₀, kind₀))
    (hempty : (setQueue (decrement_load s p) name ((s.queue name).erase td)).queue ⟨d₀,
      .runq kind₀ (s.threads td).priority⟩ = []) :
    Unlinks s (clear_status (setQueue (decrement_load s p) name ((s.queue name).erase td)) d₀ kind₀
      (s.threads td).priority) p td name := by
  refine ⟨(((QueuesOnly.refl s).setQueues p _).setQueues name.cpu _).setQueues d₀ _, ?_,
    fun d => ?_, fun d kind => ?_⟩
  · rw [clear_status_queue, queue_setQueue, decrement_load_queue]
  · rw [clear_status_load, setQueue_load, decrement_load_load]
  · rw [clear_status_status, clear_status_queue, setQueue_status, decrement_load_status, hrunq]
    by_cases hd : d = d₀ ∧ kind = kind₀
    · obtain ⟨rfl, rfl⟩ := hd
      rw [if_pos ⟨rfl, rfl⟩, if_pos ⟨rfl, hempty⟩]
    · rw [if_neg hd, if_neg]
      intro h
      cases h.1
      exact hd ⟨rfl, rfl⟩

theorem sched_remove_from_queue_unlinks (h : sched_remove_from_queue s p td = some s') :
    ∃ name, linkedIn s td = some name ∧ Unlinks s s' p td name := by
  unfold sched_remove_from_queue at h
  dsimp only at h
  split at h
  · next hrunq =>
    obtain ⟨name, hname, rfl⟩ := tailq_remove_some h
    refine ⟨name, hname, unlinks_setQueue fun d kind hsome => ?_⟩
    rw [hrunq] at hsome
    cases hsome
  · next d₀ kind₀ hrunq =>
    split at h
    · cases h
    · next s₁ hs₁ =>
      obtain ⟨name, hname, rfl⟩ := tailq_remove_some hs₁
      refine ⟨name, hname, ?_⟩
      split at h
      · next hempty =>
        cases h
        exact unlinks_clear_status hrunq hempty
      · next hempty =>
        cases h
        apply unlinks_setQueue
        intro d kind hsome
        rw [hrunq] at hsome
        cases hsome
        exact hempty

theorem sched_remove_from_queue_isSome
    (hname : linkedIn s td = some name) : (∃ s', sched_remove_from_queue s p td = some s') ↔
      lookedFor s p td = name ∨ (s.queue name).getLast? ≠ some td := by
  unfold sched_remove_from_queue lookedFor
  cases hrunq : (s.threads td).runq with
  | none => exact tailq_remove_isSome hname
  | some runq =>
    dsimp only
    rw [← tailq_remove_isSome hname]
    constructor
    · intro h
      obtain ⟨s', hs'⟩ := h
      split at hs'
      · cases hs'
      · next s₁ hs₁ => exact ⟨s₁, hs₁⟩
    · intro h
      obtain ⟨s₁, hs₁⟩ := h
      rw [hs₁]
      dsimp only
      split
      all_goals exact ⟨_, rfl⟩

/-! ### The bitmaps after the removal -/

section Mask

variable {runq runq' : Runqueue (Tid n)} {td : Tid n} (hwf : runq.Wf)
  (hqueues : ∀ j, runq'.queues j = (runq.queues j).erase td)

include hwf hqueues

theorem Runqueue.wf_of_erase (hstatus : runq'.status = runq.status)
    (halone : ∀ j, runq.queues j ≠ [td]) : runq'.Wf := by
  intro j
  unfold Runqueue.bit
  rw [hstatus, hqueues j, Ne, List.erase_eq_nil_iff, not_or]
  constructor
  · intro h
    exact ⟨(hwf j).mp h, halone j⟩
  · intro h
    exact (hwf j).mpr h.1

theorem Runqueue.wf_iff_maskRight (hstatus : runq'.status =
      if runq'.queues i = [] then runq.status &&& int_mask i else runq.status)
    (halone : ∀ j, runq.queues j = [td] → j = i) : runq'.Wf ↔ MaskRight runq td i := by
  by_cases hempty : (runq.queues i).erase td = []
  · have hbit : ∀ j, runq'.bit j = true ↔ runq.queues j ≠ [] ∧ ¬ cleared i j = true := by
      intro j
      have hj := hwf j
      unfold Runqueue.bit cleared at *
      rw [hstatus, hqueues i, if_pos hempty, BitVec.getLsbD_and, Bool.and_eq_true, hj]
      simp
    unfold MaskRight
    simp only [hempty, true_implies]
    constructor
    · intro h
      refine ⟨fun j hj => ?_, fun hmem => ?_⟩
      · by_contra hleft
        rw [← hqueues j] at hleft
        exact ((hbit j).mp ((h j).mpr hleft)).2 hj
      · by_contra hkept
        have hset := (hbit i).mpr ⟨List.ne_nil_of_mem hmem, hkept⟩
        have hleft := (h i).mp hset
        rw [hqueues i] at hleft
        exact hleft hempty
    · intro h j
      obtain ⟨hcleared, hown⟩ := h
      rw [hbit j, hqueues j]
      constructor
      · intro hj
        obtain ⟨hne, hkept⟩ := hj
        intro hnil
        rcases List.erase_eq_nil_iff.mp hnil with hnil | hone
        · exact hne hnil
        · -- the queue of `td` is queue `i`, whose bit is cleared
          have hji := halone j hone
          subst hji
          apply hkept
          apply hown
          rw [hone]
          exact List.mem_singleton_self td
      · intro hj
        refine ⟨fun hnil => hj (by rw [hnil]; rfl), fun hc => hj (hcleared j hc)⟩
  · have hright : MaskRight runq td i := fun h => absurd h hempty
    refine iff_of_true ?_ hright
    rw [hqueues i, if_neg hempty] at hstatus
    apply Runqueue.wf_of_erase hwf hqueues hstatus
    intro j hone
    apply hempty
    rw [← halone j hone, hone]
    exact List.erase_cons_head ..

end Mask

theorem SchedPercpu.wf_iff_runq {α : Type} [DecidableEq α] (sd : SchedPercpu α) :
    sd.Wf ↔ ∀ kind, (sd.runq kind).Wf := by
  constructor
  · intro h kind
    cases kind with
    | realtime => exact h.realtime
    | calendar => exact h.calendar
  · intro h
    exact ⟨h .realtime, h .calendar⟩

/-! ### What a removal does to a CPU -/

section Removal

variable {t s₁ : State n} {p : Fin (n + 1)} {td : Tid n} {name : QueueName n}
  (h : Unlinks t s₁ p td name)

include h

theorem Unlinks.queue_self : (s₁.cpus name.cpu).sched_data.queue =
    ((t.cpus name.cpu).sched_data.setQueue name.slot ((t.queue name).erase td)).queue := by
  funext slot
  have hslot : s₁.queue ⟨name.cpu, slot⟩ = _ := congrFun h.queue ⟨name.cpu, slot⟩
  rw [SchedPercpu.queue_setQueue]
  by_cases heq : slot = name.slot
  · subst heq
    rw [update_self] at hslot ⊢
    exact hslot
  · rw [update_of_ne heq]
    rw [update_of_ne fun hn => heq (congrArg QueueName.slot hn)] at hslot
    exact hslot

theorem Unlinks.queue_ne (hd : d ≠ name.cpu) :
    (s₁.cpus d).sched_data.queue = (t.cpus d).sched_data.queue := by
  funext slot
  have hslot : s₁.queue ⟨d, slot⟩ = _ := congrFun h.queue ⟨d, slot⟩
  rw [update_of_ne fun hn => hd (congrArg QueueName.cpu hn)] at hslot
  exact hslot

theorem Unlinks.not_kept (hkept : Kept (t.cpus p)) (hd : p ≠ name.cpu) : ¬ Kept (s₁.cpus p) := by
  intro hkept'
  have hload := h.load p
  have hsize := size_congr (h.queue_ne hd)
  rw [hkept'.2, hsize, ← hkept.2, if_pos rfl] at hload
  have hzero : (1 : UInt64) = 0 := by
    grind
  exact absurd hzero (by decide)

variable (hmem : td ∈ t.queue name)

include hmem

theorem Unlinks.size_self :
    (s₁.cpus name.cpu).sched_data.size + 1 = (t.cpus name.cpu).sched_data.size := by
  have hsize := (t.cpus name.cpu).sched_data.size_setQueue name.slot ((t.queue name).erase td)
  have hlen := List.length_erase_of_mem hmem
  have hpos := List.length_pos_of_mem hmem
  have hlen' : ((t.cpus name.cpu).sched_data.queue name.slot).length = (t.queue name).length := rfl
  rw [size_congr h.queue_self]
  omega

theorem Unlinks.load_kept (hp : name.cpu = p) (hkept : Kept (t.cpus d)) :
    (s₁.cpus d).sched_data.load = UInt64.ofNat (s₁.cpus d).sched_data.size := by
  rw [h.load d, hkept.2]
  by_cases hd : d = p
  · have hsize := h.size_self hmem
    rw [hp] at hsize
    rw [hd, if_pos rfl, ← hsize, UInt64.ofNat_add]
    grind
  · rw [if_neg hd, UInt64.sub_zero, size_congr (h.queue_ne (by rw [hp]; exact hd))]

theorem Unlinks.holds (d : Fin (n + 1)) (x : Tid n) :
    (s₁.cpus d).holds x + (if d = name.cpu ∧ x = td then 1 else 0) = (t.cpus d).holds x := by
  have hon : (s₁.cpus d).on x = (t.cpus d).on x := by
    rw [h.only.cpu d]
    rfl
  have hnext : (s₁.cpus d).next x = (t.cpus d).next x := by
    rw [h.only.cpu d]
    rfl
  rw [holds_eq, holds_eq, hon, hnext]
  by_cases hd : d = name.cpu
  · subst hd
    have hcount := (t.cpus name.cpu).sched_data.count_setQueue name.slot ((t.queue name).erase td) x
    have hqueue : (t.cpus name.cpu).sched_data.queue name.slot = t.queue name := rfl
    rw [hqueue] at hcount
    rw [count_congr h.queue_self]
    by_cases hx : x = td
    · subst hx
      rw [List.count_erase_self] at hcount
      have hpos := List.count_pos_iff.mpr hmem
      rw [if_pos ⟨rfl, rfl⟩]
      omega
    · rw [List.count_erase_of_ne hx] at hcount
      rw [if_neg fun hh => hx hh.2]
      omega
  · rw [count_congr (h.queue_ne hd), if_neg fun hh => hd hh.1]
    omega

omit hmem

variable (honly : ∀ name', td ∈ t.queue name' → name' = name)

include honly

theorem Unlinks.queue_erase (name' : QueueName n) : s₁.queue name' = (t.queue name').erase td := by
  rw [h.queue]
  by_cases heq : name' = name
  · rw [heq, update_self]
  · have hnot : td ∉ t.queue name' := fun hin => heq (honly name' hin)
    rw [update_of_ne heq, List.erase_of_not_mem hnot]

omit h in
theorem lookedFor_of_alone (hfound : lookedFor t p td = name ∨ (t.queue name).getLast? ≠ some td)
    (halone : t.queue name' = [td]) : lookedFor t p td = name' := by
  have hname := honly name' (by rw [halone]; exact List.mem_singleton_self td)
  subst hname
  apply hfound.resolve_right
  rw [halone]
  simp

theorem Unlinks.wf_iff (hfound : lookedFor t p td = name ∨ (t.queue name).getLast? ≠ some td)
    (hwf : (t.cpus d).sched_data.Wf) :
    (s₁.cpus d).sched_data.Wf ↔ ∀ kind, (t.threads td).runq = some (d, kind) →
      MaskRight ((t.cpus d).sched_data.runq kind) td (t.threads td).priority := by
  have hqueues : ∀ kind j, ((s₁.cpus d).sched_data.runq kind).queues j =
      (((t.cpus d).sched_data.runq kind).queues j).erase td :=
    fun kind j => h.queue_erase honly ⟨d, .runq kind j⟩
  -- a queue that is emptied is that of the priority, in the run queue pointed to
  have halone : ∀ kind j, ((t.cpus d).sched_data.runq kind).queues j = [td] →
      (t.threads td).runq = some (d, kind) ∧ j = (t.threads td).priority := by
    intro kind j hone
    have halone : t.queue ⟨d, .runq kind j⟩ = [td] := hone
    have hlooked := lookedFor_of_alone honly hfound halone
    unfold lookedFor at hlooked
    split at hlooked
    · cases hlooked
    · next hrunq =>
      cases hlooked
      exact ⟨hrunq, rfl⟩
  rw [wf_iff_runq] at hwf ⊢
  apply forall_congr'
  intro kind
  have hstatus := h.status d kind
  by_cases hrunq : (t.threads td).runq = some (d, kind)
  · simp only [hrunq, true_and, true_implies] at hstatus ⊢
    exact Runqueue.wf_iff_maskRight (hwf kind) (hqueues kind) hstatus
      fun j hone => (halone kind j hone).2
  · simp only [hrunq, false_and, if_false] at hstatus
    refine iff_of_true ?_ fun hyes => absurd hyes hrunq
    exact Runqueue.wf_of_erase (hwf kind) (hqueues kind) hstatus
      fun j hone => hrunq (halone kind j hone).1

end Removal

/-! ### A thread in a queue of its last CPU -/

section Queued

variable {s : State n} {self p c : Fin (n + 1)} {k : Nat} {slot : QueueSlot}
  (hinv : RunqueueInv s) (hne : p ≠ c) (hmem : .thread k ∈ (s.cpus p).sched_data.queue slot)

include hinv hmem

theorem RunqueueInv.holds_of_queued : (s.cpus p).holds (.thread k) = 1 ∧
    (∀ d, d ≠ p → (s.cpus d).holds (.thread k) = 0) ∧ (s.cpus p).on (.thread k) = 0 ∧
    (s.cpus p).next (.thread k) = 0 ∧ (s.cpus p).sched_data.count (.thread k) = 1 := by
  have hcount : 0 < (s.cpus p).sched_data.count (.thread k) := (count_pos_iff _ _).mpr ⟨slot, hmem⟩
  have hsum := holds_eq s p (.thread k)
  obtain ⟨hone, hzero⟩ := hinv.only (show 0 < (s.cpus p).holds (.thread k) by omega)
  exact ⟨hone, hzero, by omega, by omega, by omega⟩

theorem RunqueueInv.queued_ne_next (d : Fin (n + 1)) :
    (s.cpus d).next_thread ≠ some (.thread k) := by
  intro hnext
  have hd := next_eq hnext (.thread k)
  rw [if_pos rfl] at hd
  obtain ⟨-, hzero, -, hp, -⟩ := hinv.holds_of_queued hmem
  by_cases hdp : d = p
  · rw [hdp] at hd
    omega
  · have hsum := holds_eq s d (.thread k)
    have h0 := hzero d hdp
    omega

theorem RunqueueInv.queued_only (hin : .thread k ∈ s.queue name) : name = ⟨p, slot⟩ := by
  have hcount := count_pos_of_mem hin
  obtain ⟨-, hzero, -, -, hone⟩ := hinv.holds_of_queued hmem
  have hcpu : name.cpu = p := by
    by_contra hd
    have hsum := holds_eq s name.cpu (.thread k)
    have h0 := hzero _ hd
    omega
  obtain ⟨d, slot'⟩ := name
  subst hcpu
  have hslot : slot' = slot := slot_unique (le_of_eq hone) hmem hin
  rw [hslot]

variable (hpreempts : should_preempt (s.threads (.thread k)) (s.cpus c) = true)

include hpreempts

theorem offered_displaced : ((offered s k c).cpus c).sched_data = displaced s c := by
  have hcpus : (pinTo s (.thread k) c).cpus c = s.cpus c := rfl
  unfold offered sched_try_preempt displaced
  dsimp only
  rw [should_preempt_pinTo, hcpus, if_pos hpreempts]
  cases hnext : (s.cpus c).next_thread with
  | none =>
    rw [setCpu_self]
    rfl
  | some x =>
    have hx : x ≠ .thread k := fun heq => hinv.queued_ne_next hmem c (heq ▸ hnext)
    rw [sched_insert_in_queue_cpus, setCpu_self, setCpu_threads, pinTo_threads_ne s c hx]
    rfl

theorem offered_queuesOf (d : Fin (n + 1)) :
    ((offered s k c).cpus d).sched_data = queuesOf s c d := by
  unfold queuesOf
  by_cases hd : d = c
  · rw [hd, if_pos rfl]
    exact offered_displaced hinv hmem hpreempts
  · rw [if_neg hd, offered_cpus_ne s k hd]

include hne

theorem offered_only (name : QueueName n) (hin : .thread k ∈ (offered s k c).queue name) :
    name = ⟨p, slot⟩ := by
  obtain ⟨-, hzero, -⟩ := hinv.holds_of_queued hmem
  by_cases hd : name.cpu = c
  · -- what is displaced on `c` is another thread
    have hcount := count_pos_of_mem hin
    have hsum := holds_eq (offered s k c) c (.thread k)
    have hholds := offered_holds s k c k
    rw [hzero c hne.symm, if_pos rfl] at hholds
    have hnext : ((offered s k c).cpus c).next (.thread k) = 1 := by
      unfold offered sched_try_preempt
      dsimp only
      rw [should_preempt_pinTo, show (pinTo s (.thread k) c).cpus c = s.cpus c from rfl,
        if_pos hpreempts]
      split
      · rw [sched_insert_in_queue_next, setCpu_self]
        exact if_pos rfl
      · rw [setCpu_self]
        exact if_pos rfl
    rw [hd] at hcount
    omega
  · have hin' : .thread k ∈ s.queue name := by
      unfold State.queue at hin ⊢
      rw [offered_cpus_ne s k hd] at hin
      exact hin
    exact hinv.queued_only hmem hin'

theorem linkedIn_offered : linkedIn (offered s k c) (.thread k) = some ⟨p, slot⟩ := by
  have hin : .thread k ∈ (offered s k c).queue ⟨p, slot⟩ := by
    unfold State.queue
    rw [offered_cpus_ne s k hne]
    exact hmem
  cases hlinked : linkedIn (offered s k c) (.thread k) with
  | none => exact absurd hin (linkedIn_eq_none.mp hlinked _)
  | some name => rw [offered_only hinv hne hmem hpreempts name (mem_of_linkedIn hlinked)]

omit hne in
theorem offered_thread_queued : (offered s k c).threads (.thread k) =
    { s.threads (.thread k) with pinned := true, last_cpu := some c } := by
  rw [offered_thread (hinv.queued_ne_next hmem c), if_pos hpreempts]

variable {s₁ : State n} (hunlinks : Unlinks (offered s k c) s₁ p (.thread k) ⟨p, slot⟩)

include hunlinks

theorem bookKept_unlinked_iff (hfound : lookedFor s p (.thread k) = ⟨p, slot⟩ ∨
      ((s.cpus p).sched_data.queue slot).getLast? ≠ some (.thread k)) :
    BookKept s₁ p c ↔ ∀ d kind, (s.threads (.thread k)).runq = some (d, kind) → d = p ∨ d = c →
      MaskRight ((queuesOf s c d).runq kind) (.thread k) (s.threads (.thread k)).priority := by
  have hthread := offered_thread_queued hinv hmem hpreempts
  have hmem' : .thread k ∈ (offered s k c).queue ⟨p, slot⟩ :=
    mem_of_linkedIn (linkedIn_offered hinv hne hmem hpreempts)
  have hfound' : lookedFor (offered s k c) p (.thread k) = ⟨p, slot⟩ ∨
      ((offered s k c).queue ⟨p, slot⟩).getLast? ≠ some (.thread k) := by
    unfold lookedFor State.queue
    rw [hthread, offered_cpus_ne s k hne]
    exact hfound
  have hkept : ∀ d, d = p ∨ d = c → Kept ((offered s k c).cpus d) := by
    intro d hd
    obtain ⟨hp, hc⟩ := offered_kept hinv k hne
    rcases hd with hd | hd
    · rw [hd]
      exact hp
    · rw [hd]
      exact hc
  have hwf : ∀ d, d = p ∨ d = c → ((s₁.cpus d).sched_data.Wf ↔
      ∀ kind, (s.threads (.thread k)).runq = some (d, kind) →
        MaskRight ((queuesOf s c d).runq kind) (.thread k) (s.threads (.thread k)).priority) := by
    intro d hd
    have h := hunlinks.wf_iff (offered_only hinv hne hmem hpreempts) hfound' (hkept d hd).1
    rw [hthread, offered_queuesOf hinv hmem hpreempts] at h
    exact h
  constructor
  · intro h d kind hrunq hd
    exact (hwf d hd).mp (h d hd).1 kind hrunq
  · intro h d hd
    exact ⟨(hwf d hd).mpr fun kind hrunq => h d kind hrunq hd,
      hunlinks.load_kept hmem' rfl (hkept d hd)⟩

omit hinv hmem hpreempts in
theorem unlinked_cpu : s₁.cpus p = (s.cpus p).setQueues (s₁.cpus p).sched_data := by
  have h := hunlinks.only.cpu p
  rw [offered_cpus_ne s k hne] at h
  exact h

omit hpreempts hne in
theorem unlinked_current :
    s₁.threads (s.cpus p).current_thread = s.threads (s.cpus p).current_thread := by
  obtain ⟨-, -, hon, -, -⟩ := hinv.holds_of_queued hmem
  rw [hunlinks.only.threads]
  apply offered_threads_ne
  · exact current_ne_of_on hon
  · intro hnext
    obtain ⟨j, hj⟩ := hinv.next_thread hnext
    rw [hj] at hnext
    exact hinv.current_ne_next hj c hnext

omit hpreempts in
theorem selects_unlinked_iff (hwf : (s₁.cpus p).sched_data.Wf) :
    Selects s₁ p ↔ ((s.cpus p).sched_data.setQueue slot
      (((s.cpus p).sched_data.queue slot).erase (.thread k))).Eligible (chargedFilter s p) := by
  have hfilter : chargedFilter s₁ p = chargedFilter s p := by
    unfold chargedFilter
    rw [unlinked_cpu hne hunlinks]
    show (charge_tick (s.cpus p).ticks (s₁.threads (s.cpus p).current_thread)).filter = _
    rw [unlinked_current hinv hmem hunlinks]
  have hqueue := hunlinks.queue_self
  unfold State.queue at hqueue
  rw [offered_cpus_ne s k hne] at hqueue
  rw [selects_iff hwf]
  unfold Replaceable
  rw [hfilter]
  exact eligible_congr hqueue

omit hpreempts in
theorem leaves_unlinked (hstays : ¬ Leaving s p j) : leaves s₁ p (.thread j) = 0 := by
  have hcpu : (s₁.cpus p).current_thread = (s.cpus p).current_thread := by
    rw [unlinked_cpu hne hunlinks]
    rfl
  apply if_neg
  intro h
  obtain ⟨hj, hnot⟩ := h
  rw [hcpu] at hj
  apply hstays
  refine ⟨hj.symm, fun hrunning => hnot ⟨?_, ?_⟩⟩
  · rw [hcpu, ← hj]
    intro heq
    cases heq
  · rw [hcpu, unlinked_current hinv hmem hunlinks, ← hj]
    exact hrunning

theorem moved_unlinked_iff (hwf : (s₁.cpus p).sched_data.Wf) :
    Moved s (dispatch_dpc s₁ p) k c ↔ ¬ (Asks s p ∧ (s.cpus p).next_thread ≠ none ∧
      ((s.cpus p).sched_data.setQueue slot
        (((s.cpus p).sched_data.queue slot).erase (.thread k))).Eligible (chargedFilter s p)) := by
  obtain ⟨hone, -, hon, hnextk, -⟩ := hinv.holds_of_queued hmem
  have hmem' : .thread k ∈ (offered s k c).queue ⟨p, slot⟩ :=
    mem_of_linkedIn (linkedIn_offered hinv hne hmem hpreempts)
  have hasks : Asks s₁ p ↔ Asks s p := by
    unfold Asks
    rw [unlinked_cpu hne hunlinks]
    rfl
  have hnext : (s₁.cpus p).next_thread = (s.cpus p).next_thread := by
    rw [unlinked_cpu hne hunlinks]
    rfl
  have hnext' : ∀ td, (s₁.cpus p).next td = (s.cpus p).next td := by
    intro td
    unfold next
    rw [hnext]
  have hleavesk : leaves s₁ p (.thread k) = 0 := by
    apply leaves_unlinked hinv hne hmem hunlinks
    intro hl
    exact current_ne_of_on hon hl.1
  have hdis := dispatch_dpc_dispatches s₁ p
  have hmoved := @moved_iff n s (dispatch_dpc s₁ p) k p c
    (fun j => (if Asks s₁ p ∧ Selects s₁ p then (s.cpus p).next (.thread j) else 0) +
      (if (Asks s₁ p ∧ Selects s₁ p) ∨ (s.cpus p).next_thread ≠ none then leaves s₁ p (.thread j)
        else 0) + if j = k then 1 else 0) hinv hne (by omega)
    (fun j => by
      have h := hunlinks.holds hmem' c (.thread j)
      rw [if_neg fun hh => hne hh.1.symm, Nat.add_zero] at h
      rw [hdis.ne c hne.symm, h, offered_holds])
    (fun j => by
      have h1 := hunlinks.holds hmem' p (.thread j)
      have h2 := hdis.moves.holds j
      rw [offered_cpus_ne s k hne] at h1
      simp only [true_and, Tid.thread.injEq] at h1
      rw [hnext, hnext'] at h2
      omega)
    (fun d j hdp hdc => by
      have h := hunlinks.holds hmem' d (.thread j)
      rw [if_neg fun hh => hdp hh.1, Nat.add_zero, offered_cpus_ne s k hdc] at h
      rw [hdis.ne d hdp, h])
  have hmissed := hinv.next_none_iff (hinv.queued_ne_next hmem p)
  rw [hmoved, ← selects_unlinked_iff hinv hne hmem hunlinks hwf, ← hasks]
  simp only [hnextk, hleavesk, ite_self, Nat.zero_add, if_true, true_and]
  constructor
  · intro h hlost
    obtain ⟨hasks', hsome, hselects⟩ := hlost
    apply hsome
    rw [← hmissed]
    intro j hj hstays
    have h0 := h j hj hstays
    rw [if_pos ⟨hasks', hselects⟩] at h0
    omega
  · intro h j hj hstays
    rw [leaves_unlinked hinv hne hmem hunlinks hstays, ite_self, if_neg hj, Nat.add_zero]
    split
    · next hboth =>
      have hnone : (s.cpus p).next_thread = none := by
        by_contra hsome
        exact h ⟨hboth.1, hsome, hboth.2⟩
      exact next_eq_zero hnone _
    · rfl

section

variable (hlast : (s.threads (.thread k)).last_cpu = some p)

include hlast

omit hmem hunlinks in
theorem sched_pin_preempting
    (hwaits : (s.threads (.thread k)).state ≠ .running) : sched_pin s self (.thread k) c =
      sched_remove_from_queue (offered s k c) p (.thread k) := by
  have hunlinked : ((insertedBy s c (.thread k)).any fun x => (linkedIn s x).isSome) = false := by
    unfold insertedBy
    rw [if_pos hpreempts]
    exact hinv.next_unlinked c
  rw [sched_pin_eq hlast hne, hunlinked, if_neg Bool.false_ne_true, if_neg hwaits]
  rfl

omit hinv hpreempts hunlinks in
theorem sched_pin_linked (hqueues : ¬ should_preempt (s.threads (.thread k)) (s.cpus c) = true) :
    sched_pin s self (.thread k) c = none := by
  have hlinked : ((insertedBy s c (.thread k)).any fun x => (linkedIn s x).isSome) = true := by
    unfold insertedBy
    rw [if_neg hqueues]
    show (linkedIn s (.thread k)).isSome = true
    rw [Option.isSome_iff_ne_none]
    intro hnone
    exact linkedIn_eq_none.mp hnone ⟨p, slot⟩ hmem
  rw [sched_pin_eq hlast hne, if_pos hlinked]

omit hunlinks in
theorem sched_pin_returns_iff (hwaits : (s.threads (.thread k)).state ≠ .running) :
    (∃ s₁, sched_pin s self (.thread k) c = some s₁) ↔ lookedFor s p (.thread k) = ⟨p, slot⟩ ∨
        ((s.cpus p).sched_data.queue slot).getLast? ≠ some (.thread k) := by
  rw [sched_pin_preempting hinv hne hpreempts hlast hwaits,
    sched_remove_from_queue_isSome (linkedIn_offered hinv hne hmem hpreempts)]
  unfold lookedFor State.queue
  rw [offered_thread_queued hinv hmem hpreempts, offered_cpus_ne s k hne]

omit hpreempts hunlinks in
/-- **A queued thread** moves if it preempts the new CPU and what
`sched_remove_from_queue` does fits the queue that it is in. -/
theorem pinMoves_queued (hwaits : (s.threads (.thread k)).state ≠ .running) :
    PinMoves s self k p c ↔ PinsQueued s k p c slot := by
  by_cases hpreempts : should_preempt (s.threads (.thread k)) (s.cpus c) = true
  · have hreturns := @sched_pin_returns_iff n s self p c k slot hinv hne hmem hpreempts hlast hwaits
    by_cases hfound : lookedFor s p (.thread k) = ⟨p, slot⟩ ∨
        ((s.cpus p).sched_data.queue slot).getLast? ≠ some (.thread k)
    · obtain ⟨s₁, hs₁⟩ := hreturns.mpr hfound
      have hremove := hs₁
      rw [sched_pin_preempting hinv hne hpreempts hlast hwaits] at hremove
      obtain ⟨name, hname, hunlinks⟩ := sched_remove_from_queue_unlinks hremove
      rw [linkedIn_offered hinv hne hmem hpreempts] at hname
      cases hname
      have haffinity : ((dispatch_dpc s₁ p).cpus p).holds (.thread k) = 0 →
          ((dispatch_dpc s₁ p).threads (.thread k)).affinity = (true, some c) := by
        intro h
        rw [dispatch_dpc_keeps_affinity (current_ne_of_holds h), hunlinks.only.threads]
        exact offered_affinity s k c
      rw [pinMoves_iff_moved hne hs₁ haffinity]
      have hbooks := bookKept_unlinked_iff hinv hne hmem hpreempts hunlinks hfound
      constructor
      · intro h
        have hmoved := moved_unlinked_iff hinv hne hmem hpreempts hunlinks (h.1 p (.inl rfl)).1
        exact ⟨hmem, hpreempts, hfound, hbooks.mp h.1, hmoved.mp h.2⟩
      · intro h
        have hkept := hbooks.mpr h.mask
        have hmoved := moved_unlinked_iff hinv hne hmem hpreempts hunlinks (hkept p (.inl rfl)).1
        exact ⟨hkept, hmoved.mpr h.keeps⟩
    · -- the macro is given the wrong queue
      constructor
      · intro h
        obtain ⟨s₁, hs₁, -⟩ := h
        exact absurd (hreturns.mp ⟨s₁, hs₁⟩) hfound
      · intro h
        exact absurd h.found hfound
  · constructor
    · intro h
      obtain ⟨s₁, hs₁, -⟩ := h
      rw [sched_pin_linked hne hmem hlast hpreempts] at hs₁
      cases hs₁
    · intro h
      exact absurd h.preempts hpreempts

end

end Queued

section All

variable {s : State n} {self p c : Fin (n + 1)} {k : Nat}

theorem not_pinMoves_elsewhere (hinv : RunqueueInv s) (hne : p ≠ c)
    (hlast : (s.threads (.thread k)).last_cpu = some p)
    (hwaits : (s.threads (.thread k)).state ≠ .running)
    (hnot : ∀ slot, .thread k ∉ (s.cpus p).sched_data.queue slot) : ¬ PinMoves s self k p c := by
  intro h
  obtain ⟨s₁, hpin, hkept, -⟩ := h
  rw [sched_pin_eq hlast hne, if_neg hwaits] at hpin
  split at hpin
  · cases hpin
  · obtain ⟨name, hname, hunlinks⟩ := sched_remove_from_queue_unlinks hpin
    have hin := mem_of_linkedIn hname
    have hcpu : p ≠ name.cpu := by
      intro heq
      have hin' : .thread k ∈ ((offered s k c).cpus name.cpu).sched_data.queue name.slot := hin
      rw [← heq, offered_cpus_ne s k hne] at hin'
      exact hnot _ hin'
    exact hunlinks.not_kept (offered_kept hinv k hne).1 hcpu (hkept p (.inl rfl))

/-- **Pinning moves a thread**, running or waiting, in exactly these cases. -/
theorem pinMoves_iff (hinv : RunqueueInv s) (hplace : InPlace s k)
    (hlast : (s.threads (.thread k)).last_cpu = some p) (hne : p ≠ c) :
    PinMoves s self k p c ↔ PinsRunning s self k p c ∨ ∃ slot, PinsQueued s k p c slot := by
  by_cases hrun : (s.threads (.thread k)).state = .running
  · have hcur : (s.cpus p).current_thread = .thread k := by
      rcases hplace with hcur | hoff
      · obtain ⟨d, hd, -⟩ := hcur
        have hdlast := hinv.last_cpu d k hd
        rw [hlast] at hdlast
        cases hdlast
        exact hd
      · exact absurd hrun (hinv.waiting k hoff)
    rw [pinMoves_running hinv hcur hrun hlast hne]
    constructor
    · intro h
      exact .inl h
    · intro h
      rcases h with h | h
      · exact h
      · -- a running thread is in no queue
        obtain ⟨slot, hq⟩ := h
        have hon : (s.cpus p).on (.thread k) = 1 := if_pos hcur
        have hnone := hinv.unlinked (d := p) (k := k) (by omega)
        exact absurd hq.mem (linkedIn_eq_none.mp hnone ⟨p, slot⟩)
  · have hnorun : ¬ PinsRunning s self k p c := fun h => hrun h.running
    by_cases hqueued : ∃ slot, .thread k ∈ (s.cpus p).sched_data.queue slot
    · obtain ⟨slot, hmem⟩ := hqueued
      rw [pinMoves_queued hinv hne hmem hlast hrun]
      constructor
      · intro h
        exact .inr ⟨slot, h⟩
      · intro h
        obtain ⟨slot', hq⟩ := h.resolve_left hnorun
        have hmem' : .thread k ∈ s.queue ⟨p, slot'⟩ := hq.mem
        cases hinv.queued_only hmem hmem'
        exact hq
    · refine iff_of_false ?_ ?_
      · exact not_pinMoves_elsewhere hinv hne hlast hrun fun slot hin => hqueued ⟨slot, hin⟩
      · intro h
        obtain ⟨slot, hq⟩ := h.resolve_left hnorun
        exact hqueued ⟨slot, hq.mem⟩

end All

/-! ### Two CPUs -/

theorem RunqueueInv.of_empty (hqueues : ∀ d, (s.cpus d).sched_data = emptyQueues)
    (hnext : ∀ d, (s.cpus d).next_thread = none)
    (hcur : ∀ d k, (s.cpus d).current_thread = .thread k → (s.threads (.thread k)).last_cpu =
      some d) : RunqueueInv s := by
  have hoff : ∀ td, offCpu s td = 0 := by
    intro td
    apply Finset.sum_eq_zero
    intro d _
    unfold CpuLocal.off
    rw [CpuLocal.next_eq_zero (hnext d), hqueues d, emptyQueues_count, Nat.add_zero]
  refine ⟨fun d => ?_, fun d => ?_, fun k => ?_, fun e => hoff _, hcur, fun k hk => ?_⟩
  · rw [hqueues d]
    exact emptyQueues_wf
  · rw [hqueues d]
    simp [emptyQueues, size, Runqueue.size]
  · -- the last CPU of a thread is the only one that runs it
    show onCpu s (.thread k) + offCpu s (.thread k) ≤ 1
    rw [hoff, Nat.add_zero]
    unfold onCpu CpuLocal.on
    rw [← Finset.card_filter, Finset.card_le_one]
    intro d hd e he
    have hdlast := hcur d k (Finset.mem_filter.mp hd).2
    have helast := hcur e k (Finset.mem_filter.mp he).2
    rw [hdlast] at helast
    exact Option.some.inj helast
  · rw [hoff] at hk
    omega

theorem oneRuns_inv : RunqueueInv (oneRuns (n := 1) 0) := by
  apply RunqueueInv.of_empty
  · exact Fin.forall_fin_two.mpr ⟨rfl, rfl⟩
  · exact Fin.forall_fin_two.mpr ⟨rfl, rfl⟩
  · exact Fin.forall_fin_two.mpr ⟨fun k hk => by cases hk; rfl, fun k hk => by cases hk⟩

theorem bothRun_inv : RunqueueInv (bothRun (n := 1) 0 1) := by
  apply RunqueueInv.of_empty
  · exact Fin.forall_fin_two.mpr ⟨rfl, rfl⟩
  · exact Fin.forall_fin_two.mpr ⟨rfl, rfl⟩
  · exact Fin.forall_fin_two.mpr ⟨fun k hk => by cases hk; rfl, fun k hk => by cases hk; rfl⟩

/-- Thread 0 pins itself to a CPU that is busy. -/
theorem pinMoves_iff_bothRun :
    RunqueueInv (bothRun (n := 1) 0 1) ∧ InPlace (bothRun (n := 1) 0 1) 0 ∧
    ((bothRun (n := 1) 0 1).threads (.thread 0)).last_cpu = some 0 ∧
    PinMoves (bothRun (n := 1) 0 1) 0 0 0 1 := by
  have hplace : InPlace (bothRun (n := 1) 0 1) 0 := Or.inl ⟨0, rfl, rfl⟩
  have hpins : PinsRunning (bothRun (n := 1) 0 1) 0 0 0 1 :=
    ⟨rfl, rfl, by decide +kernel, by rw [if_pos rfl]; rfl⟩
  refine ⟨bothRun_inv, hplace, rfl, ?_⟩
  exact (pinMoves_iff bothRun_inv hplace rfl (by decide)).mpr (.inl hpins)

/-- **A thread that pins itself to an idle CPU is duplicated**: it is the next
thread of that CPU and in a queue of the CPU it has left. -/
theorem pin_duplicates :
    ¬ ∀ (n : Nat) (s : State n) (self p c : Fin (n + 1)) (k : Nat), RunqueueInv s → InPlace s k →
      (s.threads (.thread k)).last_cpu = some p → p ≠ c →
      ∃ s₁, sched_pin s self (.thread k) c = some s₁ ∧
        places (dispatch_dpc s₁ p) (.thread k) = 1 := by
  intro h
  have hplace : InPlace (oneRuns (n := 1) 0) 0 := Or.inl ⟨0, rfl, rfl⟩
  obtain ⟨s₁, hpin, hone⟩ := h 1 (oneRuns 0) 0 0 1 0 oneRuns_inv hplace rfl (by decide)
  obtain ⟨s₂, hpin', htwo⟩ : ∃ s₁, sched_pin (oneRuns (n := 1) 0) 0 (.thread 0) 1 = some s₁ ∧
      places (dispatch_dpc s₁ 0) (.thread 0) = 2 := by decide +kernel
  rw [hpin] at hpin'
  cases hpin'
  omega

end Ule
