import Mathlib.Data.Nat.Basic
import Dufay.Framework.Lts

/-! # The rings of the NVMe driver

`nvme_send_command` of `io/nvme/controller/nvme.c` and `nvme_irq_handle`
with `nvme_anchor_flush` of `io/nvme/irq/main.c`: the two ends of a queue
pair, and the device in between, which writes completions into the slots
of the completion queue.

`nvme_send_command` wraps the tail of its ring and then writes the
doorbell. `nvme_irq_handle` writes the doorbell and then wraps the head.

A queue entry is found by pointer arithmetic from a `cid`, so the queue
entries of a pair are a function of all numbers here.
-/

open Lts Function

namespace Nvme

/-- `struct nvme_completion` -/
structure Completion where
  result : UInt32
  rsvd : UInt32
  sq_head : UInt16
  sq_id : UInt16
  cid : UInt16
  status : UInt16
  deriving DecidableEq

/-- `struct nvme_queue_entry` -/
structure QueueEntry where
  completion : Completion
  cid : Nat
  response : Int
  blocking : Bool
  deriving DecidableEq

/-- `struct nvme_command`: the union of the commands is its bytes. -/
structure Command where
  opcode : UInt8
  cid : UInt16
  body : List UInt8
  deriving DecidableEq

/-- A completion that was handled: the slot that it was read from, and the
value that was written to the doorbell. -/
structure Handled where
  slot : Nat
  completion : Completion
  doorbell : Nat
  deriving DecidableEq

/-- What happened to a queue pair. -/
inductive Event where
  /-- The queue entry of `cid` was cleared for a new command. -/
  | sent (cid : Nat)
  | handled (h : Handled)
  deriving DecidableEq

/-- `struct nvme_queue_pair`, with the memory that it points to. -/
structure QueuePair where
  entry_cnt : Nat
  queue_entry_cnt : Nat
  sq_tail : Nat
  cq_head : Nat
  irq : Int32
  submission_queue : Nat → Command
  completion_queue : Nat → Completion
  queue_entry : Nat → QueueEntry
  /-- The last value written to the doorbell of the submission queue. -/
  submission_doorbell : Nat
  /-- History that no step reads, the newest event first. -/
  log : List Event

/-- `struct nvme_controller` -/
structure Controller where
  nvme_queue_pair_cnt : Nat
  nvme_queue_pair : Nat → QueuePair

/-- The two static pointers of `irq/main.c`, which are physical addresses,
and the controllers at physical addresses. -/
structure Server where
  nvme_regs : Option UInt64
  nvme_controller : Option UInt64
  controllers : UInt64 → Controller

def Server.pair (s : Server) (paddr : UInt64) (i : Nat) : QueuePair :=
  (s.controllers paddr).nvme_queue_pair i

def Server.setPair (s : Server) (paddr : UInt64) (i : Nat) (q : QueuePair) : Server :=
  { s with
    controllers := update s.controllers paddr
      { s.controllers paddr with
        nvme_queue_pair := update (s.controllers paddr).nvme_queue_pair i q } }

/-- `nvme_send_command`: whether it succeeds, and the queue pair after it.
The queue entry is cleared before the test of `cid`. -/
def nvme_send_command (queue_pair : QueuePair) (submission : Command) (cid : Nat)
    (blocking : Bool) : Bool × QueuePair :=
  let queue_pair :=
    { queue_pair with
      queue_entry := update queue_pair.queue_entry cid
        { completion := ⟨0, 0, 0, 0, 0, 0⟩, cid := 0, response := 0, blocking := blocking }
      log := .sent cid :: queue_pair.log }
  if queue_pair.queue_entry_cnt < cid then (false, queue_pair)
  else
    let submission := { submission with cid := UInt16.ofNat cid }
    let sq_tail :=
      if queue_pair.entry_cnt ≤ queue_pair.sq_tail + 1 then 0 else queue_pair.sq_tail + 1
    (true,
      { queue_pair with
        submission_queue :=
          update queue_pair.submission_queue queue_pair.sq_tail submission
        sq_tail := sq_tail
        submission_doorbell := sq_tail })

/-- An anchor of an interrupt handler, by its `identifier`. -/
inductive Anchor where
  /-- `NVME_IRQ_MMIO` -/
  | mmio (paddr : UInt64)
  /-- `NVME_IRQ_CONTROLLER` -/
  | controller (paddr : UInt64)
  | other
  deriving DecidableEq

/-- `nvme_anchor_flush`: an unknown anchor is an error, and those before it
have been flushed. -/
def nvme_anchor_flush : List Anchor → Server → Bool × Server
  | [], s => (true, s)
  | .mmio paddr :: rest, s => nvme_anchor_flush rest { s with nvme_regs := some paddr }
  | .controller paddr :: rest, s => nvme_anchor_flush rest { s with nvme_controller := some paddr }
  | .other :: _, s => (false, s)

/-- The part of `nvme_irq_handle` that consumes a completion. `woken` is the
answer of the futex, and what it writes into the response. -/
def consume (queue : QueuePair) (woken : Option Int) : Bool × QueuePair :=
  let completion := queue.completion_queue queue.cq_head
  let cid := completion.cid.toNat
  let entry := { queue.queue_entry cid with cid := cid, completion := completion }
  let cq_head := queue.cq_head + 1
  let handled : Handled := ⟨queue.cq_head, completion, cq_head⟩
  let response := if entry.blocking then woken else some 1
  (response.isSome,
    { queue with
      queue_entry := update queue.queue_entry cid
        { entry with response := response.getD entry.response }
      -- the doorbell has been written before this
      cq_head := if cq_head = queue.entry_cnt then 0 else cq_head
      log := .handled handled :: queue.log })

/-- The first queue pair with the interrupt. -/
def Controller.find (controller : Controller) (vector : UInt64) : Option Nat :=
  (List.range controller.nvme_queue_pair_cnt).find? fun i =>
    decide ((controller.nvme_queue_pair i).irq.toInt64.toUInt64 = vector)

/-- `nvme_irq_handle`; `none` where it goes through a null pointer. The
anchors are missing if `private` or what it points to is null. -/
def nvme_irq_handle (s : Server) (anchors : List Anchor) (flush : Bool) (vector : UInt64)
    (woken : Option Int) : Option (Bool × Server) :=
  if anchors = [] then some (false, s)
  else
    let flushed := if flush then nvme_anchor_flush anchors s else (true, s)
    if flushed.1 = false then some flushed
    else
      let s := flushed.2
      match s.nvme_controller with
      | none => none
      | some paddr =>
        match (s.controllers paddr).find vector with
        | none => some (false, s)
        | some i =>
          -- the doorbell is a register
          if s.nvme_regs = none then none
          else
            let r := consume (s.pair paddr i) woken
            some (r.1, s.setPair paddr i r.2)

/-! ### The transition system -/

inductive Action where
  /-- The driver sends a command on a queue pair. -/
  | send (paddr : UInt64) (i : Nat) (submission : Command) (cid : Nat) (blocking : Bool)
  /-- The device writes a completion into a slot. -/
  | post (paddr : UInt64) (i slot : Nat) (completion : Completion)
  /-- An interrupt. -/
  | irq (anchors : List Anchor) (flush : Bool) (vector : UInt64) (woken : Option Int)
  deriving DecidableEq

def step (s : Server) : Action → Option Server
  | .send paddr i submission cid blocking =>
    some (s.setPair paddr i (nvme_send_command (s.pair paddr i) submission cid blocking).2)
  | .post paddr i slot completion =>
    let queue := s.pair paddr i
    some (s.setPair paddr i { queue with
      completion_queue := update queue.completion_queue slot completion })
  | .irq anchors flush vector woken =>
    (nvme_irq_handle s anchors flush vector woken).map Prod.snd

/-- Queue pairs as `nvme_queue_pair_instantiate` leaves them in fresh memory,
with any number of entries and any interrupt. -/
def Init (s : Server) : Prop :=
  ∀ paddr i, (s.pair paddr i).cq_head = 0 ∧ (s.pair paddr i).sq_tail = 0 ∧
    (s.pair paddr i).submission_doorbell = 0 ∧ (s.pair paddr i).log = []

def system : System Server Action where
  init := Init
  step := step

/-! ### What a step does to a queue pair -/

variable {s s' : Server} {paddr : UInt64} {i : Nat}

theorem pair_setPair (s : Server) (paddr paddr' : UInt64) (i i' : Nat) (q : QueuePair) :
    (s.setPair paddr i q).pair paddr' i' =
      if paddr' = paddr ∧ i' = i then q else s.pair paddr' i' := by
  unfold Server.setPair Server.pair
  by_cases hp : paddr' = paddr
  · subst hp
    by_cases hi : i' = i
    · subst hi
      simp
    · simp [hi]
  · simp [hp]

theorem nvme_anchor_flush_pair : (nvme_anchor_flush anchors s).2.pair paddr i = s.pair paddr i := by
  induction anchors generalizing s with
  | nil => rfl
  | cons anchor rest ih =>
    cases anchor with
    | mmio p => exact ih
    | controller p => exact ih
    | other => rfl

/-- The ways in which a step changes a queue pair. -/
inductive Changes (q : QueuePair) : QueuePair → Prop where
  | same : Changes q q
  | send (submission : Command) (cid : Nat) (blocking : Bool) :
      Changes q (nvme_send_command q submission cid blocking).2
  | post (slot : Nat) (completion : Completion) : Changes q { q with
        completion_queue := update q.completion_queue slot completion }
  | consume (woken : Option Int) : Changes q (consume q woken).2

theorem Changes.setPair (h : Changes (s.pair paddr i) q) (paddr' : UInt64)
    (i' : Nat) : Changes (s.pair paddr' i') ((s.setPair paddr i q).pair paddr' i') := by
  rw [pair_setPair]
  split
  · next heq =>
    obtain ⟨rfl, rfl⟩ := heq
    exact h
  · exact .same

theorem nvme_irq_handle_changes (h : nvme_irq_handle s anchors flush vector woken = some r) :
    Changes (s.pair paddr i) (r.2.pair paddr i) := by
  have hflush : ∀ paddr i, (if flush then nvme_anchor_flush anchors s else (true, s)).2.pair paddr i
      = s.pair paddr i := by
    intro paddr i
    cases flush with
    | true => exact nvme_anchor_flush_pair
    | false => rfl
  unfold nvme_irq_handle at h
  split at h
  · cases h
    exact .same
  · dsimp only at h
    generalize (if flush then nvme_anchor_flush anchors s else (true, s)) = flushed at h hflush
    rw [← hflush paddr i]
    split at h
    · cases h
      exact .same
    · split at h
      · cases h
      · next p hcontroller =>
        split at h
        · cases h
          exact .same
        · next j hfind =>
          split at h
          · cases h
          · cases h
            exact (Changes.consume woken).setPair paddr i

theorem step_changes (h : step s a = some s') (paddr : UInt64) (i : Nat) :
    Changes (s.pair paddr i) (s'.pair paddr i) := by
  cases a with
  | send p j submission cid blocking =>
    cases h
    exact (Changes.send submission cid blocking).setPair paddr i
  | post p j slot completion =>
    cases h
    exact (Changes.post slot completion).setPair paddr i
  | irq anchors flush vector woken =>
    obtain ⟨r, hr, rfl⟩ := Option.map_eq_some_iff.mp h
    exact nvme_irq_handle_changes hr

/-! ### The completion ring -/

def handledCount : List Event → Nat
  | [] => 0
  | .sent _ :: older => handledCount older
  | .handled _ :: older => handledCount older + 1

/-- The completion of `cid` that was handled last, if no command was sent
with that `cid` since. -/
def latest : List Event → Nat → Option Completion
  | [], _ => none
  | .sent cid' :: older, cid => if cid = cid' then none else latest older cid
  | .handled h :: older, cid =>
    if cid = h.completion.cid.toNat then some h.completion else latest older cid

/-- A ring as a controller expects it. With `n` completions handled before,
the next one is read from slot `n` modulo the number of entries, the
doorbell is given the new head, and the completion is found in the queue
entry of its `cid`. -/
structure CompletionRing (q : QueuePair) : Prop where
  slot : ∀ newer h older, q.log = newer ++ .handled h :: older →
    h.slot = handledCount older % q.entry_cnt
  doorbell : ∀ newer h older, q.log = newer ++ .handled h :: older →
    h.doorbell = (handledCount older + 1) % q.entry_cnt ∧ h.doorbell < q.entry_cnt
  recorded : ∀ cid completion, latest q.log cid = some completion →
    (q.queue_entry cid).cid = cid ∧ (q.queue_entry cid).completion = completion

/-- What the handler keeps, for a ring with entries. -/
structure RingOk (q : QueuePair) : Prop where
  head : q.cq_head = handledCount q.log % q.entry_cnt
  slot : ∀ newer h older, q.log = newer ++ .handled h :: older →
    h.slot = handledCount older % q.entry_cnt
  /-- The head is published before it wraps. -/
  doorbell : ∀ newer h older, q.log = newer ++ .handled h :: older →
    h.doorbell = handledCount older % q.entry_cnt + 1
  recorded : ∀ cid completion, latest q.log cid = some completion →
    (q.queue_entry cid).cid = cid ∧ (q.queue_entry cid).completion = completion

theorem cons_eq_append {older : List Event} (heq : e :: log = newer ++ .handled h :: older) :
    (e = .handled h ∧ log = older) ∨ ∃ newer', log = newer' ++ .handled h :: older := by
  cases newer with
  | nil =>
    cases heq
    exact .inl ⟨rfl, rfl⟩
  | cons e' newer' =>
    rw [List.cons_append, List.cons.injEq] at heq
    exact .inr ⟨newer', heq.2⟩

theorem wrap_head (hc : 1 ≤ c) : (if m % c + 1 = c then 0 else m % c + 1) = (m + 1) % c := by
  have hlt := Nat.mod_lt m hc
  rw [← Nat.mod_add_mod m c 1]
  split
  · next heq => rw [heq, Nat.mod_self]
  · next hne => exact (Nat.mod_eq_of_lt (by omega)).symm

theorem RingOk.send (h : RingOk q) (submission : Command) (cid : Nat)
    (blocking : Bool) : RingOk (nvme_send_command q submission cid blocking).2 := by
  -- only the queue entry and the log matter, and they do not depend on the test
  have hsame : ∀ q' : QueuePair, q'.entry_cnt = q.entry_cnt → q'.cq_head = q.cq_head →
      q'.log = .sent cid :: q.log → (∀ k, k ≠ cid → q'.queue_entry k = q.queue_entry k) →
      RingOk q' := by
    intro q' hcnt hhead hlog hentry
    have hsplit : ∀ newer hd older, q'.log = newer ++ .handled hd :: older →
        ∃ newer', q.log = newer' ++ .handled hd :: older := by
      intro newer hd older heq
      rw [hlog] at heq
      rcases cons_eq_append heq with ⟨hcon, -⟩ | hrest
      · cases hcon
      · exact hrest
    constructor
    · rw [hhead, hlog, hcnt]
      exact h.head
    · intro newer hd older heq
      obtain ⟨newer', heq'⟩ := hsplit newer hd older heq
      rw [hcnt]
      exact h.slot newer' hd older heq'
    · intro newer hd older heq
      obtain ⟨newer', heq'⟩ := hsplit newer hd older heq
      rw [hcnt]
      exact h.doorbell newer' hd older heq'
    · intro k completion hlatest
      rw [hlog, latest] at hlatest
      split at hlatest
      · cases hlatest
      · next hne =>
        rw [hentry k hne]
        exact h.recorded k completion hlatest
  unfold nvme_send_command
  dsimp only
  split
  all_goals exact hsame _ rfl rfl rfl fun k hk => update_of_ne hk _ _

theorem RingOk.consume (h : RingOk q) (hcnt : 1 ≤ q.entry_cnt)
    (woken : Option Int) : RingOk (Nvme.consume q woken).2 := by
  constructor
  · show (if q.cq_head + 1 = q.entry_cnt then 0 else q.cq_head + 1) =
      (handledCount q.log + 1) % q.entry_cnt
    rw [h.head]
    exact wrap_head hcnt
  · intro newer hd older heq
    rcases cons_eq_append heq with ⟨hhd, rfl⟩ | ⟨newer', heq'⟩
    · cases hhd
      exact h.head
    · exact h.slot newer' hd older heq'
  · intro newer hd older heq
    rcases cons_eq_append heq with ⟨hhd, rfl⟩ | ⟨newer', heq'⟩
    · cases hhd
      exact congrArg (· + 1) h.head
    · exact h.doorbell newer' hd older heq'
  · intro cid completion hlatest
    have hlog : (Nvme.consume q woken).2.log =
        .handled ⟨q.cq_head, q.completion_queue q.cq_head, q.cq_head + 1⟩ :: q.log := rfl
    rw [hlog, latest] at hlatest
    show (update q.queue_entry (q.completion_queue q.cq_head).cid.toNat _ cid).cid = cid ∧
      (update q.queue_entry (q.completion_queue q.cq_head).cid.toNat _ cid).completion = completion
    split at hlatest
    · next hcid =>
      cases hlatest
      rw [hcid, update_self]
      exact ⟨rfl, rfl⟩
    · next hcid =>
      rw [update_of_ne hcid]
      exact h.recorded cid completion hlatest

theorem Changes.entry_cnt (h : Changes q q') : q'.entry_cnt = q.entry_cnt := by
  cases h with
  | same => rfl
  | send submission cid blocking =>
    unfold nvme_send_command
    dsimp only
    split
    · rfl
    · rfl
  | post slot completion => rfl
  | consume woken => rfl

theorem RingOk.changes (h : RingOk q) (hcnt : 1 ≤ q.entry_cnt)
    (hchanges : Changes q q') : RingOk q' := by
  cases hchanges with
  | same => exact h
  | send submission cid blocking => exact h.send submission cid blocking
  | post slot completion => exact ⟨h.head, h.slot, h.doorbell, h.recorded⟩
  | consume woken => exact h.consume hcnt woken

theorem ringOk_of_reachable (hs : Reachable system s) (paddr : UInt64) (i : Nat)
    (hcnt : 1 ≤ (s.pair paddr i).entry_cnt) : RingOk (s.pair paddr i) := by
  induction hs with
  | init hinit =>
    obtain ⟨hhead, -, -, hlog⟩ := hinit paddr i
    constructor
    · rw [hhead, hlog, handledCount, Nat.zero_mod]
    · intro newer h older heq
      rw [hlog] at heq
      exact absurd heq (by simp)
    · intro newer h older heq
      rw [hlog] at heq
      exact absurd heq (by simp)
    · intro cid completion hlatest
      rw [hlog] at hlatest
      cases hlatest
  | step a _ _ hstep ih =>
    have hchanges := step_changes hstep paddr i
    rw [hchanges.entry_cnt] at hcnt
    exact (ih hcnt).changes hcnt hchanges

theorem exists_handled (h : k < handledCount log) :
    ∃ newer hd older, log = newer ++ .handled hd :: older ∧ handledCount older = k := by
  induction log with
  | nil => cases h
  | cons e log ih =>
    have hrest : k < handledCount log → ∃ newer hd older,
        e :: log = newer ++ .handled hd :: older ∧ handledCount older = k := by
      intro hk
      obtain ⟨newer, hd, older, rfl, hcount⟩ := ih hk
      exact ⟨e :: newer, hd, older, rfl, hcount⟩
    cases e with
    | sent cid => exact hrest h
    | handled hd =>
      rw [handledCount] at h
      by_cases hk : k < handledCount log
      · exact hrest hk
      · exact ⟨[], hd, log, rfl, by omega⟩

theorem handledCount_lt
    (heq : log = newer ++ .handled h :: older) : handledCount older < handledCount log := by
  induction newer generalizing log with
  | nil =>
    rw [heq, List.nil_append, handledCount]
    omega
  | cons e newer ih =>
    have hlt := ih rfl
    rw [heq, List.cons_append]
    cases e with
    | sent cid => exact hlt
    | handled hd =>
      rw [handledCount]
      omega

/-- **The completion ring**, in every run and for every queue pair with
entries: it is what the controller expects if and only if fewer than
`entry_cnt` completions were handled. The slots and the queue entries are
right in any case; the doorbell of the last slot is not. -/
theorem completion_ring_iff (hs : Reachable system s) (paddr : UInt64) (i : Nat)
    (hcnt : 1 ≤ (s.pair paddr i).entry_cnt) : CompletionRing (s.pair paddr i) ↔
      handledCount (s.pair paddr i).log < (s.pair paddr i).entry_cnt := by
  have hring := ringOk_of_reachable hs paddr i hcnt
  generalize s.pair paddr i = q at hring hcnt
  constructor
  · intro h
    by_contra hge
    -- the completion of the last slot
    obtain ⟨newer, hd, older, heq, hcount⟩ :=
      exists_handled (show q.entry_cnt - 1 < handledCount q.log from by omega)
    have hpublished := hring.doorbell newer hd older heq
    have hbelow := (h.doorbell newer hd older heq).2
    rw [hcount, Nat.mod_eq_of_lt (by omega)] at hpublished
    omega
  · intro hlt
    refine ⟨hring.slot, fun newer hd older heq => ?_, hring.recorded⟩
    have holder := handledCount_lt heq
    rw [hring.doorbell newer hd older heq, Nat.mod_eq_of_lt (by omega), Nat.mod_eq_of_lt (by omega)]
    exact ⟨rfl, by omega⟩

/-- A controller with one queue pair, the same for every address. -/
def oneQueue (entry_cnt : Nat) : Server where
  nvme_regs := none
  nvme_controller := none
  controllers := fun _ =>
    { nvme_queue_pair_cnt := 1
      nvme_queue_pair := fun _ =>
        { entry_cnt := entry_cnt
          queue_entry_cnt := 128
          sq_tail := 0
          cq_head := 0
          irq := 5
          submission_queue := fun _ => ⟨0, 0, []⟩
          completion_queue := fun _ => ⟨0, 0, 0, 0, 0, 0⟩
          queue_entry := fun _ => ⟨⟨0, 0, 0, 0, 0, 0⟩, 0, 0, false⟩
          submission_doorbell := 0
          log := [] } }

theorem oneQueue_init (entry_cnt : Nat) : Init (oneQueue entry_cnt) :=
  fun _ _ => ⟨rfl, rfl, rfl, rfl⟩

/-- A command is sent, completed and handled. -/
def oneCommand : List Action := [.send 0 0 ⟨2, 0, []⟩ 7 false, .post 0 0 0 ⟨0, 0, 1, 0, 7, 0⟩,
    .irq [.mmio 0, .controller 0] true 5 none]

/-- Of two entries, the first is announced as 1. -/
theorem completion_ring_iff_oneCommand :
    ∃ s, exec system (oneQueue 2) oneCommand = some s ∧ handledCount (s.pair 0 0).log = 1 ∧
      CompletionRing (s.pair 0 0) := by
  refine run_imp (fun s => handledCount (s.pair 0 0).log = 1 ∧ (s.pair 0 0).entry_cnt = 2)
    (by decide +kernel) fun s hs ⟨hcount, hcnt⟩ => ⟨hcount, ?_⟩
  have hiff := completion_ring_iff (.of_exec (oneQueue_init 2) hs) 0 0 (by omega)
  exact hiff.mpr (by omega)

/-- **The doorbell leaves the ring**: with one entry, the first completion
is announced as 1, which is no slot. -/
theorem doorbell_out_of_range :
    ¬ ∀ (s : Server), Reachable system s → ∀ paddr i, 1 ≤ (s.pair paddr i).entry_cnt →
      CompletionRing (s.pair paddr i) := by
  intro h
  obtain ⟨s, hs, hcnt, hlog⟩ : ∃ s, exec system (oneQueue 1) oneCommand = some s ∧
      (s.pair 0 0).entry_cnt = 1 ∧
      (s.pair 0 0).log = [.handled ⟨0, ⟨0, 0, 1, 0, 7, 0⟩, 1⟩, .sent 7] := by decide +kernel
  have hring := h s (.of_exec (oneQueue_init 1) hs) 0 0 (by omega)
  have hbelow := (hring.doorbell [] _ _ hlog).2
  rw [hcnt] at hbelow
  exact absurd hbelow (by decide)

end Nvme
