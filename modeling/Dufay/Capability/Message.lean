import Dufay.Capability.Table

/-! # Ports and messages

`lookup_port`, `message_send` and `message_receive` of `core/message.c`.

A port is read and written as the words of its memory, whatever that
memory holds: `tqh_first` and `tqh_last` at the pointer, and in a
`struct kernel_message` the header, the reply port, `tqe_next` and
`tqe_prev`. Null pointers fault and any other pointer can be followed.
-/

open Memory

namespace Capability

def OBJ_CLASS_PORT : UInt8 := 0

def PORT_RIGHT_RECV : UInt8 := 1
def PORT_RIGHT_SEND : UInt8 := 2
def PORT_RIGHT_SEND_ONCE : UInt8 := 4

/-! ### The queue of a port -/

/-- `TAILQ_INIT(&port->queue)` -/
def port_constructor (mem : Mem) (port : Nat) : Mem := write64 (write64 mem port 0) (port + 8) port

/-- `TAILQ_INSERT_TAIL(&port->queue, msg, queue_hook)` -/
def TAILQ_INSERT_TAIL (mem : Mem) (port msg : Nat) : Option Mem :=
  let mem₁ := write64 mem (msg + 16) 0
  let mem₂ := write64 mem₁ (msg + 24) (read64 mem₁ (port + 8))
  let tqh_last := read64 mem₂ (port + 8)
  if tqh_last = 0 then none
  else some (write64 (write64 mem₂ tqh_last msg) (port + 8) (msg + 16))

/-- `TAILQ_REMOVE(&port->queue, msg, queue_hook)` -/
def TAILQ_REMOVE (mem : Mem) (port msg : Nat) : Option Mem :=
  let tqe_next := read64 mem (msg + 16)
  let mem₁ :=
    if tqe_next ≠ 0 then write64 mem (tqe_next + 24) (read64 mem (msg + 24))
    else write64 mem (port + 8) (read64 mem (msg + 24))
  let tqe_prev := read64 mem₁ (msg + 24)
  if tqe_prev = 0 then none else some (write64 mem₁ tqe_prev (read64 mem₁ (msg + 16)))

/-- The port, zero if there is none, and the rights, which are left as they
were then. -/
def lookup_port (table : Table) (port : UInt32) (rights : UInt8) : (Nat × UInt8) × Table :=
  match capability_lookup table port with
  | (none, table') => ((0, rights), table')
  | (some binding, table') => ((binding.obj, binding.access), table')

/-- The port that the message was accepted for, if it was, and what is left;
`none` for a fault. The message is what the pointer of the sender leads
to, and the last arguments are what `kmem_malloc` answers. -/
def message_send (table : Table) (mem message : Mem) (msg header : Option Nat) :
    Option (Option Nat × Table × Mem) :=
  match msg with
  | none => some (none, table, mem)
  | some msg =>
    let destination := lookup_port table (read32 message 0) 0
    let reply := lookup_port destination.2 (read32 message 4) 0
    if destination.1.1 = 0 ∨ reply.1.1 = 0 then some (none, reply.2, mem)
    else if destination.1.2 &&& PORT_RIGHT_SEND = 0 ∧
        destination.1.2 &&& PORT_RIGHT_SEND_ONCE = 0 then some (none, reply.2, mem)
    else
      match header with
      | none => some (none, reply.2, write64 mem msg 0)
      | some header =>
        let mem₁ := write64 mem msg header
        let mem₂ := copy mem₁ header message (read64 message 8)
        let mem₃ := write64 mem₂ (msg + 8) reply.1.1
        (TAILQ_INSERT_TAIL mem₃ destination.1.1 msg).map fun mem₄ =>
          (some destination.1.1, reply.2, mem₄)

structure Received where
  port : Nat
  /-- What is freed. -/
  first : Nat
  header : Nat
  /-- What was copied out. -/
  out : List Byte
  deriving DecidableEq

/-- What is received, if anything, and what is left; `none` for a fault, or
for the panic in `equeue_block` when there is no message. The size is read
from the kernel's copy, and the rights are those that happen to be on the
stack. -/
def message_receive (table : Table) (mem : Mem) (port : UInt32) (rights : UInt8) :
    Option (Option Received × Table × Mem) :=
  let actual_port := lookup_port table port rights
  if actual_port.1.2 &&& PORT_RIGHT_RECV = 0 then some (none, actual_port.2, mem)
  else if actual_port.1.1 = 0 then none
  else
    let first := read64 mem actual_port.1.1
    if first = 0 then none
    else
      let header := read64 mem first
      if header = 0 then none
      else
        let out := bytes mem header (read64 mem (header + 8))
        (TAILQ_REMOVE mem actual_port.1.1 first).map fun mem₁ =>
          (some ⟨actual_port.1.1, first, read64 mem₁ first, out⟩, actual_port.2, mem₁)

variable {table table' : Table} {mem mem' : Mem} {live : Nat → Option Binding}

theorem lookup_port_eq (table : Table) (port : UInt32) (rights : UInt8) :
    (lookup_port table port rights).2 = (capability_lookup table port).2 ∧
      (rejects table port = true → (lookup_port table port rights).1.1 = 0) := by
  rw [lookup_port, capability_lookup_eq]
  split
  · next hlook =>
    refine ⟨by rw [hlook], fun _ => rfl⟩
  · next hlook =>
    refine ⟨by rw [hlook], fun hrej => ?_⟩
    simp [hrej] at hlook

theorem TableOk.lookup_port (h : TableOk table live) (port : UInt32) (rights : UInt8) :
    TableOk (Capability.lookup_port table port rights).2 live := by
  rw [(lookup_port_eq table port rights).1]
  exact h.lookup port

theorem lookup_port_of_ne_zero
    (h : (lookup_port table port rights).1.1 ≠ 0) : rejects table port = false ∧
      (lookup_port table port rights).1.1 = (table.values port.toNat).obj := by
  have hrej : ¬ rejects table port = true := fun hrej => h ((lookup_port_eq ..).2 hrej)
  obtain ⟨table', hlook⟩ := capability_lookup_of_not_rejects hrej
  exact ⟨Bool.eq_false_iff.mpr hrej, by rw [lookup_port, hlook]⟩

/-- The table after `message_send` is a table after lookups. Either nothing
is sent, and at most the first word of the new message is cleared, or the
message is filled in and appended to the queue of the destination. -/
theorem message_send_cases
    (h : message_send table mem message msg header = some (r, table', mem')) :
    (∀ live, TableOk table live → TableOk table' live) ∧
      ((r = none ∧ (mem' = mem ∨ ∃ m, msg = some m ∧ mem' = write64 mem m 0)) ∨
        ∃ m hd reply, reply = (lookup_port (lookup_port table (read32 message 0) 0).2
            (read32 message 4) 0).1.1 ∧ reply ≠ 0 ∧ msg = some m ∧ header = some hd ∧
          r = some (lookup_port table (read32 message 0) 0).1.1 ∧
          (lookup_port table (read32 message 0) 0).1.1 ≠ 0 ∧
          TAILQ_INSERT_TAIL
            (write64 (copy (write64 mem m hd) hd message (read64 message 8)) (m + 8) reply)
            (lookup_port table (read32 message 0) 0).1.1 m = some mem') := by
  have hok' := fun live (hok : TableOk table live) =>
    (hok.lookup_port (read32 message 0) 0).lookup_port (read32 message 4) 0
  cases msg with
  | none =>
    cases h
    exact ⟨fun _ => id, .inl ⟨rfl, .inl rfl⟩⟩
  | some m =>
    simp only [message_send] at h
    split at h
    · cases h
      exact ⟨hok', .inl ⟨rfl, .inl rfl⟩⟩
    · next hnull =>
      push Not at hnull
      split at h
      · cases h
        exact ⟨hok', .inl ⟨rfl, .inl rfl⟩⟩
      · cases header with
        | none =>
          cases h
          exact ⟨hok', .inl ⟨rfl, .inr ⟨m, rfl, rfl⟩⟩⟩
        | some hd =>
          obtain ⟨mem₁, hins, heq⟩ := Option.map_eq_some_iff.mp h
          cases heq
          exact ⟨hok', .inr ⟨m, hd, _, rfl, hnull.2, rfl, rfl, rfl, hnull.1, hins⟩⟩

/-- The table after `message_receive` is a table after a lookup. Either
nothing is received, or the first message of the port is taken out. -/
theorem message_receive_cases (hok : TableOk table live)
    (h : message_receive table mem port rights = some (r, table', mem')) : TableOk table' live ∧
      ((r = none ∧ mem' = mem) ∨
        ∃ actual_port first, actual_port = (lookup_port table port rights).1.1 ∧
          actual_port ≠ 0 ∧ first = read64 mem actual_port ∧ first ≠ 0 ∧
          r = some ⟨actual_port, first, read64 mem' first,
            bytes mem (read64 mem first) (read64 mem (read64 mem first + 8))⟩ ∧
          TAILQ_REMOVE mem actual_port first = some mem') := by
  have hok' := hok.lookup_port port rights
  simp only [message_receive] at h
  split at h
  · cases h
    exact ⟨hok', .inl ⟨rfl, rfl⟩⟩
  · split at h
    · cases h
    · next hnull =>
      split at h
      · cases h
      · next hfirst =>
        split at h
        · cases h
        · obtain ⟨mem₁, hrem, heq⟩ := Option.map_eq_some_iff.mp h
          cases heq
          exact ⟨hok', .inr ⟨_, _, rfl, hnull, rfl, hfirst, rfl, hrem⟩⟩

end Capability
