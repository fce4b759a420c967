import Dufay.Framework.TailqBytes
import Dufay.Capability.TypeSafety

/-! # Ports with their messages

The calls on ports of `core/capability.c` and `core/message.c`, with the
bytes of the messages and with what the allocators hand out.

A message is a `struct kernel_message` and a copy of the bytes of the
sender, in two blocks from `kmem_malloc`. The objects, the blocks and
whatever else the kernel keeps are in one byte memory. An answer of an
allocator is a block, or objects of a new slab, that overlaps nothing it
has handed out; a new slab is in a zeroed page. Other code writes
anywhere outside of the blocks and of the queues of the objects.

`kmem_cache_free` puts an object into a magazine, or runs its destructor
and gives it back to its slab, and frees the page of a slab that has no
object left. Neither way is the object constructed again before it comes
out of `object_new`.

The histories that no call reads are the messages that were accepted for
each port and the bytes that were copied out of it.
-/

open Lts Memory Capability Function

namespace Port

universe u

/-! ### Allocations -/

/-- Bytes that `kmem_malloc` has handed out, or those of an object. -/
structure Block where
  base : Nat
  size : Nat
  deriving DecidableEq

def Block.Apart (b c : Block) : Prop :=
  b.base ≠ c.base ∧ (b.base + b.size ≤ c.base ∨ c.base + c.size ≤ b.base)

instance (b c : Block) : Decidable (b.Apart c) := inferInstanceAs (Decidable (_ ∧ (_ ∨ _)))

/-- The block is in the address space and overlaps none of the blocks and
of the objects, which have `size` bytes. -/
def Fresh (size : Nat) (objs : Finset Nat) (blocks : List Block) (b : Block) : Prop :=
  (0 < b.base ∧ b.base < 18446744073709551616) ∧ b.base + b.size ≤ 18446744073709551616 ∧
    (∀ c ∈ blocks, b.Apart c) ∧ ∀ obj ∈ objs, b.Apart ⟨obj, size⟩

instance (size : Nat) (objs : Finset Nat) (blocks : List Block) (b : Block) :
    Decidable (Fresh size objs blocks b) :=
  inferInstanceAs (Decidable ((_ ∧ _) ∧ _ ∧ (∀ c ∈ blocks, _) ∧ ∀ obj ∈ objs, _))

def kmem_free (blocks : List Block) (ptr : Nat) : List Block := blocks.filter fun b => b.base ≠ ptr

/-- `sizeof(struct kernel_message)` -/
def SIZEOF_KERNEL_MESSAGE : Nat := 32

structure State (π : Type u) where
  cap : Capability.State π
  /-- What `kmem_malloc` has handed out. -/
  blocks : List Block
  /-- History: the messages accepted for each port, and what was copied out. -/
  sent : Nat → List (List Byte)
  received : Nat → List (List Byte)

variable {π : Type u} [DecidableEq π]

namespace State

abbrev objects (s : State π) : Objects := s.cap.objects

abbrev mem (s : State π) : Mem := s.cap.objects.mem

end State

/-- `classes[OBJ_CLASS_PORT].size` -/
def portSize (objects : Objects) : Nat := (objects.classes OBJ_CLASS_PORT).size

/-- The objects that `kmem_cache_alloc` may have made of a new slab. -/
def FreeSlab (objects : Objects) (blocks : List Block) (slab : List Nat) : Prop :=
  (∀ obj ∈ slab, objects.header obj = ⟨0, 0⟩ ∧
      Fresh (portSize objects) objects.constructed blocks ⟨obj, portSize objects⟩) ∧
    slab.Pairwise fun obj obj' => Block.Apart ⟨obj, portSize objects⟩ ⟨obj', portSize objects⟩

instance (objects : Objects) (blocks : List Block) (slab : List Nat) :
    Decidable (FreeSlab objects blocks slab) :=
  inferInstanceAs (Decidable ((∀ obj ∈ slab, _ ∧ _) ∧ _))

/-- The block may be handed out. -/
def State.Free (s : State π) (b : Block) : Prop :=
  Fresh (portSize s.objects) s.objects.constructed s.blocks b

instance (s : State π) (b : Block) : Decidable (s.Free b) :=
  inferInstanceAs (Decidable (Fresh _ _ _ _))

/-! ### Destroying a port -/

/-- The messages of a queue, from the pointer at `slot` on; `none` if there
are more than `fuel`. -/
def messages (mem : Mem) : Nat → Nat → Option (List Nat)
  | 0, _ => none
  | fuel + 1, slot =>
    let msg := read64 mem slot
    if msg = 0 then some [] else (messages mem fuel (msg + 16)).map (msg :: ·)

/-- `port_destructor`: the blocks that are left. -/
def port_destructor (mem : Mem) (blocks : List Block) (fuel port : Nat) : Option (List Block) :=
  (messages mem fuel port).map fun msgs =>
    msgs.foldl (fun blocks msg => kmem_free (kmem_free blocks (read64 mem msg)) msg) blocks

/-! ### The calls -/

/-- Where `kmem_cache_free` puts an object: into a magazine, or into its slab
after the destructor, which runs for `fuel` messages at most. The objects
of a slab that is destroyed then are `reclaimed`. -/
inductive Layer where
  | magazine
  | slab (fuel : Nat) (reclaimed : List Nat)
  deriving DecidableEq

inductive Action (π : Type u) where
  | create_obj (p : π) (class_ access : UInt8) (new : Option NewObject) (slot : Option Alloc)
  | duplicate_obj (p : π) (handle : UInt32) (access : UInt8) (slot : Option Alloc)
  | destroy_obj (p : π) (handle : UInt32) (layer : Layer)
  | msg_send (p : π) (message : Mem) (msg header : Option Nat)
  | msg_recv (p : π) (port : UInt32) (rights : UInt8)
  /-- Other code writes a byte, and not one of a block or of a queue. -/
  | elsewhere (a : Nat) (v : Byte)

/-- The answer of `kmem_cache_alloc`. -/
def newSlab : Option NewObject → List Nat
  | some a => a.slab
  | none => []

def created (objects : Objects) (class_ : UInt8) (new : Option NewObject) : Option Nat :=
  match object_new objects class_ new with
  | some (obj, _) => obj
  | none => none

/-- The history of a port begins when it is created. -/
def restart (history : Nat → List (List Byte)) : Option Nat → Nat → List (List Byte)
  | some obj => update history obj []
  | none => history

section
variable (s : State π) (p : π)

def create_obj (class_ access : UInt8) (new : Option NewObject)
    (slot : Option Alloc) : Option (State π) :=
  if FreeSlab s.objects s.blocks (newSlab new) then
    (Capability.create_obj s.cap p class_ access new slot).map fun cap =>
      { s with
        cap := cap
        sent := restart s.sent (created s.objects class_ new)
        received := restart s.received (created s.objects class_ new) }
  else none

def duplicate_obj (handle : UInt32) (access : UInt8) (slot : Option Alloc) : Option (State π) :=
  (Capability.duplicate_obj s.cap p handle access slot).map fun cap => { s with cap := cap }

/-- The object that the slot of a handle names. -/
def State.named (handle : UInt32) : Nat := ((s.cap.tables p).values handle.toNat).obj

/-- The call gives the object back to its cache. -/
def State.Returns (handle : UInt32) : Prop :=
  rejects (s.cap.tables p) handle = false ∧ (s.objects.header (s.named p handle)).refcount = 1

end

instance (s : State π) (p : π) (handle : UInt32) : Decidable (s.Returns p handle) :=
  inferInstanceAs (Decidable (_ ∧ _))

/-- The page of a slab is freed. -/
def State.reclaim (s : State π) (objs : List Nat) : State π :=
  { s with
    cap := { s.cap with
      objects := { s.objects with
        constructed := s.objects.constructed.filter fun obj => obj ∉ objs } } }

def destroy_obj (s : State π) (p : π) (handle : UInt32) (layer : Layer) : Option (State π) :=
  let s' : State π := { s with cap := Capability.destroy_obj s.cap p handle }
  if s.Returns p handle then
    match layer with
    | .magazine => some s'
    | .slab fuel reclaimed =>
      -- `obj_destructor`: only ports have a destructor
      let left :=
        if (s.objects.header (s.named p handle)).class_ = OBJ_CLASS_PORT then
          port_destructor s.mem s.blocks fuel (s.named p handle)
        else some s.blocks
      match left with
      | none => none
      | some blocks =>
        if ∀ obj ∈ reclaimed, obj ∉ s'.objects.allocated then
          some ({ s' with blocks := blocks }.reclaim reclaimed)
        else none
  else some s'

/-- What `kmem_malloc` may have answered. -/
def Answers (s : State π) (size : Nat) : Option Nat → Option Nat → Prop
  | some msg, some header =>
    s.Free ⟨msg, SIZEOF_KERNEL_MESSAGE⟩ ∧ s.Free ⟨header, size⟩ ∧
      Block.Apart ⟨header, size⟩ ⟨msg, SIZEOF_KERNEL_MESSAGE⟩
  | some msg, none => s.Free ⟨msg, SIZEOF_KERNEL_MESSAGE⟩
  | none, _ => True

instance (s : State π) (size : Nat) (msg header : Option Nat) :
    Decidable (Answers s size msg header) := by
  unfold Answers
  split <;> infer_instance

/-- The block of a `struct kernel_message`, which is not freed on errors. -/
def newMessage : Option Nat → List Block
  | some msg => [⟨msg, SIZEOF_KERNEL_MESSAGE⟩]
  | none => []

def msg_send (s : State π) (p : π) (message : Mem) (msg header : Option Nat) : Option (State π) :=
  if Answers s (read64 message 8) msg header then
    match message_send (s.cap.tables p) s.mem message msg header with
    | none => none
    | some (none, table, mem) =>
      some
        { s with
          cap := s.cap.keep p table { s.objects with mem := mem }
          blocks := newMessage msg ++ s.blocks }
    | some (some destination, table, mem) =>
      some
        { s with
          cap := s.cap.keep p table { s.objects with mem := mem }
          blocks := ⟨header.getD 0, read64 message 8⟩ :: newMessage msg ++ s.blocks
          sent := update s.sent destination
            (s.sent destination ++ [bytes message 0 (read64 message 8)]) }
  else none

def msg_recv (s : State π) (p : π) (port : UInt32) (rights : UInt8) : Option (State π) :=
  match message_receive (s.cap.tables p) s.mem port rights with
  | none => none
  | some (none, table, mem) =>
    some { s with cap := s.cap.keep p table { s.objects with mem := mem } }
  | some (some r, table, mem) =>
    some
      { s with
        cap := s.cap.keep p table { s.objects with mem := mem }
        blocks := kmem_free (kmem_free s.blocks r.header) r.first
        received := update s.received r.port (s.received r.port ++ [r.out]) }

def elsewhere (s : State π) (a : Nat) (v : Byte) : Option (State π) :=
  if (∀ b ∈ s.blocks, ¬ (b.base ≤ a ∧ a < b.base + b.size)) ∧
      ∀ obj ∈ s.objects.constructed, ¬ (obj ≤ a ∧ a < obj + 16) then
    some { s with
      cap := { s.cap with
        objects := { s.objects with mem := update s.mem a v } } }
  else none

def step (s : State π) : Action π → Option (State π)
  | .create_obj p class_ access new slot => create_obj s p class_ access new slot
  | .duplicate_obj p handle access slot => duplicate_obj s p handle access slot
  | .destroy_obj p handle layer => destroy_obj s p handle layer
  | .msg_send p message msg header => msg_send s p message msg header
  | .msg_recv p port rights => msg_recv s p port rights
  | .elsewhere a v => elsewhere s a v

/-- After `message_init`; a `struct port` has the head of a queue in it. -/
structure Init (s : State π) : Prop where
  cap : Capability.Init s.cap
  portSize : 16 ≤ portSize s.objects
  blocks : s.blocks = []
  sent : ∀ port, s.sent port = []
  received : ∀ port, s.received port = []

def system (π : Type u) [DecidableEq π] : System (State π) (Action π) where
  init := Init
  step := step

def boot : State Unit where
  cap := Capability.boot
  blocks := []
  sent := fun _ => []
  received := fun _ => []

theorem init_boot : Init boot := ⟨Capability.init_boot, by decide, rfl, fun _ => rfl, fun _ => rfl⟩

/-! ### Failed sends -/

/-- **A failed send leaves no trace** just if there was no memory for the
message. The ports and the messages in their queues are as they were in
any case, but the new `struct kernel_message` is not freed. -/
theorem msg_send_error_keeps_iff {s s' : State π} {p : π} (message : Mem) (msg header : Option Nat)
    {table : Table} {mem : Mem}
    (herror : message_send (s.cap.tables p) s.mem message msg header = some (none, table, mem))
    (hstep : msg_send s p message msg header = some s') :
    s'.sent = s.sent ∧ (∀ b : Block, (b ∈ s.blocks ∨ ∃ obj ∈ s.objects.constructed,
        b = ⟨obj, portSize s.objects⟩) →
      ∀ a, b.base ≤ a → a < b.base + b.size → s'.mem a = s.mem a) ∧
    (s'.blocks = s.blocks ↔ msg = none) := by
  unfold msg_send at hstep
  split at hstep
  · next hanswers =>
    rw [herror] at hstep
    cases hstep
    refine ⟨rfl, fun b hb a hle hlt => ?_, ?_⟩
    · show mem a = s.mem a
      obtain ⟨-, ⟨-, rfl | ⟨m, rfl, rfl⟩⟩ | ⟨_, _, _, -, -, -, -, hr, -⟩⟩ :=
        message_send_cases herror
      · rfl
      · have hfree : s.Free ⟨m, SIZEOF_KERNEL_MESSAGE⟩ := by
          cases header with
          | none => exact hanswers
          | some hd => exact hanswers.1
        have hapart : Block.Apart ⟨m, SIZEOF_KERNEL_MESSAGE⟩ b := by
          rcases hb with hb | ⟨obj, hobj, rfl⟩
          · exact hfree.2.2.1 b hb
          · exact hfree.2.2.2 obj hobj
        have hfar := hapart.2
        simp only [SIZEOF_KERNEL_MESSAGE] at hfar
        exact if_neg (by omega)
      · cases hr
    · cases msg with
      | none => simp [newMessage]
      | some m => simp [newMessage]
  · cases hstep

/-- A message to a port that the sender has no capability for. -/
theorem failed_send_leaks : ∃ s table mem,
    message_send (boot.cap.tables ()) boot.mem (fun _ => 0) (some 8192) none = some
      (none, table, mem) ∧
    msg_send boot () (fun _ => 0) (some 8192) none = some s ∧
    boot.blocks = [] ∧ s.blocks = [⟨8192, SIZEOF_KERNEL_MESSAGE⟩] := by
  have hrun : (message_send (boot.cap.tables ()) boot.mem (fun _ => 0) (some 8192) none).map
        Prod.fst = some none ∧
      (msg_send boot () (fun _ => 0) (some 8192) none).map State.blocks =
        some [⟨8192, SIZEOF_KERNEL_MESSAGE⟩] := by
    decide +kernel
  obtain ⟨⟨r, table, mem⟩, hsend, hr⟩ := Option.map_eq_some_iff.mp hrun.1
  obtain ⟨s, hstep, hblocks⟩ := Option.map_eq_some_iff.mp hrun.2
  cases hr
  exact ⟨s, table, mem, hsend, hstep, rfl, hblocks⟩

theorem msg_send_error_keeps_iff_none : ∃ s, msg_send boot () (fun _ => 0) none none = some s ∧
    s.blocks = boot.blocks :=
  ⟨_, rfl, (msg_send_error_keeps_iff (s := boot) (fun _ => 0) none none rfl rfl).2.2.mpr rfl⟩

end Port
