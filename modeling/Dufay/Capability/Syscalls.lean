import Dufay.Capability.Message
import Dufay.Mm.Address

/-! # The system calls on capabilities

`create_obj`, `duplicate_obj` and `destroy_obj` of `core/capability.c`,
`as_action` of `mm/address.c`, and `msg_send` and `msg_recv` of
`core/message.c`, by any number of processes. A process has a table, and
the objects and the address spaces belong to all of them.

The state has a history that no call reads: the handles that live, what
each handle was created with and from what, and through which handles
operations have succeeded.
-/

open Lts Memory Address Function

namespace Capability

open Capability

universe u

/-! ### State -/

/-- The call that made what a handle names. -/
inductive Maker where
  | create_obj (class_ : UInt8)
  | AS_ACTION_CONSTRUCT
  deriving DecidableEq

/-- The creation at the start of a chain of duplicates, with the access that
was given then. -/
structure Origin where
  maker : Maker
  access : UInt8
  deriving DecidableEq

/-- What was created last at a handle. There is no origin before that, and
none for a duplicate of a handle that was never created. -/
structure Handle where
  binding : Binding
  origin : Option Origin
  deriving DecidableEq

inductive Operation where
  | port
  | addressSpace
  deriving DecidableEq

/-- An operation that has succeeded, and the origin of the handle, if it
was one that lived. -/
structure Use where
  operation : Operation
  via : Option Origin
  deriving DecidableEq

structure State (π : Type u) where
  tables : π → Table
  objects : Objects
  spaces : Spaces
  /-- History: the handles that live. -/
  handles : Finset (π × Nat)
  info : π × Nat → Handle
  uses : List Use

/-- `ops` of `as_action` -/
inductive AsAction where
  | AS_ACTION_CONSTRUCT
  | AS_ACTION_ALLOCATE
  | AS_ACTION_FREE
  | other
  deriving DecidableEq

/-- What the allocations in `AS_ACTION_CONSTRUCT` answer. -/
structure Construct where
  space : Option Fresh
  as_capability : Option Nat
  slot : Option Alloc

/-- The calls, with what the allocators answer during them. -/
inductive Action (π : Type u) where
  | create_obj (p : π) (class_ access : UInt8) (new : Option NewObject) (slot : Option Alloc)
  | duplicate_obj (p : π) (handle : UInt32) (access : UInt8) (slot : Option Alloc)
  | destroy_obj (p : π) (handle : UInt32)
  | as_action (p : π) (capability : UInt32) (ops : AsAction) (address : Option UInt64)
      (length : UInt64) (answer : Construct)
  | msg_send (p : π) (message : Mem) (msg header : Option Nat)
  | msg_recv (p : π) (port : UInt32) (rights : UInt8)

def CAPABILITY_ACCESS_READ : UInt8 := 1
def CAPABILITY_ACCESS_WRITE : UInt8 := 2

variable {π : Type u} [DecidableEq π]

namespace State

section
variable (s : State π) (p : π) (table : Table) (objects : Objects)

/-- A handle is created. -/
def bind (handle : Nat) (binding : Binding) (origin : Option Origin) : State π :=
  { s with
    tables := Function.update s.tables p table
    objects := objects
    handles := insert (p, handle) s.handles
    info := Function.update s.info (p, handle) ⟨binding, origin⟩ }

/-- A handle is destroyed. -/
def unbind (handle : Nat) : State π :=
  { s with
    tables := Function.update s.tables p table
    objects := objects
    handles := s.handles.erase (p, handle) }

/-- No handle is created or destroyed. -/
def keep : State π :=
  { s with
    tables := Function.update s.tables p table
    objects := objects }

end

/-- The origin of a handle that lives. -/
def via (s : State π) (p : π) (handle : UInt32) : Option Origin :=
  if (p, handle.toNat) ∈ s.handles then (s.info (p, handle.toNat)).origin else none

/-- The bindings of the handles of a process that live. -/
def live (s : State π) (p : π) (handle : Nat) : Option Binding :=
  if (p, handle) ∈ s.handles then some (s.info (p, handle)).binding else none

end State

/-! ### The calls -/

section
variable (s : State π) (p : π)

def create_obj (class_ access : UInt8) (new : Option NewObject)
    (slot : Option Alloc) : Option (State π) :=
  match object_new s.objects class_ new with
  | none => none
  | some (none, objects) => some { s with objects := objects }
  | some (some obj, objects) =>
    match capability_create (s.tables p) objects obj access slot with
    | none => none
    | some (none, table, objects') => some (s.keep p table objects')
    | some (some handle, table, objects') =>
      some (s.bind p table objects' handle ⟨access, obj⟩ (some ⟨.create_obj class_, access⟩))

def duplicate_obj (handle : UInt32) (access : UInt8) (slot : Option Alloc) : Option (State π) :=
  match capability_lookup (s.tables p) handle with
  | (none, table) => some (s.keep p table s.objects)
  | (some binding, table) =>
    if binding.access &&& access = 0 then some (s.keep p table s.objects)
    else
      match capability_create table (object_retain s.objects binding.obj) binding.obj
          access slot with
      | none => none
      | some (none, table', objects) => some (s.keep p table' objects)
      | some (some out_handle, table', objects) =>
        some (s.bind p table' objects out_handle ⟨access, binding.obj⟩
          (s.info (p, handle.toNat)).origin)

def destroy_obj (handle : UInt32) : State π :=
  match capability_lookup (s.tables p) handle with
  | (none, table) => s.keep p table s.objects
  | (some _, table) =>
    match capability_destroy table s.objects handle with
    | (false, table', objects) => s.keep p table' objects
    | (true, table', objects) => s.unbind p table' objects handle.toNat

/-- `AS_ACTION_CONSTRUCT`. The block for the capability is not one of an
object. -/
def asConstruct (answer : Construct) : Option (State π) :=
  match address_space_construct s.spaces answer.space with
  | (none, spaces) => some { s with spaces := spaces }
  | (some asid, spaces) =>
    match answer.as_capability with
    | none => some { s with spaces := spaces }
    | some as_capability =>
      if as_capability = 0 ∨ as_capability ∈ s.objects.constructed then none
      else
        let objects := { s.objects with mem := write32 s.objects.mem as_capability asid }
        let access := CAPABILITY_ACCESS_READ ||| CAPABILITY_ACCESS_WRITE
        match capability_create (s.tables p) objects as_capability access answer.slot with
        | none => none
        | some (none, table, objects') =>
          some { s.keep p table objects' with spaces := spaces }
        | some (some handle, table, objects') =>
          some
            { s.bind p table objects' handle ⟨access, as_capability⟩
                (some ⟨.AS_ACTION_CONSTRUCT, access⟩) with
              spaces := spaces }

end

/-- The other operations, on the space that is found: whether they succeed;
`none` for a fault. -/
def asOperation (spaces : Spaces) (asid : UInt32) (ops : AsAction) (address : Option UInt64)
    (length : UInt64) : Option (Bool × Spaces) :=
  match ops, address_find_as spaces asid with
  | .AS_ACTION_ALLOCATE, some as =>
    (address_space_allocate (spaces.space as) address length).map fun r =>
      (r.1.isSome, { spaces with space := Function.update spaces.space as r.2 })
  | .AS_ACTION_FREE, some _ => address.map fun _ => (true, spaces)
  | _, _ => some (false, spaces)

def as_action (s : State π) (p : π) (capability : UInt32) (ops : AsAction)
    (address : Option UInt64) (length : UInt64) (answer : Construct) : Option (State π) :=
  if ops = .AS_ACTION_CONSTRUCT then asConstruct s p answer
  else
    match capability_lookup (s.tables p) capability with
    | (none, table) => some (s.keep p table s.objects)
    | (some binding, table) =>
      if binding.obj = 0 then some (s.keep p table s.objects)
      else
        match asOperation s.spaces (read32 s.objects.mem binding.obj) ops address length with
        | none => none
        | some (false, spaces) =>
          some { s.keep p table s.objects with spaces := spaces }
        | some (true, spaces) =>
          some
            { s.keep p table s.objects with
              spaces := spaces
              uses := ⟨.addressSpace, s.via p capability⟩ :: s.uses }

/-- A message goes through two ports. -/
def msg_send (s : State π) (p : π) (message : Mem) (msg header : Option Nat) : Option (State π) :=
  match message_send (s.tables p) s.objects.mem message msg header with
  | none => none
  | some (none, table, mem) => some (s.keep p table { s.objects with mem := mem })
  | some (some _, table, mem) =>
    some
      { s.keep p table { s.objects with mem := mem } with
        uses := ⟨.port, s.via p (read32 message 0)⟩ :: ⟨.port, s.via p (read32 message 4)⟩ ::
          s.uses }

def msg_recv (s : State π) (p : π) (port : UInt32) (rights : UInt8) : Option (State π) :=
  match message_receive (s.tables p) s.objects.mem port rights with
  | none => none
  | some (none, table, mem) => some (s.keep p table { s.objects with mem := mem })
  | some (some _, table, mem) =>
    some
      { s.keep p table { s.objects with mem := mem } with
        uses := ⟨.port, s.via p port⟩ :: s.uses }

def step (s : State π) : Action π → Option (State π)
  | .create_obj p class_ access new slot => create_obj s p class_ access new slot
  | .duplicate_obj p handle access slot => duplicate_obj s p handle access slot
  | .destroy_obj p handle => some (destroy_obj s p handle)
  | .as_action p capability ops address length answer =>
    as_action s p capability ops address length answer
  | .msg_send p message msg header => msg_send s p message msg header
  | .msg_recv p port rights => msg_recv s p port rights

/-- After `message_init`: the port class is registered and no other one. -/
structure Init (s : State π) : Prop where
  tables : ∀ p, ∃ table, s.tables p = capability_table_init table
  port : (s.objects.classes OBJ_CLASS_PORT).size ≠ 0 ∧
    (s.objects.classes OBJ_CLASS_PORT).constructor = some port_constructor
  classes : ∀ c, c ≠ OBJ_CLASS_PORT → (s.objects.classes c).size = 0
  constructed : s.objects.constructed = ∅
  allocated : s.objects.allocated = ∅
  made : s.objects.made = ∅
  touched : s.objects.touched = []
  as_table : s.spaces.as_table = []
  handles : s.handles = ∅
  info : ∀ x, (s.info x).origin = none
  uses : s.uses = []

def system (π : Type u) [DecidableEq π] : System (State π) (Action π) where
  init := Init
  step := step

/-! ### The tables keep the handles that live -/

variable {s s' : State π}

def State.Ok (s : State π) : Prop := ∀ p, TableOk (s.tables p) (s.live p)

variable {p : π} {slot : Option Alloc}

theorem State.live_eq_none : s.live p handle = none ↔ (p, handle) ∉ s.handles := by
  unfold State.live
  split <;> simp_all

theorem State.live_of_mem (h : (p, handle) ∈ s.handles) :
    s.live p handle = some (s.info (p, handle)).binding := by
  rw [State.live, if_pos h]

theorem State.live_bind (p : π) (table : Table) (objects : Objects) (handle : Nat)
    (binding : Binding) (origin : Option Origin) :
    (s.bind p table objects handle binding origin).live =
      update s.live p (update (s.live p) handle (some binding)) := by
  funext q i
  by_cases hq : q = p
  · subst hq
    by_cases hi : i = handle
    · subst hi
      simp [State.live, State.bind]
    · simp [State.live, State.bind, hi]
  · simp [State.live, State.bind, hq]

theorem State.live_unbind (p : π) (table : Table) (objects : Objects) (handle : Nat) :
    (s.unbind p table objects handle).live = update s.live p (update (s.live p) handle none) := by
  funext q i
  by_cases hq : q = p
  · subst hq
    by_cases hi : i = handle
    · subst hi
      simp [State.live, State.unbind]
    · simp [State.live, State.unbind, hi]
  · simp [State.live, State.unbind, hq]

theorem State.Ok.update (h : s.Ok) {live : Nat → Option Binding}
    (htables : s'.tables = update s.tables p table)
    (hlive : s'.live = update s.live p live) (ht : TableOk table live) : s'.Ok := by
  intro q
  rw [htables, hlive]
  by_cases hq : q = p
  · subst hq
    rw [update_self, update_self]
    exact ht
  · rw [update_of_ne hq, update_of_ne hq]
    exact h q

theorem State.Ok.keep (h : s.Ok)
    (htables : s'.tables = Function.update s.tables p table) (hlive : s'.live = s.live)
    (ht : TableOk table (s.live p)) : s'.Ok :=
  h.update htables (by rw [hlive, update_eq_self]) ht

theorem State.Ok.bind (h : s.Ok) {objects : Objects} (ht : TableOk table (s.live p))
    (hcreate : capability_create table objects obj access slot = some (some handle, table',
      objects'))
    (origin : Option Origin) : (s.bind p table' objects' handle ⟨access, obj⟩ origin).Ok :=
  h.update rfl (State.live_bind ..) (ht.create hcreate).2.1

/-! ### What the calls do -/

theorem create_obj_cases (h : create_obj s p class_ access new slot = some s') :
    s' = s ∨ ∃ obj objects, object_new s.objects class_ new = some (some obj, objects) ∧
      (s' = s.keep p (s.tables p) objects ∨
        ∃ handle table objects', capability_create (s.tables p) objects obj access slot =
            some (some handle, table, objects') ∧
          s' = s.bind p table objects' handle ⟨access, obj⟩
            (some ⟨.create_obj class_, access⟩)) := by
  unfold create_obj at h
  split at h
  · cases h
  · next hnew =>
    cases h
    rw [object_new_none hnew]
    exact .inl rfl
  · next obj objects hnew =>
    refine .inr ⟨obj, objects, hnew, ?_⟩
    split at h
    · cases h
    · next hcreate =>
      obtain ⟨rfl, rfl⟩ := capability_create_none hcreate
      cases h
      exact .inl rfl
    · next handle table objects' hcreate =>
      cases h
      exact .inr ⟨handle, table, objects', hcreate, rfl⟩

/-- Whether `duplicate_obj` gets as far as to retain the object. -/
def duplicates (table : Table) (handle : UInt32) (access : UInt8) : Bool :=
  !rejects table handle && (table.values handle.toNat).access &&& access != 0

theorem duplicate_obj_cases (h : duplicate_obj s p handle access slot = some s') :
    (duplicates (s.tables p) handle access = false ∧
        s' = s.keep p (capability_lookup (s.tables p) handle).2 s.objects) ∨
      duplicates (s.tables p) handle access = true ∧
        (s' = s.keep p (capability_lookup (s.tables p) handle).2
            (object_retain s.objects ((s.tables p).values handle.toNat).obj) ∨
          ∃ out_handle table objects, capability_create (capability_lookup (s.tables p) handle).2
                (object_retain s.objects ((s.tables p).values handle.toNat).obj)
                ((s.tables p).values handle.toNat).obj access slot =
              some (some out_handle, table, objects) ∧
            s' = s.bind p table objects out_handle ⟨access, ((s.tables p).values handle.toNat).obj⟩
              (s.info (p, handle.toNat)).origin) := by
  unfold duplicate_obj at h
  by_cases hrej : rejects (s.tables p) handle = true
  · have hlook := capability_lookup_of_rejects hrej
    simp only [hlook] at h
    cases h
    exact .inl ⟨by simp [duplicates, hrej], by rw [hlook]⟩
  · obtain ⟨table, hlook⟩ := capability_lookup_of_not_rejects hrej
    simp only [hlook] at h ⊢
    split at h
    · next hmask =>
      cases h
      exact .inl ⟨by simp [duplicates, hmask], rfl⟩
    · next hmask =>
      refine .inr ⟨by simp [duplicates, hrej, hmask], ?_⟩
      split at h
      · cases h
      · next hcreate =>
        obtain ⟨rfl, rfl⟩ := capability_create_none hcreate
        cases h
        exact .inl rfl
      · next out_handle table' objects hcreate =>
        cases h
        exact .inr ⟨out_handle, table', objects, hcreate, rfl⟩

theorem destroy_obj_eq (s : State π) (p : π) (handle : UInt32) : destroy_obj s p handle =
      if rejects (s.tables p) handle then s.keep p (s.tables p) s.objects
      else
        s.unbind p
          { (capability_lookup (s.tables p) handle).2 with
            bitmap :=
              bitmap_free (capability_lookup (s.tables p) handle).2.bitmap handle.toNat }
          (object_release s.objects ((s.tables p).values handle.toNat).obj) handle.toNat := by
  -- the second lookup, in `capability_destroy`, is the first one again
  have hsame : capability_destroy (capability_lookup (s.tables p) handle).2 s.objects handle =
      capability_destroy (s.tables p) s.objects handle := by
    simp only [capability_destroy, capability_lookup_idem]
  unfold destroy_obj
  by_cases hrej : rejects (s.tables p) handle = true
  · have hlook := capability_lookup_of_rejects hrej
    simp only [hlook, hrej, if_true]
  · obtain ⟨table, hlook⟩ := capability_lookup_of_not_rejects hrej
    have hdestroy := capability_destroy_eq (s.tables p) s.objects handle
    rw [if_neg hrej, hlook] at hdestroy
    simp only [hlook] at hsame ⊢
    rw [hsame, hdestroy, if_neg hrej]

/-! ### Every call keeps the tables -/

section

variable (h : s.Ok)

include h

theorem State.Ok.create_obj (hstep : create_obj s p class_ access new slot = some s') : s'.Ok := by
  rcases create_obj_cases hstep with rfl | ⟨obj, objects, _, rfl | ⟨_, _, _, hcreate, rfl⟩⟩
  · exact h
  · exact h.keep rfl rfl (h p)
  · exact h.bind (h p) hcreate _

theorem State.Ok.duplicate_obj
    (hstep : duplicate_obj s p handle access slot = some s') : s'.Ok := by
  have hlook := (h p).lookup handle
  rcases duplicate_obj_cases hstep with ⟨_, rfl⟩ | ⟨_, rfl | ⟨_, _, _, hcreate, rfl⟩⟩
  · exact h.keep rfl rfl hlook
  · exact h.keep rfl rfl hlook
  · exact h.bind hlook hcreate _

theorem State.Ok.destroy_obj (p : π) (handle : UInt32) : (destroy_obj s p handle).Ok := by
  rw [destroy_obj_eq]
  split
  · exact h.keep rfl rfl (h p)
  · exact h.update rfl (State.live_unbind ..) ((h p).destroy handle)

theorem State.Ok.asConstruct (hstep : asConstruct s p answer = some s') : s'.Ok := by
  unfold Capability.asConstruct at hstep
  split at hstep
  · cases hstep
    exact h
  · split at hstep
    · cases hstep
      exact h
    · split at hstep
      · cases hstep
      · simp only at hstep
        split at hstep
        · cases hstep
        · next hcreate =>
          obtain ⟨rfl, rfl⟩ := capability_create_none hcreate
          cases hstep
          exact h.keep rfl rfl (h p)
        · next hcreate =>
          cases hstep
          exact h.bind (h p) hcreate _

theorem State.Ok.as_action
    (hstep : as_action s p capability ops address length answer = some s') : s'.Ok := by
  have hlook := (h p).lookup capability
  unfold Capability.as_action at hstep
  split at hstep
  · exact h.asConstruct hstep
  · split at hstep
    · next table heq =>
      cases hstep
      rw [heq] at hlook
      exact h.keep rfl rfl hlook
    · next binding table heq =>
      rw [heq] at hlook
      split at hstep
      · cases hstep
        exact h.keep rfl rfl hlook
      · split at hstep
        · cases hstep
        all_goals
          cases hstep
          exact h.keep rfl rfl hlook

theorem State.Ok.msg_send (hstep : msg_send s p message msg header = some s') : s'.Ok := by
  unfold Capability.msg_send at hstep
  split at hstep
  · cases hstep
  all_goals
    next hsend =>
    cases hstep
    exact h.keep rfl rfl ((message_send_cases hsend).1 _ (h p))

theorem State.Ok.msg_recv (hstep : msg_recv s p port rights = some s') : s'.Ok := by
  unfold Capability.msg_recv at hstep
  split at hstep
  · cases hstep
  all_goals
    next hrecv =>
    cases hstep
    exact h.keep rfl rfl (message_receive_cases (h p) hrecv).1

theorem State.Ok.step {a : Action π} (hstep : step s a = some s') : s'.Ok := by
  cases a with
  | create_obj p class_ access new slot => exact h.create_obj hstep
  | duplicate_obj p handle access slot => exact h.duplicate_obj hstep
  | destroy_obj p handle =>
    cases hstep
    exact h.destroy_obj p handle
  | as_action p capability ops address length answer => exact h.as_action hstep
  | msg_send p message msg header => exact h.msg_send hstep
  | msg_recv p port rights => exact h.msg_recv hstep

end

theorem State.Ok.init (h : Init s) : s.Ok := by
  intro p
  obtain ⟨table, htable⟩ := h.tables p
  have hlive : s.live p = fun _ => none := by
    funext i
    rw [State.live_eq_none, h.handles]
    exact Finset.notMem_empty _
  rw [htable, hlive]
  exact .init table

theorem State.Ok.of_reachableBy {ok : State π → Action π → Prop}
    (hs : ReachableBy (system π) ok s) : s.Ok := by
  refine ReachableBy.invariant ?_ ?_ hs
  · exact fun s h => State.Ok.init h
  · exact fun s a s' h _ hstep => State.Ok.step h hstep

def boot : State Unit where
  tables := fun _ => newTable.table
  objects :=
    { newTable.objects with
      classes := fun c => if c = OBJ_CLASS_PORT then ⟨64, some port_constructor⟩ else ⟨0, none⟩ }
  spaces := ⟨fun _ => ⟨0, 0, 0, []⟩, [], 0⟩
  handles := ∅
  info := fun _ => ⟨⟨0, 0⟩, none⟩
  uses := []

theorem init_boot : Init boot where
  tables := fun _ => ⟨_, rfl⟩
  port := ⟨by decide, rfl⟩
  classes := fun c hc => by
    simp only [boot]
    rw [if_neg hc]
  constructed := rfl
  allocated := rfl
  made := rfl
  touched := rfl
  as_table := rfl
  handles := rfl
  info := fun _ => rfl
  uses := rfl

/-- A port is created at handle 0. -/
def createPort (access : UInt8) : Action Unit :=
  .create_obj () OBJ_CLASS_PORT access (some ⟨4096, [4096]⟩) (some (firstAlloc 0))

/-- Handle 0 is duplicated at handle 1. -/
def duplicatePort (access : UInt8) : Action Unit :=
  .duplicate_obj () 0 access (some ⟨1, 64, BIT_SET (firstAlloc 0).data 0 1⟩)

end Capability
