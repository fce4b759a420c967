import Dufay.Capability.Syscalls

/-! # Handles and what they name

A table holds pointers and not what they point to. Ports come from
`object_new` and have a header; what `AS_ACTION_CONSTRUCT` binds comes
from `alloc` and has none, and `capability_create` retains it all the
same. Neither `lookup_port` nor `as_action` can tell them apart.
-/

open Lts Memory Address

namespace Capability

open Capability

universe u

variable {π : Type u} [DecidableEq π] {s s' : State π}

/-! ### The condition -/

/-- A handle that lives or is rejected. -/
def Valid (s : State π) (p : π) (handle : UInt32) : Prop :=
  (p, handle.toNat) ∈ s.handles ∨ rejects (s.tables p) handle = true

instance (s : State π) (p : π) (handle : UInt32) : Decidable (Valid s p handle) :=
  inferInstanceAs (Decidable (_ ∨ _))

/-- The handles that are passed are valid, and no address space is made. -/
def Separate (s : State π) : Action π → Prop
  | .create_obj .. => True
  | .duplicate_obj p handle _ _ => Valid s p handle
  | .destroy_obj p handle => Valid s p handle
  | .as_action _ _ ops _ _ answer =>
    ops = .AS_ACTION_CONSTRUCT → (address_space_construct s.spaces answer.space).1 = none
  | .msg_send p message _ _ => Valid s p (read32 message 0) ∧ Valid s p (read32 message 4)
  | .msg_recv p port _ => Valid s p port

instance (s : State π) (a : Action π) : Decidable (Separate s a) :=
  match a with
  | .create_obj .. | .duplicate_obj .. | .destroy_obj .. | .as_action .. | .msg_send ..
  | .msg_recv .. => by
    unfold Separate
    infer_instance

/-! ### The invariant -/

/-- The handle was made by `create_obj` for the port class, or is a
duplicate of one that was. -/
def IsPort (origin : Option Origin) : Prop :=
  ∃ access, origin = some ⟨.create_obj OBJ_CLASS_PORT, access⟩

structure Typed (s : State π) : Prop where
  as_table : s.spaces.as_table = []
  classes : ∀ c, c ≠ OBJ_CLASS_PORT → (s.objects.classes c).size = 0
  ports : ∀ x ∈ s.handles, IsPort (s.info x).origin ∧ (s.info x).binding.obj ∈ s.objects.made
  touched : ∀ t ∈ s.objects.touched, t.2 = true
  uses : ∀ use ∈ s.uses, use.operation = .port ∧ IsPort use.via

omit [DecidableEq π] in
theorem Typed.init (h : Init s) : Typed s := by
  refine ⟨h.as_table, h.classes, ?_, ?_, ?_⟩
  · simp [h.handles]
  · simp [h.touched]
  · simp [h.uses]

theorem Typed.of_valid (h : Typed s) (hok : s.Ok)
    (hvalid : Valid s p handle) (hrej : rejects (s.tables p) handle = false) :
    (p, handle.toNat) ∈ s.handles ∧ IsPort (s.info (p, handle.toNat)).origin ∧
      ((s.tables p).values handle.toNat).obj ∈ s.objects.made := by
  have hlive : (p, handle.toNat) ∈ s.handles := hvalid.resolve_right (by simp [hrej])
  obtain ⟨hport, hmade⟩ := h.ports _ hlive
  rw [((hok p).value _ _ (State.live_of_mem hlive)).2]
  exact ⟨hlive, hport, hmade⟩

theorem Typed.via (h : Typed s) (hok : s.Ok)
    (hvalid : Valid s p handle) (hrej : rejects (s.tables p) handle = false) :
    IsPort (s.via p handle) := by
  obtain ⟨hlive, hport, _⟩ := h.of_valid hok hvalid hrej
  rw [State.via, if_pos hlive]
  exact hport

/-! ### Changes of the state that keep it -/

/-- The objects after some that were made have been retained and
released. -/
structure Extends (objects objects' : Objects) : Prop where
  classes : objects'.classes = objects.classes
  made : ∀ obj ∈ objects.made, obj ∈ objects'.made
  touched : ∀ t ∈ objects'.touched, t ∈ objects.touched ∨ t.2 = true

theorem Extends.refl (objects : Objects) : Extends objects objects :=
  ⟨rfl, fun _ h => h, fun _ h => Or.inl h⟩

theorem Extends.trans (h₁ : Extends objects₁ objects₂)
    (h₂ : Extends objects₂ objects₃) : Extends objects₁ objects₃ where
  classes := h₂.classes.trans h₁.classes
  made := fun obj hobj => h₂.made obj (h₁.made obj hobj)
  touched := fun t ht => (h₂.touched t ht).elim (h₁.touched t) Or.inr

variable {objects : Objects}

theorem touched_cons (hmade : obj ∈ objects.made) :
    ∀ t ∈ (obj, decide (obj ∈ objects.made)) :: objects.touched,
      t ∈ objects.touched ∨ t.2 = true := by
  intro t ht
  rcases List.mem_cons.mp ht with rfl | ht
  · exact .inr (decide_eq_true hmade)
  · exact .inl ht

theorem Extends.object_retain (hmade : obj ∈ objects.made) :
    Extends objects (object_retain objects obj) where
  classes := rfl
  made := fun _ h => h
  touched := touched_cons hmade

theorem Extends.object_release (hmade : obj ∈ objects.made) :
    Extends objects (object_release objects obj) where
  classes := rfl
  made := fun _ h => h
  touched := touched_cons hmade

theorem Extends.object_new (hnew : object_new objects class_ new = some (some obj, objects')) :
    Extends objects objects' ∧ obj ∈ objects'.made ∧ (objects.classes class_).size ≠ 0 := by
  obtain ⟨hsize, a, rfl, _, rfl⟩ := object_new_some hnew
  obtain ⟨hclasses, _, _, _, htouched⟩ := @foldl_obj_constructor objects a.slab
  refine ⟨⟨hclasses, fun _ h => Finset.mem_insert_of_mem h, fun t ht => Or.inl ?_⟩,
    Finset.mem_insert_self _ _, hsize⟩
  rwa [htouched] at ht

section

variable (h : Typed s)

include h

theorem Typed.keep (p : π) (table : Table) (hobj : Extends s.objects objects) :
    Typed (s.keep p table objects) where
  as_table := h.as_table
  classes := fun c hc => by
    simp only [State.keep, hobj.classes]
    exact h.classes c hc
  ports := fun x hx => ⟨(h.ports x hx).1, hobj.made _ (h.ports x hx).2⟩
  touched := fun t ht => (hobj.touched t ht).elim (h.touched t) id
  uses := h.uses

theorem Typed.keepMem : Typed (s.keep p table { s.objects with mem := mem }) :=
  h.keep p table ⟨rfl, fun _ h => h, fun _ h => Or.inl h⟩

theorem Typed.bind (p : π) (table : Table) (handle : Nat)
    (hobj : Extends s.objects objects) (hmade : obj ∈ objects.made)
    (hport : IsPort origin) : Typed (s.bind p table objects handle ⟨access, obj⟩ origin) where
  as_table := h.as_table
  classes := (h.keep p table hobj).classes
  ports := fun x hx => by
    simp only [State.bind]
    by_cases heq : x = (p, handle)
    · subst heq
      rw [Function.update_self]
      exact ⟨hport, hmade⟩
    · rw [Function.update_of_ne heq]
      exact (h.keep p table hobj).ports x ((Finset.mem_insert.mp hx).resolve_left heq)
  touched := (h.keep p table hobj).touched
  uses := h.uses

theorem Typed.unbind (p : π) (table : Table) (handle : Nat)
    (hobj : Extends s.objects objects) : Typed (s.unbind p table objects handle) where
  as_table := h.as_table
  classes := (h.keep p table hobj).classes
  ports := fun x hx => (h.keep p table hobj).ports x (Finset.mem_of_mem_erase hx)
  touched := (h.keep p table hobj).touched
  uses := h.uses

/-! ### The calls keep it -/

theorem Typed.create_obj (hok : s.Ok)
    (hstep : create_obj s p class_ access new slot = some s') : Typed s' := by
  rcases create_obj_cases hstep with rfl | ⟨obj, objects, hnew, hs'⟩
  · exact h
  · obtain ⟨hobj, hmade, hsize⟩ := Extends.object_new hnew
    rcases hs' with rfl | ⟨handle, table, objects', hcreate, rfl⟩
    · exact h.keep p _ hobj
    · obtain ⟨_, _, rfl, _, _⟩ := (hok p).create hcreate
      -- there is no other class
      have hclass : class_ = OBJ_CLASS_PORT := by
        by_contra hne
        exact hsize (h.classes class_ hne)
      subst hclass
      exact h.bind p table handle (hobj.trans (.object_retain hmade)) hmade ⟨access, rfl⟩

theorem Typed.duplicate_obj (hok : s.Ok) (hvalid : Valid s p handle)
    (hstep : duplicate_obj s p handle access slot = some s') : Typed s' := by
  rcases duplicate_obj_cases hstep with ⟨_, rfl⟩ | ⟨hdup, hs'⟩
  · exact h.keep p _ (.refl _)
  · have hrej : rejects (s.tables p) handle = false := by
      simp only [duplicates, Bool.and_eq_true, Bool.not_eq_true'] at hdup
      exact hdup.1
    obtain ⟨_, hport, hmade⟩ := h.of_valid hok hvalid hrej
    have hobj := Extends.object_retain hmade
    rcases hs' with rfl | ⟨out_handle, table, objects, hcreate, rfl⟩
    · exact h.keep p _ hobj
    · obtain ⟨_, _, rfl, _, _⟩ := ((hok p).lookup handle).create hcreate
      exact h.bind p table out_handle (hobj.trans (.object_retain hmade)) hmade hport

theorem Typed.destroy_obj (hok : s.Ok)
    (hvalid : Valid s p handle) : Typed (destroy_obj s p handle) := by
  rw [destroy_obj_eq]
  split
  · exact h.keep p _ (.refl _)
  · next hrej =>
    obtain ⟨_, _, hmade⟩ := h.of_valid hok hvalid (Bool.eq_false_iff.mpr hrej)
    exact h.unbind p _ _ (.object_release hmade)

end

theorem asOperation_of_nil (h : spaces.as_table = []) :
    asOperation spaces asid ops address length = some (false, spaces) := by
  have hfind : address_find_as spaces asid = none := by
    rw [address_find_as, h]
    rfl
  cases ops <;> simp only [asOperation, hfind]

theorem as_table_of_construct (h : address_space_construct spaces answer = (none, spaces')) :
    spaces'.as_table = spaces.as_table := by
  unfold address_space_construct at h
  split at h
  · cases h
    rfl
  · simp only at h
    split at h
    · cases h
    · cases h
      rfl

theorem Typed.as_action (h : Typed s)
    (hsep : Separate s (.as_action p capability ops address length answer))
    (hstep : as_action s p capability ops address length answer = some s') :
    Typed s' := by
  unfold Capability.as_action at hstep
  split at hstep
  · next hops =>
    unfold asConstruct at hstep
    split at hstep
    · next hnone =>
      cases hstep
      refine ⟨?_, h.classes, h.ports, h.touched, h.uses⟩
      rw [as_table_of_construct hnone]
      exact h.as_table
    · next hsome =>
      have hnone := hsep hops
      rw [hsome] at hnone
      cases hnone
  · split at hstep
    · cases hstep
      exact h.keep p _ (.refl _)
    · split at hstep
      · cases hstep
        exact h.keep p _ (.refl _)
      · rw [asOperation_of_nil h.as_table] at hstep
        cases hstep
        exact h.keep p _ (.refl _)

omit [DecidableEq π] in
theorem Typed.use (h : Typed s) (uses : List Use)
    (huses : ∀ use ∈ uses, use.operation = .port ∧ IsPort use.via) :
    Typed { s with uses := uses ++ s.uses } := by
  refine ⟨h.as_table, h.classes, h.ports, h.touched, ?_⟩
  intro use hmem
  rcases List.mem_append.mp hmem with hnew | hold
  · exact huses use hnew
  · exact h.uses use hold

theorem Typed.msg_send (h : Typed s) (hok : s.Ok) (hdest : Valid s p (read32 message 0))
    (hreply : Valid s p (read32 message 4))
    (hstep : msg_send s p message msg header = some s') : Typed s' := by
  unfold Capability.msg_send at hstep
  split at hstep
  · cases hstep
  · cases hstep
    exact h.keepMem
  · next table mem hsend =>
    cases hstep
    obtain ⟨-, ⟨hr, -⟩ | ⟨m, hd, reply, rfl, hreply₀, -, -, -, hdest₀, -⟩⟩ :=
      message_send_cases hsend
    · cases hr
    have hrej := (lookup_port_of_ne_zero hdest₀).1
    have hrej' := (lookup_port_of_ne_zero hreply₀).1
    rw [(lookup_port_eq ..).1, (capability_lookup_keeps _ _).2] at hrej'
    refine (h.keepMem).use
      [⟨.port, s.via p (read32 message 0)⟩, ⟨.port, s.via p (read32 message 4)⟩] ?_
    intro use hmem
    simp only [List.mem_cons, List.not_mem_nil, or_false] at hmem
    rcases hmem with rfl | rfl
    · exact ⟨rfl, h.via hok hdest hrej⟩
    · exact ⟨rfl, h.via hok hreply hrej'⟩

theorem Typed.msg_recv (h : Typed s) (hok : s.Ok) (hport : Valid s p port)
    (hstep : msg_recv s p port rights = some s') : Typed s' := by
  unfold Capability.msg_recv at hstep
  split at hstep
  · cases hstep
  · cases hstep
    exact h.keepMem
  · next table mem hrecv =>
    cases hstep
    obtain ⟨-, ⟨hr, -⟩ | ⟨_, _, rfl, hport₀, -⟩⟩ := message_receive_cases (hok p) hrecv
    · cases hr
    have hrej := (lookup_port_of_ne_zero hport₀).1
    refine (h.keepMem).use [⟨.port, s.via p port⟩] ?_
    intro use hmem
    rw [List.mem_singleton] at hmem
    subst hmem
    exact ⟨rfl, h.via hok hport hrej⟩

theorem Typed.step (h : Typed s) (hok : s.Ok) {a : Action π} (hsep : Separate s a)
    (hstep : step s a = some s') : Typed s' := by
  cases a with
  | create_obj p class_ access new slot => exact h.create_obj hok hstep
  | duplicate_obj p handle access slot => exact h.duplicate_obj hok hsep hstep
  | destroy_obj p handle =>
    cases hstep
    exact h.destroy_obj hok hsep
  | as_action p capability ops address length answer => exact h.as_action hsep hstep
  | msg_send p message msg header => exact h.msg_send hok hsep.1 hsep.2 hstep
  | msg_recv p port rights => exact h.msg_recv hok hsep hstep

theorem Typed.of_reachableBy (hs : ReachableBy (system π) Separate s) : Typed s := by
  refine ReachableBy.invariant_of (fun s => State.Ok.of_reachableBy) ?_ ?_ hs
  · exact fun s h => Typed.init h
  · exact fun s a s' hok h hsep hstep => .step h hok hsep hstep

/-- **Handles are used for what they name**, in any run in which every
handle that is passed lives or is rejected and no address space is made:
operations on ports have succeeded only through handles of ports,
operations on address spaces only through handles that
`AS_ACTION_CONSTRUCT` made, and only what `object_new` returned has been
retained and released. -/
theorem handles_typed (hs : ReachableBy (system π) Separate s) :
    (∀ use ∈ s.uses, use.operation = .port →
      ∃ access, use.via = some ⟨.create_obj OBJ_CLASS_PORT, access⟩) ∧
    (∀ use ∈ s.uses, use.operation = .addressSpace →
      ∃ access, use.via = some ⟨.AS_ACTION_CONSTRUCT, access⟩) ∧
    ∀ t ∈ s.objects.touched, t.2 = true := by
  have h := Typed.of_reachableBy hs
  refine ⟨fun use hmem _ => (h.uses use hmem).2, fun use hmem hop => ?_, h.touched⟩
  rw [(h.uses use hmem).1] at hop
  cases hop

/-- A process sends a message to itself and receives it. -/
theorem handles_typed_message : ∃ s, execBy (system Unit) Separate boot
        [createPort (PORT_RIGHT_RECV ||| PORT_RIGHT_SEND),
          .msg_send () (fun _ => 0) (some 8192) (some 12288), .msg_recv () 0 0] = some s ∧
      s.uses.length = 3 ∧
      ∀ use ∈ s.uses, use.operation = .port →
        ∃ access, use.via = some ⟨.create_obj OBJ_CLASS_PORT, access⟩ := by
  refine run_imp (fun s => s.uses.length = 3) (by decide +kernel) fun s hexec hlen => ⟨hlen, ?_⟩
  exact (handles_typed (.of_execBy (.init init_boot) hexec)).1

/-- **A port passes for an address space**: a port is created and an address
space is constructed, which retains the block 8192 that is not an object.
The queue of the port is empty, so its first word is the number of the
address space, and `AS_ACTION_FREE` succeeds through the handle of the
port. -/
theorem as_action_through_port : ∃ s, exec (system Unit) boot [createPort 3,
          .as_action () 0 .AS_ACTION_CONSTRUCT none 0 ⟨some ⟨16384, [], true⟩, some 8192,
              some ⟨1, 64, BIT_SET (firstAlloc 0).data 0 1⟩⟩,
          .as_action () 0 .AS_ACTION_FREE (some 0) 0 ⟨none, none, none⟩] = some s ∧
      s.uses = [⟨.addressSpace, some ⟨.create_obj OBJ_CLASS_PORT, 3⟩⟩] ∧
      s.objects.touched = [(8192, false), (4096, true)] := by
  decide +kernel

end Capability
