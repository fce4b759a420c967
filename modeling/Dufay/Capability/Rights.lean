import Dufay.Capability.Syscalls

/-! # Rights along chains of duplicates

`duplicate_obj` compares the access that is asked for with the access of
the handle, and passes if they have a right in common.
-/

open Lts Memory Function

namespace Capability

universe u

variable {π : Type u} [DecidableEq π] {s s' : State π}

/-! ### Sets of rights -/

/-- The rights of `a` are among those of `b`. -/
def Among (a b : UInt8) : Prop := a &&& b = a

instance (a b : UInt8) : Decidable (Among a b) := inferInstanceAs (Decidable (_ = _))

theorem Among.refl (a : UInt8) : Among a a := UInt8.and_self

theorem Among.zero (a : UInt8) : Among 0 a := UInt8.zero_and

theorem Among.trans (hab : Among a b) (hbc : Among b c) : Among a c := by
  calc a &&& c = (a &&& b) &&& c := by rw [hab]
    _ = a &&& (b &&& c) := UInt8.and_assoc a b c
    _ = a &&& b := by rw [hbc]
    _ = a := hab

/-! ### The invariant -/

/-- The calls on objects, where a duplicate asks for rights of its handle
only. -/
def Attenuates (s : State π) : Action π → Prop
  | .create_obj .. => True
  | .duplicate_obj p handle access _ =>
    duplicates (s.tables p) handle access = true →
      Among access ((s.tables p).values handle.toNat).access
  | .destroy_obj .. => True
  | _ => False

instance (s : State π) (a : Action π) : Decidable (Attenuates s a) :=
  match a with
  | .create_obj .. | .duplicate_obj .. | .destroy_obj .. | .as_action .. | .msg_send ..
  | .msg_recv .. => by
    unfold Attenuates
    infer_instance

/-- What a slot grants was granted to the first handle of its chain. -/
def Granted (s : State π) : Prop := ∀ p handle origin, (s.info (p, handle)).origin = some origin →
    Among ((s.tables p).values handle).access origin.access

theorem Granted.bind (h : Granted s) (ht : TableOk table (s.live p))
    (hvalues : table.values = (s.tables p).values)
    (hcreate : capability_create table objects obj access slot =
      some (some handle, table', objects'))
    (horigin : ∀ o, origin = some o → Among access o.access) :
    Granted (s.bind p table' objects' handle ⟨access, obj⟩ origin) := by
  obtain ⟨_, _, _, hothers, hnew⟩ := ht.create hcreate
  intro q i o ho
  by_cases hq : q = p
  · subst hq
    simp only [State.bind, update_self] at ho ⊢
    by_cases hi : i = handle
    · subst hi
      rw [update_self] at ho
      rw [hnew]
      exact horigin o ho
    · rw [update_of_ne (by simp [hi])] at ho
      rcases hothers i hi with hsame | hzero
      · rw [hsame, hvalues]
        exact h q i o ho
      · rw [hzero]
        exact .zero _
  · simp only [State.bind] at ho ⊢
    rw [update_of_ne (by simp [hq])] at ho
    rw [update_of_ne hq]
    exact h q i o ho

omit [DecidableEq π] in
theorem Granted.of_values (h : Granted s) (hinfo : s'.info = s.info)
    (hvalues : ∀ p, (s'.tables p).values = (s.tables p).values) : Granted s' := by
  intro p i o ho
  rw [hinfo] at ho
  rw [hvalues]
  exact h p i o ho

theorem values_update {table : Table} (hvalues : table.values = (tables p).values) (q : π) :
    (update tables p table q).values = (tables q).values := by
  by_cases hq : q = p
  · subst hq
    rw [update_self, hvalues]
  · rw [update_of_ne hq]

theorem Granted.create_obj (h : Granted s) (hok : s.Ok) {access : UInt8}
    (hstep : Capability.create_obj s p class_ access new slot = some s') : Granted s' := by
  rcases create_obj_cases hstep with rfl | ⟨obj, objects, _, rfl | ⟨_, _, _, hcreate, rfl⟩⟩
  · exact h
  · exact h.of_values rfl (values_update rfl)
  · refine h.bind (hok p) rfl hcreate fun o ho => ?_
    cases ho
    exact .refl access

theorem Granted.duplicate_obj (h : Granted s) (hok : s.Ok)
    (hatt : Attenuates s (.duplicate_obj p handle access slot))
    (hstep : Capability.duplicate_obj s p handle access slot = some s') : Granted s' := by
  have hvalues := (capability_lookup_keeps (s.tables p) handle).1
  rcases duplicate_obj_cases hstep with ⟨_, rfl⟩ | ⟨hdup, rfl | ⟨_, _, _, hcreate, rfl⟩⟩
  · exact h.of_values rfl (values_update hvalues)
  · exact h.of_values rfl (values_update hvalues)
  · refine h.bind ((hok p).lookup handle) hvalues hcreate fun o ho => ?_
    exact (hatt hdup).trans (h p handle.toNat o ho)

theorem Granted.destroy_obj (h : Granted s) (p : π) (handle : UInt32) :
    Granted (Capability.destroy_obj s p handle) := by
  have hvalues := (capability_lookup_keeps (s.tables p) handle).1
  rw [destroy_obj_eq]
  split
  · exact h.of_values rfl (values_update rfl)
  · exact h.of_values rfl (values_update hvalues)

theorem Granted.step (h : Granted s) (hok : s.Ok) {a : Action π} (hatt : Attenuates s a)
    (hstep : Capability.step s a = some s') : Granted s' := by
  cases a with
  | create_obj p class_ access new slot => exact h.create_obj hok hstep
  | duplicate_obj p handle access slot => exact h.duplicate_obj hok hatt hstep
  | destroy_obj p handle =>
    cases hstep
    exact h.destroy_obj p handle
  | as_action p capability ops address length answer => exact hatt.elim
  | msg_send p message msg header => exact hatt.elim
  | msg_recv p port rights => exact hatt.elim

omit [DecidableEq π] in
theorem Granted.init (h : Init s) : Granted s := by
  intro p i o ho
  rw [h.info] at ho
  cases ho

theorem Granted.of_reachableBy (hs : ReachableBy (system π) Attenuates s) : Granted s := by
  refine ReachableBy.invariant_of (fun s => State.Ok.of_reachableBy) ?_ ?_ hs
  · exact fun s h => Granted.init h
  · exact fun s a s' hok h hatt hstep => .step h hok hatt hstep

/-- **Rights never amplify**: after any run of the calls on objects in which
a duplicate asks for rights of its handle only, the access of a handle is
among the rights that the first handle of its chain of duplicates was
created with. -/
theorem rights_never_amplify (hs : ReachableBy (system π) Attenuates s) (p : π)
    (handle : Nat) {origin : Origin} (horigin : (s.info (p, handle)).origin = some origin) :
    Among ((s.tables p).values handle).access origin.access :=
  Granted.of_reachableBy hs p handle origin horigin

/-- A handle with the right to send, from one with all rights. -/
theorem rights_never_amplify_send : ∃ s, execBy (system Unit) Attenuates boot
        [createPort 7, duplicatePort PORT_RIGHT_SEND] = some s ∧
      (s.info ((), 1)).origin = some ⟨.create_obj OBJ_CLASS_PORT, 7⟩ ∧
      Among ((s.tables ()).values 1).access 7 := by
  refine run_imp (fun s => (s.info ((), 1)).origin = some ⟨.create_obj OBJ_CLASS_PORT, 7⟩)
    (by decide +kernel) fun s hexec horigin => ⟨horigin, ?_⟩
  exact rights_never_amplify (.of_execBy (.init init_boot) hexec) () 1 horigin

/-- **A duplicate gains a right**: a port is created with the right to
receive. A duplicate that asks for the rights to receive and to send gets
both. -/
theorem duplicate_obj_amplifies : ∃ s, exec (system Unit) boot
        [createPort PORT_RIGHT_RECV, duplicatePort (PORT_RIGHT_RECV ||| PORT_RIGHT_SEND)] =
          some s ∧
      (s.info ((), 1)).origin = some ⟨.create_obj OBJ_CLASS_PORT, PORT_RIGHT_RECV⟩ ∧
      ¬ Among ((s.tables ()).values 1).access PORT_RIGHT_RECV := by
  decide +kernel

end Capability
