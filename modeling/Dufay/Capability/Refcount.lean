import Dufay.Capability.Syscalls

/-! # Reference counts

`capability_create` retains the object of the handle that it creates, and
`capability_destroy` releases it. `duplicate_obj` retains the object once
more, so that a duplicate counts twice.
-/

open Lts Memory

namespace Capability

universe u

variable {π : Type u} [DecidableEq π] {s s' : State π}

/-! ### The handles of an object -/

/-- The handles that name an object, in all tables. -/
def handlesOf (s : State π) (obj : Nat) : Finset (π × Nat) :=
  s.handles.filter fun x => (s.info x).binding.obj = obj

omit [DecidableEq π] in
theorem mem_handlesOf : x ∈ handlesOf s obj ↔ x ∈ s.handles ∧ (s.info x).binding.obj = obj := by
  rw [handlesOf, Finset.mem_filter]

theorem mem_handlesOf_bind (hnew : (p, handle) ∉ s.handles)
    : x ∈ handlesOf (s.bind p table objects handle binding origin) obj ↔
      x ∈ handlesOf s obj ∨ x = (p, handle) ∧ binding.obj = obj := by
  rw [mem_handlesOf, mem_handlesOf]
  simp only [State.bind, Finset.mem_insert]
  by_cases hx : x = (p, handle)
  · subst hx
    simp [hnew]
  · simp [hx]

theorem handlesOf_unbind : handlesOf (s.unbind p table objects handle) obj =
      (handlesOf s obj).erase (p, handle) := by
  ext x
  rw [mem_handlesOf, Finset.mem_erase, mem_handlesOf]
  simp only [State.unbind, Finset.mem_erase]
  tauto

/-! ### The invariant -/

/-- The calls on objects, where no duplicate gets as far as to retain an
object, and what is destroyed is a handle that lives or is rejected. -/
def Balanced (s : State π) : Action π → Prop
  | .create_obj .. => True
  | .duplicate_obj p handle access _ => duplicates (s.tables p) handle access = false
  | .destroy_obj p handle =>
    (p, handle.toNat) ∈ s.handles ∨ rejects (s.tables p) handle = true
  | _ => False

instance (s : State π) (a : Action π) : Decidable (Balanced s a) := by
  cases a <;> unfold Balanced <;> infer_instance

structure Counted (s : State π) : Prop where
  named : ∀ x ∈ s.handles, (s.info x).binding.obj ∈ s.objects.allocated
  allocated : ∀ obj ∈ s.objects.allocated, obj ∈ s.objects.constructed
  class_ : ∀ obj ∈ s.objects.constructed, (s.objects.header obj).class_ = OBJ_CLASS_PORT
  count : ∀ obj ∈ s.objects.constructed,
    (s.objects.header obj).refcount.toNat = (handlesOf s obj).card
  /-- There are no duplicates. -/
  once : ∀ obj x y, x ∈ handlesOf s obj → y ∈ handlesOf s obj → x = y

omit [DecidableEq π] in
theorem Counted.handlesOf_eq_empty (h : Counted s)
    (hobj : obj ∉ s.objects.allocated) : handlesOf s obj = ∅ := by
  apply Finset.eq_empty_of_forall_notMem
  intro x hx
  obtain ⟨hmem, hname⟩ := mem_handlesOf.mp hx
  exact hobj (hname ▸ h.named x hmem)

/-- The objects that go back in a step are those that lose their last
handle. -/
def Returns (s s' : State π) : Prop :=
  ∀ obj, s'.objects.returned = (OBJ_CLASS_PORT, obj) :: s.objects.returned ↔
    (handlesOf s obj).Nonempty ∧ handlesOf s' obj = ∅

omit [DecidableEq π] in
theorem Returns.of_subset (hret : s'.objects.returned = s.objects.returned)
    (hsub : ∀ obj, handlesOf s obj ⊆ handlesOf s' obj) : Returns s s' := by
  intro obj
  rw [hret]
  constructor
  · intro hcons
    have hlen := congrArg List.length hcons
    simp at hlen
  · rintro ⟨⟨x, hx⟩, hempty⟩
    have hx' := hsub obj hx
    rw [hempty] at hx'
    exact absurd hx' (Finset.notMem_empty x)

/-! ### The calls keep it -/

section

variable (h : Counted s)

include h

theorem Counted.keep (p : π) (table : Table) :
    Counted (s.keep p table s.objects) ∧ Returns s (s.keep p table s.objects) :=
  ⟨⟨h.named, h.allocated, h.class_, h.count, h.once⟩,
    Returns.of_subset rfl fun _ => Finset.Subset.refl _⟩

omit [DecidableEq π] in
theorem Counted.object_new {class_ : UInt8}
    (hnew : Capability.object_new s.objects class_ new = some (some obj, objects)) :
    Counted { s with objects := objects } ∧ handlesOf s obj = ∅ ∧
      obj ∈ objects.allocated ∧ objects.returned = s.objects.returned := by
  obtain ⟨_, a, rfl, ⟨hfree, hmem, hslab⟩, rfl⟩ := object_new_some hnew
  obtain ⟨_, _, _, hreturned, _⟩ := @foldl_obj_constructor s.objects a.slab
  refine ⟨⟨?_, ?_, ?_, ?_, h.once⟩, h.handlesOf_eq_empty hfree, Finset.mem_insert_self _ _,
    hreturned⟩
  · intro x hx
    exact Finset.mem_insert_of_mem (h.named x hx)
  · intro p hp
    rw [mem_foldl_obj_constructor]
    rcases Finset.mem_insert.mp hp with rfl | hp
    · exact hmem
    · exact .inr (h.allocated p hp)
  · intro p hp
    rw [mem_foldl_obj_constructor] at hp
    simp only [header_foldl_obj_constructor]
    split
    · rfl
    · next hnot => exact h.class_ p (hp.resolve_left hnot)
  · intro p hp
    rw [mem_foldl_obj_constructor] at hp
    simp only [header_foldl_obj_constructor]
    split
    · next hin =>
      have hout : p ∉ s.objects.allocated := fun hp => hslab p hin (h.allocated p hp)
      have hcard : (handlesOf s p).card = 0 := by
        rw [h.handlesOf_eq_empty hout, Finset.card_empty]
      exact hcard.symm
    · next hnot => exact h.count p (hp.resolve_left hnot)

theorem Counted.bind (hnew : (p, handle) ∉ s.handles)
    (hempty : handlesOf s obj = ∅) (halloc : obj ∈ s.objects.allocated) :
    Counted (s.bind p table (object_retain s.objects obj) handle ⟨access, obj⟩ origin) := by
  have hof {q : Nat} (hq : q ≠ obj) :
      handlesOf (s.bind p table (object_retain s.objects obj) handle ⟨access, obj⟩ origin) q =
        handlesOf s q := by
    ext x
    rw [mem_handlesOf_bind hnew]
    simp [hq.symm]
  have hone :
      handlesOf (s.bind p table (object_retain s.objects obj) handle ⟨access, obj⟩ origin) obj =
        {(p, handle)} := by
    ext x
    rw [mem_handlesOf_bind hnew, hempty]
    simp
  refine ⟨?_, h.allocated, ?_, ?_, ?_⟩
  · intro x hx
    by_cases heq : x = (p, handle)
    · subst heq
      simpa [State.bind, object_retain] using halloc
    · have hold := (Finset.mem_insert.mp hx).resolve_left heq
      simpa [State.bind, object_retain, heq] using h.named x hold
  · intro q hq
    by_cases heq : q = obj
    · subst heq
      simpa [State.bind, object_retain] using h.class_ q hq
    · simpa [State.bind, object_retain, heq] using h.class_ q hq
  · intro q hq
    by_cases heq : q = obj
    · subst heq
      have hcount : (s.objects.header q).refcount.toNat = 0 := by
        rw [h.count q hq, hempty, Finset.card_empty]
      rw [hone, Finset.card_singleton]
      simp [State.bind, object_retain, hcount]
    · rw [hof heq]
      simpa [State.bind, object_retain, heq] using h.count q hq
  · intro q x y hx hy
    by_cases heq : q = obj
    · subst heq
      rw [hone, Finset.mem_singleton] at hx hy
      rw [hx, hy]
    · rw [hof heq] at hx hy
      exact h.once q x y hx hy

theorem Counted.unbind (hlive : (p, handle) ∈ s.handles) : Counted (s.unbind p table
        (object_release s.objects (s.info (p, handle)).binding.obj) handle) ∧
      Returns s (s.unbind p table
        (object_release s.objects (s.info (p, handle)).binding.obj) handle) := by
  generalize hobj : (s.info (p, handle)).binding.obj = obj
  have hmem : (p, handle) ∈ handlesOf s obj := mem_handlesOf.mpr ⟨hlive, hobj⟩
  have hone : handlesOf s obj = {(p, handle)} := by
    ext x
    rw [Finset.mem_singleton]
    constructor
    · exact fun hx => h.once obj x _ hx hmem
    · rintro rfl
      exact hmem
  have hcon : obj ∈ s.objects.constructed := h.allocated obj (hobj ▸ h.named _ hlive)
  have hcount : (s.objects.header obj).refcount = 1 := by
    apply UInt32.toNat_inj.mp
    rw [h.count obj hcon, hone, Finset.card_singleton]
    rfl
  have hother {q : Nat} (hq : q ≠ obj) : (handlesOf s q).erase (p, handle) = handlesOf s q := by
    apply Finset.erase_eq_of_notMem
    intro hx
    exact hq (hobj ▸ (mem_handlesOf.mp hx).2.symm)
  refine ⟨⟨?_, ?_, ?_, ?_, ?_⟩, ?_⟩
  · intro x hx
    obtain ⟨hne, hold⟩ := Finset.mem_erase.mp hx
    have hname : (s.info x).binding.obj ≠ obj := by
      intro heq
      exact hne (h.once obj x _ (mem_handlesOf.mpr ⟨hold, heq⟩) hmem)
    simpa [State.unbind, object_release, hcount, hname] using h.named x hold
  · intro q hq
    simp only [State.unbind, object_release, hcount, if_true] at hq
    exact h.allocated q (Finset.mem_of_mem_erase hq)
  · intro q hq
    by_cases heq : q = obj
    · subst heq
      simpa [State.unbind, object_release] using h.class_ q hq
    · simpa [State.unbind, object_release, heq] using h.class_ q hq
  · intro q hq
    rw [handlesOf_unbind]
    by_cases heq : q = obj
    · subst heq
      rw [hone]
      simp [State.unbind, object_release, hcount]
    · rw [hother heq]
      simpa [State.unbind, object_release, heq] using h.count q hq
  · intro q x y hx hy
    rw [handlesOf_unbind] at hx hy
    exact h.once q x y (Finset.mem_of_mem_erase hx) (Finset.mem_of_mem_erase hy)
  · intro q
    have hclass := h.class_ obj hcon
    rw [handlesOf_unbind]
    simp only [State.unbind, object_release, hcount, if_true, hclass]
    by_cases heq : q = obj
    · subst heq
      simp [hone]
    · rw [hother heq]
      constructor
      · intro hcons
        cases hcons
        exact absurd rfl heq
      · rintro ⟨⟨x, hx⟩, hempty⟩
        rw [hempty] at hx
        exact absurd hx (Finset.notMem_empty x)

theorem Counted.create_obj (hok : s.Ok) {p : π} {class_ : UInt8}
    (hstep : Capability.create_obj s p class_ access new slot = some s') :
    Counted s' ∧ Returns s s' := by
  rcases create_obj_cases hstep with rfl | ⟨obj, objects, hnew, hs'⟩
  · exact ⟨h, .of_subset rfl fun _ => Finset.Subset.refl _⟩
  · obtain ⟨hcounted, hempty, halloc, hreturned⟩ := h.object_new hnew
    rcases hs' with rfl | ⟨handle, table, objects', hcreate, rfl⟩
    · exact ⟨(hcounted.keep p _).1, .of_subset hreturned fun _ => Finset.Subset.refl _⟩
    · obtain ⟨hdead, _, rfl, _, _⟩ := (hok p).create hcreate
      have hfresh : (p, handle) ∉ s.handles := State.live_eq_none.mp hdead
      refine ⟨hcounted.bind hfresh hempty halloc, .of_subset hreturned fun q x hx => ?_⟩
      exact (mem_handlesOf_bind hfresh).mpr (.inl hx)

theorem Counted.duplicate_obj (hbal : Balanced s (.duplicate_obj p handle access slot))
    (hstep : Capability.duplicate_obj s p handle access slot = some s') :
    Counted s' ∧ Returns s s' := by
  rcases duplicate_obj_cases hstep with ⟨_, rfl⟩ | ⟨hdup, _⟩
  · exact h.keep p _
  · have hnot : duplicates (s.tables p) handle access = false := hbal
    rw [hdup] at hnot
    cases hnot

theorem Counted.destroy_obj (hok : s.Ok)
    (hbal : Balanced s (.destroy_obj p handle)) : Counted (Capability.destroy_obj s p handle) ∧
      Returns s (Capability.destroy_obj s p handle) := by
  rw [destroy_obj_eq]
  split
  · exact h.keep p _
  · next hrej =>
    have hlive := hbal.resolve_right hrej
    have hvalue := ((hok p).value _ _ (State.live_of_mem hlive)).2
    rw [hvalue]
    exact h.unbind hlive

theorem Counted.step (hok : s.Ok) {a : Action π} (hbal : Balanced s a)
    (hstep : Capability.step s a = some s') : Counted s' ∧ Returns s s' := by
  cases a with
  | create_obj p class_ access new slot => exact h.create_obj hok hstep
  | duplicate_obj p handle access slot => exact h.duplicate_obj hbal hstep
  | destroy_obj p handle =>
    cases hstep
    exact h.destroy_obj hok hbal
  | as_action p capability ops address length answer => exact hbal.elim
  | msg_send p message msg header => exact hbal.elim
  | msg_recv p port rights => exact hbal.elim

end

omit [DecidableEq π] in
theorem Counted.init (h : Init s) : Counted s := by
  have hof (obj : Nat) : handlesOf s obj = ∅ := by
    rw [handlesOf, h.handles, Finset.filter_empty]
  refine ⟨?_, ?_, ?_, ?_, ?_⟩
  · simp [h.handles]
  · simp [h.allocated]
  · simp [h.constructed]
  · simp [h.constructed]
  · simp [hof]

theorem Counted.of_reachableBy (hs : ReachableBy (system π) Balanced s) : Counted s := by
  refine ReachableBy.invariant_of (fun s => State.Ok.of_reachableBy) ?_ ?_ hs
  · exact fun s h => Counted.init h
  · exact fun s a s' hok h hbal hstep => (Counted.step h hok hbal hstep).1

/-- **The count is the number of handles**, of every object that a slab
holds, after any run of the calls on objects without a successful
duplicate, and an object goes back to its cache exactly in a step that
destroys its last handle. -/
theorem refcount_eq_handles (hs : ReachableBy (system π) Balanced s) :
    (∀ obj ∈ s.objects.constructed,
      (s.objects.header obj).refcount.toNat = (handlesOf s obj).card) ∧
    ∀ a s', Balanced s a → step s a = some s' → ∀ obj,
      (s'.objects.returned = (OBJ_CLASS_PORT, obj) :: s.objects.returned ↔
        (handlesOf s obj).Nonempty ∧ handlesOf s' obj = ∅) := by
  have h := Counted.of_reachableBy hs
  refine ⟨h.count, fun a s' hbal hstep => ?_⟩
  exact (h.step (State.Ok.of_reachableBy hs) hbal hstep).2

/-- A port with one handle has the count one, and goes back to its cache when
the handle is destroyed. -/
theorem refcount_eq_handles_created :
    ∃ s, execBy (system Unit) Balanced boot [createPort 3] = some s ∧
      handlesOf s 4096 = {((), 0)} ∧ (s.objects.header 4096).refcount.toNat = 1 ∧
      ∃ s', step s (.destroy_obj () 0) = some s' ∧
        s'.objects.returned = (OBJ_CLASS_PORT, 4096) :: s.objects.returned := by
  refine run_imp (fun s => handlesOf s 4096 = {((), 0)} ∧ 4096 ∈ s.objects.constructed ∧
    Balanced s (.destroy_obj () 0) ∧ handlesOf (destroy_obj s () 0) 4096 = ∅) (by decide +kernel) ?_
  intro s hexec ⟨hof, hcon, hbal, hgone⟩
  have hall := refcount_eq_handles (.of_execBy (.init init_boot) hexec)
  refine ⟨hof, ?_, _, rfl, (hall.2 _ _ hbal rfl 4096).mpr ⟨?_, hgone⟩⟩
  · rw [hall.1 4096 hcon, hof, Finset.card_singleton]
  · rw [hof]
    exact Finset.singleton_nonempty _

/-- **A duplicate counts twice**: a port is created, duplicated, and both
handles are destroyed. No handle is left, but the count is one and the
port is still allocated. -/
theorem duplicate_obj_leaks : ∃ s, exec (system Unit) boot
        [createPort 3, duplicatePort 3, .destroy_obj () 0, .destroy_obj () 1] = some s ∧
      s.handles = ∅ ∧ (s.objects.header 4096).refcount = 1 ∧ 4096 ∈ s.objects.allocated ∧
      s.objects.returned = [] := by
  decide +kernel

end Capability
