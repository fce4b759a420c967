import Dufay.Framework.Memory

/-! # Kernel objects

`obj_constructor`, `object_new`, `object_retain` and `object_release` of
`core/object.c`.

An object is its address; its header stands in front of it. The memory
in front of any other pointer is a header too, for a function that is
passed one. `kmem_cache_alloc` answers with no object or with one that is
not allocated, after it has created a slab or none. `obj_constructor`
runs on the objects of a new slab and at no other time.
-/

open Memory Function

namespace Capability

/-- `struct object_header` -/
structure Header where
  class_ : UInt8
  refcount : UInt32
  deriving DecidableEq

/-- `struct object_class` -/
structure Class where
  /-- Zero for a class that is not registered. -/
  size : Nat
  constructor : Option (Mem → Nat → Mem)

/-- The classes and the objects of all caches. -/
structure Objects where
  classes : UInt8 → Class
  /-- The header in front of a pointer. -/
  header : Nat → Header
  /-- The memory behind the pointers. -/
  mem : Mem
  /-- The objects of all slabs. -/
  constructed : Finset Nat
  /-- What `object_new` has returned and what has not gone back to its
      cache. -/
  allocated : Finset Nat
  /-- History that no step reads: what `object_new` has ever returned, the
      objects that went back, with the class whose cache they went to, and
      the pointers that `object_retain` and `object_release` were applied to,
      with whether `object_new` had returned them. -/
  made : Finset Nat
  returned : List (UInt8 × Nat)
  touched : List (Nat × Bool)

/-- The class is read before the header is cleared. -/
def obj_constructor (objects : Objects) (obj : Nat) : Objects :=
  let class_ := objects.classes (objects.header obj).class_
  let mem := zero objects.mem obj class_.size
  { objects with
    header := update objects.header obj ⟨0, 0⟩
    mem :=
      match class_.constructor with
      | some constructor => constructor mem obj
      | none => mem
    constructed := insert obj objects.constructed }

/-- What `kmem_cache_alloc` returns, and the objects of the slab that it has
created, if it has created one. -/
structure NewObject where
  obj : Nat
  slab : List Nat
  deriving DecidableEq

/-- What `kmem_cache_alloc` may return. No slab is destroyed at this level, so a
new one is at new addresses; the step that reclaims a slab is that of the
ports with their messages. -/
def NewObject.Possible (objects : Objects) (a : NewObject) : Prop :=
  a.obj ∉ objects.allocated ∧ (a.obj ∈ a.slab ∨ a.obj ∈ objects.constructed) ∧
    ∀ obj ∈ a.slab, obj ∉ objects.constructed

instance (objects : Objects) (a : NewObject) : Decidable (a.Possible objects) :=
  inferInstanceAs (Decidable (_ ∧ (_ ∨ _) ∧ ∀ obj ∈ a.slab, _))

/-- The object or an error, and the objects after it; `none` if the answer
of `kmem_cache_alloc` is not possible. -/
def object_new (objects : Objects) (class_ : UInt8) (answer : Option NewObject) :
    Option (Option Nat × Objects) :=
  if (objects.classes class_).size = 0 then some (none, objects)
  else
    match answer with
    | none => some (none, objects)
    | some a =>
      if a.Possible objects then
        let objects' := a.slab.foldl obj_constructor objects
        some (some a.obj,
          { objects' with
            allocated := insert a.obj objects'.allocated
            made := insert a.obj objects'.made })
      else none

def object_retain (objects : Objects) (obj : Nat) : Objects :=
  let hdr := objects.header obj
  { objects with
    header := update objects.header obj { hdr with refcount := hdr.refcount + 1 }
    touched := (obj, decide (obj ∈ objects.made)) :: objects.touched }

def object_release (objects : Objects) (obj : Nat) : Objects :=
  let hdr := objects.header obj
  { objects with
    header := update objects.header obj { hdr with refcount := hdr.refcount - 1 }
    allocated :=
      if hdr.refcount = 1 then objects.allocated.erase obj else objects.allocated
    returned :=
      if hdr.refcount = 1 then (hdr.class_, obj) :: objects.returned else objects.returned
    touched := (obj, decide (obj ∈ objects.made)) :: objects.touched }

variable {objects objects' : Objects}

theorem foldl_obj_constructor (slab : List Nat) :
    (slab.foldl obj_constructor objects).classes = objects.classes ∧
      (slab.foldl obj_constructor objects).allocated = objects.allocated ∧
      (slab.foldl obj_constructor objects).made = objects.made ∧
      (slab.foldl obj_constructor objects).returned = objects.returned ∧
      (slab.foldl obj_constructor objects).touched = objects.touched := by
  induction slab generalizing objects with
  | nil => exact ⟨rfl, rfl, rfl, rfl, rfl⟩
  | cons obj slab ih => exact ih

theorem mem_foldl_obj_constructor (slab : List Nat) (p : Nat) :
    p ∈ (slab.foldl obj_constructor objects).constructed ↔ p ∈ slab ∨ p ∈ objects.constructed := by
  induction slab generalizing objects with
  | nil => simp
  | cons obj slab ih =>
    rw [List.foldl_cons, ih]
    simp only [obj_constructor, Finset.mem_insert, List.mem_cons]
    tauto

theorem header_foldl_obj_constructor (slab : List Nat) (p : Nat) :
    (slab.foldl obj_constructor objects).header p =
      if p ∈ slab then ⟨0, 0⟩ else objects.header p := by
  induction slab generalizing objects with
  | nil => simp
  | cons obj slab ih =>
    rw [List.foldl_cons, ih]
    by_cases hmem : p ∈ slab
    · simp [hmem]
    · by_cases heq : p = obj
      · subst heq
        simp [hmem, obj_constructor]
      · simp [hmem, heq, obj_constructor]

theorem object_new_some (h : object_new objects class_ answer = some (some obj, objects')) :
    (objects.classes class_).size ≠ 0 ∧ ∃ a : NewObject, a.obj = obj ∧ a.Possible objects ∧
      objects' =
        { a.slab.foldl obj_constructor objects with
          allocated := insert obj objects.allocated
          made := insert obj objects.made } := by
  unfold object_new at h
  split at h
  · cases h
  · next hsize =>
    split at h
    · cases h
    · next a =>
      split at h
      · next hok =>
        obtain ⟨_, halloc, hmade, _⟩ := @foldl_obj_constructor objects a.slab
        simp only [halloc, hmade] at h
        cases h
        exact ⟨hsize, a, rfl, hok, rfl⟩
      · cases h

theorem object_new_none
    (h : object_new objects class_ answer = some (none, objects')) : objects' = objects := by
  unfold object_new at h
  split at h
  · cases h
    rfl
  · split at h
    · cases h
      rfl
    · split at h
      all_goals cases h

end Capability
