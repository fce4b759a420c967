import Dufay.Capability.Object
import Dufay.Framework.Lts

/-! # Object classes and their caches

`object_register_class`, `object_new`, `object_retain` and
`object_release` of `core/object.c`, for any number of classes.

The class in the header of an object decides which constructor and which
destructor run on it and which cache it goes back to, but no function
ever writes it: `obj_constructor` reads class 0 from the zeroed page of a
new slab, and `object_new` leaves it alone.

The calls are made on objects that `object_new` has returned and that
have not gone back since. `kmem_cache_alloc` takes any free buffer of the
cache, or the buffers of a new slab. A cache that a class is registered
with has buffers for the header and the object, so the pointer of the
freelist, in the last word of a buffer, is behind the header.

`Capability.Object` has the same functions for the system calls: there
the memory of the objects is modelled, and here their caches.
-/

open Lts Function

namespace ObjectClass

open ObjectClass

open Capability (Header)

/-! ### The state -/

/-- A constructor or a destructor of a cache: `obj_constructor` and
`obj_destructor`, or a function of whoever has created it. -/
inductive Hook where
  | object
  | own (f : Nat)
  deriving DecidableEq

/-- `struct kmem_cache` -/
structure Cache where
  constructor : Option Hook
  destructor : Option Hook
  deriving DecidableEq

/-- `struct object_class`. A function is its address. -/
structure Class where
  constructor : Option Nat
  destructor : Option Nat
  /-- Zero for a class that is not registered. -/
  size : Nat
  cache : Option Nat
  deriving DecidableEq

inductive Buffer where
  /-- In no slab. -/
  | absent
  | free (cp : Nat)
  /-- `object_new` has returned it for a class. -/
  | held (class_ : UInt8)
  /-- A cache that does not know it was told to free it. -/
  | lost
  deriving DecidableEq

/-- `object_new` has returned an object for a class. The constructor is the
one that ran on it when its slab was created. -/
structure Made where
  obj : Nat
  class_ : UInt8
  initialised : Option Nat
  deriving DecidableEq

/-- The count of an object has dropped to zero. The class is the one that
the object was made for. -/
structure Drop where
  obj : Nat
  class_ : UInt8
  deriving DecidableEq

/-- `kmem_cache_free` has been called for an object. The destructor is the
one that ran on it, if one did. -/
structure Free where
  obj : Nat
  cache : Nat
  destructor : Option Nat
  deriving DecidableEq

structure State where
  classes : UInt8 → Class
  caches : Nat → Option Cache
  header : Nat → Header
  buffer : Nat → Buffer
  /-- The cache that created the slab of a buffer. -/
  slab : Nat → Nat
  /-- A null pointer was followed. -/
  faulted : Bool
  /-- History that no step reads. -/
  initialised : Nat → Option Nat
  made : List Made
  drops : List Drop
  frees : List Free

/-- What the own functions of a cache do with a buffer: what they leave in
the header, and the function that they run on the object behind it. -/
structure Effects where
  header : Nat → Header → Header
  runs : Nat → Option Nat

/-- The class is read before the header is cleared. -/
def obj_constructor (s : State) (obj : Nat) : State :=
  let class_ := s.classes (s.header obj).class_
  { s with
    header := update s.header obj ⟨0, 0⟩
    initialised := update s.initialised obj class_.constructor }

/-- The destructor that runs. -/
def obj_destructor (s : State) (obj : Nat) : Option Nat :=
  (s.classes (s.header obj).class_).destructor

/-- What `slab_create_small` and `slab_create_large` do for one buffer of a
page that `pmm_alloc` has zeroed. -/
def slab_create_buffer (env : Effects) (cp : Nat) (cache : Cache) (s : State) (buf : Nat) : State :=
  let s :=
    { s with
      header := update s.header buf ⟨0, 0⟩
      buffer := update s.buffer buf (.free cp)
      slab := update s.slab buf cp
      initialised := update s.initialised buf none }
  match cache.constructor with
  | none => s
  | some .object => obj_constructor s buf
  | some (.own f) =>
    { s with
      header := update s.header buf (env.header f (s.header buf))
      initialised := update s.initialised buf (env.runs f) }

/-- How a buffer goes back: into a magazine, or to its slab, which is on a
list of the cache or of the one that created it. If the slab is
destroyed, its free buffers are gone. A cache of large objects looks the
buffer up in its dictionary and returns if it is not there. -/
inductive Layer where
  | magazine
  | slab (list : Nat) (destroyed : List Nat)
  | unknown
  deriving DecidableEq

/-- The destructor of the cache: the header after it, and the function that
ran. -/
def runDestructor (env : Effects) (s : State) (cache : Cache) (ptr : Nat) : Header × Option Nat :=
  match cache.destructor with
  | none => (s.header ptr, none)
  | some .object => (s.header ptr, obj_destructor s ptr)
  | some (.own f) => (env.header f (s.header ptr), env.runs f)

/-- Only the slab path runs the destructor. -/
def kmem_cache_free (env : Effects) (s : State) (cp ptr : Nat) (layer : Layer) : Option State :=
  match s.caches cp with
  | none => none
  | some cache =>
    match layer with
    | .magazine =>
      some { s with
        buffer := update s.buffer ptr (.free cp)
        frees := ⟨ptr, cp, none⟩ :: s.frees }
    | .slab list destroyed =>
      let r := runDestructor env s cache ptr
      let buffer := update s.buffer ptr (.free list)
      if (list = cp ∨ list = s.slab ptr) ∧ ∀ p ∈ destroyed, buffer p = .free list then
        some { s with
          header := update s.header ptr r.1
          buffer := fun p => if p ∈ destroyed then .absent else buffer p
          frees := ⟨ptr, cp, r.2⟩ :: s.frees }
      else none
    | .unknown =>
      let r := runDestructor env s cache ptr
      if s.slab ptr ≠ cp then
        some { s with
          header := update s.header ptr r.1
          buffer := update s.buffer ptr .lost
          frees := ⟨ptr, cp, r.2⟩ :: s.frees }
      else none

/-- `answer` is the cache that `kmem_cache_create` returns, if it returns
one. -/
def object_register_class (s : State) (class_ : UInt8) (data : Class) (answer : Option Nat) :
    Option State :=
  if (s.classes class_).size > 0 then some s
  else
    match data.cache with
    | some cp =>
      if (s.caches cp).isSome then
        some { s with classes := update s.classes class_ data }
      else none
    | none =>
      match answer with
      | none => some s
      | some cp =>
        if (s.caches cp).isNone then
          some { s with
            caches := update s.caches cp (some ⟨some .object, some .object⟩)
            classes := update s.classes class_ { data with cache := some cp } }
        else none

/-- What `kmem_cache_alloc` returns, and the buffers of the slab that it has
created, if it has created one. -/
structure NewBuffer where
  obj : Nat
  slab : List Nat
  deriving DecidableEq

/-- `kmem_cache_alloc` returns no buffer, or a free one of the cache. -/
def object_new (env : Effects) (s : State) (class_ : UInt8) (answer : Option NewBuffer) :
    Option State :=
  if (s.classes class_).size = 0 then some s
  else
    match (s.classes class_).cache with
    | none => some { s with faulted := true }
    | some cp =>
      match s.caches cp with
      | none => none
      | some cache =>
        match answer with
        | none => some s
        | some a =>
          let s' := a.slab.foldl (slab_create_buffer env cp cache) s
          if (∀ p ∈ a.slab, s.buffer p = .absent) ∧ s'.buffer a.obj = .free cp then
            some { s' with
              buffer := update s'.buffer a.obj (.held class_)
              made := ⟨a.obj, class_, s'.initialised a.obj⟩ :: s'.made }
          else none

def object_retain (s : State) (obj : Nat) : Option State :=
  match s.buffer obj with
  | .held _ =>
    let hdr := s.header obj
    some { s with
      header := update s.header obj { hdr with refcount := hdr.refcount + 1 } }
  | _ => none

def object_release (env : Effects) (s : State) (obj : Nat) (layer : Layer) : Option State :=
  match s.buffer obj with
  | .held class_ =>
    let hdr := s.header obj
    let s :=
      { s with header := update s.header obj { hdr with refcount := hdr.refcount - 1 } }
    if hdr.refcount = 1 then
      let s := { s with drops := ⟨obj, class_⟩ :: s.drops }
      match (s.classes hdr.class_).cache with
      | none => some { s with faulted := true }
      | some cp => kmem_cache_free env s cp obj layer
    else some s
  | _ => none

inductive Action where
  /-- Somebody else creates a cache, with functions of their own. -/
  | kmem_cache_create (cp : Nat) (constructor destructor : Option Nat)
  | object_register_class (class_ : UInt8) (data : Class) (answer : Option Nat)
  | object_new (class_ : UInt8) (answer : Option NewBuffer)
  | object_retain (obj : Nat)
  | object_release (obj : Nat) (layer : Layer)
  deriving DecidableEq

def step (env : Effects) (s : State) (a : Action) : Option State :=
  if s.faulted then none
  else
    match a with
    | .kmem_cache_create cp constructor destructor =>
      if (s.caches cp).isNone then
        some { s with
          caches := update s.caches cp
            (some ⟨constructor.map .own, destructor.map .own⟩) }
      else none
    | .object_register_class class_ data answer => object_register_class s class_ data answer
    | .object_new class_ answer => object_new env s class_ answer
    | .object_retain obj => object_retain s obj
    | .object_release obj layer => object_release env s obj layer

/-- No class is registered and there is no cache. -/
def start : State where
  classes := fun _ => ⟨none, none, 0, none⟩
  caches := fun _ => none
  header := fun _ => ⟨0, 0⟩
  buffer := fun _ => .absent
  slab := fun _ => 0
  faulted := false
  initialised := fun _ => none
  made := []
  drops := []
  frees := []

def system (env : Effects) : System State Action where
  init := fun s => s = start
  step := step env

/-! ### Going back to the own class -/

/-- A free that follows a drop as it should: the same object, to the cache of
the class it was made for, and no destructor but that of this class. -/
structure FreedTo (s : State) (free : Free) (drop : Drop) : Prop where
  obj : free.obj = drop.obj
  cache : (s.classes drop.class_).cache = some free.cache
  destructor : free.destructor = none ∨ free.destructor = (s.classes drop.class_).destructor

def Buffer.holds : Buffer → Nat
  | .absent => 0
  | .free _ => 0
  | .held _ => 1
  | .lost => 0

/-- **Objects go back to their own class**: each object was initialised by
the constructor of the class it was made for, each drop of a count to
zero is one free to this class, there is no other free, and an object
that is not held has been freed as often as it has been made. -/
structure OwnClass (s : State) : Prop where
  constructed : ∀ m ∈ s.made, m.initialised = (s.classes m.class_).constructor
  freed : List.Forall₂ (FreedTo s) s.frees s.drops
  once : ∀ obj, s.frees.countP (fun f => f.obj = obj) + (s.buffer obj).holds =
    s.made.countP fun m => m.obj = obj

/-- What the constructor leaves in the header of a zeroed buffer. -/
def Cache.leaves (env : Effects) (cache : Cache) : Header :=
  match cache.constructor with
  | none => ⟨0, 0⟩
  | some .object => ⟨0, 0⟩
  | some (.own f) => env.header f ⟨0, 0⟩

/-- The function that the constructor runs on the object. -/
def Cache.initialiser (env : Effects) (classes : UInt8 → Class) (cache : Cache) : Option Nat :=
  match cache.constructor with
  | none => none
  | some .object => (classes 0).constructor
  | some (.own f) => env.runs f

/-- The destructor leaves the class in the header, and runs no function but
the one of the class. -/
def Cache.DestroysAs (env : Effects) (class_ : UInt8) (data : Class) (cache : Cache) : Prop :=
  match cache.destructor with
  | none => True
  | some .object => True
  | some (.own f) =>
    (∀ hdr : Header, hdr.class_ = class_ → (env.header f hdr).class_ = class_) ∧
      (env.runs f = none ∨ env.runs f = data.destructor)

/-- The cache of a class marks its buffers with this class, and its functions
are those of the class. -/
structure Proper (env : Effects) (s : State) (class_ : UInt8) (cp : Nat) (cache : Cache) :
    Prop where
  cache_eq : (s.classes class_).cache = some cp
  exists_cache : s.caches cp = some cache
  marks : (cache.leaves env).class_ = class_
  initialises : cache.initialiser env s.classes = (s.classes class_).constructor
  destroys : cache.DestroysAs env class_ (s.classes class_)

/-- Objects are made only for classes whose cache is proper. -/
def MadeProperly (env : Effects) (s : State) (a : Action) : Prop :=
  match a with
  | .object_new class_ _ => (s.classes class_).size ≠ 0 → ∃ cp cache, Proper env s class_ cp cache
  | _ => True

/-! ### The invariant -/

variable {env : Effects} {s s' : State}

/-- A buffer in the cache of a class, as its constructor has left it. -/
structure BelongsTo (env : Effects) (s : State) (p : Nat) (class_ : UInt8) (cp : Nat)
    (cache : Cache) : Prop where
  proper : Proper env s class_ cp cache
  registered : (s.classes class_).size ≠ 0
  slab : s.slab p = cp
  header : (s.header p).class_ = class_
  initialised : s.initialised p = (s.classes class_).constructor

/-- Every buffer belongs to a class: a free one to that of its cache, and one
that is held to the class it was made for. -/
def BufferOk (env : Effects) (s : State) (p : Nat) : Prop :=
  match s.buffer p with
  | .absent => True
  | .free cp => ∃ class_ cache, BelongsTo env s p class_ cp cache
  | .held class_ => ∃ cp cache, BelongsTo env s p class_ cp cache
  | .lost => False

structure Inv (env : Effects) (s : State) : Prop where
  buffers : ∀ p, BufferOk env s p
  own : OwnClass s
  made : ∀ m ∈ s.made, (s.classes m.class_).size ≠ 0
  drops : ∀ d ∈ s.drops, (s.classes d.class_).size ≠ 0

/-- Registered classes and caches stay. -/
structure Grows (s s' : State) : Prop where
  classes : ∀ class_, (s.classes class_).size ≠ 0 → s'.classes class_ = s.classes class_
  caches : ∀ cp cache, s.caches cp = some cache → s'.caches cp = some cache

theorem Grows.of_eq (hclasses : s'.classes = s.classes) (hcaches : s'.caches = s.caches) :
    Grows s s' :=
  ⟨fun class_ _ => by rw [hclasses], fun cp cache h => by rw [hcaches]; exact h⟩

variable {class_ : UInt8} {cp obj : Nat} {cache : Cache}

theorem Proper.unique (h : Proper env s class_ cp cache)
    (h' : Proper env s class_' cp cache') : class_ = class_' ∧ cache = cache' := by
  have hcache : cache = cache' := by
    have heq := h.exists_cache.symm.trans h'.exists_cache
    exact Option.some.inj heq
  subst hcache
  exact ⟨h.marks.symm.trans h'.marks, rfl⟩

section
variable (h : Proper env s class_ cp cache) (hsize : (s.classes class_).size ≠ 0)
  (hgrows : Grows s s')
include h hsize hgrows

theorem Proper.initialiser_eq :
    cache.initialiser env s'.classes = cache.initialiser env s.classes := by
  have hmarks := h.marks
  unfold Cache.leaves at hmarks
  unfold Cache.initialiser
  match hcons : cache.constructor with
  | none => rfl
  | some .object =>
    rw [hcons] at hmarks
    subst hmarks
    show (s'.classes 0).constructor = (s.classes 0).constructor
    rw [hgrows.classes 0 hsize]
  | some (.own f) => rfl

theorem Proper.grows : Proper env s' class_ cp cache := by
  have hclass := hgrows.classes class_ hsize
  refine ⟨?_, hgrows.caches _ _ h.exists_cache, h.marks, ?_, ?_⟩
  · rw [hclass]
    exact h.cache_eq
  · rw [h.initialiser_eq hsize hgrows, hclass]
    exact h.initialises
  · rw [hclass]
    exact h.destroys

end

theorem BelongsTo.grows (h : BelongsTo env s p class_ cp cache) (hgrows : Grows s s')
    (hslab : s'.slab p = s.slab p) (hheader : (s'.header p).class_ = (s.header p).class_)
    (hinit : s'.initialised p = s.initialised p) : BelongsTo env s' p class_ cp cache := by
  have hclass := hgrows.classes class_ h.registered
  refine ⟨h.proper.grows h.registered hgrows, ?_, hslab.trans h.slab, hheader.trans h.header, ?_⟩
  · rw [hclass]
    exact h.registered
  · rw [hinit, hclass]
    exact h.initialised

theorem BufferOk.grows (h : BufferOk env s p) (hgrows : Grows s s')
    (hbuffer : s'.buffer p = s.buffer p) (hslab : s'.slab p = s.slab p)
    (hheader : (s'.header p).class_ = (s.header p).class_)
    (hinit : s'.initialised p = s.initialised p) : BufferOk env s' p := by
  unfold BufferOk at h ⊢
  rw [hbuffer]
  match hb : s.buffer p with
  | .absent => trivial
  | .free cp =>
    rw [hb] at h
    obtain ⟨class_, cache, hbelongs⟩ := h
    exact ⟨class_, cache, hbelongs.grows hgrows hslab hheader hinit⟩
  | .held class_ =>
    rw [hb] at h
    obtain ⟨cp, cache, hbelongs⟩ := h
    exact ⟨cp, cache, hbelongs.grows hgrows hslab hheader hinit⟩
  | .lost =>
    rw [hb] at h
    exact h

theorem FreedTo.grows (h : FreedTo s free drop) (hgrows : Grows s s')
    (hsize : (s.classes drop.class_).size ≠ 0) : FreedTo s' free drop := by
  have hclass := hgrows.classes drop.class_ hsize
  exact ⟨h.obj, by rw [hclass]; exact h.cache, by rw [hclass]; exact h.destructor⟩

theorem forall₂_freedTo_grows (hgrows : Grows s s') (h : List.Forall₂ (FreedTo s) frees drops)
    (hsize : ∀ d ∈ drops, (s.classes d.class_).size ≠ 0) :
    List.Forall₂ (FreedTo s') frees drops := by
  induction h with
  | nil => exact .nil
  | cons hfreed _ ih =>
    refine .cons (hfreed.grows hgrows (hsize _ (List.mem_cons_self ..))) ?_
    exact ih fun d hd => hsize d (List.mem_cons_of_mem _ hd)

theorem Inv.grows (h : Inv env s) (hgrows : Grows s s') (hbuffer : s'.buffer = s.buffer)
    (hslab : s'.slab = s.slab) (hheader : ∀ p, (s'.header p).class_ = (s.header p).class_)
    (hinit : s'.initialised = s.initialised) (hmade : s'.made = s.made)
    (hdrops : s'.drops = s.drops) (hfrees : s'.frees = s.frees) : Inv env s' := by
  refine ⟨fun p => ?_, ⟨fun m hm => ?_, ?_, fun obj => ?_⟩, fun m hm => ?_, fun d hd => ?_⟩
  · exact (h.buffers p).grows hgrows (by rw [hbuffer]) (by rw [hslab]) (hheader p) (by rw [hinit])
  · rw [hmade] at hm
    rw [hgrows.classes _ (h.made m hm)]
    exact h.own.constructed m hm
  · rw [hfrees, hdrops]
    exact forall₂_freedTo_grows hgrows h.own.freed h.drops
  · rw [hfrees, hbuffer, hmade]
    exact h.own.once obj
  · rw [hmade] at hm
    rw [hgrows.classes _ (h.made m hm)]
    exact h.made m hm
  · rw [hdrops] at hd
    rw [hgrows.classes _ (h.drops d hd)]
    exact h.drops d hd

theorem inv_start : Inv env start := by
  refine ⟨fun p => trivial, ⟨fun m hm => ?_, .nil, fun obj => rfl⟩, fun m hm => ?_, fun d hd => ?_⟩
  · cases hm
  · cases hm
  · cases hd

/-! ### Registering classes and creating caches -/

theorem grows_newCache (h : (s.caches cp).isNone) (classes : UInt8 → Class)
    (hclasses : ∀ class_, (s.classes class_).size ≠ 0 → classes class_ = s.classes class_) :
    Grows s { s with caches := update s.caches cp (some cache), classes := classes } := by
  refine ⟨hclasses, fun cp' cache' hcache => ?_⟩
  have hne : cp' ≠ cp := by
    intro heq
    rw [heq] at hcache
    rw [hcache] at h
    cases h
  show update s.caches cp (some cache) cp' = some cache'
  rw [update_of_ne hne]
  exact hcache

theorem update_classes {data : Class} (h : ¬ (s.classes class_).size > 0) (class_' : UInt8)
    (hsize : (s.classes class_').size ≠ 0) :
    update s.classes class_ data class_' = s.classes class_' := by
  apply update_of_ne
  intro heq
  rw [heq] at hsize
  omega

theorem Inv.object_register_class (h : Inv env s)
    (hstep : object_register_class s class_ data answer = some s') : Inv env s' := by
  unfold ObjectClass.object_register_class at hstep
  split at hstep
  · cases hstep
    exact h
  · next hsize =>
    split at hstep
    · next cp hcache =>
      split at hstep
      · cases hstep
        have hgrows : Grows s { s with classes := update s.classes class_ data } :=
          ⟨update_classes hsize, fun _ _ hc => hc⟩
        exact h.grows hgrows rfl rfl (fun _ => rfl) rfl rfl rfl rfl
      · cases hstep
    · split at hstep
      · cases hstep
        exact h
      · next cp =>
        obtain ⟨hnone, rfl⟩ := of_guard hstep
        have hgrows := @grows_newCache s cp ⟨some .object, some .object⟩ hnone _
          (@update_classes s class_ { data with cache := some cp } hsize)
        exact h.grows hgrows rfl rfl (fun _ => rfl) rfl rfl rfl rfl

/-! ### New objects -/

/-- What the creation of a slab does. -/
structure Created (env : Effects) (cp : Nat) (cache : Cache) (l : List Nat) (s s' : State) :
    Prop where
  classes : s'.classes = s.classes
  caches : s'.caches = s.caches
  made : s'.made = s.made
  drops : s'.drops = s.drops
  frees : s'.frees = s.frees
  others : ∀ p, p ∉ l → s'.buffer p = s.buffer p ∧ s'.slab p = s.slab p ∧
    s'.header p = s.header p ∧ s'.initialised p = s.initialised p
  buffers : ∀ p ∈ l, s'.buffer p = .free cp ∧ s'.slab p = cp ∧ s'.header p = cache.leaves env ∧
    s'.initialised p = cache.initialiser env s.classes

theorem slab_create_buffer_created (env : Effects) (cp : Nat) (cache : Cache) (s : State)
    (buf : Nat) : Created env cp cache [buf] s (slab_create_buffer env cp cache s buf) := by
  unfold slab_create_buffer
  match hcons : cache.constructor with
  | none | some (.own f) =>
    refine ⟨rfl, rfl, rfl, rfl, rfl, fun p hp => ?_, fun p hp => ?_⟩
    · simp [List.ne_of_not_mem_cons hp]
    · rw [List.mem_singleton.mp hp]
      simp [Cache.leaves, Cache.initialiser, hcons]
  | some .object =>
    refine ⟨rfl, rfl, rfl, rfl, rfl, fun p hp => ?_, fun p hp => ?_⟩
    · simp [List.ne_of_not_mem_cons hp, obj_constructor]
    · -- the class is read from a zeroed page
      rw [List.mem_singleton.mp hp]
      simp [Cache.leaves, Cache.initialiser, hcons, obj_constructor]

theorem foldl_slab_create_buffer (env : Effects) (cp : Nat) (cache : Cache) :
    ∀ (l : List Nat) (s : State),
      Created env cp cache l s (l.foldl (slab_create_buffer env cp cache) s) := by
  intro l
  induction l with
  | nil =>
    intro s
    refine ⟨rfl, rfl, rfl, rfl, rfl, fun p _ => ⟨rfl, rfl, rfl, rfl⟩, fun p hp => ?_⟩
    cases hp
  | cons buf l ih =>
    intro s
    have hone := slab_create_buffer_created env cp cache s buf
    have hrest := ih (slab_create_buffer env cp cache s buf)
    rw [List.foldl_cons]
    refine ⟨hrest.classes.trans hone.classes, hrest.caches.trans hone.caches,
      hrest.made.trans hone.made, hrest.drops.trans hone.drops, hrest.frees.trans hone.frees,
      fun p hp => ?_, fun p hp => ?_⟩
    · have hne : p ≠ buf := List.ne_of_not_mem_cons hp
      have hnotin : p ∉ l := List.not_mem_of_not_mem_cons hp
      obtain ⟨hb, hs, hh, hi⟩ := hrest.others p hnotin
      obtain ⟨hb', hs', hh', hi'⟩ := hone.others p fun h => hne (List.mem_singleton.mp h)
      exact ⟨hb.trans hb', hs.trans hs', hh.trans hh', hi.trans hi'⟩
    · by_cases hin : p ∈ l
      · obtain ⟨hb, hs, hh, hi⟩ := hrest.buffers p hin
        rw [hone.classes] at hi
        exact ⟨hb, hs, hh, hi⟩
      · have hbuf : p ∈ [buf] := List.mem_singleton.mpr ((List.mem_cons.mp hp).resolve_right hin)
        obtain ⟨hb, hs, hh, hi⟩ := hrest.others p hin
        obtain ⟨hb', hs', hh', hi'⟩ := hone.buffers p hbuf
        exact ⟨hb.trans hb', hs.trans hs', hh.trans hh', hi.trans hi'⟩

theorem Inv.created (h : Inv env s) (hproper : Proper env s class_ cp cache)
    (hsize : (s.classes class_).size ≠ 0) (hcreated : Created env cp cache l s s')
    (habsent : ∀ p ∈ l, s.buffer p = .absent) : Inv env s' := by
  have hgrows : Grows s s' := .of_eq hcreated.classes hcreated.caches
  have hproper' := hproper.grows hsize hgrows
  have hbuffers : ∀ p, BufferOk env s' p := by
    intro p
    by_cases hp : p ∈ l
    · obtain ⟨hbuffer, hslab, hheader, hinit⟩ := hcreated.buffers p hp
      unfold BufferOk
      rw [hbuffer]
      refine ⟨class_, cache, hproper', ?_, hslab, ?_, ?_⟩
      · rw [hcreated.classes]
        exact hsize
      · rw [hheader]
        exact hproper.marks
      · rw [hinit, hcreated.classes]
        exact hproper.initialises
    · obtain ⟨hbuffer, hslab, hheader, hinit⟩ := hcreated.others p hp
      exact (h.buffers p).grows hgrows hbuffer hslab (by rw [hheader]) hinit
  have hheld : ∀ obj, (s'.buffer obj).holds = (s.buffer obj).holds := by
    intro obj
    by_cases hp : obj ∈ l
    · rw [(hcreated.buffers obj hp).1, habsent obj hp]
      rfl
    · rw [(hcreated.others obj hp).1]
  refine ⟨hbuffers, ⟨fun m hm => ?_, ?_, fun obj => ?_⟩, fun m hm => ?_, fun d hd => ?_⟩
  · rw [hcreated.made] at hm
    rw [hcreated.classes]
    exact h.own.constructed m hm
  · rw [hcreated.frees, hcreated.drops]
    exact forall₂_freedTo_grows hgrows h.own.freed h.drops
  · rw [hcreated.frees, hcreated.made, hheld]
    exact h.own.once obj
  · rw [hcreated.made] at hm
    rw [hcreated.classes]
    exact h.made m hm
  · rw [hcreated.drops] at hd
    rw [hcreated.classes]
    exact h.drops d hd

theorem Inv.take (h : Inv env s) (hproper : Proper env s class_ cp cache)
    (hfree : s.buffer obj = .free cp) : Inv env { s with
      buffer := update s.buffer obj (.held class_)
      made := ⟨obj, class_, s.initialised obj⟩ :: s.made } := by
  have hok := h.buffers obj
  unfold BufferOk at hok
  rw [hfree] at hok
  obtain ⟨class', cache', hbelongs⟩ := hok
  -- the cache has the buffers of one class only
  obtain ⟨rfl, rfl⟩ := hproper.unique hbelongs.proper
  have hgrows : Grows s { s with
      buffer := update s.buffer obj (.held class_)
      made := ⟨obj, class_, s.initialised obj⟩ :: s.made } := .of_eq rfl rfl
  refine ⟨fun p => ?_, ⟨fun m hm => ?_, h.own.freed.imp fun _ _ hf => ⟨hf.obj, hf.cache, hf.destructor⟩,
    fun p => ?_⟩, fun m hm => ?_, h.drops⟩
  · by_cases hp : p = obj
    · subst hp
      unfold BufferOk
      dsimp only
      rw [update_self]
      exact ⟨cp, cache, hbelongs.grows hgrows rfl rfl rfl⟩
    · exact (h.buffers p).grows hgrows (update_of_ne hp _ _) rfl rfl rfl
  · rcases List.mem_cons.mp hm with rfl | hm
    · exact hbelongs.initialised
    · exact h.own.constructed m hm
  · have honce := h.own.once p
    dsimp only
    by_cases hp : p = obj
    · subst hp
      rw [hfree] at honce
      rw [update_self, List.countP_cons_of_pos (by simp), ← honce]
      rfl
    · rw [update_of_ne hp, List.countP_cons_of_neg (by simpa using Ne.symm hp)]
      exact honce
  · rcases List.mem_cons.mp hm with rfl | hm
    · exact hbelongs.registered
    · exact h.made m hm

theorem Inv.object_new (h : Inv env s) (hok : MadeProperly env s (.object_new class_ answer))
    (hstep : object_new env s class_ answer = some s') : Inv env s' := by
  unfold ObjectClass.object_new at hstep
  split at hstep
  · cases hstep
    exact h
  · next hsize =>
    obtain ⟨cp, cache, hproper⟩ := hok hsize
    rw [hproper.cache_eq] at hstep
    dsimp only at hstep
    rw [hproper.exists_cache] at hstep
    dsimp only at hstep
    split at hstep
    · cases hstep
      exact h
    · next a =>
      obtain ⟨hcond, rfl⟩ := of_guard hstep
      have hcreated := foldl_slab_create_buffer env cp cache a.slab s
      have hinv := h.created hproper hsize hcreated hcond.1
      have hgrows := Grows.of_eq hcreated.classes hcreated.caches
      exact hinv.take (hproper.grows hsize hgrows) hcond.2

/-! ### Retaining and releasing -/

theorem update_header_class {hdr : Header} (h : hdr.class_ = (s.header obj).class_) (p : Nat) :
    (update s.header obj hdr p).class_ = (s.header p).class_ := by
  by_cases hp : p = obj
  · rw [hp, update_self, h]
  · rw [update_of_ne hp]

theorem Inv.setRefcount (h : Inv env s) (hclass : hdr.class_ = (s.header obj).class_) :
    Inv env { s with header := update s.header obj hdr } :=
  h.grows (.of_eq rfl rfl) rfl rfl (update_header_class hclass) rfl rfl rfl rfl

theorem Inv.object_retain (h : Inv env s) (hstep : object_retain s obj = some s') : Inv env s' := by
  unfold ObjectClass.object_retain at hstep
  split at hstep
  · cases hstep
    exact h.setRefcount rfl
  · cases hstep

theorem runDestructor_proper (h : Proper env s class_ cp cache)
    (hclass : (s.header obj).class_ = class_) : (runDestructor env s cache obj).1.class_ = class_ ∧
      ((runDestructor env s cache obj).2 = none ∨
        (runDestructor env s cache obj).2 = (s.classes class_).destructor) := by
  have hdestroys := h.destroys
  unfold Cache.DestroysAs at hdestroys
  unfold runDestructor
  match hdes : cache.destructor with
  | none => exact ⟨hclass, .inl rfl⟩
  | some .object =>
    refine ⟨hclass, .inr ?_⟩
    show (s.classes (s.header obj).class_).destructor = (s.classes class_).destructor
    rw [hclass]
  | some (.own f) =>
    rw [hdes] at hdestroys
    exact ⟨hdestroys.1 _ hclass, hdestroys.2⟩

/-- A held object after its count has dropped and it has gone back to a
cache. -/
def giveBack (s : State) (obj : Nat) (class_ : UInt8) (cp : Nat) (r : Header × Option Nat)
    (destroyed : List Nat) : State :=
  { s with
    header := update s.header obj r.1
    buffer := fun p =>
      if p ∈ destroyed then .absent else update s.buffer obj (.free cp) p
    drops := ⟨obj, class_⟩ :: s.drops
    frees := ⟨obj, cp, r.2⟩ :: s.frees }

theorem Inv.giveBack (h : Inv env s)
    (hheld : s.buffer obj = .held class_) (hbelongs : BelongsTo env s obj class_ cp cache)
    (hclass : r.1.class_ = class_) (hdes : r.2 = none ∨ r.2 = (s.classes class_).destructor)
    (hdestroyed : ∀ p ∈ destroyed, update s.buffer obj (.free cp) p = .free cp) :
    Inv env (giveBack s obj class_ cp r destroyed) := by
  have hgrows : Grows s (ObjectClass.giveBack s obj class_ cp r destroyed) := .of_eq rfl rfl
  have hheader := @update_header_class s obj r.1 (hclass.trans hbelongs.header.symm)
  have hbuffer : ∀ p, p ∉ destroyed → (ObjectClass.giveBack s obj class_ cp r destroyed).buffer p =
      update s.buffer obj (.free cp) p := fun p hp => if_neg hp
  have habsent : ∀ p ∈ destroyed,
      (ObjectClass.giveBack s obj class_ cp r destroyed).buffer p = .absent := fun p hp => if_pos hp
  refine ⟨fun p => ?_, ⟨h.own.constructed, .cons ⟨rfl, hbelongs.proper.cache_eq, hdes⟩ ?_, fun p => ?_⟩,
    h.made, fun d hd => ?_⟩
  · by_cases hp : p ∈ destroyed
    · unfold BufferOk
      rw [habsent p hp]
      trivial
    · by_cases heq : p = obj
      · subst heq
        unfold BufferOk
        rw [hbuffer p hp, update_self]
        exact ⟨class_, cache, hbelongs.grows hgrows rfl (hheader p) rfl⟩
      · refine (h.buffers p).grows hgrows ?_ rfl (hheader p) rfl
        rw [hbuffer p hp, update_of_ne heq]
  · exact forall₂_freedTo_grows hgrows h.own.freed h.drops
  · have honce := h.own.once p
    have hholds : ((ObjectClass.giveBack s obj class_ cp r destroyed).buffer p).holds =
        (update s.buffer obj (.free cp) p).holds := by
      by_cases hp : p ∈ destroyed
      · rw [habsent p hp, hdestroyed p hp]
        rfl
      · rw [hbuffer p hp]
    rw [hholds]
    show List.countP _ (⟨obj, cp, r.2⟩ :: s.frees) + _ = List.countP _ s.made
    by_cases heq : p = obj
    · subst heq
      rw [hheld] at honce
      rw [update_self, List.countP_cons_of_pos (by simp), ← honce]
      rfl
    · rw [update_of_ne heq, List.countP_cons_of_neg (by simpa using Ne.symm heq)]
      exact honce
  · rcases List.mem_cons.mp hd with rfl | hd
    · exact hbelongs.registered
    · exact h.drops d hd

theorem kmem_cache_free_eq (hcache : s.caches cp = some cache) (hslab : s.slab obj = cp)
    (hstep : kmem_cache_free env { s with drops := ⟨obj, class_⟩ :: s.drops } cp obj layer =
      some s') :
    ∃ r destroyed, s' = giveBack s obj class_ cp r destroyed ∧
      (r = (s.header obj, none) ∨ r = runDestructor env s cache obj) ∧
      ∀ p ∈ destroyed, update s.buffer obj (.free cp) p = .free cp := by
  unfold kmem_cache_free at hstep
  rw [hcache] at hstep
  dsimp only at hstep
  match layer with
  | .magazine =>
    cases hstep
    refine ⟨(s.header obj, none), [], ?_, .inl rfl, fun p hp => by cases hp⟩
    unfold giveBack
    simp only [update_eq_self, List.not_mem_nil, if_false]
  | .slab list destroyed =>
    obtain ⟨hcond, rfl⟩ := of_guard hstep
    obtain ⟨hlist, hdestroyed⟩ := hcond
    -- the slab is on a list of this cache, which has created it
    have heq : list = cp := by
      rcases hlist with h | h
      · exact h
      · exact h.trans hslab
    subst heq
    exact ⟨runDestructor env s cache obj, destroyed, rfl, .inr rfl, hdestroyed⟩
  | .unknown =>
    rw [if_neg fun hne => hne hslab] at hstep
    cases hstep

theorem Inv.object_release (h : Inv env s)
    (hstep : object_release env s obj layer = some s') : Inv env s' := by
  unfold ObjectClass.object_release at hstep
  match hheld : s.buffer obj with
  | .absent =>
    rw [hheld] at hstep
    cases hstep
  | .free cp =>
    rw [hheld] at hstep
    cases hstep
  | .lost =>
    rw [hheld] at hstep
    cases hstep
  | .held class_ =>
    rw [hheld] at hstep
    have hok := h.buffers obj
    unfold BufferOk at hok
    rw [hheld] at hok
    obtain ⟨cp, cache, hbefore⟩ := hok
    have hcache : (s.classes (s.header obj).class_).cache = some cp := by
      rw [hbefore.header]
      exact hbefore.proper.cache_eq
    -- the count is written before the class is read
    let hdr : Header := { s.header obj with refcount := (s.header obj).refcount - 1 }
    have hinv : Inv env { s with header := update s.header obj hdr } := h.setRefcount rfl
    have hheader := @update_header_class s obj hdr rfl obj
    have hbelongs : BelongsTo env { s with header := update s.header obj hdr } obj class_ cp
        cache := hbefore.grows (.of_eq rfl rfl) rfl hheader rfl
    dsimp only at hstep
    split at hstep
    · rw [hcache] at hstep
      obtain ⟨r, destroyed, rfl, hr, hdestroyed⟩ :=
        kmem_cache_free_eq hbelongs.proper.exists_cache hbelongs.slab hstep
      have hdes := runDestructor_proper hbelongs.proper hbelongs.header
      rcases hr with rfl | rfl
      · exact hinv.giveBack hheld hbelongs hbelongs.header (.inl rfl) hdestroyed
      · exact hinv.giveBack hheld hbelongs hdes.1 hdes.2 hdestroyed
    · cases hstep
      exact hinv

/-! ### Every run -/

theorem Inv.step (h : Inv env s) {a : Action} (hok : MadeProperly env s a)
    (hstep : step env s a = some s') : Inv env s' := by
  unfold ObjectClass.step at hstep
  split at hstep
  · cases hstep
  · match a with
    | .kmem_cache_create cp constructor destructor =>
      obtain ⟨hnone, rfl⟩ := of_guard hstep
      have hgrows := @grows_newCache s cp ⟨constructor.map .own, destructor.map .own⟩ hnone
        s.classes fun _ _ => rfl
      exact h.grows hgrows rfl rfl (fun _ => rfl) rfl rfl rfl rfl
    | .object_register_class class_ data answer => exact h.object_register_class hstep
    | .object_new class_ answer => exact h.object_new hok hstep
    | .object_retain obj => exact h.object_retain hstep
    | .object_release obj layer => exact h.object_release hstep

/-- **Objects go back to their own class**, in every run that makes objects
only for classes whose cache marks its buffers with the class and has the
functions of the class. -/
theorem ownClass (hs : ReachableBy (system env) (MadeProperly env) s) : OwnClass s := by
  have hinv : Inv env s := by
    refine ReachableBy.invariant ?_ ?_ hs
    · intro s₀ hs₀
      rw [hs₀]
      exact inv_start
    · intro s₁ a s₂ hinv hok hstep
      exact hinv.step hok hstep
  exact hinv.own

/-- Function 7 is the constructor of a cache: it writes class 5 and runs
function 3. -/
def marking : Effects where
  header := fun _ hdr => { hdr with class_ := 5 }
  runs := fun f => if f = 7 then some 3 else none

/-- Class 0 with a cache that is created for it, and class 5 with cache 2. An
object of each is made, retained and released. -/
def twoClasses : List Action := [.object_register_class 0 ⟨some 1, some 2, 24, none⟩ (some 1),
    .kmem_cache_create 2 (some 7) none,
    .object_register_class 5 ⟨some 3, some 4, 40, some 2⟩ none,
    .object_new 0 (some ⟨0x1000, [0x1000, 0x1020]⟩),
    .object_new 5 (some ⟨0x2000, [0x2000]⟩),
    .object_retain 0x1000, .object_retain 0x2000,
    .object_release 0x1000 (.slab 1 []), .object_release 0x2000 .magazine]

/-- Objects are made for class 0 with cache 1 or for class 5 with cache 2. -/
def madeForTwo (s : State) : Action → Bool
  | .object_new class_ _ =>
    (class_ == 0 && s.classes 0 == ⟨some 1, some 2, 24, some 1⟩ &&
      s.caches 1 == some ⟨some .object, some .object⟩) ||
    (class_ == 5 && s.classes 5 == ⟨some 3, some 4, 40, some 2⟩ &&
      s.caches 2 == some ⟨some (.own 7), none⟩)
  | _ => true

theorem madeProperly_of_madeForTwo (h : madeForTwo s a = true) : MadeProperly marking s a := by
  match a with
  | .object_new class_ answer =>
    intro _
    simp only [madeForTwo, Bool.or_eq_true, Bool.and_eq_true, beq_iff_eq] at h
    rcases h with ⟨⟨rfl, hclass⟩, hcache⟩ | ⟨⟨rfl, hclass⟩, hcache⟩
    · refine ⟨1, ⟨some .object, some .object⟩, ?_, hcache, rfl, rfl, trivial⟩
      rw [hclass]
    · refine ⟨2, ⟨some (.own 7), none⟩, ?_, hcache, rfl, ?_, trivial⟩
      · rw [hclass]
      · rw [hclass]
        rfl
  | .kmem_cache_create _ _ _ => trivial
  | .object_register_class _ _ _ => trivial
  | .object_retain _ => trivial
  | .object_release _ _ => trivial

/-- The object of class 0 goes back to cache 1 with the destructor of class 0,
and the one of class 5 into a magazine of cache 2. -/
theorem ownClass_twoClasses : ∃ s, exec (system marking) start twoClasses = some s ∧
      s.frees = [⟨0x2000, 2, none⟩, ⟨0x1000, 1, some 2⟩] ∧
      s.drops = [⟨0x2000, 5⟩, ⟨0x1000, 0⟩] ∧ OwnClass s := by
  have hrun : ∃ s, execBy (system marking) (fun s a => madeForTwo s a = true) start twoClasses =
      some s ∧ exec (system marking) start twoClasses = some s ∧
      s.frees = [⟨0x2000, 2, none⟩, ⟨0x1000, 1, some 2⟩] ∧
      s.drops = [⟨0x2000, 5⟩, ⟨0x1000, 0⟩] := by
    refine ⟨_, rfl, rfl, ?_, ?_⟩ <;> decide +kernel
  obtain ⟨s, hchecked, hexec, hfrees, hdrops⟩ := hrun
  have hreach := ReachableBy.of_execBy (.init rfl) hchecked
  exact ⟨s, hexec, hfrees, hdrops, ownClass (hreach.mono fun _ _ => madeProperly_of_madeForTwo)⟩

/-- Classes 0 and 1, each with a cache that is created for it, and an object
of class 1 that is made, retained and released. -/
def secondClass : List Action := [.object_register_class 0 ⟨none, none, 24, none⟩ (some 1),
    .object_register_class 1 ⟨some 3, some 4, 24, none⟩ (some 2),
    .object_new 1 (some ⟨0x1000, [0x1000]⟩), .object_retain 0x1000, .object_release 0x1000 .magazine]

/-- **An object of class 1 goes back to class 0**: the constructor of class 1
has not run on it, and it is freed to the cache of class 0. -/
theorem not_ownClass : ¬ ∀ (env : Effects) (s : State), Reachable (system env) s → OwnClass s := by
  intro h
  obtain ⟨s, hexec, hfrees, hdrops, hcache⟩ : ∃ s, exec (system marking) start secondClass =
      some s ∧ s.frees = [⟨0x1000, 1, none⟩] ∧ s.drops = [⟨0x1000, 1⟩] ∧
      (s.classes 1).cache = some 2 := by decide +kernel
  have hfreed := (h marking s (.of_exec rfl hexec)).freed
  rw [hfrees, hdrops] at hfreed
  have hto := (List.forall₂_cons.mp hfreed).1.cache
  rw [show (s.classes 1).cache = some 2 from hcache] at hto
  cases hto

end ObjectClass
