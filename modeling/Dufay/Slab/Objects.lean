import Dufay.Slab.NoLostBuffer

/-! # Constructed and large objects

The rest of `mm/slab.c`, over the caches of `Slab.system`: constructors
and destructors, and the slabs of objects over 512 bytes.

A slab of large objects is a run of pages with its `struct kmem_slab` and
its `struct kmem_bufctl`s elsewhere, in objects of `slab_cache` and
`bufctl_cache`. The slab layer keeps these by address. A
`struct kmem_slab` comes from a zeroed page, and it is freed with no
references, so its count is zero when `slab_cache` returns it.

`bufmap` maps the eight bytes that the key pointer points to, which are
the first eight bytes of the buffer. A destructor call and the critical
section behind it are one step, as no other call can tell.

What other caches and the physical memory give is chosen by the action:
the objects of `slab_cache` and `bufctl_cache` are not in use by this
cache, and a run of pages is zeroed and apart from those that it has.
-/

open Lts Tailq Memory Size Function
open Pmm (PAGE_SIZE)

namespace Slab

/-- `cp->constructor` and `cp->destructor` -/
structure Hooks where
  constructor : Hook
  destructor : Hook

/-- `struct kmem_bufctl` of a large object, zero for `NULL`. -/
structure Bufctl where
  next : Nat
  buffer : Nat
  slab : Nat
  deriving DecidableEq

/-- What the slab layer has for large objects. -/
structure Large where
  bufctl : Nat → Bufctl
  bufmap : Nat → Option Nat
  /-- The objects of `bufctl_cache` that have been taken and not freed. -/
  bufctls : Finset Nat
  /-- The runs of pages that have been taken and not returned. -/
  regions : Finset Nat
  /-- History that no step reads: the key under which a buffer was handed out
      last. -/
  keyOf : Nat → Nat

structure Objects (ι τ : Type*) where
  cache : State ι τ
  large : Large
  /-- History that no step reads: the objects that have been constructed and
      not destructed since. -/
  constructed : Finset Nat

/-! ### The slab layer of large objects -/

/-- How many chunks a large slab of a color has. -/
def capacityLarge (cp : Cache) (color : Nat) : Nat := (cp.slab_size - color) / cp.chunk_size

/-- The loop of `slab_create_large`, when `bufctl_cache` has returned these
`bufctl`s, the last one first: the memory, the `bufctl`s and
`ret->buflist`. -/
def constructLarge (cp : Cache) (constructor : Hook) (slab buf : Nat) (mem : Mem)
    (bufctl : Nat → Bufctl) : List Nat → Mem × (Nat → Bufctl) × Nat
  | [] => (mem, bufctl, 0)
  | c :: rest =>
    let made := constructLarge cp constructor slab buf mem bufctl rest
    let obj := buf + rest.length * cp.chunk_size
    (constructor.call made.1 obj,
      update made.2.1 c { next := made.2.2, buffer := obj, slab := slab }, c)

/-- What the critical section of `kmem_cache_alloc` takes from a slab. -/
def takeLarge (sl : Slabs) (lg : Large) (slab : Nat) : Option (Nat × Slabs × Large) :=
  let bufctl := sl.buflist slab
  if bufctl = 0 then none
  else
    let buf := (lg.bufctl bufctl).buffer
    some (buf, sl.unlink slab (lg.bufctl bufctl).next,
      { lg with
        bufmap := update lg.bufmap (read64 sl.mem buf) (some bufctl)
        keyOf := update lg.keyOf buf (read64 sl.mem buf) })

/-- `TAILQ_REMOVE` and `slab_destroy`: the `bufctl`s and the header are freed.
The loop stops at `NULL`; it cannot free more than what was taken. -/
def destroyLarge (sl : Slabs) (lg : Large) (slab : Nat) : Option (Slabs × Large) :=
  (walk (fun p => (lg.bufctl p).next) lg.bufctls.card (sl.buflist slab)).map fun freed =>
    (sl.slab_destroy slab, { lg with bufctls := lg.bufctls \ freed.toFinset })

/-- `bufctl` goes back to its slab. -/
def Large.put (lg : Large) (sl : Slabs) (key bufctl : Nat) : Large :=
  { lg with
    bufmap := update lg.bufmap key none
    bufctl := update lg.bufctl bufctl
      { lg.bufctl bufctl with next := sl.buflist (lg.bufctl bufctl).slab } }

/-- The critical section of `kmem_cache_free`. -/
def freeLarge (sl : Slabs) (lg : Large) (ptr : Nat) : Option (Slabs × Large) :=
  match lg.bufmap (read64 sl.mem ptr) with
  | none => some (sl, lg)
  | some bufctl =>
    let slab := (lg.bufctl bufctl).slab
    let sl' := sl.link slab bufctl
    let lg' := lg.put sl (read64 sl.mem ptr) bufctl
    if sl'.refcount slab = 0 then destroyLarge sl' lg' slab else some (sl', lg')

namespace Objects

variable {ι τ : Type*} [DecidableEq ι] [DecidableEq τ]

/-- What `alloc_pages`, `slab_cache` and `bufctl_cache` may return. -/
@[mk_iff] structure FreshLarge (cp : Cache) (sl : Slabs) (lg : Large) (region slab : Nat)
    (bufctls : List Nat) : Prop where
  aligned : PAGE_SIZE ∣ region
  pos : 0 < region
  le : region + cp.slab_size ≤ W
  apart : ∀ r ∈ lg.regions, r + cp.slab_size ≤ region ∨ region + cp.slab_size ≤ r
  slab : slab ∉ sl.pages
  length : bufctls.length = capacityLarge cp (nextColor cp sl.color)
  nodup : bufctls.Nodup
  nonnull : ∀ c ∈ bufctls, c ≠ 0
  unused : ∀ c ∈ bufctls, c ∉ lg.bufctls

instance decidableFreshLarge (cp : Cache) (sl : Slabs) (lg : Large) (region slab : Nat)
    (bufctls : List Nat) : Decidable (FreshLarge cp sl lg region slab bufctls) :=
  decidable_of_iff' _ (freshLarge_iff ..)

/-- The objects that have been constructed, after a call for each of `objs`. -/
def constructAll (hooks : Hooks) (s : Objects ι τ) (objs : List Nat) : Finset Nat :=
  if hooks.constructor.isSome then s.constructed ∪ objs.toFinset else s.constructed

def slab_create_small (cp : Cache) (hooks : Hooks) (s : Objects ι τ) (t : τ) (page : Nat) :
    Objects ι τ :=
  let sl := s.cache.slabs.slab_create_constructed cp hooks.constructor page
  { s with
    cache := (s.cache.setSlabs sl).goto t (.allocInsert page)
    constructed := s.constructAll hooks (buffers cp sl page) }

/-- The slab layer after `slab_create_large`. -/
def createLarge (cp : Cache) (hooks : Hooks) (sl : Slabs) (lg : Large) (region slab : Nat)
    (bufctls : List Nat) : Slabs × Large :=
  let color := nextColor cp sl.color
  let made := constructLarge cp hooks.constructor slab (region + color)
    (zero sl.mem region cp.slab_size) lg.bufctl bufctls
  ({ sl with
      mem := made.1
      color := color
      buflist := update sl.buflist slab made.2.2
      pages := insert slab sl.pages
      colorOf := update sl.colorOf slab color },
    { lg with
      bufctl := made.2.1
      bufctls := lg.bufctls ∪ bufctls.toFinset
      regions := insert region lg.regions })

def slab_create_large (cp : Cache) (hooks : Hooks) (s : Objects ι τ) (t : τ) (region slab : Nat)
    (bufctls : List Nat) : Objects ι τ :=
  let color := nextColor cp s.cache.slabs.color
  let made := createLarge cp hooks s.cache.slabs s.large region slab bufctls
  { cache := (s.cache.setSlabs made.1).goto t (.allocInsert slab)
    large := made.2
    constructed := s.constructAll hooks (bufs cp (region + color) (capacityLarge cp color)) }

/-- `kmem_cache_alloc` takes a buffer of a slab. -/
def allocBuf (cp : Cache) (s : Objects ι τ) (t : τ) (sl : Slabs) (slab : Nat) :
    Option (Objects ι τ) :=
  if cp.object_size ≤ SMALL_SLAB_SIZE then
    (Slab.allocBuf cp s.cache t sl slab).map fun c => { s with cache := c }
  else
    (takeLarge sl s.large slab).map fun taken =>
      { s with cache := (s.cache.setSlabs taken.2.1).give t taken.1, large := taken.2.2 }

/-- The slab layer with what the destructor has left in memory. -/
def destruct (hooks : Hooks) (s : Objects ι τ) (ptr : Nat) : Slabs :=
  { s.cache.slabs with mem := hooks.destructor.call s.cache.slabs.mem ptr }

/-- `kmem_cache_free` behind the magazine layer. -/
def freeBuf (cp : Cache) (hooks : Hooks) (s : Objects ι τ) (t : τ) (ptr : Nat) :
    Option (Objects ι τ) :=
  let constructed :=
    if hooks.destructor.isSome then s.constructed.erase ptr else s.constructed
  if cp.object_size ≤ SMALL_SLAB_SIZE then
    some
      { s with
        cache := (s.cache.setSlabs ((s.destruct hooks ptr).freeBuf cp ptr)).goto t .idle
        constructed := constructed }
  else
    (freeLarge (s.destruct hooks ptr) s.large ptr).map fun freed =>
      { cache := (s.cache.setSlabs freed.1).goto t .idle
        large := freed.2
        constructed := constructed }

/-- The next step of a thread's call, in the slab layer. -/
def runSlab (cp : Cache) (hooks : Hooks) (s : Objects ι τ) (t : τ) : Option (Objects ι τ) :=
  match s.cache.pc t with
  | .allocSlab =>
    match s.cache.slabs.links.first .slabs with
    | some slab => s.allocBuf cp t s.cache.slabs slab
    | none => some { s with cache := s.cache.goto t .allocCreate }
  | .allocInsert slab =>
    s.allocBuf cp t
      { s.cache.slabs with links := s.cache.slabs.links.insertTail .slabs slab } slab
  | .freeSlab ptr => s.freeBuf cp hooks t ptr
  | _ => none

inductive Action (ι τ : Type*) where
  /-- As for a cache of small objects. -/
  | base (a : Slab.Action ι τ)
  /-- `slab_create`, with the run of pages, the header and the `bufctl`s. -/
  | slab_create_large (t : τ) (region slab : Nat) (bufctls : List Nat)
  deriving DecidableEq

def step (cp : Cache) (hooks : Hooks) (s : Objects ι τ) : Action ι τ → Option (Objects ι τ)
  | .base (.slab_create t page) =>
    if s.cache.pc t = .allocCreate ∧ cp.object_size ≤ SMALL_SLAB_SIZE ∧
        Fresh s.cache.slabs page then
      some (s.slab_create_small cp hooks t page)
    else none
  | .slab_create_large t region slab bufctls =>
    if s.cache.pc t = .allocCreate ∧ ¬ cp.object_size ≤ SMALL_SLAB_SIZE ∧
        FreshLarge cp s.cache.slabs s.large region slab bufctls then
      some (s.slab_create_large cp hooks t region slab bufctls)
    else none
  | .base (.run t) =>
    if (s.cache.pc t).inSlabLayer then s.runSlab cp hooks t
    else (Slab.run cp s.cache t).map fun c => { s with cache := c }
  | .base a => (Slab.step cp s.cache a).map fun c => { s with cache := c }

/-- The buffer of the first `bufctl` of a slab. -/
def firstBuf (cp : Cache) (s : Objects ι τ) (slab : Nat) : Nat :=
  if cp.object_size ≤ SMALL_SLAB_SIZE then s.cache.slabs.firstBuf cp slab
  else (s.large.bufctl (s.cache.slabs.buflist slab)).buffer

/-- The buffer that a step returns from `kmem_cache_alloc`. -/
def returned (cp : Cache) (s : Objects ι τ) : Action ι τ → Option Nat
  | .base (.run t) =>
    match s.cache.pc t with
    | .allocSlab => (s.cache.slabs.links.first .slabs).map (s.firstBuf cp)
    | .allocInsert slab => some (s.firstBuf cp slab)
    | _ => Slab.returned cp s.cache (.run t)
  | _ => none

structure Init (s : Objects ι τ) : Prop where
  cache : Slab.Init s.cache
  refcount : ∀ slab, s.cache.slabs.refcount slab = 0
  bufmap : ∀ key, s.large.bufmap key = none
  bufctls : s.large.bufctls = ∅
  regions : s.large.regions = ∅
  constructed : s.constructed = ∅

def system (cp : Cache) (hooks : Hooks) : System (Objects ι τ) (Action ι τ) where
  init := Init
  step := step cp hooks

variable {cp : Cache} {hooks : Hooks} {s s' : Objects ι τ}

/-- A call of `kmem_cache_alloc` is about to take a buffer of a slab, which is
in the lists or which it has created. -/
def TakesFrom (s : Objects ι τ) (t : τ) (sl : Slabs) (slab : Nat) : Prop :=
  (s.cache.pc t = .allocSlab ∧ s.cache.slabs.links.first .slabs = some slab ∧ sl = s.cache.slabs) ∨
  (s.cache.pc t = .allocInsert slab ∧
    sl = { s.cache.slabs with links := s.cache.slabs.links.insertTail .slabs slab })

/-- The steps, one case for each thing that can happen to the slabs. -/
inductive Moves (cp : Cache) (hooks : Hooks) (s : Objects ι τ) :
    Action ι τ → Objects ι τ → Prop where
  /-- The magazine layer, or the start of a call. -/
  | magazine (a : Slab.Action ι τ) (c : State ι τ) : a.inSlabLayer s.cache = false →
      Slab.step cp s.cache a = some c → Moves cp hooks s (.base a) { s with cache := c }
  | store (ptr i : Nat) (v : Byte) : ptr ∈ s.cache.held → i < cp.object_size →
      Moves cp hooks s (.base (.store ptr i v))
        { s with
          cache := s.cache.setSlabs
            { s.cache.slabs with mem := update s.cache.slabs.mem (ptr + i) v } }
  | createSmall (t : τ) (page : Nat) : s.cache.pc t = .allocCreate →
      cp.object_size ≤ SMALL_SLAB_SIZE → Fresh s.cache.slabs page →
      Moves cp hooks s (.base (.slab_create t page)) (s.slab_create_small cp hooks t page)
  | createLarge (t : τ) (region slab : Nat) (bufctls : List Nat) : s.cache.pc t = .allocCreate →
      ¬ cp.object_size ≤ SMALL_SLAB_SIZE →
      FreshLarge cp s.cache.slabs s.large region slab bufctls →
      Moves cp hooks s (.slab_create_large t region slab bufctls)
        (s.slab_create_large cp hooks t region slab bufctls)
  /-- There is no slab with a free buffer. -/
  | empty (t : τ) : s.cache.pc t = .allocSlab → s.cache.slabs.links.first .slabs = none →
      Moves cp hooks s (.base (.run t)) { s with cache := s.cache.goto t .allocCreate }
  | take (t : τ) (sl : Slabs) (slab : Nat) (s' : Objects ι τ) : s.TakesFrom t sl slab →
      s.allocBuf cp t sl slab = some s' → Moves cp hooks s (.base (.run t)) s'
  | free (t : τ) (ptr : Nat) (s' : Objects ι τ) : s.cache.pc t = .freeSlab ptr →
      s.freeBuf cp hooks t ptr = some s' → Moves cp hooks s (.base (.run t)) s'

theorem moves_of_run (h : s.runSlab cp hooks t = some s') :
    Moves cp hooks s (.base (.run t)) s' := by
  unfold runSlab at h
  split at h
  · next hpc =>
    split at h
    · next slab hfirst => exact .take t _ slab s' (.inl ⟨hpc, hfirst, rfl⟩) h
    · next hfirst =>
      cases h
      exact .empty t hpc hfirst
  · next slab hpc => exact .take t _ slab s' (.inr ⟨hpc, rfl⟩) h
  · next ptr hpc => exact .free t ptr s' hpc h
  · cases h

theorem moves_of_step (h : step cp hooks s a = some s') : Moves cp hooks s a s' := by
  cases a with
  | slab_create_large t region slab bufctls =>
    simp only [step] at h
    obtain ⟨hguard, rfl⟩ := of_guard h
    exact .createLarge t region slab bufctls hguard.1 hguard.2.1 hguard.2.2
  | base a =>
    cases a with
    | slab_create t page =>
      simp only [step] at h
      obtain ⟨hguard, rfl⟩ := of_guard h
      exact .createSmall t page hguard.1 hguard.2.1 hguard.2.2
    | run t =>
      simp only [step] at h
      split at h
      · exact moves_of_run h
      · next hlayer =>
        obtain ⟨c, hc, rfl⟩ := Option.map_eq_some_iff.mp h
        exact .magazine (.run t) c (Bool.eq_false_of_not_eq_true hlayer) hc
    | store ptr i v =>
      simp only [step, Slab.step] at h
      split at h
      · next hguard =>
        cases h
        exact .store ptr i v hguard.1 hguard.2
      · cases h
    | kmem_init | kmem_cache_alloc t cpu | kmem_cache_free t cpu ptr | new_mag t mag =>
      obtain ⟨c, hc, rfl⟩ := Option.map_eq_some_iff.mp h
      exact .magazine _ c rfl hc

omit [DecidableEq ι] [DecidableEq τ] in
theorem TakesFrom.returned {t : τ} {sl : Slabs} {slab : Nat} (h : s.TakesFrom t sl slab) :
    s.returned cp (.base (.run t)) = some (s.firstBuf cp slab) := by
  rcases h with ⟨hpc, hfirst, -⟩ | ⟨hpc, -⟩
  · simp only [Objects.returned, hpc, hfirst, Option.map_some]
  · simp only [Objects.returned, hpc]

end Objects

end Slab
