import Dufay.Framework.Lts
import Dufay.Framework.Tailq
import Dufay.Framework.Chain
import Dufay.Mm.Module

/-! # The slab allocator

`kmem_cache_create`, `kmem_cache_alloc` and `kmem_cache_free` of
`mm/slab.c`, for caches of small objects without constructor and
destructor, on any number of CPUs.

A free chunk is on the freelist of its slab, through a pointer kept in
the chunk itself, so the freelists live in byte memory.

A thread runs one call at a time. The critical sections of the depot
lock and of the cache lock are one step each. The lock of a CPU is held
over several steps, since the depot is visited under it. A call stops
where the source would follow a null pointer.

What the two layers below this one give is chosen by the action: the
page of a new slab (`pmm_alloc` returns a zeroed page that this cache
does not use), and the new magazine, or none, from the cache
`magtype->cache`. That cache is another one for every cache, and
magazines are never returned to it. No cache is ever destroyed.
-/

open Lts Tailq Memory Size Function
open Pmm (PAGE_SIZE)

namespace Slab

/-! ### Caches -/

def SLAB_ALIGN : Nat := 8

def SMALL_SLAB_SIZE : Nat := 512

def OBJECTS_PER_SLAB : Nat := 16

/-- `sizeof(struct kmem_slab)` -/
def SIZEOF_KMEM_SLAB : Nat := 32

def ALIGN_DOWN (x a : Nat) : Nat := x / a * a

/-- `struct kmem_magtype`, as far as caches use it. -/
structure Magtype where
  rounds : Nat
  minbuf : Nat
  deriving DecidableEq

def magtypes : List Magtype :=
  [⟨1, 3200⟩, ⟨3, 256⟩, ⟨7, 64⟩, ⟨15, 0⟩, ⟨31, 0⟩, ⟨47, 0⟩, ⟨63, 0⟩, ⟨95, 0⟩, ⟨143, 0⟩]

/-- `struct kmem_cache`: what `kmem_cache_create` sets and nothing changes. -/
structure Cache where
  object_size : Nat
  chunk_size : Nat
  slab_size : Nat
  /-- From a buffer to its `bufctl`. -/
  offset : Nat
  object_align : Nat
  maxcolor : Nat
  magtype : Magtype
  deriving DecidableEq

/-- `for (magtype = magtypes; chunk_size <= magtype->minbuf; magtype++)` -/
def findMagtype (chunk_size : Nat) : Option Magtype :=
  magtypes.find? fun magtype => decide (magtype.minbuf < chunk_size)

/-- `none` where the remainder by `chunk_size` traps. -/
def kmem_cache_create (size align : UInt64) : Option Cache :=
  let object_align := if align = 0 then SLAB_ALIGN else align.toNat
  let aligned := decide (SLAB_ALIGN ≤ object_align)
  let chunk := if aligned then ALIGN_UP size.toNat SLAB_ALIGN else size.toNat
  let offset := if aligned then (chunk + W - SLAB_ALIGN) % W else 0
  let chunk_size := ALIGN_UP chunk object_align
  let small := decide (size.toNat ≤ SMALL_SLAB_SIZE)
  let slab_size :=
    if small then PAGE_SIZE else ALIGN_UP (chunk_size * OBJECTS_PER_SLAB % W) PAGE_SIZE
  if chunk_size = 0 then none
  else
    (findMagtype chunk_size).map fun magtype =>
      { object_size := size.toNat
        chunk_size := chunk_size
        slab_size := slab_size
        offset := offset
        object_align := object_align
        maxcolor := (if small then slab_size - SIZEOF_KMEM_SLAB else slab_size) % chunk_size
        magtype := magtype }

/-- `struct kmem_cpu` without its lock. A magazine is its address, and
`-1` rounds stand for no magazine. -/
structure KmemCpu where
  loaded : Option Nat
  previous : Option Nat
  rounds : Int
  rounds_previous : Int
  deriving DecidableEq

/-- The record as `kmem_init` and `kmem_cache_create` leave it. -/
def KmemCpu.reset : KmemCpu where
  loaded := none
  previous := none
  rounds := -1
  rounds_previous := -1

inductive Maglist where
  | empty_magazines
  | full_magazines
  deriving DecidableEq

structure Magazines (ι : Type*) where
  cpu : ι → KmemCpu
  depot : Maglist → List Nat
  /-- `mag->rounds[i]` -/
  rounds : Nat → Nat → Nat
  /-- History that no step reads: how many rounds have been put into a
      magazine and not taken out since. -/
  filled : Nat → Nat
  /-- The magazines that `magtype->cache` has given out. -/
  known : Finset Nat

inductive SlabList where
  | slabs
  | full_slabs
  deriving DecidableEq

/-- The slab layer. A slab is the address of its page. -/
structure Slabs where
  mem : Mem
  links : Links SlabList Nat
  refcount : Nat → Nat
  /-- `slab->buflist`, zero for `NULL`. -/
  buflist : Nat → Nat
  /-- `cp->color` -/
  color : Nat
  /-- The pages of this cache. -/
  pages : Finset Nat
  /-- History that no step reads: the color with which a page was cut. -/
  colorOf : Nat → Nat

/-- Where a thread is in `kmem_cache_alloc` or `kmem_cache_free`. -/
inductive Pc (ι : Type*) where
  | idle
  /-- About to take `cpu->lock`. -/
  | allocLock (cpu : ι)
  /-- At the head of the loop, with the lock. -/
  | allocLoop (cpu : ι)
  /-- The full magazine is off the depot. -/
  | allocSwap (cpu : ι) (mag : Nat)
  /-- About to take `cp->lock`. -/
  | allocSlab
  /-- About to create a slab. -/
  | allocCreate
  /-- The slab is created, about to take `cp->lock`. -/
  | allocInsert (slab : Nat)
  | freeLock (cpu : ι) (ptr : Nat)
  | freeLoop (cpu : ι) (ptr : Nat)
  /-- The empty magazine is off the depot. -/
  | freeSwap (cpu : ι) (ptr mag : Nat)
  /-- Without the lock, about to allocate a magazine. -/
  | freeAlloc (cpu : ι) (ptr : Nat)
  /-- About to take the lock again. -/
  | freeRelock (cpu : ι) (ptr : Nat) (new_mag : Option Nat)
  /-- With the lock, about to put the new magazine on the depot. -/
  | freePush (cpu : ι) (ptr new_mag : Nat)
  /-- About to take `cp->lock`. -/
  | freeSlab (ptr : Nat)
  deriving DecidableEq

structure State (ι τ : Type*) where
  magazines_enabled : Bool
  /-- Who holds the lock of a CPU. -/
  lock : ι → Option τ
  magazines : Magazines ι
  slabs : Slabs
  pc : τ → Pc ι
  /-- The buffers that `kmem_cache_alloc` returned and that have not been
      passed to `kmem_cache_free` since. -/
  held : Finset Nat

/-! ### The magazine layer -/

section magazines
variable {ι : Type*} [DecidableEq ι]

def cpu_reload (cpu : KmemCpu) (mag : Option Nat) (rounds : Int) : KmemCpu where
  loaded := mag
  previous := cpu.loaded
  rounds := rounds
  rounds_previous := cpu.rounds

namespace Magazines

section
variable (mg : Magazines ι)

def reload (c : ι) (mag : Option Nat) (rounds : Int) : Magazines ι :=
  { mg with cpu := update mg.cpu c (cpu_reload (mg.cpu c) mag rounds) }

/-- The round that `cpu->loaded->rounds[--cpu->rounds]` takes. -/
def lastRound (c : ι) (mag : Nat) : Nat := mg.rounds mag ((mg.cpu c).rounds - 1).toNat

def takeRound (c : ι) (mag : Nat) : Magazines ι :=
  { mg with
    cpu := update mg.cpu c { mg.cpu c with rounds := (mg.cpu c).rounds - 1 }
    filled := update mg.filled mag (mg.filled mag - 1) }

/-- `cpu->loaded->rounds[cpu->rounds++] = ptr` -/
def putRound (c : ι) (mag ptr : Nat) : Magazines ι :=
  { mg with
    cpu := update mg.cpu c { mg.cpu c with rounds := (mg.cpu c).rounds + 1 }
    rounds := update mg.rounds mag
      (update (mg.rounds mag) (mg.cpu c).rounds.toNat ptr)
    filled := update mg.filled mag (mg.filled mag + 1) }

def alloc_from_depot (list : Maglist) : Option (Nat × Magazines ι) :=
  match mg.depot list with
  | mag :: rest => some (mag, { mg with depot := update mg.depot list rest })
  | [] => none

def free_to_depot (mag : Nat) (list : Maglist) : Magazines ι :=
  { mg with depot := update mg.depot list (mag :: mg.depot list) }

/-- `if (cpu->previous) free_to_depot(cp, cpu->previous, list)` -/
def freePrevious (c : ι) (list : Maglist) : Magazines ι :=
  match (mg.cpu c).previous with
  | some mag => mg.free_to_depot mag list
  | none => mg

end

end Magazines

end magazines

/-! ### The slab layer -/

/-- How many chunks a slab of a color has. -/
def capacity (cp : Cache) (color : Nat) : Nat :=
  (PAGE_SIZE - SIZEOF_KMEM_SLAB - color) / cp.chunk_size

/-- The first `n` rounds of the loop of `slab_create_small`: the memory and
`ret->buflist`. -/
def carve (cp : Cache) (mem : Mem) (buf : Nat) : Nat → Mem × Nat
  | 0 => (mem, 0)
  | i + 1 =>
    let bufctl := buf + i * cp.chunk_size + cp.offset
    (write64 (carve cp mem buf i).1 bufctl (carve cp mem buf i).2, bufctl)

/-- The color of the next slab. -/
def nextColor (cp : Cache) (color : Nat) : Nat :=
  if cp.maxcolor < (color + cp.object_align) % W then 0 else (color + cp.object_align) % W

namespace Slabs

def slab_create_small (cp : Cache) (sl : Slabs) (page : Nat) : Slabs :=
  let color := nextColor cp sl.color
  let carved := carve cp (zero sl.mem page PAGE_SIZE) (page + color) (capacity cp color)
  { sl with
    mem := carved.1
    color := color
    refcount := update sl.refcount page 0
    buflist := update sl.buflist page carved.2
    pages := insert page sl.pages
    colorOf := update sl.colorOf page color }

/-- The buffer of the first `bufctl` of a slab. -/
def firstBuf (cp : Cache) (sl : Slabs) (slab : Nat) : Nat := (sl.buflist slab + W - cp.offset) % W

/-- The slab layer without the first `bufctl` of a slab, where `next` is the
one behind it: the last one takes the slab to `full_slabs`. -/
def unlink (sl : Slabs) (slab next : Nat) : Slabs :=
  { sl with
    links :=
      if next = 0 then (sl.links.remove .slabs slab).insertTail .full_slabs slab else sl.links
    buflist := update sl.buflist slab next
    refcount := update sl.refcount slab ((sl.refcount slab + 1) % W) }

/-- The slab layer without the first buffer of a slab. -/
def popBuf (sl : Slabs) (slab : Nat) : Slabs := sl.unlink slab (read64 sl.mem (sl.buflist slab))

/-- Take the first buffer off the freelist of a slab. -/
def takeBuf (sl : Slabs) (slab : Nat) : Option Slabs :=
  if sl.buflist slab = 0 then none else some (sl.popBuf slab)

/-- A `bufctl` goes back to the head of the freelist of a slab. -/
def link (sl : Slabs) (slab bufctl : Nat) : Slabs :=
  { sl with
    links :=
      if sl.buflist slab = 0 then (sl.links.remove .full_slabs slab).insertHead .slabs slab
      else sl.links
    buflist := update sl.buflist slab bufctl
    refcount := update sl.refcount slab ((sl.refcount slab + W - 1) % W) }

/-- Put a buffer back on the freelist of its slab. -/
def putBuf (cp : Cache) (sl : Slabs) (slab ptr : Nat) : Slabs :=
  let bufctl := (ptr + cp.offset) % W
  { sl.link slab bufctl with mem := write64 sl.mem bufctl (sl.buflist slab) }

/-- `TAILQ_REMOVE` and `slab_destroy` of a slab that is not used any more. -/
def slab_destroy (sl : Slabs) (slab : Nat) : Slabs :=
  { sl with
    links := sl.links.remove .slabs slab
    pages := sl.pages.erase slab }

/-- The critical section of `kmem_cache_free` in the slab layer. -/
def freeBuf (cp : Cache) (sl : Slabs) (ptr : Nat) : Slabs :=
  let slab := ALIGN_DOWN ptr PAGE_SIZE
  let sl' := putBuf cp sl slab ptr
  if sl'.refcount slab = 0 then sl'.slab_destroy slab else sl'

end Slabs

/-! ### Steps -/

section steps
variable {ι τ : Type*} [DecidableEq ι] [DecidableEq τ]

namespace State

section
variable (s : State ι τ)

def goto (t : τ) (pc : Pc ι) : State ι τ :=
  { s with pc := update s.pc t pc }

def spinlock (t : τ) (c : ι) : State ι τ :=
  { s with lock := update s.lock c (some t) }

def spinrelease (c : ι) : State ι τ :=
  { s with lock := update s.lock c none }

def setMagazines (mg : Magazines ι) : State ι τ := { s with magazines := mg }

def setSlabs (sl : Slabs) : State ι τ := { s with slabs := sl }

/-- `return buf` of `kmem_cache_alloc`. -/
def give (t : τ) (buf : Nat) : State ι τ :=
  { s with
    held := insert buf s.held
    pc := update s.pc t .idle }

end

end State

/-- One round of the loop of `kmem_cache_alloc`. -/
def allocLoop (s : State ι τ) (t : τ) (c : ι) : Option (State ι τ) :=
  let mg := s.magazines
  if 0 < (mg.cpu c).rounds then
    match (mg.cpu c).loaded with
    | some mag =>
      some (((s.setMagazines (mg.takeRound c mag)).spinrelease c).give t (mg.lastRound c mag))
    | none => none
  else if 0 < (mg.cpu c).rounds_previous then
    some (s.setMagazines (mg.reload c (mg.cpu c).previous (mg.cpu c).rounds_previous))
  else
    match mg.alloc_from_depot .full_magazines with
    | some (mag, mg') => some ((s.setMagazines mg').goto t (.allocSwap c mag))
    | none => some ((s.spinrelease c).goto t .allocSlab)

/-- `kmem_cache_alloc` takes a buffer of a slab. -/
def allocBuf (cp : Cache) (s : State ι τ) (t : τ) (sl : Slabs) (slab : Nat) : Option (State ι τ) :=
  match sl.takeBuf slab with
  | some sl' => some ((s.setSlabs sl').give t (sl.firstBuf cp slab))
  | none => none

/-- `(size_t)rounds` -/
def toSize (rounds : Int) : Nat := (rounds % W).toNat

/-- One round of the loop of `kmem_cache_free`. -/
def freeLoop (cp : Cache) (s : State ι τ) (t : τ) (c : ι) (ptr : Nat) : Option (State ι τ) :=
  let mg := s.magazines
  if toSize (mg.cpu c).rounds < cp.magtype.rounds then
    match (mg.cpu c).loaded with
    | some mag =>
      some (((s.setMagazines (mg.putRound c mag ptr)).spinrelease c).goto t .idle)
    | none => none
  else if (mg.cpu c).rounds_previous = 0 then
    some (s.setMagazines (mg.reload c (mg.cpu c).previous 0))
  else
    match mg.alloc_from_depot .empty_magazines with
    | some (mag, mg') => some ((s.setMagazines mg').goto t (.freeSwap c ptr mag))
    | none => some ((s.spinrelease c).goto t (.freeAlloc c ptr))

def run (cp : Cache) (s : State ι τ) (t : τ) : Option (State ι τ) :=
  match s.pc t with
  | .idle | .allocCreate | .freeAlloc _ _ => none
  | .allocLock c =>
    if s.lock c = none then some ((s.spinlock t c).goto t (.allocLoop c)) else none
  | .allocLoop c => allocLoop s t c
  | .allocSwap c mag =>
    some ((s.setMagazines ((s.magazines.freePrevious c .empty_magazines).reload c (some mag)
        cp.magtype.rounds)).goto t (.allocLoop c))
  | .allocSlab =>
    match s.slabs.links.first .slabs with
    | some slab => allocBuf cp s t s.slabs slab
    | none => some (s.goto t .allocCreate)
  | .allocInsert slab =>
    allocBuf cp s t { s.slabs with links := s.slabs.links.insertTail .slabs slab } slab
  | .freeLock c ptr =>
    if s.lock c = none then some ((s.spinlock t c).goto t (.freeLoop c ptr)) else none
  | .freeLoop c ptr => freeLoop cp s t c ptr
  | .freeSwap c ptr mag =>
    some ((s.setMagazines
      ((s.magazines.freePrevious c .full_magazines).reload c (some mag) 0)).goto t
        (.freeLoop c ptr))
  | .freeRelock c ptr (some mag) =>
    if s.lock c = none then some ((s.spinlock t c).goto t (.freePush c ptr mag)) else none
  | .freeRelock c ptr none =>
    -- the lock is taken and released at once
    if s.lock c = none then some (s.goto t (.freeSlab ptr)) else none
  | .freePush c ptr mag =>
    some ((s.setMagazines (s.magazines.free_to_depot mag .empty_magazines)).goto t
      (.freeLoop c ptr))
  | .freeSlab ptr => some ((s.setSlabs (s.slabs.freeBuf cp ptr)).goto t .idle)

inductive Action (ι τ : Type*) where
  /-- Magazines are enabled. The records of the CPUs are not read before. -/
  | kmem_init
  /-- A call on the CPU `cpu`, which is `get_curr_cpu()`. -/
  | kmem_cache_alloc (t : τ) (cpu : ι)
  | kmem_cache_free (t : τ) (cpu : ι) (ptr : Nat)
  | run (t : τ)
  /-- `slab_create`, with the page that `alloc_pages` returns. -/
  | slab_create (t : τ) (page : Nat)
  /-- `kmem_cache_alloc(cp->magtype->cache)` -/
  | new_mag (t : τ) (mag : Option Nat)
  /-- The user of a buffer writes a byte of it. -/
  | store (ptr i : Nat) (v : Byte)
  deriving DecidableEq

/-- What `alloc_pages` may return. -/
@[mk_iff] structure Fresh (sl : Slabs) (page : Nat) : Prop where
  aligned : PAGE_SIZE ∣ page
  pos : 0 < page
  le : page + PAGE_SIZE ≤ W
  unused : page ∉ sl.pages

instance (sl : Slabs) (page : Nat) : Decidable (Fresh sl page) := decidable_of_iff' _ (fresh_iff ..)

/-- A new magazine, or none, is there. -/
def newMag (s : State ι τ) (t : τ) (c : ι) (ptr : Nat) : Option Nat → Option (State ι τ)
  | none => some (s.goto t (.freeRelock c ptr none))
  | some mag =>
    if mag ∈ s.magazines.known then none
    else
      some ((s.setMagazines
        { s.magazines with known := insert mag s.magazines.known }).goto t
          (.freeRelock c ptr (some mag)))

def step (cp : Cache) (s : State ι τ) : Action ι τ → Option (State ι τ)
  | .kmem_init => if s.magazines_enabled then none else some { s with magazines_enabled := true }
  | .kmem_cache_alloc t c =>
    match s.pc t with
    | .idle => some (s.goto t (if s.magazines_enabled then .allocLock c else .allocSlab))
    | _ => none
  | .kmem_cache_free t c ptr =>
    match s.pc t with
    | .idle =>
      if ptr ∈ s.held then
        some ({ s with held := s.held.erase ptr }.goto t
          (if s.magazines_enabled then .freeLock c ptr else .freeSlab ptr))
      else none
    | _ => none
  | .run t => run cp s t
  | .slab_create t page =>
    match s.pc t with
    | .allocCreate =>
      if cp.object_size ≤ SMALL_SLAB_SIZE ∧ Fresh s.slabs page then
        some ((s.setSlabs (s.slabs.slab_create_small cp page)).goto t (.allocInsert page))
      else none
    | _ => none
  | .new_mag t mag =>
    match s.pc t with
    | .freeAlloc c ptr => newMag s t c ptr mag
    | _ => none
  | .store ptr i v =>
    if ptr ∈ s.held ∧ i < cp.object_size then
      some (s.setSlabs { s.slabs with mem := update s.slabs.mem (ptr + i) v })
    else none

/-- The buffer that a step returns from `kmem_cache_alloc`. -/
def returned (cp : Cache) (s : State ι τ) : Action ι τ → Option Nat
  | .run t =>
    match s.pc t with
    | .allocLoop c =>
      if 0 < (s.magazines.cpu c).rounds then
        (s.magazines.cpu c).loaded.map (s.magazines.lastRound c)
      else none
    | .allocSlab => (s.slabs.links.first .slabs).map (s.slabs.firstBuf cp)
    | .allocInsert slab => some (s.slabs.firstBuf cp slab)
    | _ => none
  | _ => none

structure Init (s : State ι τ) : Prop where
  lock : ∀ c, s.lock c = none
  cpu : ∀ c, s.magazines.cpu c = .reset
  depot : ∀ list, s.magazines.depot list = []
  filled : ∀ mag, s.magazines.filled mag = 0
  known : s.magazines.known = ∅
  links : Represents s.slabs.links fun _ => []
  color : s.slabs.color = 0
  pages : s.slabs.pages = ∅
  pc : ∀ t, s.pc t = .idle
  held : s.held = ∅

def system (cp : Cache) : System (State ι τ) (Action ι τ) where
  init := Init
  step := step cp

end steps

end Slab
