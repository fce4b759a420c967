import Dufay.Slab.Conserved

/-! # Objects are handed out constructed

The constructor runs when a slab is created, and the destructor when a
buffer comes back to its slab. A buffer that comes back and stays on its
slab is handed out again without a call of the constructor.
-/

open Lts Tailq Memory Placement Size
open Pmm (PAGE_SIZE)

namespace Slab

open Objects

variable {ι τ : Type*} [DecidableEq ι] [DecidableEq τ]
variable {cp : Cache} {hooks : Hooks} {s s' : Objects ι τ}
variable {fl l : Nat → List Nat} {q : SlabList → List Nat} {dom : Nat → Prop}

namespace Objects

/-- The slab that `kmem_cache_free` puts a buffer back on. -/
def slabOfFree (cp : Cache) (hooks : Hooks) (s : Objects ι τ) (ptr : Nat) : Option Nat :=
  if cp.object_size ≤ SMALL_SLAB_SIZE then some (ALIGN_DOWN ptr PAGE_SIZE)
  else (s.large.bufmap (s.freeKey hooks ptr)).map fun c => (s.large.bufctl c).slab

/-- A free in the slab layer puts back the last buffer of a slab in use. -/
def LastOfSlab (cp : Cache) (hooks : Hooks) (s : Objects ι τ) : Action ι τ → Prop
  | .base (.run t) =>
    match s.cache.pc t with
    | .freeSlab ptr => ∀ p ∈ s.slabOfFree cp hooks ptr, s.cache.slabs.refcount p = 1
    | _ => True
  | _ => True

instance decidableLastOfSlab (cp : Cache) (hooks : Hooks) (s : Objects ι τ) (a : Action ι τ) :
    Decidable (LastOfSlab cp hooks s a) :=
  decidable_of_iff ((match a with
    | .base (.run t) =>
      match s.cache.pc t with
      | .freeSlab ptr => decide (∀ p ∈ s.slabOfFree cp hooks ptr, s.cache.slabs.refcount p = 1)
      | _ => true
    | _ => true) = true) (by
      unfold LastOfSlab
      split
      · split <;> simp
      · simp)

/-- The buffers that can be handed out have been constructed. -/
def ConstructedOk (cp : Cache) (s : Objects ι τ) : Prop :=
  if cp.object_size ≤ SMALL_SLAB_SIZE then
    (∃ fl q, Ok cp s.cache fl q) ∧ ∀ b, s.cache.slabs.Carved cp b → b ∈ s.constructed
  else ∃ l q dom, LargeInv cp s l q dom ∧ ∀ b, dom b → b ∈ s.constructed

end Objects

theorem mem_constructed {constructed : Finset Nat} {d : Bool}
    (hb : b ∈ constructed) (hne : b ≠ ptr) :
    b ∈ (if d then constructed.erase ptr else constructed) := by
  split
  · exact Finset.mem_erase.mpr ⟨hne, hb⟩
  · exact hb

theorem Ok.constructed_moves (h : Ok cp s.cache fl q) (hfit : cp.Fits)
    (hconstructor : hooks.constructor.isSome) (hlast : LastOfSlab cp hooks s a)
    (hall : ∀ b, s.cache.slabs.Carved cp b → b ∈ s.constructed)
    (hmove : Moves cp hooks s a s') :
    ∀ b, s'.cache.slabs.Carved cp b → b ∈ s'.constructed := by
  cases hmove with
  | magazine a c hlayer hstep =>
    intro b hb
    obtain ⟨-, hsame⟩ := h.core.step hfit.rounds hlayer hstep
    exact hall b ((Slabs.carved_congr (by rw [hsame.slabs]) (by rw [hsame.slabs]) b).mp hb)
  | store ptr i v hheld hi => exact fun b hb => hall b ((Slabs.carved_congr rfl rfl b).mp hb)
  | empty t hpc hfirst => exact hall
  | createLarge t region slab bufctls hpc hlarge => exact absurd hfit.small hlarge
  | take t sl slab _ hfrom hstep =>
    intro b hb
    obtain ⟨c, hc, rfl⟩ := allocBuf_small hfit.small hstep
    obtain ⟨hpages, hcolor⟩ : sl.pages = s.cache.slabs.pages ∧
        sl.colorOf = s.cache.slabs.colorOf := by
      rcases hfrom with ⟨-, -, rfl⟩ | ⟨-, rfl⟩ <;> exact ⟨rfl, rfl⟩
    rw [Slab.allocBuf, Slabs.takeBuf] at hc
    split at hc
    · next sl' htake =>
      cases hc
      split at htake
      · cases htake
      · cases htake
        exact hall b ((Slabs.carved_congr hpages hcolor b).mp hb)
    · cases hc
  | createSmall t page hpc hsmall hfresh =>
    rintro b ⟨p, hp, hb⟩
    show b ∈ s.constructAll hooks _
    rw [constructAll, if_pos hconstructor, Finset.mem_union, List.mem_toFinset]
    by_cases hpp : p = page
    · exact .inr (hpp ▸ hb)
    · refine .inl (hall b ⟨p, (Finset.mem_insert.mp hp).resolve_left hpp, ?_⟩)
      have hcolor : (s.slab_create_small cp hooks t page).cache.slabs.colorOf p =
          s.cache.slabs.colorOf p := Function.update_of_ne hpp _ _
      rw [buffers, ← hcolor]
      exact hb
  | free t ptr _ hpc hstep =>
    obtain ⟨hcache, hconstructed⟩ := freeBuf_small hfit.small hstep
    simp only [LastOfSlab, hpc, slabOfFree, hfit.small, if_true] at hlast
    have hone := hlast _ rfl
    have hat : At s.cache fl ptr (.freeing t) := by rw [At, hpc]; rfl
    obtain ⟨page, hpage, hptr⟩ := h.part.sound ptr _ hat
    have halign := (h.slabs.page page hpage).align_down hfit hptr
    rw [halign] at hone
    have hzero : ((s.destruct hooks ptr).putBuf cp page ptr).refcount page = 0 := by
      show Function.update s.cache.slabs.refcount page
        ((s.cache.slabs.refcount page + W - 1) % W) page = 0
      rw [Function.update_self, hone, Nat.add_sub_cancel_left, Nat.mod_self]
    have hdestroy : (s.destruct hooks ptr).freeBuf cp ptr =
        ((s.destruct hooks ptr).putBuf cp page ptr).slab_destroy page := by
      rw [Slabs.freeBuf, halign, if_pos hzero]
    rw [hcache, hdestroy, hconstructed]
    rintro b ⟨p, hp, hb⟩
    obtain ⟨hne, hp⟩ := Finset.mem_erase.mp hp
    have hb : b ∈ buffers cp s.cache.slabs p := hb
    have hp : p ∈ s.cache.slabs.pages := hp
    refine mem_constructed (hall b ⟨p, hp, hb⟩) ?_
    rintro rfl
    exact hne (h.slabs.page_unique hfit hp hpage hb hptr)

theorem LargeInv.constructed_moves (h : LargeInv cp s l q dom)
    (hlarge : ¬ cp.object_size ≤ SMALL_SLAB_SIZE) (hchunk : 0 < cp.chunk_size)
    (hM : cp.magtype.rounds < W) (hconstructor : hooks.constructor.isSome)
    (hlast : LastOfSlab cp hooks s a)
    (hall : ∀ b, dom b → b ∈ s.constructed) (hmove : Moves cp hooks s a s') :
    ∃ l' q' dom', LargeInv cp s' l' q' dom' ∧ ∀ b, dom' b → b ∈ s'.constructed := by
  cases hmove with
  | magazine a c hlayer hstep => exact ⟨l, q, dom, h.magazine hM hlayer hstep, hall⟩
  | store ptr i v hheld hi => exact ⟨l, q, dom, h.setMem _, hall⟩
  | empty t hpc hfirst => exact ⟨l, q, dom, h.empty hpc, hall⟩
  | createSmall t page hpc hsmall hfresh => exact absurd hsmall hlarge
  | createLarge t region slab bufctls hpc _ hfresh =>
    refine ⟨_, q, _, (h.create hooks hchunk hpc hfresh).1, fun b hb => ?_⟩
    show b ∈ s.constructAll hooks _
    rw [constructAll, if_pos hconstructor, Finset.mem_union, List.mem_toFinset]
    exact hb.imp_left (hall b)
  | take t sl slab _ hfrom hstep =>
    obtain ⟨c, rest, q', -, -, -, -, -, hsame, hinv⟩ := h.alloc hlarge hfrom hstep
    exact ⟨_, q', dom, hinv, hsame ▸ hall⟩
  | free t ptr _ hpc hstep =>
    simp only [LastOfSlab, hpc, slabOfFree, hlarge, if_false] at hlast
    cases hmap : s.large.bufmap (s.freeKey hooks ptr) with
    | none =>
      obtain ⟨hfree, hinv⟩ := h.free_missed hlarge hpc hmap
      rw [hstep] at hfree
      cases hfree
      exact ⟨_, _, _, hinv, fun b hb => mem_constructed (hall b hb.1) hb.2⟩
    | some c =>
      rw [hmap] at hlast
      obtain ⟨hfree, -, q', hinv⟩ := h.free_last hlarge hpc hmap rfl (hlast _ rfl)
      rw [hstep] at hfree
      cases hfree
      exact ⟨_, _, _, hinv, fun b hb => mem_constructed (hall b hb.1.1) hb.1.2⟩

/-- **Objects are handed out constructed**, if every free that gets to the
slab layer is the last one of a slab. For small objects the chunks have to
hold a pointer, and the constructor and the destructor to leave the slab
alone. -/
theorem returned_constructed {size align : UInt64}
    (hcreate : kmem_cache_create size align = some cp) (hconstructor : hooks.constructor.isSome)
    (hsmall : size.toNat ≤ SMALL_SLAB_SIZE → 8 ≤ cp.chunk_size ∧ hooks.Tame cp)
    (hs : ReachableBy (Objects.system cp hooks) (Objects.LastOfSlab cp hooks) s)
    {a : Objects.Action ι τ} {b : Nat} (hstep : Objects.step cp hooks s a = some s')
    (hret : s.returned cp a = some b) : b ∈ s.constructed := by
  obtain ⟨hobject, hchunk, hM, -⟩ := kmem_cache_create_size hcreate
  have hinv : s.ConstructedOk cp := by
    refine ReachableBy.invariant ?_ ?_ hs
    · intro s hinit
      unfold Objects.ConstructedOk
      split
      · refine ⟨⟨_, _, Ok.init hinit.cache⟩, fun b ⟨p, hp, _⟩ => ?_⟩
        rw [hinit.cache.pages] at hp
        cases hp
      · exact ⟨_, _, fun _ => False, LargeInv.init hinit fun _ => id, fun _ => False.elim⟩
    · intro s a s' h hlast hstep
      have hmove := Objects.moves_of_step hstep
      unfold Objects.ConstructedOk at h ⊢
      split at h
      · next hsize =>
        obtain ⟨hpointer, htame⟩ := hsmall (hobject ▸ hsize)
        have hfit := kmem_cache_create_fits hcreate (hobject ▸ hsize) hpointer
        obtain ⟨⟨fl, q, hok⟩, hall⟩ := h
        rw [if_pos hsize]
        exact ⟨hok.moves hfit htame hmove, hok.constructed_moves hfit hconstructor hlast hall hmove⟩
      · next hsize =>
        obtain ⟨l, q, dom, hlarge, hall⟩ := h
        rw [if_neg hsize]
        exact hlarge.constructed_moves hsize hchunk hM hconstructor hlast hall hmove
  unfold Objects.ConstructedOk at hinv
  split at hinv
  · next hsize =>
    obtain ⟨hpointer, -⟩ := hsmall (hobject ▸ hsize)
    have hfit := kmem_cache_create_fits hcreate (hobject ▸ hsize) hpointer
    obtain ⟨⟨fl, q, hok⟩, hall⟩ := hinv
    exact hall b (hok.returned hfit hstep hret).1
  · next hsize =>
    obtain ⟨l, q, dom, hlarge, hall⟩ := hinv
    exact hall b (hlarge.returned hsize hstep hret).1

/-- A constructor and a destructor. -/
def counted : Hooks := ⟨setCount, setCount⟩

/-- A buffer is allocated and freed, which destroys its slab; the next one comes
from a new slab. -/
theorem returned_constructed_large : ∃ s : Objects Unit Unit,
    ReachableBy (Objects.system generic1024 counted) (Objects.LastOfSlab generic1024 counted) s ∧
      s.returned generic1024 (.base (.run ())) = some 146432 ∧ 146432 ∈ s.constructed := by
  obtain ⟨s, hexec, hreturned, hs⟩ : ∃ s, execBy (Objects.system generic1024 counted)
      (LastOfSlab generic1024 counted) disabled (firstAlloc ++
        [.base (.kmem_cache_free () () 80896), .base (.run ()), .base (.kmem_cache_alloc () ()),
          .base (.run ()), .slab_create_large () 131072 24 (List.range' 17 16)]) = some s ∧
      s.returned generic1024 (.base (.run ())) = some 146432 ∧
      (Objects.step generic1024 counted s (.base (.run ()))).isSome := by decide +kernel
  obtain ⟨s', hstep⟩ := Option.isSome_iff_exists.mp hs
  have hreach := ReachableBy.of_execBy (.init init_disabled) hexec
  exact ⟨s, hreach, hreturned, returned_constructed
    (show kmem_cache_create 1024 0 = some generic1024 by decide +kernel) rfl
    (fun hsize => absurd hsize (by decide)) hreach hstep hreturned⟩

/-- Two buffers are allocated before `kmem_init`, and the second one is freed:
it is handed out again as the destructor left it. -/
theorem destructed_handed_out : kmem_cache_create 512 0 = some generic512 ∧
    Objects.Init disabled ∧ ∃ s : Objects Unit Unit,
      exec (Objects.system generic512 counted) disabled
        [.base (.kmem_cache_alloc () ()), .base (.run ()), .base (.slab_create () 4096),
          .base (.run ()), .base (.kmem_cache_alloc () ()), .base (.run ()),
          .base (.kmem_cache_free () () 6664), .base (.run ()),
          .base (.kmem_cache_alloc () ())] = some s ∧
      s.returned generic512 (.base (.run ())) = some 6664 ∧
      (Objects.step generic512 counted s (.base (.run ()))).isSome ∧ 6664 ∉ s.constructed := by
  exact ⟨by decide +kernel, init_disabled, by decide +kernel⟩

end Slab
