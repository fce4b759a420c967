import Dufay.Slab.Freelist

/-! # Constructors and the freelist

`slab_create_small` writes the pointer of the freelist into a chunk and
runs the constructor on the chunk after that. The pointer is at `offset`,
in the last eight bytes of the object, so a constructor that initialises
the whole object overwrites it.
-/

open Tailq Memory Size
open Pmm (PAGE_SIZE)

namespace Slab

/-! ### Constructors -/

/-- `cp->constructor` or `cp->destructor`, which may be `NULL`: what a call
on an object leaves in memory. -/
abbrev Hook := Option (Mem → Nat → Mem)

def Hook.call (hook : Hook) (mem : Mem) (obj : Nat) : Mem :=
  match hook with
  | some f => f mem obj
  | none => mem

/-- It writes inside its own object. -/
def Hook.Inside (cp : Cache) (hook : Hook) : Prop :=
  ∀ mem obj x, x < obj ∨ obj + cp.object_size ≤ x → hook.call mem obj x = mem x

/-- It leaves the pointer in the object as it was. -/
def Hook.KeepsLink (cp : Cache) (hook : Hook) : Prop :=
  ∀ mem obj x, obj + cp.offset ≤ x → x < obj + cp.offset + 8 → hook.call mem obj x = mem x

theorem Hook.inside_none (cp : Cache) : Hook.Inside cp none := fun _ _ _ _ => rfl

theorem Hook.keepsLink_none (cp : Cache) : Hook.KeepsLink cp none := fun _ _ _ _ _ => rfl

/-! ### Slabs of constructed objects -/

/-- The first `n` rounds of the loop of `slab_create_small`: the memory and
`ret->buflist`. -/
def construct (cp : Cache) (constructor : Hook) (mem : Mem) (buf : Nat) : Nat → Mem × Nat
  | 0 => (mem, 0)
  | i + 1 =>
    let carved := construct cp constructor mem buf i
    let obj := buf + i * cp.chunk_size
    (constructor.call (write64 carved.1 (obj + cp.offset) carved.2) obj, obj + cp.offset)

/-- `slab_create_small` of a cache with a constructor. -/
def Slabs.slab_create_constructed (cp : Cache) (constructor : Hook) (sl : Slabs) (page : Nat) :
    Slabs :=
  sl.withSlab cp page
    (construct cp constructor (zero sl.mem page PAGE_SIZE) (page + nextColor cp sl.color)
      (capacity cp (nextColor cp sl.color)))

variable {cp : Cache} {sl : Slabs} {hook : Hook}

theorem construct_none : construct cp none mem buf n = carve cp mem buf n := by
  induction n with
  | zero => rfl
  | succ n ih =>
    rw [construct, carve, ih]
    rfl

theorem Slabs.slab_create_constructed_none (cp : Cache) (sl : Slabs) (page : Nat) :
    sl.slab_create_constructed cp none page = sl.slab_create_small cp page := by
  rw [Slabs.slab_create_constructed, construct_none]
  rfl

theorem construct_outside (hfit : cp.Fits) (hinside : hook.Inside cp)
    (hx : x < buf ∨ buf + n * cp.chunk_size ≤ x) : (construct cp hook mem buf n).1 x = mem x := by
  have hchunk := hfit.bufctl
  have hobject := hfit.object
  induction n with
  | zero => rfl
  | succ n ih =>
    rw [Nat.succ_mul] at hx
    have hcall := hinside
      (write64 (construct cp hook mem buf n).1 (buf + n * cp.chunk_size + cp.offset)
        (construct cp hook mem buf n).2) (buf + n * cp.chunk_size) x (by omega)
    have hlink : write64 (construct cp hook mem buf n).1 (buf + n * cp.chunk_size + cp.offset)
        (construct cp hook mem buf n).2 x = (construct cp hook mem buf n).1 x :=
      write64_outside (by omega)
    exact hcall.trans (hlink.trans (ih (by omega)))

/-- The pointer that the constructor of chunk `i` leaves. -/
def link (cp : Cache) (hook : Hook) (mem : Mem) (buf i : Nat) : Nat :=
  read64 (construct cp hook mem buf (i + 1)).1 (buf + i * cp.chunk_size + cp.offset)

/-- Each call of the constructor leaves the pointer that was stored before it. -/
def KeepsLinks (cp : Cache) (hook : Hook) (mem : Mem) (buf n : Nat) : Prop :=
  ∀ i < n, link cp hook mem buf i = (construct cp hook mem buf i).2

/-- Some call writes a pointer to a chunk that was not there. -/
def Forges (cp : Cache) (hook : Hook) (mem : Mem) (buf n : Nat) : Prop :=
  ∃ i < n, link cp hook mem buf i ≠ (construct cp hook mem buf i).2 ∧
    ∃ b ∈ bufs cp buf n, link cp hook mem buf i = b + cp.offset

theorem construct_snd_lt (hfit : cp.Fits) (hle : buf + n * cp.chunk_size ≤ W) :
    (construct cp hook mem buf n).2 < 256 ^ 8 := by
  have hchunk := hfit.bufctl
  have hW : W = 256 ^ 8 := W_eq
  cases n with
  | zero => exact Nat.pow_pos (by decide)
  | succ n =>
    rw [Nat.succ_mul] at hle
    simp only [construct]
    omega

theorem Hook.KeepsLink.links (hfit : cp.Fits) (hkeep : hook.KeepsLink cp)
    (hle : buf + n * cp.chunk_size ≤ W) : KeepsLinks cp hook mem buf n := by
  intro i hi
  have hmul := chunk_mul_le cp hi
  have hlt : (construct cp hook mem buf i).2 < 256 ^ 8 := construct_snd_lt hfit (by omega)
  have hcall : link cp hook mem buf i = read64 (write64 (construct cp hook mem buf i).1
      (buf + i * cp.chunk_size + cp.offset) (construct cp hook mem buf i).2)
      (buf + i * cp.chunk_size + cp.offset) := read64_congr fun x hle hlt => hkeep _ _ x hle hlt
  exact hcall.trans (read64_write64 hlt)

/-- Later rounds do not change the pointer of a chunk. -/
theorem construct_link (hfit : cp.Fits) (hinside : hook.Inside cp) (hi : i < n) :
    read64 (construct cp hook mem buf n).1 (buf + i * cp.chunk_size + cp.offset) =
      link cp hook mem buf i := by
  have hchunk := hfit.bufctl
  have hobject := hfit.object
  induction n with
  | zero => cases hi
  | succ n ih =>
    rcases Nat.lt_succ_iff_lt_or_eq.mp hi with hlt | rfl
    · rw [← ih hlt]
      have hmul := chunk_mul_le cp hlt
      refine read64_congr fun x hle hlt' => ?_
      exact (hinside _ _ x (by omega)).trans (write64_outside (by omega))
    · rfl

theorem chain_of_links (hbuf : 0 < buf)
    (hlinks : ∀ i < n, read64 mem' (buf + i * cp.chunk_size + cp.offset) =
      (construct cp hook mem buf i).2) :
    Chain mem' (construct cp hook mem buf n).2 ((bufs cp buf n).map (· + cp.offset)) := by
  induction n with
  | zero => rfl
  | succ n ih =>
    refine ⟨rfl, by dsimp only; omega, ?_⟩
    rw [hlinks n (Nat.lt_succ_self n)]
    exact ih fun i hi => hlinks i (Nat.lt_succ_of_lt hi)

theorem construct_chain (hfit : cp.Fits) (hinside : hook.Inside cp) (hbuf : 0 < buf)
    (hkeep : KeepsLinks cp hook mem buf n) : Chain (construct cp hook mem buf n).1
      (construct cp hook mem buf n).2 ((bufs cp buf n).map (· + cp.offset)) :=
  chain_of_links hbuf fun i hi => (construct_link hfit hinside hi).trans (hkeep i hi)

/-- A walk that visits as many chunks as there are comes to the first one only
along the pointers that were stored. -/
theorem keepsLinks_of_chain (hfit : cp.Fits) (hinside : hook.Inside cp)
    (hforge : ¬ Forges cp hook mem buf n) (hk : k ≤ n)
    (hchain : Chain (construct cp hook mem buf n).1 (construct cp hook mem buf k).2 l)
    (hlength : l.length = k) (hl : ∀ p ∈ l, ∃ b ∈ bufs cp buf n, p = b + cp.offset) :
    KeepsLinks cp hook mem buf k := by
  induction k generalizing l with
  | zero => exact fun i hi => absurd hi (Nat.not_lt_zero i)
  | succ k ih =>
    cases l with
    | nil => cases hlength
    | cons p rest =>
      obtain ⟨rfl, -, hrest⟩ := hchain
      rw [show (construct cp hook mem buf (k + 1)).2 = buf + k * cp.chunk_size + cp.offset from rfl,
        construct_link hfit hinside hk] at hrest
      have hlink : link cp hook mem buf k = (construct cp hook mem buf k).2 := by
        by_contra hne
        cases rest with
        | nil =>
          -- the walk ends here, so this is the first chunk
          cases hlength
          exact hne hrest
        | cons q rest =>
          obtain ⟨b, hb, hq⟩ := hl q (by simp)
          exact hforge ⟨k, hk, hne, b, hb, hrest.1.trans hq⟩
      rw [hlink] at hrest
      have hbelow := ih (Nat.le_of_succ_le hk) hrest (Nat.succ.inj hlength)
        fun q hq => hl q (List.mem_cons_of_mem _ hq)
      intro i hi
      rcases Nat.lt_succ_iff_lt_or_eq.mp hi with hlt | rfl
      · exact hbelow i hlt
      · exact hlink

theorem Slabs.Ok.slab_create_constructed
    (h : sl.Ok cp fl q) (hfit : cp.Fits) (hinside : hook.Inside cp) (hkeep : hook.KeepsLink cp)
    {page : Nat} (hfresh : Fresh sl page) : (sl.slab_create_constructed cp hook page).Ok cp
      (Function.update fl page (buffers cp (sl.slab_create_constructed cp hook page) page)) q := by
  have hcap := capacity_le cp (hfit.nextColor_le sl.color)
  have hle := hfresh.le
  have hpos := hfresh.pos
  apply h.withSlab hfit hfresh
  · exact construct_chain hfit hinside (by omega) (hkeep.links hfit (by omega))
  · intro x hx
    exact (construct_outside hfit hinside (by omega)).trans (zero_apply _ _ _ (by omega))

theorem Slabs.Ok.slab_create_small {page : Nat} (h : sl.Ok cp fl q) (hfit : cp.Fits)
    (hfresh : Fresh sl page) : (sl.slab_create_small cp page).Ok cp
      (Function.update fl page (buffers cp (sl.slab_create_small cp page) page)) q := by
  rw [← Slabs.slab_create_constructed_none]
  exact h.slab_create_constructed hfit (Hook.inside_none cp) (Hook.keepsLink_none cp) hfresh

/-! ### All chunks are on the freelist -/

/-- The freelist of a slab holds every buffer that the page was cut into,
once, and ends with `NULL`. -/
def Freelist (cp : Cache) (sl : Slabs) (page : Nat) : Prop :=
  ∃ l : List Nat, l.Perm (buffers cp sl page) ∧
    Chain sl.mem (sl.buflist page) (l.map (· + cp.offset))

theorem kmem_cache_create_chunk (h : kmem_cache_create size align = some cp)
    (halign : align = 0 ∨ SLAB_ALIGN ≤ align.toNat) : 8 ≤ cp.chunk_size := by
  have hW := W_eq
  unfold kmem_cache_create at h
  extract_lets object_align aligned chunk offset chunk_size small slab_size at h
  split at h
  · cases h
  · next hne =>
    obtain ⟨magtype, hmag, rfl⟩ := Option.map_eq_some_iff.mp h
    have hlt := align.toNat_lt
    have hobject_align : SLAB_ALIGN ≤ object_align ∧ object_align < W := by
      simp only [object_align]
      split
      · exact ⟨Nat.le_refl _, by rw [hW]; decide⟩
      · next hne => exact ⟨halign.resolve_left hne, by omega⟩
    have haligned : aligned = true := decide_eq_true hobject_align.1
    have hchunk : chunk = ALIGN_UP size.toNat SLAB_ALIGN := by
      simp only [chunk, haligned, if_true]
    simp only [chunk_size, hchunk] at hne ⊢
    obtain ⟨height, hle⟩ := le_ALIGN_UP_ALIGN_UP hobject_align.2 hne
    exact height.trans hle

/-- **Construction does not damage the freelist** just if each call of the
constructor leaves the pointer in its object as it was: whatever else it
writes inside the object, `slab_create_small` then puts every chunk onto the
freelist once. The converse is about constructors that do not write
pointers to other chunks, which could link the list in another order. -/
theorem construction_keeps_freelist_iff {size align : UInt64} {page : Nat}
    (hcreate : kmem_cache_create size align = some cp) (hsize : size.toNat ≤ SMALL_SLAB_SIZE)
    (halign : align = 0 ∨ ∃ k, 3 ≤ k ∧ k ≤ 9 ∧ align.toNat = 2 ^ k) (hinside : hook.Inside cp)
    (hfresh : Fresh sl page) :
    (buffers cp (sl.slab_create_constructed cp hook page) page).Nodup ∧
      (KeepsLinks cp hook (zero sl.mem page PAGE_SIZE) (page + nextColor cp sl.color)
          (capacity cp (nextColor cp sl.color)) →
        Freelist cp (sl.slab_create_constructed cp hook page) page) ∧
      (¬ Forges cp hook (zero sl.mem page PAGE_SIZE) (page + nextColor cp sl.color)
          (capacity cp (nextColor cp sl.color)) →
        Freelist cp (sl.slab_create_constructed cp hook page) page →
        KeepsLinks cp hook (zero sl.mem page PAGE_SIZE) (page + nextColor cp sl.color)
          (capacity cp (nextColor cp sl.color))) := by
  have halign' : align = 0 ∨ SLAB_ALIGN ≤ align.toNat := by
    rcases halign with hzero | ⟨k, hk, -, heq⟩
    · exact .inl hzero
    · right
      rw [heq]
      exact Nat.pow_le_pow_right (by decide : 0 < 2) hk
  have hfit := kmem_cache_create_fits hcreate hsize (kmem_cache_create_chunk hcreate halign')
  have hpos := hfresh.pos
  have hbuffers : buffers cp (sl.slab_create_constructed cp hook page) page =
      bufs cp (page + nextColor cp sl.color) (capacity cp (nextColor cp sl.color)) :=
    buffers_withSlab cp sl page _
  refine ⟨?_, fun hkeep => ⟨_, List.Perm.refl _, ?_⟩, ?_⟩
  · rw [hbuffers]
    exact bufs_nodup hfit.pos _ _
  · rw [hbuffers]
    have hchain := construct_chain hfit hinside (by omega) hkeep
    simpa [Slabs.slab_create_constructed, Slabs.withSlab] using hchain
  · rintro hforge ⟨l, hperm, hchain⟩
    rw [hbuffers] at hperm
    refine keepsLinks_of_chain hfit hinside hforge le_rfl (l := l.map (· + cp.offset)) ?_ ?_ ?_
    · simpa [Slabs.slab_create_constructed, Slabs.withSlab] using hchain
    · rw [List.length_map, hperm.length_eq, length_bufs]
    · intro p hp
      obtain ⟨b, hb, rfl⟩ := List.mem_map.mp hp
      exact ⟨b, hperm.mem_iff.mp hb, rfl⟩

/-- A cache of objects of 32 bytes. -/
def object32 : Cache where
  object_size := 32
  chunk_size := 32
  slab_size := 4096
  offset := 24
  object_align := 8
  maxcolor := 0
  magtype := ⟨15, 0⟩

/-- The slab layer of a cache that has not been used. -/
def noSlabs : Slabs where
  mem := fun _ => 0
  links := { fwd := fun _ => none, last := .first, prev := fun _ => .first .slabs }
  refcount := fun _ => 0
  buflist := fun _ => 0
  color := 0
  pages := ∅
  colorOf := fun _ => 0

theorem fresh_noSlabs : Fresh noSlabs 4096 := by
  have hW := W_eq
  exact ⟨by decide, by decide, by rw [hW]; decide, by simp [noSlabs]⟩

/-- A constructor that sets the reference count at the start of the object. -/
def setCount : Hook := some fun mem obj => write64 mem obj 1

theorem construction_keeps_freelist_iff_setCount :
    Freelist object32 (noSlabs.slab_create_constructed object32 setCount 4096) 4096 := by
  have hcreate : kmem_cache_create 32 0 = some object32 := by decide +kernel
  have hfit : object32.Fits := kmem_cache_create_fits hcreate (by decide) (by decide)
  have hinside : setCount.Inside object32 := by
    intro mem obj x hx
    exact write64_outside (by simp only [object32] at hx; omega)
  have hkeep : setCount.KeepsLink object32 := by
    intro mem obj x hle hlt
    exact write64_outside (by simp only [object32] at hle; omega)
  refine (construction_keeps_freelist_iff hcreate (by decide) (.inl rfl) hinside fresh_noSlabs).2.1
    (hkeep.links hfit ?_)
  rw [W_eq]
  decide +kernel

/-- `memset(obj, 0, size)`, as the constructor of the object layer does. -/
def zeroing (size : Nat) : Hook := some fun mem obj => zero mem obj size

theorem construct_zeroing (hsize : cp.offset + 8 ≤ size) (mem : Mem) (buf n : Nat) :
    read64 (construct cp (zeroing size) mem buf (n + 1)).1
      (buf + n * cp.chunk_size + cp.offset) = 0 := by
  rw [construct]
  generalize write64 (construct cp (zeroing size) mem buf n).1 (buf + n * cp.chunk_size + cp.offset)
    (construct cp (zeroing size) mem buf n).2 = mem'
  have hdigits : ∀ i < 8, zero mem' (buf + n * cp.chunk_size) size
      (buf + n * cp.chunk_size + cp.offset + i) = BitVec.ofNat 8 (0 / 256 ^ i) := by
    intro i hi
    rw [zero, if_pos (by omega), Nat.zero_div]
    rfl
  show readBytes (zero mem' (buf + n * cp.chunk_size) size)
    (buf + n * cp.chunk_size + cp.offset) 8 = 0
  rw [readBytes_digits hdigits, Nat.zero_mod]

/-- The freelist ends with its first entry: the other 126 chunks of the page
are on no list. -/
theorem freelist_lost_zeroing : kmem_cache_create 32 0 = some object32 ∧
    (zeroing 32).Inside object32 ∧ Fresh noSlabs 4096 ∧
    ¬ Freelist object32 (noSlabs.slab_create_constructed object32 (zeroing 32) 4096) 4096 := by
  refine ⟨by decide +kernel, fun mem obj x hx => ?_, fresh_noSlabs, ?_⟩
  · exact zero_apply _ _ _ (by simp only [object32] at hx; omega)
  · rintro ⟨l, hperm, hchain⟩
    have hcolor : nextColor object32 noSlabs.color = 0 := by decide +kernel
    have hcap : capacity object32 0 = 126 + 1 := by decide
    have hlength : l.length = 127 := by
      rw [hperm.length_eq, Slabs.slab_create_constructed, buffers_withSlab, length_bufs, hcolor,
        hcap]
    rw [Slabs.slab_create_constructed, hcolor, hcap] at hchain
    have hhead : (noSlabs.withSlab object32 4096 (construct object32 (zeroing 32)
        (zero noSlabs.mem 4096 PAGE_SIZE) (4096 + 0) (126 + 1))).buflist 4096 =
          4096 + 0 + 126 * 32 + 24 := by
      rw [Slabs.withSlab_buflist]
      rfl
    rw [hhead] at hchain
    obtain ⟨rest, hl, hrest⟩ := hchain.pop (by decide)
    have hzero := construct_zeroing (show object32.offset + 8 ≤ 32 by decide)
      (zero noSlabs.mem 4096 PAGE_SIZE) (4096 + 0) 126
    have hnil := hrest.eq_nil_iff.mp hzero
    have hlen := congrArg List.length hl
    rw [hnil, List.length_map, hlength] at hlen
    exact absurd hlen (by decide)

end Slab
