import Dufay.Slab.Objects

/-! # Slabs of small objects

The invariant of `Slab.system` also holds of a cache with a constructor
and a destructor, if these stay inside their object and the constructor
leaves the pointer there alone (`Hooks.Tame`). A slab is live from the
moment it is inserted into the lists. Before that it belongs to the call
that creates it (`Used`).
-/

open Lts Tailq Memory Placement Size Function
open Pmm (PAGE_SIZE)

namespace Slab

open Objects

variable {ι τ : Type*} [DecidableEq ι] [DecidableEq τ]
variable {cp : Cache} {hooks : Hooks} {s s' : Objects ι τ}
variable {fl : Nat → List Nat} {q : SlabList → List Nat}

/-- The constructor and the destructor write inside their object, and the
constructor does not touch the pointer. -/
structure Hooks.Tame (cp : Cache) (hooks : Hooks) : Prop where
  constructor : hooks.constructor.Inside cp
  link : hooks.constructor.KeepsLink cp
  destructor : hooks.destructor.Inside cp

omit [DecidableEq ι] in
theorem Objects.allocBuf_small
    (hsmall : cp.object_size ≤ SMALL_SLAB_SIZE) (h : s.allocBuf cp t sl slab = some s') :
    ∃ c, Slab.allocBuf cp s.cache t sl slab = some c ∧ s' = { s with cache := c } := by
  rw [allocBuf, if_pos hsmall] at h
  obtain ⟨c, hc, rfl⟩ := Option.map_eq_some_iff.mp h
  exact ⟨c, hc, rfl⟩

omit [DecidableEq ι] in
theorem Objects.freeBuf_small (hsmall : cp.object_size ≤ SMALL_SLAB_SIZE)
    (h : s.freeBuf cp hooks t ptr = some s') :
    s'.cache = (s.cache.setSlabs ((s.destruct hooks ptr).freeBuf cp ptr)).goto t .idle ∧
      s'.constructed =
        if hooks.destructor.isSome then s.constructed.erase ptr else s.constructed := by
  simp only [freeBuf, hsmall, if_true] at h
  cases h
  exact ⟨rfl, rfl⟩

omit [DecidableEq ι] [DecidableEq τ] in
theorem Ok.destruct (h : Ok cp s.cache fl q) (hfit : cp.Fits) (htame : hooks.Tame cp)
    (ht : s.cache.pc t = .freeSlab ptr) : Ok cp (s.cache.setSlabs (s.destruct hooks ptr)) fl q :=
  h.write hfit (.inr ⟨t, by rw [ht]; rfl⟩) (htame.destructor _ _)

omit [DecidableEq ι] in
theorem Ok.takes (h : Ok cp s.cache fl q) (hfit : cp.Fits) (hfrom : s.TakesFrom t sl slab)
    (hstep : Slab.allocBuf cp s.cache t sl slab = some c) :
    At s.cache fl (s.cache.slabs.firstBuf cp slab) (.freelist slab) ∧ ∃ fl' q', Ok cp c fl' q' := by
  rcases hfrom with ⟨hpc, hfirst, rfl⟩ | ⟨hpc, rfl⟩
  · exact h.allocSlab hfit hpc hfirst hstep
  · exact h.allocInsert hfit hpc hstep

theorem Ok.moves (h : Ok cp s.cache fl q) (hfit : cp.Fits) (htame : hooks.Tame cp)
    (hmove : Moves cp hooks s a s') : ∃ fl' q', Ok cp s'.cache fl' q' := by
  cases hmove with
  | magazine a c hlayer hstep => exact h.step hfit hstep
  | store ptr i v hheld hi =>
    refine ⟨fl, q, h.write hfit (.inl hheld) fun x hx => ?_⟩
    exact update_of_ne (by omega) _ _
  | createSmall t page hpc hsmall hfresh =>
    have hok := h.slabs.slab_create_constructed hfit htame.constructor htame.link hfresh
    exact ⟨_, q, h.withSlab hfit hpc hfresh hok⟩
  | createLarge t region slab bufctls hpc hlarge => exact absurd hfit.small hlarge
  | empty t hpc hfirst =>
    have hcore : Core cp.magtype.rounds (s.cache.goto t .allocCreate) fl q
        (s.cache.slabs.Carved cp) :=
      h.core.goto (by rw [hpc]; rfl) (h.lock.goto (.inl rfl)) trivial
    exact ⟨fl, q, hcore.ok h.slabs⟩
  | take t sl slab _ hfrom hstep =>
    obtain ⟨c, hc, rfl⟩ := allocBuf_small hfit.small hstep
    exact (h.takes hfit hfrom hc).2
  | free t ptr _ hpc hstep =>
    obtain ⟨hcache, -⟩ := freeBuf_small hfit.small hstep
    rw [hcache]
    exact (h.destruct hfit htame hpc).freeSlab hfit hpc

/-! ### Slabs in use -/

/-- A slab that is not in use is being created. -/
def Used (s : State ι τ) : Prop :=
  ∀ p ∈ s.slabs.pages, s.slabs.refcount p = 0 → ∃ t, (s.pc t).slab = some p

omit [DecidableEq ι] in
theorem Used.goto {c' : State ι τ} (h : Used c)
    (hpc : c'.pc = update c.pc t pc') (hold : ∀ p ∈ c'.slabs.pages, c'.slabs.refcount p = 0 →
      p ∈ c.slabs.pages ∧ c.slabs.refcount p = 0 ∧ (c.pc t).slab ≠ some p) : Used c' := by
  intro p hp hzero
  obtain ⟨hmem, hzero, hne⟩ := hold p hp hzero
  obtain ⟨t', ht'⟩ := h p hmem hzero
  refine ⟨t', ?_⟩
  have htt : t' ≠ t := by
    rintro rfl
    exact hne ht'
  rw [hpc, update_of_ne htt]
  exact ht'

omit [DecidableEq ι] in
theorem Used.takes (hused : Used s.cache) (h : Ok cp s.cache fl q) (hfrom : s.TakesFrom t sl slab)
    (hstep : Slab.allocBuf cp s.cache t sl slab = some c) : Used c := by
  obtain ⟨hpages, hcount, hbuflist, hslab, hhands⟩ : sl.pages = s.cache.slabs.pages ∧
      sl.refcount = s.cache.slabs.refcount ∧ sl.buflist = s.cache.slabs.buflist ∧
      slab ∈ s.cache.slabs.pages ∧ ∀ p, (s.cache.pc t).slab = some p → p = slab := by
    rcases hfrom with ⟨hpc, hfirst, rfl⟩ | ⟨hpc, rfl⟩
    · rw [h.slabs.links.first_eq] at hfirst
      refine ⟨rfl, rfl, rfl, h.slabs.listed _ slab (List.mem_of_mem_head? hfirst), fun p hp => ?_⟩
      rw [hpc] at hp
      cases hp
    · have hhands : (s.cache.pc t).slab = some slab := by rw [hpc]; rfl
      refine ⟨rfl, rfl, rfl, (h.inserting.detached t slab hhands).1, fun p hp => ?_⟩
      rw [hhands] at hp
      cases hp
      rfl
  rw [Slab.allocBuf, Slabs.takeBuf, hbuflist] at hstep
  split at hstep
  · next sl' htake =>
    cases hstep
    split at htake
    · cases htake
    · next hne =>
      cases htake
      have hpage := h.slabs.page slab hslab
      have hsum := hpage.count
      have hcap := capacity_lt cp (s.cache.slabs.colorOf slab)
      have hfl : (fl slab).length ≠ 0 := by
        intro hlen
        apply hne
        rw [hpage.chain.eq_nil_iff, List.map_eq_nil_iff]
        exact List.eq_nil_of_length_eq_zero hlen
      apply hused.goto rfl
      intro p hp hzero
      have hzero : update sl.refcount slab ((sl.refcount slab + 1) % W) p = 0 := hzero
      rw [hcount] at hzero
      by_cases hps : p = slab
      · rw [hps, update_self, Nat.mod_eq_of_lt (by omega)] at hzero
        cases hzero
      · rw [update_of_ne hps] at hzero
        exact ⟨hpages ▸ hp, hzero, fun hp => hps (hhands p hp)⟩
  · cases hstep

theorem Used.moves (hused : Used s.cache) (h : Ok cp s.cache fl q) (hfit : cp.Fits)
    (hmove : Moves cp hooks s a s') : Used s'.cache := by
  cases hmove with
  | magazine a c hlayer hstep =>
    obtain ⟨-, hsame⟩ := h.core.step hfit.rounds hlayer hstep
    intro p hp hzero
    have hslabs : c.slabs = s.cache.slabs := hsame.slabs
    rw [hslabs] at hp hzero
    obtain ⟨t, ht⟩ := hused p hp hzero
    exact ⟨t, (hsame.slab t).trans ht⟩
  | store ptr i v hheld hi => exact hused
  | createSmall t page hpc hsmall hfresh =>
    intro p hp hzero
    by_cases hpage : p = page
    · refine ⟨t, ?_⟩
      rw [hpage]
      show (update s.cache.pc t (.allocInsert page) t).slab = some page
      rw [update_self]
      rfl
    · have hold : p ∈ s.cache.slabs.pages := (Finset.mem_insert.mp hp).resolve_left hpage
      have hcount : update s.cache.slabs.refcount page 0 p = 0 := hzero
      rw [update_of_ne hpage] at hcount
      obtain ⟨t', ht'⟩ := hused p hold hcount
      refine ⟨t', ?_⟩
      have htt : t' ≠ t := by
        rintro rfl
        rw [hpc] at ht'
        cases ht'
      show (update s.cache.pc t (.allocInsert page) t').slab = some p
      rw [update_of_ne htt]
      exact ht'
  | createLarge t region slab bufctls hpc hlarge => exact absurd hfit.small hlarge
  | empty t hpc hfirst =>
    apply hused.goto rfl
    intro p hp hzero
    exact ⟨hp, hzero, by rw [hpc]; exact Option.some_ne_none p |>.symm⟩
  | take t sl slab _ hfrom hstep =>
    obtain ⟨c, hc, rfl⟩ := allocBuf_small hfit.small hstep
    exact hused.takes h hfrom hc
  | free t ptr _ hpc hstep =>
    obtain ⟨hcache, -⟩ := freeBuf_small hfit.small hstep
    rw [hcache]
    apply hused.goto rfl
    intro p hp hzero
    have hslab : (s.cache.pc t).slab ≠ some p := by
      rw [hpc]
      exact Option.some_ne_none p |>.symm
    -- the slab of the buffer is gone when its count is zero
    have hp' : p ∈ ((s.destruct hooks ptr).freeBuf cp ptr).pages := hp
    have hzero' : ((s.destruct hooks ptr).freeBuf cp ptr).refcount p = 0 := hzero
    simp only [Slabs.freeBuf] at hp' hzero'
    obtain ⟨hne, hmem⟩ : p ≠ ALIGN_DOWN ptr PAGE_SIZE ∧ p ∈ s.cache.slabs.pages := by
      split at hp'
      · exact Finset.mem_erase.mp hp'
      · next hlast =>
        refine ⟨?_, hp'⟩
        rintro rfl
        rw [if_neg hlast] at hzero'
        exact hlast hzero'
    have hcount : (update s.cache.slabs.refcount (ALIGN_DOWN ptr PAGE_SIZE)
        ((s.cache.slabs.refcount (ALIGN_DOWN ptr PAGE_SIZE) + W - 1) % W)) p = 0 := by
      split at hzero' <;> exact hzero'
    rw [update_of_ne hne] at hcount
    exact ⟨hmem, hcount, hslab⟩

/-- The invariant of a cache of small objects. -/
def Objects.SmallOk (cp : Cache) (s : Objects ι τ) : Prop :=
  (∃ fl q, Ok cp s.cache fl q) ∧ Used s.cache

theorem Objects.small_of_reachable (hfit : cp.Fits) (htame : hooks.Tame cp)
    (hs : Reachable (system cp hooks) s) : s.SmallOk cp := by
  refine ReachableBy.invariant ?_ ?_ hs
  · intro s hinit
    refine ⟨⟨_, _, Ok.init hinit.cache⟩, fun p hp => ?_⟩
    rw [hinit.cache.pages] at hp
    cases hp
  · intro s a s' hinv _ hstep
    obtain ⟨⟨fl, q, h⟩, hused⟩ := hinv
    have hmove := moves_of_step hstep
    exact ⟨h.moves hfit htame hmove, hused.moves h hfit hmove⟩

/-- A slab in the lists `q`: how many of its buffers are in use, and which
list it is in. -/
structure LiveSlab (cp : Cache) (sl : Slabs) (q : SlabList → List Nat) (p : Nat) : Prop where
  freelist : ∃ l, Chain sl.mem (sl.buflist p) l ∧
    sl.refcount p + l.length = (buffers cp sl p).length
  used : 0 < sl.refcount p
  slabs : p ∈ q .slabs ↔ sl.buflist p ≠ 0
  full_slabs : p ∈ q .full_slabs ↔ sl.buflist p = 0

omit [DecidableEq ι] [DecidableEq τ] in
theorem Ok.liveSlab (h : Ok cp s.cache fl q) (hused : Used s.cache)
    (hp : p ∈ s.cache.slabs.pages) (hlive : ∀ t, (s.cache.pc t).slab ≠ some p) :
    LiveSlab cp s.cache.slabs q p := by
  have hpage := h.slabs.page p hp
  have hpos : 0 < s.cache.slabs.refcount p := by
    by_contra hzero
    obtain ⟨t, ht⟩ := hused p hp (by omega)
    exact hlive t ht
  have hzero : s.cache.slabs.buflist p = 0 ↔ fl p = [] := by
    rw [hpage.chain.eq_nil_iff, List.map_eq_nil_iff]
  obtain ⟨k, hk⟩ : ∃ k, p ∈ q k := by
    by_contra hnone
    have hdet := h.slabs.detached p hp fun k hk => hnone ⟨k, hk⟩
    omega
  refine ⟨⟨_, hpage.chain, ?_⟩, hpos, ?_, ?_⟩
  · rw [List.length_map, hpage.count, buffers, length_bufs]
  · rw [h.slabs.queues.mem_iff hk, Ne, hzero]
    cases fl p with
    | nil => simp [listFor]
    | cons b rest => simp [listFor]
  · rw [h.slabs.queues.mem_iff hk, hzero]
    cases fl p with
    | nil => simp [listFor]
    | cons b rest => simp [listFor]

/-- The arguments of `free_pages` in `slab_destroy`. -/
def freedPages (cp : Cache) (page : Nat) : Nat × Nat :=
  (ALIGN_DOWN (page + PAGE_SIZE - SIZEOF_KMEM_SLAB) PAGE_SIZE, cp.slab_size / PAGE_SIZE)

theorem freedPages_eq (hcreate : kmem_cache_create size align = some cp)
    (hsize : size.toNat ≤ SMALL_SLAB_SIZE) (hpage : PAGE_SIZE ∣ page) :
    freedPages cp page = (page, 1) := by
  have hslab := (kmem_cache_create_size hcreate).2.2.2 hsize
  obtain ⟨k, rfl⟩ := hpage
  have hdiv : (PAGE_SIZE * k + PAGE_SIZE - SIZEOF_KMEM_SLAB) / PAGE_SIZE = k := by
    simp only [PAGE_SIZE, SIZEOF_KMEM_SLAB]
    omega
  rw [freedPages, hslab, ALIGN_DOWN, hdiv, Nat.mul_comm, Nat.div_self (by decide)]

/-- What a free in the slab layer does: it finds the slab of the buffer, and
the last one gives the page back. -/
theorem Ok.free_finds (h : Ok cp s.cache fl q) (hfit : cp.Fits) (htame : hooks.Tame cp)
    (ht : s.cache.pc t = .freeSlab ptr) :
    ∃ p ∈ s.cache.slabs.pages, ptr ∈ buffers cp s.cache.slabs p ∧ ALIGN_DOWN ptr PAGE_SIZE = p ∧
      ∃ s' q', Objects.step cp hooks s (.base (.run t)) = some s' ∧
        Represents s'.cache.slabs.links q' ∧ (∀ k, ∀ x ∈ q' k, x ∈ s'.cache.slabs.pages) ∧
        s'.cache.slabs.pages =
          if s.cache.slabs.refcount p = 1 then s.cache.slabs.pages.erase p
          else s.cache.slabs.pages := by
  have hat : At s.cache fl ptr (.freeing t) := by rw [At, ht]; rfl
  obtain ⟨p, hp, hb⟩ := h.part.sound ptr _ hat
  have hpage := h.slabs.page p hp
  have halign := hpage.align_down hfit hb
  have hnot : ptr ∉ fl p := by
    intro hin
    have hsame := h.part.unique ptr (.freelist p) _ ⟨hp, hin⟩ hat
    cases hsame
  have hpos := hpage.refcount_pos hb hnot
  have hcount := hpage.count
  have hcap := capacity_lt cp (s.cache.slabs.colorOf p)
  obtain ⟨fl', q', hok⟩ := (h.destruct hfit htame ht).freeSlab hfit ht
  refine ⟨p, hp, hb, halign,
    { s with
      cache := (s.cache.setSlabs ((s.destruct hooks ptr).freeBuf cp ptr)).goto t .idle
      constructed :=
        if hooks.destructor.isSome then s.constructed.erase ptr else s.constructed },
    q', ?_, hok.slabs.links, hok.slabs.listed, ?_⟩
  · simp only [Objects.step, Objects.runSlab, ht, Pc.inSlabLayer, if_true, Objects.freeBuf,
      hfit.small]
  · show ((s.destruct hooks ptr).freeBuf cp ptr).pages = _
    have hdec : ((s.destruct hooks ptr).putBuf cp p ptr).refcount p =
        (s.cache.slabs.refcount p + W - 1) % W := update_self _ _ _
    have hone : (s.cache.slabs.refcount p + W - 1) % W = 0 ↔ s.cache.slabs.refcount p = 1 := by
      have heq : s.cache.slabs.refcount p + W - 1 = s.cache.slabs.refcount p - 1 + W := by omega
      rw [heq, Nat.add_mod_right, Nat.mod_eq_of_lt (by omega)]
      omega
    simp only [Slabs.freeBuf, halign, hdec, hone]
    split
    · rfl
    · rfl

/-- **The slab layer of small objects**, for chunks that hold a pointer and
with or without magazines. A live slab is in use, its count and its
freelist add up to the chunks of the page, and the freelist says which
list it is in. A free finds the slab of the buffer; the last one takes the
slab off the lists and returns its one page. -/
theorem small_slab_invariant {size align : UInt64}
    (hcreate : kmem_cache_create size align = some cp) (hsize : size.toNat ≤ SMALL_SLAB_SIZE)
    (hchunk : 8 ≤ cp.chunk_size) (hnone : hooks.constructor = none)
    (hinside : hooks.destructor.Inside cp) (hs : Reachable (Objects.system cp hooks) s) :
    ∃ q, Represents s.cache.slabs.links q ∧
      (∀ p ∈ s.cache.slabs.pages, (∀ t, (s.cache.pc t).slab ≠ some p) →
        LiveSlab cp s.cache.slabs q p) ∧
      ∀ t ptr, s.cache.pc t = .freeSlab ptr →
        ∃ p ∈ s.cache.slabs.pages, ptr ∈ buffers cp s.cache.slabs p ∧ ALIGN_DOWN ptr PAGE_SIZE = p ∧
          ∃ s' q', Objects.step cp hooks s (.base (.run t)) = some s' ∧
            Represents s'.cache.slabs.links q' ∧
            (s.cache.slabs.refcount p ≠ 1 → s'.cache.slabs.pages = s.cache.slabs.pages) ∧
            (s.cache.slabs.refcount p = 1 → (∀ k, p ∉ q' k) ∧
              s'.cache.slabs.pages = s.cache.slabs.pages.erase p ∧ freedPages cp p = (p, 1)) := by
  have hfit := kmem_cache_create_fits hcreate hsize hchunk
  have htame : hooks.Tame cp :=
    ⟨by rw [hnone]; exact Hook.inside_none cp, by rw [hnone]; exact Hook.keepsLink_none cp, hinside⟩
  obtain ⟨⟨fl, q, h⟩, hused⟩ := Objects.small_of_reachable hfit htame hs
  refine ⟨q, h.slabs.links, fun p hp hlive => h.liveSlab hused hp hlive, fun t ptr ht => ?_⟩
  obtain ⟨p, hp, hb, halign, s', q', hstep, hlinks, hlisted, hpages⟩ := h.free_finds hfit htame ht
  refine ⟨p, hp, hb, halign, s', q', hstep, hlinks, fun hne => ?_, fun hone => ?_⟩
  · rw [hpages, if_neg hne]
  · rw [if_pos hone] at hpages
    refine ⟨fun k hk => ?_, hpages, freedPages_eq hcreate hsize (h.slabs.page p hp).aligned⟩
    have hin := hlisted k p hk
    rw [hpages] at hin
    exact absurd rfl (Finset.mem_erase.mp hin).1

/-- A cache that has not been used, before `kmem_init`. -/
def disabled : Objects Unit Unit where
  cache := { initial with magazines_enabled := false }
  large :=
    { bufctl := fun _ => ⟨0, 0, 0⟩
      bufmap := fun _ => none
      bufctls := ∅
      regions := ∅
      keyOf := fun _ => 0 }
  constructed := ∅

theorem init_disabled : Objects.Init disabled where
  cache := { init_initial with }
  refcount := fun _ => rfl
  bufmap := fun _ => rfl
  bufctls := rfl
  regions := rfl
  constructed := rfl

theorem small_slab_invariant_allocated : ∃ s : Objects Unit Unit,
    Reachable (Objects.system generic512 ⟨none, none⟩) s ∧
      ∃ q, Represents s.cache.slabs.links q ∧ LiveSlab generic512 s.cache.slabs q 4096 := by
  obtain ⟨s, hexec, hpages, hidle⟩ : ∃ s, exec (Objects.system generic512 ⟨none, none⟩) disabled
      [.base (.kmem_cache_alloc () ()), .base (.run ()), .base (.slab_create () 4096),
        .base (.run ())] = some s ∧ s.cache.slabs.pages = {4096} ∧ s.cache.pc () = .idle := by
    decide +kernel
  have hreach := Reachable.of_exec init_disabled hexec
  obtain ⟨q, hlinks, hlive, -⟩ := small_slab_invariant
    (show kmem_cache_create 512 0 = some generic512 by decide +kernel) (by decide) (by decide) rfl
    (Hook.inside_none _) hreach
  refine ⟨s, hreach, q, hlinks, hlive 4096 (by simp [hpages]) fun t => ?_⟩
  rw [hidle]
  exact fun h => by cases h

/-- A cache with chunks of four bytes: after the first allocation one buffer is
in use and two are on the freelist, of 1016 in the page. -/
theorem tiny_slab_miscounted : kmem_cache_create 4 4 = some tiny ∧
    ∃ s : Objects Unit Unit, Reachable (Objects.system tiny ⟨none, none⟩) s ∧
      s.cache.magazines_enabled = false ∧ s.cache.pc () = .idle ∧ 65536 ∈ s.cache.slabs.pages ∧
      ∀ l, Chain s.cache.slabs.mem (s.cache.slabs.buflist 65536) l →
        s.cache.slabs.refcount 65536 + l.length ≠ (buffers tiny s.cache.slabs 65536).length := by
  refine ⟨by decide +kernel, ?_⟩
  obtain ⟨s, hexec, hslabs, hpc, hoff⟩ : ∃ s : Objects Unit Unit,
      exec (Objects.system tiny ⟨none, none⟩) disabled
        [.base (.kmem_cache_alloc () ()), .base (.run ())] = some s ∧
        s.cache.slabs = initial.slabs ∧ s.cache.pc () = .allocCreate ∧
        s.cache.magazines_enabled = false := ⟨_, rfl, rfl, rfl, rfl⟩
  have hfresh : Fresh s.cache.slabs 65536 := by
    have hW := W_eq
    rw [hslabs]
    exact ⟨by decide, by decide, by rw [hW]; decide, by simp [initial]⟩
  have hcreate : Objects.step tiny ⟨none, none⟩ s (.base (.slab_create () 65536)) =
      some (s.slab_create_small tiny ⟨none, none⟩ () 65536) :=
    if_pos ⟨hpc, by decide, hfresh⟩
  have hreach : Reachable (Objects.system tiny ⟨none, none⟩)
      (s.slab_create_small tiny ⟨none, none⟩ () 65536) :=
    .step (.base (.slab_create () 65536)) (Reachable.of_exec init_disabled hexec) trivial hcreate
  have hslabs' : (s.slab_create_small tiny ⟨none, none⟩ () 65536).cache.slabs =
      initial.slabs.slab_create_small tiny 65536 := by
    rw [← Slabs.slab_create_constructed_none, ← hslabs]
    rfl
  have hpc' : (s.slab_create_small tiny ⟨none, none⟩ () 65536).cache.pc () =
      .allocInsert 65536 := rfl
  have hoff' : (s.slab_create_small tiny ⟨none, none⟩ () 65536).cache.magazines_enabled = false :=
    hoff
  generalize s.slab_create_small tiny ⟨none, none⟩ () 65536 = s₁ at hreach hslabs' hpc' hoff'
  have hinsert : Objects.step tiny ⟨none, none⟩ s₁ (.base (.run ())) =
      s₁.allocBuf tiny () { s₁.cache.slabs with
        links := s₁.cache.slabs.links.insertTail .slabs 65536 } 65536 := by
    simp only [Objects.step, Objects.runSlab, hpc', Pc.inSlabLayer, if_true]
  rw [Objects.allocBuf, if_pos (by decide), Slab.allocBuf, Slabs.takeBuf, hslabs',
    if_neg (by rw [tiny_buflist]; decide)] at hinsert
  refine ⟨_, .step (.base (.run ())) hreach trivial hinsert, hoff', rfl, ?_, ?_⟩
  · exact Finset.mem_insert_self _ _
  · intro l hl
    simp only [State.give, State.setSlabs, Slabs.popBuf, Slabs.unlink, update_self, tiny_buflist,
      tiny_first] at hl ⊢
    obtain ⟨l₁, rfl, hl₁⟩ := hl.pop (by decide)
    rw [tiny_second] at hl₁
    obtain ⟨l₂, rfl, hl₂⟩ := hl₁.pop (by decide)
    rw [tiny_stray] at hl₂
    rw [hl₂.eq_nil_iff.mp rfl, buffers, length_bufs]
    decide +kernel

end Slab
