import Dufay.Slab.RoundTrip

/-! # Pages of a cache that is not in use

When no buffer of a cache of small objects is outstanding or in a
magazine, the cache has no page. The runs of pages of large objects are
never returned: `slab_destroy` frees the `bufctl`s and the header.
-/

open Lts Tailq Memory Placement Size
open Pmm (PAGE_SIZE)

namespace Slab

open Objects

variable {ι τ : Type*} [DecidableEq ι] [DecidableEq τ]
variable {cp : Cache} {hooks : Hooks} {s s' : Objects ι τ}
variable {fl : Nat → List Nat} {q : SlabList → List Nat}

/-- No buffer is outstanding, and none is in a magazine. -/
structure Quiet (c : State ι τ) : Prop where
  idle : ∀ t, c.pc t = .idle
  held : c.held = ∅
  filled : ∀ mag ∈ c.magazines.known, c.magazines.filled mag = 0

/-- The cache has no slab, no run of pages and no `bufctl`. -/
structure Objects.Conserved (s : Objects ι τ) : Prop where
  pages : s.cache.slabs.pages = ∅
  regions : s.large.regions = ∅
  bufctls : s.large.bufctls = ∅

def Objects.Action.createsLarge : Action ι τ → Bool
  | .slab_create_large _ _ _ _ => true
  | .base _ => false

omit [DecidableEq ι] [DecidableEq τ] in
theorem Ok.no_pages (h : Ok cp s.cache fl q) (hfit : cp.Fits) (hused : Used s.cache)
    (hquiet : Quiet s.cache) : s.cache.slabs.pages = ∅ := by
  rw [Finset.eq_empty_iff_forall_notMem]
  intro p hp
  have hpage := h.slabs.page p hp
  have hfree : ∀ b ∈ buffers cp s.cache.slabs p, b ∈ fl p := by
    intro b hb
    obtain ⟨a, ha⟩ := h.part.total b ⟨p, hp, hb⟩
    cases a with
    | held =>
      rw [At, hquiet.held] at ha
      cases ha
    | freeing t =>
      rw [At, hquiet.idle] at ha
      cases ha
    | round mag i =>
      have hzero : s.cache.magazines.filled mag = 0 := by
        by_cases hknown : mag ∈ s.cache.magazines.known
        · exact hquiet.filled mag hknown
        · exact h.mag.unknown mag hknown
      rw [At, hzero] at ha
      cases ha.1
    | freelist p' =>
      rw [h.slabs.page_unique hfit hp ha.1 hb ((h.slabs.page p' ha.1).free b ha.2)]
      exact ha.2
  -- all its buffers are free, so it is not in use
  have hlen : (buffers cp s.cache.slabs p).length ≤ (fl p).length :=
    (List.subperm_of_subset (bufs_nodup hfit.pos _ _) hfree).length_le
  have hcount := hpage.count
  rw [buffers, length_bufs] at hlen
  obtain ⟨t, ht⟩ := hused p hp (by omega)
  rw [hquiet.idle] at ht
  cases ht

/-! ### Large objects -/

omit [DecidableEq ι] in
theorem Objects.allocBuf_large (h : s.allocBuf cp t sl slab = some s') :
    s'.large.regions = s.large.regions ∧ s'.large.bufctls = s.large.bufctls := by
  rw [allocBuf] at h
  split at h
  · obtain ⟨c, -, rfl⟩ := Option.map_eq_some_iff.mp h
    exact ⟨rfl, rfl⟩
  · obtain ⟨taken, htake, rfl⟩ := Option.map_eq_some_iff.mp h
    rw [takeLarge] at htake
    split at htake
    · cases htake
    · cases htake
      exact ⟨rfl, rfl⟩

theorem freeLarge_regions
    (h : freeLarge sl lg ptr = some (sl', lg')) : lg'.regions = lg.regions := by
  rw [freeLarge] at h
  split at h
  · cases h
    rfl
  · simp only at h
    split at h
    · obtain ⟨freed, -, heq⟩ := Option.map_eq_some_iff.mp h
      cases heq
      rfl
    · cases h
      rfl

omit [DecidableEq ι] in
theorem Objects.freeBuf_regions (h : s.freeBuf cp hooks t ptr = some s') :
    s'.large.regions = s.large.regions := by
  simp only [freeBuf] at h
  split at h
  · cases h
    rfl
  · obtain ⟨freed, hfree, rfl⟩ := Option.map_eq_some_iff.mp h
    exact freeLarge_regions hfree

theorem Objects.Moves.regions (h : Moves cp hooks s a s') :
    s'.large.regions = ∅ ↔ s.large.regions = ∅ ∧ a.createsLarge = false := by
  have hkept : s'.large.regions = s.large.regions → a.createsLarge = false →
      (s'.large.regions = ∅ ↔ s.large.regions = ∅ ∧ a.createsLarge = false) := by
    intro hsame hno
    rw [hsame, hno, and_iff_left rfl]
  cases h with
  | createLarge t region slab bufctls =>
    refine iff_of_false (Finset.insert_ne_empty _ _) ?_
    rintro ⟨-, hno⟩
    cases hno
  | take t sl slab _ _ hstep => exact hkept (allocBuf_large hstep).1 rfl
  | free t ptr _ _ hstep => exact hkept (freeBuf_regions hstep) rfl
  | magazine | store | createSmall | empty => exact hkept rfl rfl

theorem Objects.regions_of_exec : ∀ {s : Objects ι τ}, exec (system cp hooks) s as = some s' →
      (s'.large.regions = ∅ ↔ s.large.regions = ∅ ∧ ∀ a ∈ as, a.createsLarge = false) := by
  induction as with
  | nil =>
    intro s h
    cases h
    simp
  | cons a as ih =>
    intro s h
    simp only [exec, execBy, if_true] at h
    split at h
    · next s₁ hstep =>
      rw [ih h, (moves_of_step hstep).regions, List.forall_mem_cons, and_assoc]
    · cases h

/-- A cache that has not created a slab of large objects has none. -/
def Objects.Unused (cp : Cache) (s : Objects ι τ) : Prop :=
  s.large.regions = ∅ → s.large.bufctls = ∅ ∧ (¬ cp.object_size ≤ SMALL_SLAB_SIZE →
    s.cache.slabs.pages = ∅ ∧ ∃ l q, LargeInv cp s l q fun _ => False)

theorem Objects.Unused.moves (h : s.Unused cp) (hM : cp.magtype.rounds < W)
    (hmove : Moves cp hooks s a s') : s'.Unused cp := by
  intro hregions
  obtain ⟨hregions, hno⟩ := hmove.regions.mp hregions
  obtain ⟨hbufctls, hlarge⟩ := h hregions
  cases hmove with
  | createLarge t region slab bufctls => cases hno
  | magazine a c hlayer hstep =>
    refine ⟨hbufctls, fun hl => ?_⟩
    obtain ⟨hpages, l, q, hinv⟩ := hlarge hl
    refine ⟨?_, l, q, hinv.magazine hM hlayer hstep⟩
    show c.slabs.pages = ∅
    rw [(hinv.core.step hM hlayer hstep).2.slabs, hpages]
  | store ptr i v hheld hi =>
    refine ⟨hbufctls, fun hl => ?_⟩
    obtain ⟨hpages, l, q, hinv⟩ := hlarge hl
    exact ⟨hpages, l, q, hinv.setMem _⟩
  | createSmall t page hpc hsmall hfresh => exact ⟨hbufctls, fun hl => absurd hsmall hl⟩
  | empty t hpc hfirst =>
    refine ⟨hbufctls, fun hl => ?_⟩
    obtain ⟨hpages, l, q, hinv⟩ := hlarge hl
    exact ⟨hpages, l, q, hinv.empty hpc⟩
  | take t sl slab _ hfrom hstep =>
    refine ⟨(allocBuf_large hstep).2.trans hbufctls, fun hl => ?_⟩
    obtain ⟨hpages, l, q, hinv⟩ := hlarge hl
    obtain ⟨-, -, -, -, -, hmem, -⟩ := hinv.alloc hl hfrom hstep
    rw [hpages] at hmem
    cases hmem
  | free t ptr _ hpc hstep =>
    by_cases hl : cp.object_size ≤ SMALL_SLAB_SIZE
    · simp only [freeBuf, hl, if_true] at hstep
      cases hstep
      exact ⟨hbufctls, fun hnot => absurd hl hnot⟩
    · obtain ⟨-, l, q, hinv⟩ := hlarge hl
      exact (hinv.core.part.sound ptr (.freeing t) (by rw [At, hpc]; rfl)).elim

theorem Objects.unused_of_reachable (hM : cp.magtype.rounds < W)
    (hs : Reachable (system cp hooks) s) : s.Unused cp := by
  refine ReachableBy.invariant ?_ ?_ hs
  · intro s hinit _
    exact ⟨hinit.bufctls, fun _ => ⟨hinit.cache.pages, _, _, LargeInv.init hinit fun _ => id⟩⟩
  · intro s a s' h _ hstep
    exact h.moves hM (moves_of_step hstep)

/-- **Conservation of pages.** When no buffer of a cache is outstanding or in
a magazine, everything that was taken for its slabs has been given back,
unless a slab of large objects was ever created. The chunks of a cache of
small objects have to hold a pointer, and its constructor and destructor
to leave the slab alone. -/
theorem pages_conserved_iff {size align : UInt64} (hcreate : kmem_cache_create size align = some cp)
    (hsmall : size.toNat ≤ SMALL_SLAB_SIZE → 8 ≤ cp.chunk_size ∧ hooks.Tame cp)
    {s₀ : Objects ι τ} {as : List (Objects.Action ι τ)} (hinit : s₀.Init)
    (hrun : exec (Objects.system cp hooks) s₀ as = some s) (hquiet : Quiet s.cache) :
    s.Conserved ↔ ∀ a ∈ as, a.createsLarge = false := by
  obtain ⟨hobject, -, hM, -⟩ := kmem_cache_create_size hcreate
  have hreach : Reachable (Objects.system cp hooks) s := .of_exec hinit hrun
  have hregions := Objects.regions_of_exec hrun
  rw [and_iff_right hinit.regions] at hregions
  rw [← hregions]
  refine ⟨fun h => h.regions, fun hnone => ?_⟩
  obtain ⟨hbufctls, hlarge⟩ := Objects.unused_of_reachable hM hreach hnone
  refine ⟨?_, hnone, hbufctls⟩
  by_cases hsize : cp.object_size ≤ SMALL_SLAB_SIZE
  · rw [hobject] at hsize
    obtain ⟨hchunk, htame⟩ := hsmall hsize
    have hfit := kmem_cache_create_fits hcreate hsize hchunk
    obtain ⟨⟨fl, q, h⟩, hused⟩ := Objects.small_of_reachable hfit htame hreach
    exact h.no_pages hfit hused hquiet
  · exact (hlarge hsize).1

theorem Quiet.of_eq (hpc : c.pc () = .idle) (hheld : c.held = ∅)
    (hknown : c.magazines.known = ∅) : Quiet c :=
  ⟨fun _ => hpc, hheld, fun mag hmag => by rw [hknown] at hmag; cases hmag⟩

/-- A buffer of 512 bytes is allocated and freed, before `kmem_init`. -/
def smallRun : List (Objects.Action Unit Unit) :=
  [.base (.kmem_cache_alloc () ()), .base (.run ()), .base (.slab_create () 4096), .base (.run ()),
    .base (.kmem_cache_free () () 7176), .base (.run ())]

theorem pages_conserved_iff_small : ∃ s : Objects Unit Unit,
    exec (Objects.system generic512 ⟨none, none⟩) disabled smallRun = some s ∧
      Quiet s.cache ∧ s.Conserved := by
  refine run_imp (fun s => s.cache.pc () = .idle ∧ s.cache.held = ∅ ∧ s.cache.magazines.known = ∅)
    (by decide +kernel) fun s hexec ⟨hidle, hheld, hknown⟩ => ?_
  have hquiet := Quiet.of_eq hidle hheld hknown
  refine ⟨hquiet, ?_⟩
  rw [pages_conserved_iff (show kmem_cache_create 512 0 = some generic512 by decide +kernel)
    (fun _ => ⟨by decide, Hook.inside_none _, Hook.keepsLink_none _, Hook.inside_none _⟩)
    init_disabled hexec hquiet]
  decide

/-- A buffer of 1024 bytes is allocated and freed, before `kmem_init`: its run
of pages is not returned. -/
theorem large_pages_lost : kmem_cache_create 1024 0 = some generic1024 ∧
    Objects.Init disabled ∧ ∃ s : Objects Unit Unit,
      exec (Objects.system generic1024 ⟨none, none⟩) disabled
        (firstAlloc ++ [.base (.kmem_cache_free () () 80896), .base (.run ())]) = some s ∧
      Quiet s.cache ∧ s.large.regions = {65536} := by
  refine ⟨by decide +kernel, init_disabled, run_imp (fun s => s.cache.pc () = .idle ∧
      s.cache.held = ∅ ∧ s.cache.magazines.known = ∅ ∧ s.large.regions = {65536})
    (by decide +kernel) fun s _ ⟨hidle, hheld, hknown, hregions⟩ => ?_⟩
  exact ⟨.of_eq hidle hheld hknown, hregions⟩

end Slab
