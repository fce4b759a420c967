import Dufay.Slab.LargeObjects

/-! # A large object comes back to its slab

`bufmap` is keyed by what the first eight bytes of a buffer hold when it
is handed out. While no two outstanding buffers have the same key, and
the key is the same again when the buffer is freed (`KeysKept`), a free
finds the `bufctl` of its buffer.
-/

open Lts Tailq Memory Placement Size Function
open Pmm (PAGE_SIZE)

namespace Slab

open Objects

variable {ι τ : Type*} [DecidableEq ι] [DecidableEq τ]
variable {cp : Cache} {hooks : Hooks} {s s' : Objects ι τ}
variable {l : Nat → List Nat} {q : SlabList → List Nat}

namespace Objects

/-- A cache before `kmem_init`. -/
def earlySystem (cp : Cache) (hooks : Hooks) : System (Objects ι τ) (Action ι τ) where
  init := fun s => s.Init ∧ s.cache.magazines_enabled = false
  step := step cp hooks

/-- The key of a buffer that is handed out is not in use, and it is the key
of the buffer when it is freed. -/
def KeysKept (cp : Cache) (hooks : Hooks) (s : Objects ι τ) : Action ι τ → Prop
  | .base .kmem_init => False
  | .base (.run t) =>
    match s.cache.pc t with
    | .freeSlab ptr => s.freeKey hooks ptr = s.large.keyOf ptr
    | _ => ∀ b ∈ s.returned cp (.base (.run t)), s.large.bufmap (read64 s.cache.slabs.mem b) = none
  | _ => True

instance decidableKeysKept (cp : Cache) (hooks : Hooks) (s : Objects ι τ) (a : Action ι τ) :
    Decidable (KeysKept cp hooks s a) := by
  unfold KeysKept
  split
  · infer_instance
  · split <;> infer_instance
  · infer_instance

end Objects

/-- Every call goes straight to the slab layer. -/
structure NoMagazines (c : State ι τ) : Prop where
  disabled : c.magazines_enabled = false
  filled : ∀ mag, c.magazines.filled mag = 0
  pc : ∀ t, c.pc t = .idle ∨ (c.pc t).inSlabLayer

omit [DecidableEq ι] in
theorem NoMagazines.goto {c' : State ι τ} (h : NoMagazines c)
    (hpc : c'.pc = update c.pc t pc') (hpc' : pc' = .idle ∨ pc'.inSlabLayer)
    (henabled : c'.magazines_enabled = c.magazines_enabled)
    (hfilled : c'.magazines.filled = c.magazines.filled) : NoMagazines c' := by
  refine ⟨henabled.trans h.disabled, fun mag => by rw [hfilled, h.filled], fun t' => ?_⟩
  rw [hpc]
  by_cases ht : t' = t
  · rwa [ht, update_self]
  · rw [update_of_ne ht]
    exact h.pc t'

theorem NoMagazines.magazine (h : NoMagazines c) {a : Action ι τ}
    (hlayer : a.inSlabLayer c = false) (hinit : a ≠ .kmem_init) (hstep : step cp c a = some c') :
    NoMagazines c' := by
  cases a with
  | slab_create t page | store ptr i v => cases hlayer
  | kmem_init => exact absurd rfl hinit
  | run t =>
    rcases h.pc t with hpc | hpc
    · simp only [step, run, hpc] at hstep
      cases hstep
    · exact absurd hpc (ne_true_of_eq_false hlayer)
  | kmem_cache_alloc t k =>
    simp only [step, h.disabled] at hstep
    split at hstep
    · cases hstep
      exact h.goto rfl (.inr rfl) rfl rfl
    · cases hstep
  | kmem_cache_free t k ptr =>
    simp only [step, h.disabled] at hstep
    split at hstep
    · split at hstep
      · cases hstep
        exact h.goto rfl (.inr rfl) h.disabled.symm rfl
      · cases hstep
    · cases hstep
  | new_mag t mag =>
    simp only [step] at hstep
    split at hstep
    · next k ptr hpc =>
      have hidle := h.pc t
      rw [hpc] at hidle
      rcases hidle with hidle | hidle <;> cases hidle
    · cases hstep

/-- The buffer of a `bufctl` that is not free is found. -/
structure Keyed (cp : Cache) (s : Objects ι τ) (l : Nat → List Nat) (q : SlabList → List Nat) :
    Prop where
  inv : LargeInv cp s l q (fun b => ∃ c ∈ s.large.bufctls, (s.large.bufctl c).buffer = b)
  keyed : ∀ c ∈ s.large.bufctls, c ∉ l (s.large.bufctl c).slab →
    s.large.bufmap (s.large.keyOf (s.large.bufctl c).buffer) = some c
  direct : NoMagazines s.cache

/-! ### Steps -/

section

variable (h : Keyed cp s l q)

include h

omit [DecidableEq ι] in
theorem Keyed.create (hchunk : 0 < cp.chunk_size) (hpc : s.cache.pc t = .allocCreate)
    (hfresh : FreshLarge cp s.cache.slabs s.large region slab bufctls) :
    Keyed cp (s.slab_create_large cp hooks t region slab bufctls) (update l slab bufctls) q := by
  obtain ⟨hinv, hnew, hold⟩ := h.inv.create hooks hchunk hpc hfresh
  have hmem : ∀ c, c ∈ s.large.bufctls ∪ bufctls.toFinset ↔ c ∈ s.large.bufctls ∨ c ∈ bufctls := by
    simp
  refine ⟨hinv.congr fun b => ?_, fun c hc hfree => ?_, h.direct.goto rfl (.inr rfl) rfl rfl⟩
  · rw [← hnew, List.mem_map]
    constructor
    · rintro ⟨c, hc, heq⟩
      rcases (hmem c).mp hc with hc | hc
      · exact .inl ⟨c, hc, hold c hc ▸ heq⟩
      · exact .inr ⟨c, hc, heq⟩
    · rintro (⟨c, hc, heq⟩ | ⟨c, hc, heq⟩)
      · exact ⟨c, (hmem c).mpr (.inl hc), by rw [hold c hc]; exact heq⟩
      · exact ⟨c, (hmem c).mpr (.inr hc), heq⟩
  · rcases (hmem c).mp hc with hc | hc
    · rw [hold c hc] at hfree ⊢
      have hne : (s.large.bufctl c).slab ≠ slab := by
        intro heq
        exact hfresh.slab (heq ▸ (h.inv.slabs.live c hc).2)
      rw [update_of_ne hne] at hfree
      exact h.keyed c hc hfree
    · -- the new `bufctl`s are free
      have hof := (hinv.slabs.slab slab (Finset.mem_insert_self _ _)).free c
        (by rw [update_self]; exact hc)
      rw [(Large.mem_of.mp hof).2, update_self] at hfree
      exact absurd hc hfree

omit [DecidableEq ι] in
theorem Keyed.alloc (hlarge : ¬ cp.object_size ≤ SMALL_SLAB_SIZE)
    {sl : Slabs} (hfrom : s.TakesFrom t sl slab) (hkey : s.large.bufmap (read64 s.cache.slabs.mem
      (s.large.bufctl (s.cache.slabs.buflist slab)).buffer) = none)
    (hstep : s.allocBuf cp t sl slab = some s') : ∃ l' q', Keyed cp s' l' q' := by
  obtain ⟨c, rest, q', hl, hc, -, hhead, hlg, -, hinv⟩ := h.inv.alloc hlarge hfrom hstep
  rw [hhead] at hkey
  obtain ⟨hc, hslab⟩ := Large.mem_of.mp hc
  have hdirect : NoMagazines s'.cache := by
    rw [Objects.allocBuf, if_neg hlarge] at hstep
    obtain ⟨taken, -, rfl⟩ := Option.map_eq_some_iff.mp hstep
    exact h.direct.goto rfl (.inl rfl) rfl rfl
  refine ⟨update l slab rest, q', ?_, ?_, hdirect⟩
  · rw [hlg]
    exact hinv
  · rw [hlg]
    intro d hd hfree
    show update s.large.bufmap _ _ (update s.large.keyOf _ _ _) = some d
    by_cases hdc : d = c
    · rw [hdc, update_self, update_self]
    · have hne : (s.large.bufctl d).buffer ≠ (s.large.bufctl c).buffer :=
        fun heq => hdc (h.inv.slabs.inj d hd c hc heq)
      have hkeyed := h.keyed d hd fun hin => hfree ?_
      · rw [update_of_ne hne, update_of_ne]
        · exact hkeyed
        · intro heq
          rw [heq, hkey] at hkeyed
          cases hkeyed
      · by_cases hp : (s.large.bufctl d).slab = slab
        · rw [hp, hl] at hin
          show d ∈ update l slab rest (s.large.bufctl d).slab
          rw [hp, update_self]
          exact (List.mem_cons.mp hin).resolve_left hdc
        · show d ∈ update l slab rest (s.large.bufctl d).slab
          rwa [update_of_ne hp]

omit [DecidableEq ι] [DecidableEq τ] in
theorem Keyed.outstanding_iff (hc : c ∈ s.large.bufctls) :
    Outstanding s.cache (s.large.bufctl c).buffer ↔ c ∉ l (s.large.bufctl c).slab := by
  have hslab := (h.inv.slabs.live c hc).2
  constructor
  · intro hout hin
    have hat : At s.cache (s.large.buffers l) (s.large.bufctl c).buffer
        (.freelist (s.large.bufctl c).slab) := ⟨hslab, List.mem_map_of_mem hin⟩
    rcases hout with hheld | ⟨t, ht⟩
    · have hsame := h.inv.core.part.unique _ .held _ hheld hat
      cases hsame
    · have hsame := h.inv.core.part.unique _ (.freeing t) _ ht hat
      cases hsame
  · intro hfree
    obtain ⟨a, ha⟩ := h.inv.core.part.total (s.large.bufctl c).buffer ⟨c, hc, rfl⟩
    cases a with
    | held => exact .inl ha
    | freeing t => exact .inr ⟨t, ha⟩
    | round mag i =>
      have hfilled := ha.1
      rw [h.direct.filled] at hfilled
      cases hfilled
    | freelist p =>
      obtain ⟨d, hd, heq⟩ := List.mem_map.mp ha.2
      obtain ⟨hdlive, rfl⟩ := Large.mem_of.mp ((h.inv.slabs.slab p ha.1).free d hd)
      have hdc := h.inv.slabs.inj d hdlive c hc heq
      exact absurd (hdc ▸ hd) hfree

omit [DecidableEq ι] [DecidableEq τ] in
theorem Keyed.found (hpc : s.cache.pc t = .freeSlab ptr)
    (hkey : s.freeKey hooks ptr = s.large.keyOf ptr) :
    ∃ c ∈ s.large.bufctls, (s.large.bufctl c).buffer = ptr ∧
      s.large.bufmap (s.freeKey hooks ptr) = some c := by
  have hat : At s.cache (s.large.buffers l) ptr (.freeing t) := by rw [At, hpc]; rfl
  obtain ⟨c, hc, rfl⟩ := h.inv.core.part.sound ptr _ hat
  refine ⟨c, hc, rfl, ?_⟩
  rw [hkey]
  exact h.keyed c hc ((h.outstanding_iff hc).mp (.inr ⟨t, by rw [hpc]; rfl⟩))

omit [DecidableEq ι] in
theorem Keyed.free (hlarge : ¬ cp.object_size ≤ SMALL_SLAB_SIZE)
    {ptr : Nat} (hpc : s.cache.pc t = .freeSlab ptr) (hc : c ∈ s.large.bufctls)
    (hown : (s.large.bufctl c).buffer = ptr)
    (hmap : s.large.bufmap (s.freeKey hooks ptr) = some c) :
    ∃ s', s.freeBuf cp hooks t ptr = some s' ∧ (∃ l' q', Keyed cp s' l' q') ∧
      if s.cache.slabs.refcount (s.large.bufctl c).slab = 1 then
        s'.cache.slabs.pages = s.cache.slabs.pages.erase (s.large.bufctl c).slab ∧
          s'.large.bufctls = s.large.bufctls \ s.large.of (s.large.bufctl c).slab
      else
        s'.cache.slabs.buflist (s.large.bufctl c).slab = c ∧
          (s'.large.bufctl c).next = s.cache.slabs.buflist (s.large.bufctl c).slab ∧
          s'.cache.slabs.refcount (s.large.bufctl c).slab + 1 =
            s.cache.slabs.refcount (s.large.bufctl c).slab := by
  generalize hp : (s.large.bufctl c).slab = p
  -- the `bufctl`s that are still out are mapped by other keys
  have hkeyed : ∀ d ∈ s.large.bufctls,
      let lg := s.large.put (s.destruct hooks ptr) (s.freeKey hooks ptr) c
      d ∉ update l p (c :: l p) (lg.bufctl d).slab →
        lg.bufmap (lg.keyOf (lg.bufctl d).buffer) = some d := by
    intro d hd lg hfree
    rw [Large.put_slab] at hfree
    rw [Large.put_buffer]
    have hdc : d ≠ c := by
      rintro rfl
      rw [hp, update_self] at hfree
      exact hfree List.mem_cons_self
    have hd' := h.keyed d hd fun hin => hfree ?_
    · refine (update_of_ne ?_ _ _).trans hd'
      intro heq
      rw [show s.large.keyOf (s.large.bufctl d).buffer = s.freeKey hooks ptr from heq, hmap] at hd'
      cases hd'
      exact hdc rfl
    · by_cases hdp : (s.large.bufctl d).slab = p
      · rw [hdp] at hin ⊢
        rw [update_self]
        exact List.mem_cons_of_mem _ hin
      · rwa [update_of_ne hdp]
  have hdirect : ∀ sl lg, NoMagazines (s.freed hooks t ptr sl lg).cache :=
    fun _ _ => h.direct.goto rfl (.inl rfl) rfl rfl
  by_cases hone : s.cache.slabs.refcount p = 1
  · obtain ⟨hfree, hof, q', hinv⟩ := h.inv.free_last hlarge hpc hmap hp hone
    have hlive : ∀ d ∈ l p, d ∈ s.large.bufctls := by
      intro d hd
      have hdof : d ∈ s.large.of p := by
        rw [hof]
        exact Finset.mem_insert_of_mem (List.mem_toFinset.mpr hd)
      exact (Large.mem_of.mp hdof).1
    have hmem : ∀ d, d ∈ s.large.bufctls \ s.large.of p ↔
        d ∈ s.large.bufctls ∧ d ≠ c ∧ d ∉ l p := by
      intro d
      rw [hof, Finset.mem_sdiff, Finset.mem_insert, List.mem_toFinset, not_or]
    refine ⟨_, hfree, ⟨_, q', hinv.congr fun b => ?_, ?_, hdirect _ _⟩, ?_⟩
    · show (∃ d ∈ s.large.bufctls \ s.large.of p,
        ((s.large.put (s.destruct hooks ptr) (s.freeKey hooks ptr) c).bufctl d).buffer = b) ↔ _
      simp only [Large.put_buffer, hmem]
      constructor
      · rintro ⟨d, ⟨hd, hdc, hdl⟩, rfl⟩
        refine ⟨⟨⟨d, hd, rfl⟩, fun heq => hdc ?_⟩, fun hin => hdl ?_⟩
        · exact h.inv.slabs.inj d hd c hc (heq.trans hown.symm)
        · obtain ⟨e, he, heq⟩ := List.mem_map.mp hin
          rwa [← h.inv.slabs.inj e (hlive e he) d hd heq]
      · rintro ⟨⟨⟨d, hd, rfl⟩, hne⟩, hnot⟩
        refine ⟨d, ⟨hd, ?_, fun hin => hnot (List.mem_map_of_mem hin)⟩, rfl⟩
        rintro rfl
        exact hne hown
    · exact fun d hd => hkeyed d ((hmem d).mp hd).1
    · rw [if_pos hone]
      exact ⟨rfl, rfl⟩
  · obtain ⟨hfree, q', hinv⟩ := h.inv.free_put hlarge hpc hmap hp hown hone
    refine ⟨_, hfree, ⟨_, q', hinv.congr fun b => ?_, ?_, hdirect _ _⟩, ?_⟩
    · show (∃ d ∈ s.large.bufctls,
        ((s.large.put (s.destruct hooks ptr) (s.freeKey hooks ptr) c).bufctl d).buffer = b) ↔ _
      simp only [Large.put_buffer]
    · exact hkeyed
    · rw [if_neg hone]
      have hmem := hp ▸ (h.inv.slabs.live c hc).2
      have hnew : _ = (Large.of (Large.put _ _ _ _) p).card := (hinv.slabs.slab p hmem).count
      have hold := (h.inv.slabs.slab p hmem).count
      refine ⟨?_, ?_, ?_⟩
      · simp [freed, State.goto, State.setSlabs, Slabs.link]
      · simp [freed, Large.put, hp, destruct]
      · rw [Large.put_of, update_self, List.length_cons] at hnew
        omega

theorem Keyed.moves (hlarge : ¬ cp.object_size ≤ SMALL_SLAB_SIZE)
    (hchunk : 0 < cp.chunk_size) (hM : cp.magtype.rounds < W) {a : Objects.Action ι τ}
    (hkept : Objects.KeysKept cp hooks s a) (hmove : Objects.Moves cp hooks s a s') :
    ∃ l' q', Keyed cp s' l' q' := by
  cases hmove with
  | magazine a c hlayer hstep =>
    have hinit : a ≠ .kmem_init := by
      rintro rfl
      exact hkept
    exact ⟨l, q, h.inv.magazine hM hlayer hstep, h.keyed, h.direct.magazine hlayer hinit hstep⟩
  | store ptr i v hheld hi => exact ⟨l, q, h.inv.setMem _, h.keyed, { h.direct with }⟩
  | createSmall t page hpc hsmall hfresh => exact absurd hsmall hlarge
  | createLarge t region slab bufctls hpc _ hfresh => exact ⟨_, q, h.create hchunk hpc hfresh⟩
  | empty t hpc hfirst =>
    exact ⟨l, q, h.inv.empty hpc, h.keyed, h.direct.goto rfl (.inr rfl) rfl rfl⟩
  | take t sl slab _ hfrom hstep =>
    refine h.alloc hlarge hfrom ?_ hstep
    have hret := @Objects.TakesFrom.returned _ _ cp s t sl slab hfrom
    rw [Objects.firstBuf, if_neg hlarge] at hret
    rcases hfrom with ⟨hpc, -, -⟩ | ⟨hpc, -⟩
    all_goals
      simp only [Objects.KeysKept, hpc] at hkept
      exact hkept _ hret
  | free t ptr _ hpc hstep =>
    simp only [Objects.KeysKept, hpc] at hkept
    obtain ⟨c, hc, hown, hmap⟩ := h.found hpc hkept
    obtain ⟨s₁, hfree, hkeyed, -⟩ := h.free hlarge hpc hc hown hmap
    rw [hstep] at hfree
    cases hfree
    exact hkeyed

end

def Objects.KeyedOk (cp : Cache) (s : Objects ι τ) : Prop := ∃ l q, Keyed cp s l q

theorem Objects.keyed_of_reachable (hlarge : ¬ cp.object_size ≤ SMALL_SLAB_SIZE)
    (hchunk : 0 < cp.chunk_size) (hM : cp.magtype.rounds < W)
    (hs : ReachableBy (earlySystem cp hooks) (KeysKept cp hooks) s) :
    s.KeyedOk cp := by
  refine ReachableBy.invariant ?_ ?_ hs
  · rintro s ⟨hinit, hoff⟩
    have hnone : ∀ c, c ∉ s.large.bufctls := by simp [hinit.bufctls]
    exact ⟨_, _, LargeInv.init hinit fun b ⟨c, hc, _⟩ => hnone c hc,
      fun c hc => absurd hc (hnone c), hoff, hinit.cache.filled, fun t => .inl (hinit.cache.pc t)⟩
  · rintro s a s' ⟨l, q, h⟩ hkept hstep
    exact h.moves hlarge hchunk hM hkept (moves_of_step hstep)

omit [DecidableEq ι] [DecidableEq τ] in
theorem Keyed.refcount_eq (h : Keyed cp s l q) (hp : p ∈ s.cache.slabs.pages) :
    ∃ used : Finset Nat, used.card = s.cache.slabs.refcount p ∧
      ∀ c, c ∈ used ↔ c ∈ s.large.of p ∧ Outstanding s.cache (s.large.bufctl c).buffer := by
  have hslab := h.inv.slabs.slab p hp
  have hcount := hslab.count
  have hcard := List.toFinset_card_of_nodup hslab.nodup
  have hsub : (l p).toFinset ⊆ s.large.of p := fun c hc => hslab.free c (List.mem_toFinset.mp hc)
  refine ⟨s.large.of p \ (l p).toFinset, ?_, fun c => ?_⟩
  · rw [Finset.card_sdiff_of_subset hsub]
    omega
  · rw [Finset.mem_sdiff, List.mem_toFinset]
    refine and_congr_right fun hc => ?_
    obtain ⟨hlive, heq⟩ := Large.mem_of.mp hc
    rw [h.outstanding_iff hlive, heq]

/-- **Round trip of large objects.** With keys that are kept, the references
of a slab are its outstanding buffers, no buffer is handed out twice, and
a free puts the `bufctl` of its buffer back on the slab of the buffer. The
last one destroys the slab. -/
theorem large_round_trip {size align : UInt64} (hcreate : kmem_cache_create size align = some cp)
    (hsize : SMALL_SLAB_SIZE < size.toNat)
    (hs : ReachableBy (Objects.earlySystem cp hooks) (Objects.KeysKept cp hooks) s) :
    (∀ p ∈ s.cache.slabs.pages, ∃ used : Finset Nat, used.card = s.cache.slabs.refcount p ∧
      ∀ c, c ∈ used ↔ c ∈ s.large.of p ∧ Outstanding s.cache (s.large.bufctl c).buffer) ∧
    (∀ a s' b, Objects.step cp hooks s a = some s' → s.returned cp a = some b →
      ¬ Outstanding s.cache b) ∧
    ∀ t ptr, s.cache.pc t = .freeSlab ptr → Objects.KeysKept cp hooks s (.base (.run t)) →
      ∃ c ∈ s.large.bufctls, (s.large.bufctl c).buffer = ptr ∧
        ∃ s', Objects.step cp hooks s (.base (.run t)) = some s' ∧
          if s.cache.slabs.refcount (s.large.bufctl c).slab = 1 then
            s'.cache.slabs.pages = s.cache.slabs.pages.erase (s.large.bufctl c).slab ∧
              s'.large.bufctls = s.large.bufctls \ s.large.of (s.large.bufctl c).slab
          else
            s'.cache.slabs.buflist (s.large.bufctl c).slab = c ∧
              (s'.large.bufctl c).next = s.cache.slabs.buflist (s.large.bufctl c).slab ∧
              s'.cache.slabs.refcount (s.large.bufctl c).slab + 1 =
                s.cache.slabs.refcount (s.large.bufctl c).slab := by
  obtain ⟨hobject, hchunk, hM, -⟩ := kmem_cache_create_size hcreate
  have hlarge : ¬ cp.object_size ≤ SMALL_SLAB_SIZE := by omega
  obtain ⟨l, q, h⟩ := Objects.keyed_of_reachable hlarge hchunk hM hs
  refine ⟨fun p hp => h.refcount_eq hp, fun a s' b hstep hret => ?_, ?_⟩
  · exact (h.inv.returned hlarge hstep hret).2
  · intro t ptr hpc hkept
    simp only [Objects.KeysKept, hpc] at hkept
    obtain ⟨c, hc, hown, hmap⟩ := h.found hpc hkept
    obtain ⟨s', hfree, -, heffect⟩ := h.free hlarge hpc hc hown hmap
    refine ⟨c, hc, hown, s', ?_, heffect⟩
    simp only [Objects.step, hpc, Pc.inSlabLayer, if_true, Objects.runSlab]
    exact hfree

/-- `kmem_cache_create("generic-1024", 1024, 0, NULL, NULL)` -/
def generic1024 : Cache where
  object_size := 1024
  chunk_size := 1024
  slab_size := 16384
  offset := 1016
  object_align := 8
  maxcolor := 0
  magtype := ⟨3, 256⟩

/-- The first `kmem_cache_alloc`, which creates a slab. -/
def firstAlloc : List (Objects.Action Unit Unit) :=
  [.base (.kmem_cache_alloc () ()), .base (.run ()),
    .slab_create_large () 65536 8 [1, 2, 3, 4, 5, 6, 7, 8, 9, 10, 11, 12, 13, 14, 15, 16],
    .base (.run ())]

theorem large_round_trip_first : ∃ s : Objects Unit Unit,
    ReachableBy (Objects.earlySystem generic1024 ⟨none, none⟩)
      (Objects.KeysKept generic1024 ⟨none, none⟩) s ∧ s.cache.pc () = .freeSlab 80896 ∧
      ∃ c ∈ s.large.bufctls, (s.large.bufctl c).buffer = 80896 := by
  obtain ⟨s, hexec, hpc, hkept⟩ : ∃ s, execBy (Objects.earlySystem generic1024 ⟨none, none⟩)
      (Objects.KeysKept generic1024 ⟨none, none⟩) disabled
      (firstAlloc ++ [.base (.kmem_cache_free () () 80896)]) = some s ∧
      s.cache.pc () = .freeSlab 80896 ∧
      Objects.KeysKept generic1024 ⟨none, none⟩ s (.base (.run ())) := by decide +kernel
  have hinit : (Objects.earlySystem generic1024 ⟨none, none⟩).init disabled := ⟨init_disabled, rfl⟩
  have hreach := ReachableBy.of_execBy (.init hinit) hexec
  obtain ⟨-, -, hfree⟩ := large_round_trip
    (show kmem_cache_create 1024 0 = some generic1024 by decide +kernel) (by decide) hreach
  obtain ⟨c, hc, hown, -⟩ := hfree () 80896 hpc hkept
  exact ⟨s, hreach, hpc, c, hc, hown⟩

/-- The owner writes to the first byte of its buffer and frees it: the buffer
is not found, and the slab stays in use. -/
theorem changed_buffer_lost : kmem_cache_create 1024 0 = some generic1024 ∧
    Objects.Init disabled ∧ ∃ s : Objects Unit Unit,
      exec (Objects.earlySystem generic1024 ⟨none, none⟩) disabled
        (firstAlloc ++ [.base (.store 80896 0 1), .base (.kmem_cache_free () () 80896),
          .base (.run ())]) = some s ∧
      8 ∈ s.cache.slabs.pages ∧ s.cache.slabs.refcount 8 = 1 ∧ ∀ b, ¬ Outstanding s.cache b := by
  refine ⟨by decide +kernel, init_disabled, run_imp (fun s => s.cache.slabs.pages = {8} ∧
      s.cache.slabs.refcount 8 = 1 ∧ s.cache.held = ∅ ∧ s.cache.pc () = .idle)
    (by decide +kernel) fun s _ ⟨hpages, hcount, hheld, hidle⟩ => ?_⟩
  refine ⟨by simp [hpages], hcount, ?_⟩
  rintro b (hb | ⟨t, ht⟩)
  · rw [hheld] at hb
    cases hb
  · rw [hidle] at ht
    cases ht

end Slab
