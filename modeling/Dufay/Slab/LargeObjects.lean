import Dufay.Slab.LargeSlabs

/-! # Buffers of large objects

A free of a large object puts back the `bufctl` that `bufmap` finds for
the first eight bytes of the buffer. A buffer that no `bufctl` is found
for is lost.
-/

open Lts Tailq Memory Placement Size Function
open Pmm (PAGE_SIZE)

namespace Slab

open Objects

variable {ι τ : Type*} [DecidableEq ι] [DecidableEq τ]
variable {cp : Cache} {hooks : Hooks} {s s' : Objects ι τ} {sl : Slabs} {lg : Large}
variable {l : Nat → List Nat} {q : SlabList → List Nat} {dom : Nat → Prop} {t : τ}

/-- The free buffers of a slab. -/
def Large.buffers (lg : Large) (l : Nat → List Nat) (p : Nat) : List Nat :=
  (l p).map fun c => (lg.bufctl c).buffer

/-- The buffers of `dom` are in one place each, and inside the runs. -/
structure LargeInv (cp : Cache) (s : Objects ι τ) (l : Nat → List Nat) (q : SlabList → List Nat)
    (dom : Nat → Prop) : Prop where
  slabs : LargeOk cp s.cache.slabs s.large l q
  core : Core cp.magtype.rounds s.cache (s.large.buffers l) q dom
  inside : ∀ b, dom b → ∃ r ∈ s.large.regions, r ≤ b ∧ b < r + cp.slab_size

namespace Objects

/-- The key of a buffer that is freed, behind the destructor. -/
def freeKey (hooks : Hooks) (s : Objects ι τ) (ptr : Nat) : Nat :=
  read64 (s.destruct hooks ptr).mem ptr

end Objects

theorem Large.buffers_update : lg.buffers (update l p free) =
      update (lg.buffers l) p (free.map fun c => (lg.bufctl c).buffer) := by
  funext x
  unfold Large.buffers
  by_cases hx : x = p
  · subst hx
    rw [update_self, update_self]
  · rw [update_of_ne hx, update_of_ne hx]

theorem Large.put_buffers : (lg.put sl key c).buffers = lg.buffers := by
  funext l p
  unfold Large.buffers
  simp only [Large.put_buffer]

theorem LargeOk.buffers_nodup (h : LargeOk cp sl lg l q) (hp : p ∈ sl.pages) :
    (lg.buffers l p).Nodup := by
  have hslab := h.slab p hp
  refine List.Nodup.map_on (fun c hc d hd heq => ?_) hslab.nodup
  exact h.inj c (Large.mem_of.mp (hslab.free c hc)).1 d (Large.mem_of.mp (hslab.free d hd)).1 heq

theorem LargeOk.setMem (h : LargeOk cp sl lg l q) (mem : Mem) :
    LargeOk cp { sl with mem := mem } lg l q :=
  { h with
    queues := { h.queues with }
    slab := fun p hp => (h.slab p hp).congr rfl rfl (fun _ _ => rfl) rfl }

omit [DecidableEq ι] [DecidableEq τ] in
theorem LargeInv.congr (h : LargeInv cp s l q dom)
    (hdom : ∀ b, dom' b ↔ dom b) : LargeInv cp s l q dom' :=
  ⟨h.slabs, h.core.congr hdom, fun b hb => h.inside b ((hdom b).mp hb)⟩

omit [DecidableEq ι] [DecidableEq τ] in
theorem LargeInv.init (h : s.Init) (hdom : ∀ b, ¬ dom b) :
    LargeInv cp s (fun _ => []) (fun _ => []) dom := by
  have hpages : ∀ p, p ∉ s.cache.slabs.pages := by simp [h.cache.pages]
  have hbufctls : ∀ c, c ∉ s.large.bufctls := by simp [h.bufctls]
  have hok := @Ok.init _ _ cp _ h.cache
  refine ⟨?_, hok.core.congr fun b => ?_, fun b hb => absurd hb (hdom b)⟩
  · refine
      { queues := hok.slabs.queues
        slab := fun p hp => absurd hp (hpages p)
        live := fun c hc => absurd hc (hbufctls c)
        inside := fun c hc => absurd hc (hbufctls c)
        inj := fun c hc => absurd hc (hbufctls c)
        mapped := ?_
        keys := ?_
        unused := fun p _ => h.refcount p }
    · intro k c hk
      rw [h.bufmap] at hk
      cases hk
    · intro k k' c hk
      rw [h.bufmap] at hk
      cases hk
  · exact iff_of_false (hdom b) fun ⟨p, hp, _⟩ => hpages p hp

section

variable (h : LargeInv cp s l q dom)

include h

theorem LargeInv.magazine (hM : cp.magtype.rounds < W) (hlayer : a.inSlabLayer s.cache = false)
    (hstep : step cp s.cache a = some c) : LargeInv cp { s with cache := c } l q dom := by
  obtain ⟨hcore, hsame⟩ := h.core.step hM hlayer hstep
  refine ⟨?_, hcore, h.inside⟩
  show LargeOk cp c.slabs s.large l q
  rw [hsame.slabs]
  exact h.slabs

omit [DecidableEq ι] [DecidableEq τ] in
theorem LargeInv.setMem (mem : Mem) :
    LargeInv cp { s with cache := s.cache.setSlabs { s.cache.slabs with mem := mem } } l q dom :=
  ⟨h.slabs.setMem mem, h.core.setSlabs _ rfl, h.inside⟩

section

omit [DecidableEq ι]

theorem LargeInv.empty (hpc : s.cache.pc t = .allocSlab) :
    LargeInv cp { s with cache := s.cache.goto t .allocCreate } l q dom :=
  ⟨h.slabs, h.core.goto (by rw [hpc]; rfl) (h.core.lock.goto (.inl rfl)) trivial, h.inside⟩

theorem LargeInv.create (hooks : Hooks) (hchunk : 0 < cp.chunk_size)
    (hpc : s.cache.pc t = .allocCreate)
    (hfresh : FreshLarge cp s.cache.slabs s.large region slab bufctls) :
    let color := nextColor cp s.cache.slabs.color
    let new := bufs cp (region + color) (capacityLarge cp color)
    let s' := s.slab_create_large cp hooks t region slab bufctls
    LargeInv cp s' (update l slab bufctls) q (fun b => dom b ∨ b ∈ new) ∧
      bufctls.map (fun c => (s'.large.bufctl c).buffer) = new ∧
      ∀ c ∈ s.large.bufctls, s'.large.bufctl c = s.large.bufctl c := by
  intro color new s'
  obtain ⟨hok, hbuffers, hold⟩ := h.slabs.create hooks hchunk hfresh
  have hinside : ∀ b ∈ new, region ≤ b ∧ b < region + cp.slab_size :=
    fun b hb => bufs_inside hchunk hb
  have hdet : Detached q slab := fun k hk => hfresh.slab (h.slabs.queues.listed k slab hk)
  have hnew : ∀ b ∈ new, ¬ dom b := by
    intro b hb hdom
    obtain ⟨r, hr, hin⟩ := h.inside b hdom
    have hapart := hfresh.apart r hr
    have hin' := hinside b hb
    omega
  refine ⟨⟨hok, ?_, ?_⟩, hbuffers, hold⟩
  · apply (h.core.create s'.cache.slabs rfl hfresh.slab hdet hpc hnew).freelists
    intro p hp
    rw [Large.buffers_update]
    by_cases hps : p = slab
    · subst hps
      rw [update_self, update_self]
      exact hbuffers
    · rw [update_of_ne hps, update_of_ne hps]
      have hmem := (Finset.mem_insert.mp hp).resolve_left hps
      apply List.map_congr_left
      intro c hc
      rw [show s'.large.bufctl c = s.large.bufctl c from
        hold c (Large.mem_of.mp ((h.slabs.slab p hmem).free c hc)).1]
  · rintro b (hb | hb)
    · obtain ⟨r, hr, hin⟩ := h.inside b hb
      exact ⟨r, Finset.mem_insert_of_mem hr, hin⟩
    · exact ⟨region, Finset.mem_insert_self _ _, hinside b hb⟩

theorem LargeInv.alloc (hlarge : ¬ cp.object_size ≤ SMALL_SLAB_SIZE)
    (hfrom : s.TakesFrom t sl slab) (hstep : s.allocBuf cp t sl slab = some s') :
    ∃ c rest q', l slab = c :: rest ∧ c ∈ s.large.of slab ∧ slab ∈ s.cache.slabs.pages ∧
      s.cache.slabs.buflist slab = c ∧
      s'.large = { s.large with
        bufmap := update s.large.bufmap
          (read64 s.cache.slabs.mem (s.large.bufctl c).buffer) (some c)
        keyOf := update s.large.keyOf (s.large.bufctl c).buffer
          (read64 s.cache.slabs.mem (s.large.bufctl c).buffer) } ∧
      s'.constructed = s.constructed ∧
      LargeInv cp s' (update l slab rest) q' dom := by
  rw [Objects.allocBuf, if_neg hlarge] at hstep
  obtain ⟨⟨buf, sl', lg'⟩, htake, rfl⟩ := Option.map_eq_some_iff.mp hstep
  obtain ⟨hpages, hmem, hbuflist⟩ : sl.pages = s.cache.slabs.pages ∧
      sl.mem = s.cache.slabs.mem ∧ sl.buflist = s.cache.slabs.buflist := by
    rcases hfrom with ⟨-, -, rfl⟩ | ⟨-, rfl⟩ <;> exact ⟨rfl, rfl, rfl⟩
  obtain ⟨hmag, hrounds, hbuf⟩ : (s.cache.pc t).mag = none ∧
      (s.cache.pc t).magRounds cp.magtype.rounds = 0 ∧ (s.cache.pc t).buf = none := by
    rcases hfrom with ⟨hpc, -, -⟩ | ⟨hpc, -⟩ <;> rw [hpc] <;> exact ⟨rfl, rfl, rfl⟩
  obtain ⟨q₀, hsl, hslab, hins⟩ : ∃ q₀, LargeOk cp sl s.large l q₀ ∧ slab ∈ q₀ .slabs ∧
      InsertOk s.cache.slabs.pages q₀ (update s.cache.pc t .idle) := by
    rcases hfrom with ⟨hpc, hfirst, rfl⟩ | ⟨hpc, rfl⟩
    · rw [h.slabs.queues.links.first_eq] at hfirst
      exact ⟨q, h.slabs, List.mem_of_mem_head? hfirst,
        h.core.inserting.leave rfl fun _ _ _ _ hd => hd⟩
    · have hhands : (s.cache.pc t).slab = some slab := by rw [hpc]; rfl
      obtain ⟨hin, hdet⟩ := h.core.inserting.detached t slab hhands
      have hl : l slab ≠ [] := by
        intro hnil
        rw [takeLarge, if_pos ((h.slabs.slab slab hin).chain.eq_nil_iff.mpr hnil)] at htake
        cases htake
      refine ⟨_, h.slabs.insert hin hdet hl, ?_, h.core.inserting.insert hhands⟩
      rw [mem_insertTail]
      exact .inr ⟨rfl, rfl⟩
  have hin := hpages ▸ hsl.queues.listed _ slab hslab
  obtain ⟨c, rest, q', hl, hc, rfl, rfl, hpages', hdet, hok⟩ := hsl.take hslab htake
  have hnodup := h.slabs.buffers_nodup hin
  have hbuffers : s.large.buffers l slab =
      (s.large.bufctl c).buffer :: rest.map fun c => (s.large.bufctl c).buffer := by
    rw [Large.buffers, hl, List.map_cons]
  have hhead := (h.slabs.slab slab hin).chain
  rw [hl] at hhead
  refine ⟨c, rest, q', hl, hc, hin, hhead.1, by rw [hmem], rfl, hok, ?_, h.inside⟩
  have hcore := h.core.giveBuf sl' (hpages'.trans hpages) hin hbuffers (hbuffers ▸ hnodup) hmag
    hrounds hbuf hins hdet
  rw [← Large.buffers_update] at hcore
  exact hcore

end

end

/-! ### What is returned -/

theorem Objects.returned_at (hcore : Core cp.magtype.rounds s.cache fl q dom)
    (htake : ∀ t sl slab, s.TakesFrom t sl slab → s.allocBuf cp t sl slab = some s' →
      At s.cache fl (s.firstBuf cp slab) (.freelist slab))
    (hstep : step cp hooks s a = some s') (hret : s.returned cp a = some b) :
    (∃ mag i, At s.cache fl b (.round mag i)) ∨ ∃ slab, At s.cache fl b (.freelist slab) := by
  cases moves_of_step hstep with
  | magazine a c hlayer hmag =>
    cases a with
    | run t =>
      cases hpc : s.cache.pc t with
      | allocLoop k =>
        simp only [returned, hpc, Slab.returned] at hret
        split at hret
        · next hr =>
          obtain ⟨mag, hl, rfl⟩ := Option.map_eq_some_iff.mp hret
          exact .inl ⟨mag, _, (hcore.takeRound hpc hl hr).1⟩
        · cases hret
      | allocSlab | allocInsert slab =>
        simp only [Action.inSlabLayer, hpc] at hlayer
        cases hlayer
      | _ =>
        simp only [returned, hpc, Slab.returned] at hret
        cases hret
    | _ => cases hret
  | take t sl slab _ hfrom halloc =>
    rw [hfrom.returned] at hret
    cases hret
    exact .inr ⟨slab, htake t sl slab hfrom halloc⟩
  | empty t hpc hfirst =>
    simp only [returned, hpc, hfirst, Option.map_none] at hret
    cases hret
  | free t ptr _ hpc _ =>
    simp only [returned, hpc, Slab.returned] at hret
    cases hret
  | store | createSmall | createLarge => cases hret

theorem Ok.returned {fl : Nat → List Nat} (h : Ok cp s.cache fl q) (hfit : cp.Fits)
    {a : Objects.Action ι τ} {b : Nat} (hstep : Objects.step cp hooks s a = some s')
    (hret : s.returned cp a = some b) : s.cache.slabs.Carved cp b ∧ ¬ Outstanding s.cache b := by
  refine h.core.not_outstanding (Objects.returned_at h.core (fun t sl slab hfrom halloc => ?_)
    hstep hret)
  obtain ⟨c, hc, rfl⟩ := Objects.allocBuf_small hfit.small halloc
  rw [Objects.firstBuf, if_pos hfit.small]
  exact (h.takes hfit hfrom hc).1

theorem LargeInv.returned (h : LargeInv cp s l q dom)
    (hlarge : ¬ cp.object_size ≤ SMALL_SLAB_SIZE) {a : Objects.Action ι τ} {b : Nat}
    (hstep : Objects.step cp hooks s a = some s') (hret : s.returned cp a = some b) :
    dom b ∧ ¬ Outstanding s.cache b := by
  refine h.core.not_outstanding (Objects.returned_at h.core (fun t sl slab hfrom halloc => ?_)
    hstep hret)
  obtain ⟨c, rest, q', hl, -, hmem, hhead, -⟩ := h.alloc hlarge hfrom halloc
  rw [Objects.firstBuf, if_neg hlarge, hhead]
  exact ⟨hmem, List.mem_map_of_mem (by rw [hl]; exact List.mem_cons_self)⟩

/-! ### Frees -/

/-- The state behind a free in the slab layer. -/
def Objects.freed (hooks : Hooks) (s : Objects ι τ) (t : τ) (ptr : Nat) (sl : Slabs) (lg : Large) :
    Objects ι τ where
  cache := (s.cache.setSlabs sl).goto t .idle
  large := lg
  constructed := if hooks.destructor.isSome then s.constructed.erase ptr else s.constructed

section free
variable {ptr c p : Nat} (h : LargeInv cp s l q dom)
  (hlarge : ¬ cp.object_size ≤ SMALL_SLAB_SIZE) (hpc : s.cache.pc t = .freeSlab ptr)
include h hlarge hpc

omit [DecidableEq ι]

theorem LargeInv.free_missed (hmap : s.large.bufmap (s.freeKey hooks ptr) = none) :
    s.freeBuf cp hooks t ptr = some (s.freed hooks t ptr (s.destruct hooks ptr) s.large) ∧
      LargeInv cp (s.freed hooks t ptr (s.destruct hooks ptr) s.large) l q
        (fun b => dom b ∧ b ≠ ptr) := by
  have hfree : freeLarge (s.destruct hooks ptr) s.large ptr =
      some (s.destruct hooks ptr, s.large) := by
    rw [freeLarge, show s.large.bufmap (read64 (s.destruct hooks ptr).mem ptr) = none from hmap]
  refine ⟨?_, h.slabs.setMem _, h.core.vanish _ rfl hpc fun _ => .rfl, ?_⟩
  · simp only [freeBuf, hlarge, if_false, hfree, Option.map_some, freed]
  · exact fun b hb => h.inside b hb.1

section

variable (hmap : s.large.bufmap (s.freeKey hooks ptr) = some c)

include hmap

omit hpc in
theorem LargeInv.freeBuf_found (hp : (s.large.bufctl c).slab = p) :
    (((s.destruct hooks ptr).link p c).refcount p = 0 ↔ s.cache.slabs.refcount p = 1) ∧
      s.freeBuf cp hooks t ptr = (if s.cache.slabs.refcount p = 1 then
          destroyLarge ((s.destruct hooks ptr).link p c)
            (s.large.put (s.destruct hooks ptr) (s.freeKey hooks ptr) c) p
        else some ((s.destruct hooks ptr).link p c,
          s.large.put (s.destruct hooks ptr) (s.freeKey hooks ptr) c)).map
        fun freed => s.freed hooks t ptr freed.1 freed.2 := by
  subst hp
  have hok : LargeOk cp (s.destruct hooks ptr) s.large l q := h.slabs.setMem _
  obtain ⟨q', hput, -, -⟩ := hok.put hmap
  have hmem := (h.slabs.live c (h.slabs.mapped _ c hmap).1).2
  have hnew := (hput.slab _ hmem).count
  have hold := (h.slabs.slab _ hmem).count
  rw [Large.put_of, update_self, List.length_cons] at hnew
  have hzero : ((s.destruct hooks ptr).link (s.large.bufctl c).slab c).refcount
      (s.large.bufctl c).slab = 0 ↔ s.cache.slabs.refcount (s.large.bufctl c).slab = 1 := by
    omega
  refine ⟨hzero, ?_⟩
  simp only [freeBuf, hlarge, if_false, freeLarge,
    show s.large.bufmap (read64 (s.destruct hooks ptr).mem ptr) = some c from hmap]
  rw [if_congr hzero rfl rfl]
  rfl

theorem LargeInv.free_put
    (hp : (s.large.bufctl c).slab = p) (hown : (s.large.bufctl c).buffer = ptr)
    (hone : s.cache.slabs.refcount p ≠ 1) :
    let s' := s.freed hooks t ptr ((s.destruct hooks ptr).link p c)
      (s.large.put (s.destruct hooks ptr) (s.freeKey hooks ptr) c)
    s.freeBuf cp hooks t ptr = some s' ∧ ∃ q', LargeInv cp s' (update l p (c :: l p)) q' dom := by
  subst hp
  intro s'
  have hok : LargeOk cp (s.destruct hooks ptr) s.large l q := h.slabs.setMem _
  obtain ⟨q', hput, -, hdet⟩ := hok.put hmap
  have hmem := (h.slabs.live c (h.slabs.mapped _ c hmap).1).2
  have hcore := h.core.putBuf ((s.destruct hooks ptr).link (s.large.bufctl c).slab c) rfl hmem hpc
    hdet
  refine ⟨?_, q', hput, hcore.freelists fun x _ => ?_, h.inside⟩
  · rw [(h.freeBuf_found hlarge hmap rfl).2, if_neg hone]
    rfl
  · show (s.large.put _ _ _).buffers _ x = _
    rw [Large.put_buffers, Large.buffers_update, List.map_cons, hown]
    rfl

theorem LargeInv.free_last
    (hp : (s.large.bufctl c).slab = p) (hone : s.cache.slabs.refcount p = 1) :
    let s' := s.freed hooks t ptr (((s.destruct hooks ptr).link p c).slab_destroy p)
      { s.large.put (s.destruct hooks ptr) (s.freeKey hooks ptr) c with
        bufctls := s.large.bufctls \ s.large.of p }
    s.freeBuf cp hooks t ptr = some s' ∧ s.large.of p = insert c (l p).toFinset ∧
      ∃ q', LargeInv cp s' (update l p (c :: l p)) q'
        (fun b => (dom b ∧ b ≠ ptr) ∧ b ∉ s.large.buffers l p) := by
  subst hp
  intro s'
  have hok : LargeOk cp (s.destruct hooks ptr) s.large l q := h.slabs.setMem _
  obtain ⟨q', hput, hlist, hdet⟩ := hok.put hmap
  have hmem := (h.slabs.live c (h.slabs.mapped _ c hmap).1).2
  obtain ⟨hzero, hfree⟩ := h.freeBuf_found hlarge hmap rfl (t := t)
  obtain ⟨hdestroy, hall, hok'⟩ := hput.destroy hlist (hzero.mpr hone)
  rw [hall, Large.put_of] at hdestroy hok'
  rw [update_self, List.toFinset_cons, Large.put_of] at hall
  have hdet' : ∀ x, Detached q' x →
      Detached (update q' .slabs ((q' .slabs).erase (s.large.bufctl c).slab)) x :=
    fun x hd k hk => hd k ((hput.queues.links.mem_remove hlist k x).mp hk).1
  have hcore := (h.core.vanish ((s.destruct hooks ptr).link (s.large.bufctl c).slab c) rfl hpc
    hdet).destroy (Slabs.slab_destroy _ (s.large.bufctl c).slab) rfl hmem
      (fun hd => hd _ hlist) hdet'
  refine ⟨?_, hall.symm, _, hok', hcore.freelists fun x hx => ?_, fun b hb => h.inside b hb.1.1⟩
  · rw [hfree, if_pos hone, hdestroy]
    rfl
  · show (s.large.put (s.destruct hooks ptr) (s.freeKey hooks ptr) c).buffers _ x = _
    rw [Large.put_buffers, Large.buffers_update, update_of_ne (Finset.mem_erase.mp hx).1]

end

end free

end Slab
