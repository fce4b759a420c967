import Dufay.Slab.SmallObjects

/-! # Slabs of large objects

The slab layer of large objects represents a list of free `bufctl`s for
every slab (`LargeOk`), whatever the buffers hold.
-/

open Lts Tailq Memory Placement Size Function
open Pmm (PAGE_SIZE)

namespace Slab

variable {cp : Cache} {sl sl' : Slabs} {lg lg' : Large}
variable {l : Nat → List Nat} {q : SlabList → List Nat} {p c : Nat}

/-- The `bufctl`s of a slab. -/
def Large.of (lg : Large) (p : Nat) : Finset Nat :=
  lg.bufctls.filter fun c => (lg.bufctl c).slab = p

@[simp] theorem Large.mem_of : c ∈ lg.of p ↔ c ∈ lg.bufctls ∧ (lg.bufctl c).slab = p :=
  Finset.mem_filter

/-- A slab represents the list of its free `bufctl`s. -/
structure LargeSlab (sl : Slabs) (lg : Large) (p : Nat) (l : List Nat) : Prop where
  chain : ChainOf (fun c => (lg.bufctl c).next) (sl.buflist p) l
  nodup : l.Nodup
  free : ∀ c ∈ l, c ∈ lg.of p
  count : sl.refcount p + l.length = (lg.of p).card
  bound : (lg.of p).card < W

structure LargeOk (cp : Cache) (sl : Slabs) (lg : Large) (l : Nat → List Nat)
    (q : SlabList → List Nat) : Prop where
  queues : sl.Queues l q
  slab : ∀ p ∈ sl.pages, LargeSlab sl lg p (l p)
  live : ∀ c ∈ lg.bufctls, c ≠ 0 ∧ (lg.bufctl c).slab ∈ sl.pages
  inside : ∀ c ∈ lg.bufctls, ∃ r ∈ lg.regions,
    r ≤ (lg.bufctl c).buffer ∧ (lg.bufctl c).buffer < r + cp.slab_size
  inj : ∀ c ∈ lg.bufctls, ∀ c' ∈ lg.bufctls, (lg.bufctl c).buffer = (lg.bufctl c').buffer → c = c'
  mapped : ∀ k c, lg.bufmap k = some c → c ∈ lg.bufctls ∧ c ∉ l (lg.bufctl c).slab
  keys : ∀ k k' c, lg.bufmap k = some c → lg.bufmap k' = some c → k = k'
  unused : ∀ p, p ∉ sl.pages → sl.refcount p = 0

theorem LargeSlab.congr {l : List Nat} (h : LargeSlab sl lg p l)
    (hbuflist : sl'.buflist p = sl.buflist p) (hcount : sl'.refcount p = sl.refcount p)
    (hnext : ∀ c ∈ l, (lg'.bufctl c).next = (lg.bufctl c).next) (hof : lg'.of p = lg.of p) :
    LargeSlab sl' lg' p l where
  chain := hbuflist ▸ h.chain.congr hnext
  nodup := h.nodup
  free := hof ▸ h.free
  count := by rw [hcount, hof]; exact h.count
  bound := hof ▸ h.bound

theorem LargeOk.insert (h : LargeOk cp sl lg l q) (hp : p ∈ sl.pages) (hdet : Detached q p)
    (hl : l p ≠ []) : LargeOk cp { sl with links := sl.links.insertTail .slabs p } lg l
      (update q .slabs (q .slabs ++ [p])) :=
  { h with
    queues := h.queues.insert hp hdet hl
    slab := fun x hx => (h.slab x hx).congr rfl rfl (fun _ _ => rfl) rfl }

theorem LargeOk.take {buf : Nat} (h : LargeOk cp sl lg l q) (hp : p ∈ q .slabs)
    (htake : takeLarge sl lg p = some (buf, sl', lg')) :
    ∃ c rest q', l p = c :: rest ∧ c ∈ lg.of p ∧ buf = (lg.bufctl c).buffer ∧ lg' = { lg with
        bufmap := update lg.bufmap (read64 sl.mem buf) (some c)
        keyOf := update lg.keyOf buf (read64 sl.mem buf) } ∧
      sl'.pages = sl.pages ∧ (∀ x, Detached q' x ↔ Detached q x) ∧
      LargeOk cp sl' lg' (update l p rest) q' := by
  have hmem := h.queues.listed _ p hp
  have hslab := h.slab p hmem
  have hlist := h.queues.list _ p hp
  cases hl : l p with
  | nil =>
    rw [hl] at hlist
    cases hlist
  | cons c rest =>
    rw [hl] at hslab
    obtain ⟨hhead, hne, hrest⟩ := hslab.chain
    rw [takeLarge, hhead, if_neg hne] at htake
    cases htake
    obtain ⟨q', hqueues, hdet⟩ := h.queues.unlink hp hl hrest.eq_nil_iff
    have hc := Large.mem_of.mp (hslab.free c (by simp))
    have hnodup := List.nodup_cons.mp hslab.nodup
    have hcount := hslab.count
    have hbound := hslab.bound
    rw [List.length_cons] at hcount
    refine ⟨c, rest, q', rfl, Large.mem_of.mpr hc, rfl, rfl, rfl, hdet, ?_⟩
    refine { h with queues := hqueues, slab := ?_, mapped := ?_, keys := ?_, unused := ?_ }
    · intro x hx
      by_cases hxp : x = p
      · subst hxp
        rw [update_self]
        refine ⟨?_, hnodup.2, fun d hd => hslab.free d (by simp [hd]), ?_, hbound⟩
        · simpa [Slabs.unlink] using hrest
        · simp only [Slabs.unlink, update_self]
          rw [Nat.mod_eq_of_lt (by omega)]
          exact (by omega : sl.refcount x + 1 + rest.length = (lg.of x).card)
      · rw [update_of_ne hxp]
        exact (h.slab x hx).congr (update_of_ne hxp _ _) (update_of_ne hxp _ _) (fun _ _ => rfl) rfl
    · intro k d hd
      simp only [update_apply] at hd
      split at hd
      · cases hd
        refine ⟨hc.1, ?_⟩
        rw [hc.2, update_self]
        exact hnodup.1
      · obtain ⟨hlive, hnot⟩ := h.mapped k d hd
        refine ⟨hlive, fun hin => hnot ?_⟩
        by_cases hdp : (lg.bufctl d).slab = p
        · rw [hdp, update_self] at hin
          rw [hdp, hl]
          exact List.mem_cons_of_mem _ hin
        · rwa [update_of_ne hdp] at hin
    · -- the `bufctl` was free, so it was not mapped
      have hnew : ∀ k, lg.bufmap k ≠ some c := by
        intro k hk
        obtain ⟨-, hnot⟩ := h.mapped k c hk
        rw [hc.2, hl] at hnot
        exact hnot List.mem_cons_self
      intro k k' d hk hk'
      simp only [update_apply] at hk hk'
      split at hk <;> split at hk'
      · next heq heq' => rw [heq, heq']
      · cases hk
        exact absurd hk' (hnew k')
      · cases hk'
        exact absurd hk (hnew k)
      · exact h.keys k k' d hk hk'
    · intro x hx
      have hxp : x ≠ p := fun heq => hx (heq ▸ hmem)
      exact (update_of_ne hxp _ _).trans (h.unused x hx)

/-! ### Putting a buffer back -/

section put
variable {key : Nat}

@[simp] theorem Large.put_slab (x : Nat) :
    ((lg.put sl key c).bufctl x).slab = (lg.bufctl x).slab := by
  simp only [Large.put, update_apply]
  split
  · next heq => rw [heq]
  · rfl

@[simp] theorem Large.put_buffer (x : Nat) :
    ((lg.put sl key c).bufctl x).buffer = (lg.bufctl x).buffer := by
  simp only [Large.put, update_apply]
  split
  · next heq => rw [heq]
  · rfl

theorem Large.put_of (p : Nat) : (lg.put sl key c).of p = lg.of p := by
  ext x
  rw [Large.mem_of, Large.mem_of, Large.put_slab]
  rfl

theorem LargeOk.put (h : LargeOk cp sl lg l q) (hmap : lg.bufmap key = some c) :
    ∃ q', LargeOk cp (sl.link (lg.bufctl c).slab c) (lg.put sl key c)
        (update l (lg.bufctl c).slab (c :: l (lg.bufctl c).slab)) q' ∧
      (lg.bufctl c).slab ∈ q' .slabs ∧ ∀ x, Detached q' x ↔ Detached q x := by
  obtain ⟨hlive, hnot⟩ := h.mapped key c hmap
  obtain ⟨hne, hmem⟩ := h.live c hlive
  generalize hp : (lg.bufctl c).slab = p at *
  have hslab := h.slab p hmem
  have hcount := hslab.count
  have hbound := hslab.bound
  have hnodup : (c :: l p).Nodup := List.nodup_cons.mpr ⟨hnot, hslab.nodup⟩
  have hall : ∀ d ∈ c :: l p, d ∈ lg.of p := by
    intro d hd
    rcases List.mem_cons.mp hd with rfl | hd
    · exact Large.mem_of.mpr ⟨hlive, hp⟩
    · exact hslab.free d hd
  have hused : 0 < sl.refcount p := by
    have hle := Finset.card_le_card (s := (c :: l p).toFinset) (t := lg.of p)
      fun d hd => hall d (List.mem_toFinset.mp hd)
    rw [List.toFinset_card_of_nodup hnodup, List.length_cons] at hle
    omega
  obtain ⟨q', hqueues, hlist, hdet⟩ := h.queues.link c c hmem hused hslab.chain.eq_nil_iff
  refine ⟨q', ?_, hlist, hdet⟩
  refine
    { queues := hqueues
      slab := ?_
      live := fun d hd => by rw [Large.put_slab]; exact h.live d hd
      inside := fun d hd => by rw [Large.put_buffer]; exact h.inside d hd
      inj := fun d hd d' hd' heq => by
        rw [Large.put_buffer, Large.put_buffer] at heq
        exact h.inj d hd d' hd' heq
      mapped := ?_
      keys := ?_
      unused := ?_ }
  · intro x hx
    by_cases hxp : x = p
    · subst hxp
      rw [update_self]
      refine ⟨?_, hnodup, fun d hd => by rw [Large.put_of]; exact hall d hd, ?_,
        by rw [Large.put_of]; exact hbound⟩
      · simp only [Slabs.link, update_self]
        apply hslab.chain.push hne hnot
        · simp [Large.put, hp]
        · intro d hd
          simp [Large.put, hd]
      · simp only [Slabs.link, update_self, List.length_cons, Large.put_of]
        have heq : sl.refcount x + W - 1 = (sl.refcount x - 1) + W := by omega
        rw [heq, Nat.add_mod_right, Nat.mod_eq_of_lt (by omega)]
        omega
    · rw [update_of_ne hxp]
      apply (h.slab x hx).congr (update_of_ne hxp _ _) (update_of_ne hxp _ _)
      · intro d hd
        have hdc : d ≠ c := by
          rintro rfl
          exact hxp ((Large.mem_of.mp ((h.slab x hx).free d hd)).2.symm.trans hp)
        simp [Large.put, hdc]
      · exact Large.put_of x
  · intro k d hd
    simp only [Large.put, update_apply] at hd
    split at hd
    · cases hd
    · next hk =>
      obtain ⟨hdlive, hdnot⟩ := h.mapped k d hd
      have hdc : d ≠ c := by
        rintro rfl
        exact hk (h.keys k key d hd hmap)
      refine ⟨hdlive, ?_⟩
      rw [Large.put_slab]
      by_cases hdp : (lg.bufctl d).slab = p
      · rw [hdp] at hdnot ⊢
        rw [update_self, List.mem_cons, not_or]
        exact ⟨hdc, hdnot⟩
      · rwa [update_of_ne hdp]
  · intro k k' d hk hk'
    simp only [Large.put, update_apply] at hk hk'
    split at hk
    · cases hk
    · split at hk'
      · cases hk'
      · exact h.keys k k' d hk hk'
  · intro x hx
    have hxp : x ≠ p := fun heq => hx (heq ▸ hmem)
    exact (update_of_ne hxp _ _).trans (h.unused x hx)

end put

theorem LargeOk.destroy (h : LargeOk cp sl lg l q) (hp : p ∈ q .slabs) (hzero : sl.refcount p = 0) :
    destroyLarge sl lg p =
        some (sl.slab_destroy p, { lg with bufctls := lg.bufctls \ (l p).toFinset }) ∧
      (l p).toFinset = lg.of p ∧
      LargeOk cp (sl.slab_destroy p) { lg with bufctls := lg.bufctls \ (l p).toFinset } l
        (update q .slabs ((q .slabs).erase p)) := by
  have hslab := h.slab p (h.queues.listed _ p hp)
  have hcount := hslab.count
  have hcard := List.toFinset_card_of_nodup hslab.nodup
  have hall : (l p).toFinset = lg.of p := by
    apply Finset.eq_of_subset_of_card_le
    · exact fun d hd => hslab.free d (List.mem_toFinset.mp hd)
    · omega
  have hle : (lg.of p).card ≤ lg.bufctls.card := Finset.card_le_card (Finset.filter_subset _ _)
  have hkept : ∀ d, d ∈ lg.bufctls \ (l p).toFinset ↔ d ∈ lg.bufctls ∧ (lg.bufctl d).slab ≠ p := by
    intro d
    rw [hall, Finset.mem_sdiff, Large.mem_of]
    tauto
  refine ⟨?_, hall, ?_⟩
  · rw [destroyLarge, hslab.chain.walk_eq (by omega), Option.map_some]
  · refine
      { queues := h.queues.slab_destroy hp
        slab := ?_
        live := fun d hd => ?_
        inside := fun d hd => h.inside d ((hkept d).mp hd).1
        inj := fun d hd d' hd' => h.inj d ((hkept d).mp hd).1 d' ((hkept d').mp hd').1
        mapped := fun k d hd => ?_
        keys := h.keys
        unused := fun x hx => ?_ }
    · intro x hx
      obtain ⟨hxp, hx⟩ := Finset.mem_erase.mp hx
      refine (h.slab x hx).congr rfl rfl (fun _ _ => rfl) ?_
      ext d
      rw [Large.mem_of, Large.mem_of, hkept]
      constructor
      · exact fun hd => ⟨hd.1.1, hd.2⟩
      · exact fun hd => ⟨⟨hd.1, fun heq => hxp (hd.2.symm.trans heq)⟩, hd.2⟩
    · obtain ⟨hd, hne⟩ := (hkept d).mp hd
      exact ⟨(h.live d hd).1, Finset.mem_erase.mpr ⟨hne, (h.live d hd).2⟩⟩
    · obtain ⟨hlive, hnot⟩ := h.mapped k d hd
      refine ⟨(hkept d).mpr ⟨hlive, fun heq => hnot ?_⟩, hnot⟩
      rw [heq, ← List.mem_toFinset, hall]
      exact Large.mem_of.mpr ⟨hlive, heq⟩
    · by_cases hxp : x = p
      · rw [hxp]
        exact hzero
      · exact h.unused x fun hin => hx (Finset.mem_erase.mpr ⟨hxp, hin⟩)

/-! ### Creating a slab -/

theorem constructLarge_spec (cp : Cache) (constructor : Hook) (slab buf : Nat) (mem : Mem)
    (bufctl : Nat → Bufctl) (hnodup : bufctls.Nodup) (hnonnull : ∀ c ∈ bufctls, c ≠ 0) :
    let made := constructLarge cp constructor slab buf mem bufctl bufctls
    ChainOf (fun c => (made.2.1 c).next) made.2.2 bufctls ∧
      bufctls.map (fun c => (made.2.1 c).buffer) = bufs cp buf bufctls.length ∧
      (∀ c ∈ bufctls, (made.2.1 c).slab = slab) ∧ ∀ c ∉ bufctls, made.2.1 c = bufctl c := by
  induction bufctls with
  | nil => exact ⟨rfl, rfl, fun c hc => (by cases hc), fun _ _ => rfl⟩
  | cons c rest ih =>
    obtain ⟨hnew, hrest⟩ := List.nodup_cons.mp hnodup
    obtain ⟨hchain, hbuffers, hslab, hold⟩ := ih hrest fun d hd => hnonnull d (by simp [hd])
    have hother : ∀ d ∈ rest, d ≠ c := fun d hd heq => hnew (heq ▸ hd)
    refine ⟨?_, ?_, ?_, ?_⟩
    · apply hchain.push (hnonnull c (by simp)) hnew
      · simp [constructLarge]
      · intro d hd
        simp [constructLarge, hd]
    · rw [List.map_cons, List.length_cons, bufs, ← hbuffers]
      congr 1
      · simp [constructLarge]
      · apply List.map_congr_left
        intro d hd
        simp [constructLarge, hother d hd]
    · intro d hd
      rcases List.mem_cons.mp hd with rfl | hd
      · simp [constructLarge]
      · simpa [constructLarge, hother d hd] using hslab d hd
    · intro d hd
      rw [List.mem_cons, not_or] at hd
      simpa [constructLarge, hd.1] using hold d hd.2

theorem bufs_inside (hchunk : 0 < cp.chunk_size)
    (hb : b ∈ bufs cp (region + color) (capacityLarge cp color)) :
    region ≤ b ∧ b < region + cp.slab_size := by
  obtain ⟨i, hi, rfl⟩ := mem_bufs.mp hb
  have hmul := chunk_mul_le cp hi
  have hcap : capacityLarge cp color * cp.chunk_size ≤ cp.slab_size - color :=
    Nat.div_mul_le_self _ _
  omega

theorem LargeOk.create {region slab : Nat} (h : LargeOk cp sl lg l q)
    (hooks : Hooks) (hchunk : 0 < cp.chunk_size)
    (hfresh : Objects.FreshLarge cp sl lg region slab bufctls) :
    let made := Objects.createLarge cp hooks sl lg region slab bufctls
    LargeOk cp made.1 made.2 (update l slab bufctls) q ∧
      bufctls.map (fun c => (made.2.bufctl c).buffer) =
        bufs cp (region + nextColor cp sl.color) (capacityLarge cp (nextColor cp sl.color)) ∧
      ∀ c ∈ lg.bufctls, made.2.bufctl c = lg.bufctl c := by
  intro made
  obtain ⟨hchain, hbuffers, hslab, hsame⟩ := constructLarge_spec cp hooks.constructor slab
    (region + nextColor cp sl.color) (zero sl.mem region cp.slab_size) lg.bufctl hfresh.nodup
    hfresh.nonnull
  rw [hfresh.length] at hbuffers
  have hold : ∀ c ∈ lg.bufctls, made.2.bufctl c = lg.bufctl c :=
    fun c hc => hsame c fun hin => hfresh.unused c hin hc
  have hmem : ∀ c, c ∈ made.2.bufctls ↔ c ∈ lg.bufctls ∨ c ∈ bufctls := by
    intro c
    rw [← List.mem_toFinset (l := bufctls)]
    exact Finset.mem_union
  have hnew : ∀ c ∈ bufctls, region ≤ (made.2.bufctl c).buffer ∧
      (made.2.bufctl c).buffer < region + cp.slab_size := by
    intro c hc
    apply bufs_inside hchunk
    rw [← hbuffers]
    exact List.mem_map_of_mem hc
  have hof : made.2.of slab = bufctls.toFinset := by
    ext c
    rw [Large.mem_of, hmem, List.mem_toFinset]
    constructor
    · rintro ⟨hc | hc, heq⟩
      · rw [hold c hc] at heq
        exact absurd (heq ▸ (h.live c hc).2) hfresh.slab
      · exact hc
    · exact fun hc => ⟨.inr hc, hslab c hc⟩
  have hother : ∀ p ∈ sl.pages, made.2.of p = lg.of p := by
    intro p hp
    ext c
    rw [Large.mem_of, Large.mem_of, hmem]
    constructor
    · rintro ⟨hc | hc, heq⟩
      · exact ⟨hc, hold c hc ▸ heq⟩
      · exact absurd (((hslab c hc).symm.trans heq) ▸ hp) hfresh.slab
    · rintro ⟨hc, heq⟩
      exact ⟨.inl hc, (hold c hc).symm ▸ heq⟩
  have hne : ∀ p ∈ sl.pages, p ≠ slab := fun p hp heq => hfresh.slab (heq ▸ hp)
  refine ⟨?_, hbuffers, hold⟩
  refine
    { queues := h.queues.create bufctls hfresh.slab rfl rfl (h.unused slab hfresh.slab)
        fun _ _ => rfl
      slab := ?_
      live := ?_
      inside := ?_
      inj := ?_
      mapped := fun k c hc => ?_
      keys := h.keys
      unused := fun p hp => h.unused p fun hin => hp (Finset.mem_insert_of_mem hin) }
  · intro p hp
    rcases Finset.mem_insert.mp hp with rfl | hp
    · have hcard := List.toFinset_card_of_nodup hfresh.nodup
      rw [update_self]
      refine ⟨?_, hfresh.nodup, fun c hc => hof ▸ List.mem_toFinset.mpr hc, ?_, ?_⟩
      · show ChainOf _ (update sl.buflist p _ p) bufctls
        rw [update_self]
        exact hchain
      · show sl.refcount p + _ = _
        rw [h.unused p hfresh.slab, hof, hcard, Nat.zero_add]
      · have hle := Nat.div_le_self (cp.slab_size - nextColor cp sl.color) cp.chunk_size
        have hlength : bufctls.length = (cp.slab_size - nextColor cp sl.color) / cp.chunk_size :=
          hfresh.length
        have hpos := hfresh.pos
        have htop := hfresh.le
        rw [hof, hcard]
        omega
    · rw [update_of_ne (hne p hp)]
      refine (h.slab p hp).congr (update_of_ne (hne p hp) _ _) rfl ?_ (hother p hp)
      intro c hc
      rw [hold c (Large.mem_of.mp ((h.slab p hp).free c hc)).1]
  · intro c hc
    rcases (hmem c).mp hc with hc | hc
    · rw [hold c hc]
      exact ⟨(h.live c hc).1, Finset.mem_insert_of_mem (h.live c hc).2⟩
    · rw [show (made.2.bufctl c).slab = slab from hslab c hc]
      exact ⟨hfresh.nonnull c hc, Finset.mem_insert_self _ _⟩
  · intro c hc
    rcases (hmem c).mp hc with hc | hc
    · rw [hold c hc]
      obtain ⟨r, hr, hin⟩ := h.inside c hc
      exact ⟨r, Finset.mem_insert_of_mem hr, hin⟩
    · exact ⟨region, Finset.mem_insert_self _ _, hnew c hc⟩
  · -- a new buffer is in the new run, which is apart from the others
    have hdiff : ∀ c ∈ lg.bufctls, ∀ d ∈ bufctls,
        (lg.bufctl c).buffer ≠ (made.2.bufctl d).buffer := by
      intro c hc d hd heq
      obtain ⟨r, hr, hin⟩ := h.inside c hc
      have hapart := hfresh.apart r hr
      have hin' := hnew d hd
      omega
    have hinj := List.inj_on_of_nodup_map (hbuffers ▸ bufs_nodup hchunk _ _ :
      (bufctls.map fun c => (made.2.bufctl c).buffer).Nodup)
    intro c hc d hd heq
    rcases (hmem c).mp hc with hc | hc <;> rcases (hmem d).mp hd with hd | hd
    · rw [hold c hc, hold d hd] at heq
      exact h.inj c hc d hd heq
    · rw [hold c hc] at heq
      exact absurd heq (hdiff c hc d hd)
    · rw [hold d hd] at heq
      exact absurd heq.symm (hdiff d hd c hc)
    · exact hinj hc hd heq
  · obtain ⟨hlive, hnot⟩ := h.mapped k c hc
    rw [hold c hlive]
    refine ⟨(hmem c).mpr (.inl hlive), ?_⟩
    rw [update_of_ne (hne _ (h.live c hlive).2)]
    exact hnot

end Slab
