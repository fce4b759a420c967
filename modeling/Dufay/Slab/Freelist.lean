import Dufay.Slab.Cache

/-! # The freelists of the slabs

The slab layer in byte memory represents a list of free buffers for
every page (`Slabs.Ok`). All of it rests on `Cache.Fits`: the pointer of a
freelist fits into the chunk of its buffer.
-/

open Lts Tailq Memory Size Function
open Pmm (PAGE_SIZE)

namespace Slab

/-! ### Caches of small objects -/

/-- A chunk holds the object and, at `offset`, a pointer. -/
structure Cache.Fits (cp : Cache) : Prop where
  small : cp.object_size ≤ SMALL_SLAB_SIZE
  bufctl : cp.offset + 8 ≤ cp.chunk_size
  object : cp.object_size ≤ cp.chunk_size
  maxcolor : cp.maxcolor = (PAGE_SIZE - SIZEOF_KMEM_SLAB) % cp.chunk_size
  rounds : cp.magtype.rounds < W

theorem Cache.Fits.pos {cp : Cache} (hfit : cp.Fits) : 0 < cp.chunk_size := by
  have hbufctl := hfit.bufctl
  omega

theorem findMagtype_lt (h : findMagtype chunk_size = some magtype) : magtype.rounds < W := by
  have hW := W_eq
  have hmem := List.mem_of_find?_eq_some h
  have hall : ∀ m ∈ magtypes, m.rounds < 2 ^ 64 := by decide
  rw [hW]
  exact hall magtype hmem

theorem kmem_cache_create_size (h : kmem_cache_create size align = some cp) :
    cp.object_size = size.toNat ∧ 0 < cp.chunk_size ∧ cp.magtype.rounds < W ∧
      (size.toNat ≤ SMALL_SLAB_SIZE → cp.slab_size = PAGE_SIZE) := by
  unfold kmem_cache_create at h
  extract_lets object_align aligned chunk offset chunk_size small slab_size at h
  split at h
  · cases h
  · next hne =>
    obtain ⟨magtype, hmag, rfl⟩ := Option.map_eq_some_iff.mp h
    exact ⟨rfl, Nat.pos_of_ne_zero hne, findMagtype_lt hmag, fun hsize =>
      if_pos (decide_eq_true hsize)⟩

theorem kmem_cache_create_fits
    (h : kmem_cache_create size align = some cp) (hsize : size.toNat ≤ SMALL_SLAB_SIZE)
    (hchunk : 8 ≤ cp.chunk_size) : cp.Fits := by
  have hW := W_eq
  unfold kmem_cache_create at h
  extract_lets object_align aligned chunk offset chunk_size small slab_size at h
  split at h
  · cases h
  · next hne =>
    obtain ⟨magtype, hmag, rfl⟩ := Option.map_eq_some_iff.mp h
    have hsmall : small = true := decide_eq_true hsize
    have halign : object_align < W := by
      have hlt := align.toNat_lt
      simp only [object_align, SLAB_ALIGN]
      split <;> omega
    have hobject : size.toNat ≤ chunk ∧ chunk < 2 ^ 32 := by
      simp only [SMALL_SLAB_SIZE] at hsize
      have hround := le_ALIGN_UP (x := size.toNat) (a := SLAB_ALIGN) (by decide)
        (by rw [hW, SLAB_ALIGN]; omega)
      simp only [SLAB_ALIGN] at hround
      simp only [chunk, SLAB_ALIGN]
      split <;> omega
    have hle : chunk ≤ chunk_size := le_ALIGN_UP_of_ne_zero (by omega) halign hne
    have hbufctl : offset + 8 ≤ chunk_size := by
      simp only [offset]
      split
      · next ha =>
        have hchunk : chunk = ALIGN_UP size.toNat SLAB_ALIGN := if_pos ha
        simp only [chunk_size, hchunk] at hne
        have height : 8 ≤ chunk := hchunk ▸ (le_ALIGN_UP_ALIGN_UP halign hne).1
        have hmod : (chunk + W - SLAB_ALIGN) % W = chunk - 8 := by
          have heq : chunk + W - SLAB_ALIGN = (chunk - 8) + W := by
            rw [SLAB_ALIGN]
            omega
          rw [heq, Nat.add_mod_right]
          exact Nat.mod_eq_of_lt (by omega)
        omega
      · exact hchunk
    refine ⟨hsize, hbufctl, hobject.1.trans hle, ?_, findMagtype_lt hmag⟩
    simp only [hsmall, if_true, slab_size]

/-! ### The chunks of a slab -/

/-- The first `n` chunks of a slab, in the order of its freelist. -/
def bufs (cp : Cache) (buf : Nat) : Nat → List Nat
  | 0 => []
  | i + 1 => (buf + i * cp.chunk_size) :: bufs cp buf i

/-- The buffers of the slab on a page. -/
def buffers (cp : Cache) (sl : Slabs) (page : Nat) : List Nat :=
  bufs cp (page + sl.colorOf page) (capacity cp (sl.colorOf page))

variable {cp : Cache}

theorem chunk_mul_le (cp : Cache) (hi : i < n) :
    i * cp.chunk_size + cp.chunk_size ≤ n * cp.chunk_size := by
  have hmul := Nat.mul_le_mul_right cp.chunk_size (Nat.succ_le_of_lt hi)
  rwa [Nat.succ_mul] at hmul

variable {b p page : Nat} {sl : Slabs} {l : List Nat}

theorem mem_bufs : b ∈ bufs cp buf n ↔ ∃ i < n, b = buf + i * cp.chunk_size := by
  induction n with
  | zero => simp [bufs]
  | succ n ih =>
    rw [bufs, List.mem_cons, ih]
    constructor
    · rintro (rfl | ⟨i, hi, rfl⟩)
      · exact ⟨n, Nat.lt_succ_self n, rfl⟩
      · exact ⟨i, by omega, rfl⟩
    · rintro ⟨i, hi, rfl⟩
      rcases Nat.lt_succ_iff_lt_or_eq.mp hi with hlt | rfl
      · exact .inr ⟨i, hlt, rfl⟩
      · exact .inl rfl

@[simp] theorem length_bufs (buf n : Nat) : (bufs cp buf n).length = n := by
  induction n with
  | zero => rfl
  | succ n ih => rw [bufs, List.length_cons, ih]

theorem bufs_apart (hb : b ∈ bufs cp buf n) (hb' : b' ∈ bufs cp buf n)
    (hne : b ≠ b') : b + cp.chunk_size ≤ b' ∨ b' + cp.chunk_size ≤ b := by
  obtain ⟨i, -, rfl⟩ := mem_bufs.mp hb
  obtain ⟨j, -, rfl⟩ := mem_bufs.mp hb'
  rcases Nat.lt_trichotomy i j with hij | rfl | hij
  · left
    have hmul := chunk_mul_le cp hij
    omega
  · exact absurd rfl hne
  · right
    have hmul := chunk_mul_le cp hij
    omega

theorem bufs_nodup (hchunk : 0 < cp.chunk_size) (buf n : Nat) : (bufs cp buf n).Nodup := by
  induction n with
  | zero => exact List.nodup_nil
  | succ n ih =>
    refine List.nodup_cons.mpr ⟨fun hmem => ?_, ih⟩
    obtain ⟨i, hi, heq⟩ := mem_bufs.mp hmem
    have hmul : i * cp.chunk_size < n * cp.chunk_size := Nat.mul_lt_mul_of_pos_right hi hchunk
    omega

theorem capacity_le (cp : Cache) (hcolor : color ≤ PAGE_SIZE - SIZEOF_KMEM_SLAB) :
    color + capacity cp color * cp.chunk_size ≤ PAGE_SIZE - SIZEOF_KMEM_SLAB := by
  have hdiv := Nat.div_mul_le_self (PAGE_SIZE - SIZEOF_KMEM_SLAB - color) cp.chunk_size
  unfold capacity
  omega

theorem capacity_lt (cp : Cache) (color : Nat) : capacity cp color < W := by
  have hdiv := Nat.div_le_self (PAGE_SIZE - SIZEOF_KMEM_SLAB - color) cp.chunk_size
  have hpage : PAGE_SIZE < 2 ^ 64 := by decide
  rw [W_eq]
  unfold capacity
  omega

theorem carve_outside (mem : Mem) (hx : ∀ i < n, x < buf + i * cp.chunk_size + cp.offset ∨
      buf + i * cp.chunk_size + cp.offset + 8 ≤ x) : (carve cp mem buf n).1 x = mem x := by
  induction n with
  | zero => rfl
  | succ n ih =>
    refine Eq.trans (write64_outside (hx n (Nat.lt_succ_self n))) ?_
    exact ih fun i hi => hx i (by omega)

/-! ### Pages -/

theorem pages_apart (hp : PAGE_SIZE ∣ p) (hp' : PAGE_SIZE ∣ p') (hne : p ≠ p') :
    p + PAGE_SIZE ≤ p' ∨ p' + PAGE_SIZE ≤ p := by
  obtain ⟨k, rfl⟩ := hp
  obtain ⟨k', rfl⟩ := hp'
  rcases Nat.lt_trichotomy k k' with hk | rfl | hk
  · left
    exact Nat.mul_le_mul_left PAGE_SIZE (Nat.succ_le_of_lt hk)
  · exact absurd rfl hne
  · right
    exact Nat.mul_le_mul_left PAGE_SIZE (Nat.succ_le_of_lt hk)

/-- The slab on a page represents the list `l` of its free buffers. -/
structure PageOk (cp : Cache) (sl : Slabs) (page : Nat) (l : List Nat) : Prop where
  aligned : PAGE_SIZE ∣ page
  pos : 0 < page
  le : page + PAGE_SIZE ≤ W
  color : sl.colorOf page ≤ PAGE_SIZE - SIZEOF_KMEM_SLAB
  chain : Chain sl.mem (sl.buflist page) (l.map (· + cp.offset))
  nodup : l.Nodup
  free : ∀ b ∈ l, b ∈ buffers cp sl page
  count : sl.refcount page + l.length = capacity cp (sl.colorOf page)

section

variable (h : PageOk cp sl page l)

include h

theorem PageOk.bounds (hb : b ∈ buffers cp sl page) :
    page ≤ b ∧ b + cp.chunk_size + SIZEOF_KMEM_SLAB ≤ page + PAGE_SIZE := by
  obtain ⟨i, hi, rfl⟩ := mem_bufs.mp hb
  have hmul := chunk_mul_le cp hi
  have hcap := capacity_le cp h.color
  have hsize : SIZEOF_KMEM_SLAB ≤ PAGE_SIZE := by decide
  omega

theorem PageOk.align_down (hfit : cp.Fits) (hb : b ∈ buffers cp sl page) :
    ALIGN_DOWN b PAGE_SIZE = page := by
  obtain ⟨hle, hlt⟩ := h.bounds hb
  obtain ⟨k, rfl⟩ := h.aligned
  have hchunk := hfit.bufctl
  have hpos : 0 < PAGE_SIZE := by decide
  have hdiv : b / PAGE_SIZE = k := by
    rw [Nat.div_eq_iff hpos]
    rw [Nat.mul_comm] at hle hlt
    omega
  rw [ALIGN_DOWN, hdiv, Nat.mul_comm]

theorem PageOk.buflist_lt (hfit : cp.Fits) : sl.buflist page < 256 ^ 8 := by
  have hW : W = 256 ^ 8 := W_eq
  have hchunk := hfit.bufctl
  have hle := h.le
  rcases h.chain.head_eq with hzero | hmem
  · rw [hzero]
    decide
  · obtain ⟨b, hb, heq⟩ := List.mem_map.mp hmem
    have hbound := h.bounds (h.free b hb)
    omega

theorem PageOk.congr
    (hmem : ∀ b ∈ l, read64 sl'.mem (b + cp.offset) = read64 sl.mem (b + cp.offset))
    (hbuflist : sl'.buflist page = sl.buflist page)
    (hrefcount : sl'.refcount page = sl.refcount page) (hcolor : sl'.colorOf page = sl.colorOf page)
      : PageOk cp sl' page l where
  aligned := h.aligned
  pos := h.pos
  le := h.le
  color := hcolor ▸ h.color
  chain := by
    rw [hbuflist]
    apply h.chain.congr
    intro p hp
    obtain ⟨b, hb, rfl⟩ := List.mem_map.mp hp
    exact hmem b hb
  nodup := h.nodup
  free := fun b hb => by
    rw [buffers, hcolor]
    exact h.free b hb
  count := by
    rw [hrefcount, hcolor]
    exact h.count

end

/-! ### The slab layer -/

/-- The list that a slab belongs into. -/
def listFor : List Nat → SlabList
  | [] => .full_slabs
  | _ :: _ => .slabs

/-- A page in no list. -/
def Detached (q : SlabList → List Nat) (p : Nat) : Prop := ∀ l, p ∉ q l

/-- The lists of slabs `q`, for the free buffers `fl` of every slab. A slab in
no list is being created. -/
structure Slabs.Queues (sl : Slabs) (fl : Nat → List Nat) (q : SlabList → List Nat) : Prop where
  links : Represents sl.links q
  listed : ∀ k, ∀ p ∈ q k, p ∈ sl.pages
  list : ∀ k, ∀ p ∈ q k, k = listFor (fl p)
  detached : ∀ p ∈ sl.pages, Detached q p → sl.refcount p = 0

/-- The slab layer represents the free buffers `fl` of every page and the
lists of slabs `q`. A page in no list belongs to a slab that is being
created. -/
structure Slabs.Ok (cp : Cache) (sl : Slabs) (fl : Nat → List Nat) (q : SlabList → List Nat) :
    Prop where
  links : Represents sl.links q
  listed : ∀ k, ∀ p ∈ q k, p ∈ sl.pages
  list : ∀ k, ∀ p ∈ q k, k = listFor (fl p)
  detached : ∀ p ∈ sl.pages, Detached q p → sl.refcount p = 0
  page : ∀ p ∈ sl.pages, PageOk cp sl p (fl p)

theorem Slabs.Ok.queues (h : sl.Ok cp fl q) : sl.Queues fl q :=
  ⟨h.links, h.listed, h.list, h.detached⟩

theorem Slabs.Queues.ok
    (h : sl.Queues fl q) (hpage : ∀ p ∈ sl.pages, PageOk cp sl p (fl p)) : sl.Ok cp fl q :=
  ⟨h.links, h.listed, h.list, h.detached, hpage⟩

/-- A buffer that some slab was cut into. -/
def Slabs.Carved (cp : Cache) (sl : Slabs) (b : Nat) : Prop := ∃ p ∈ sl.pages, b ∈ buffers cp sl p

theorem Slabs.carved_congr {sl' : Slabs} (hpages : sl'.pages = sl.pages)
    (hcolor : sl'.colorOf = sl.colorOf) (b : Nat) : sl'.Carved cp b ↔ sl.Carved cp b := by
  simp only [Slabs.Carved, buffers, hpages, hcolor]

variable {sl : Slabs} {fl : Nat → List Nat} {q : SlabList → List Nat}

theorem Slabs.Ok.page_unique (h : sl.Ok cp fl q) (hfit : cp.Fits) (hp : p ∈ sl.pages)
    (hp' : p' ∈ sl.pages) (hb : b ∈ buffers cp sl p) (hb' : b ∈ buffers cp sl p') : p = p' := by
  rw [← (h.page p hp).align_down hfit hb, (h.page p' hp').align_down hfit hb']

theorem Slabs.Ok.apart (h : sl.Ok cp fl q) (hp : p ∈ sl.pages) (hp' : p' ∈ sl.pages)
    (hb : b ∈ buffers cp sl p) (hb' : b' ∈ buffers cp sl p') (hne : b ≠ b') :
    b + cp.chunk_size ≤ b' ∨ b' + cp.chunk_size ≤ b := by
  by_cases hpp : p = p'
  · subst hpp
    exact bufs_apart hb hb' hne
  · have hbound := (h.page p hp).bounds hb
    have hbound' := (h.page p' hp').bounds hb'
    have hpages := pages_apart (h.page p hp).aligned (h.page p' hp').aligned hpp
    omega

theorem Slabs.Ok.word_kept (h : sl.Ok cp fl q) (hfit : cp.Fits)
    (hp : p ∈ sl.pages) (hp' : p' ∈ sl.pages) (hb : b ∈ buffers cp sl p)
    (hb' : b' ∈ buffers cp sl p') (hne : b' ≠ b)
    (hmem : ∀ x, x < b ∨ b + cp.chunk_size ≤ x → mem' x = sl.mem x) :
    read64 mem' (b' + cp.offset) = read64 sl.mem (b' + cp.offset) := by
  have hchunk := hfit.bufctl
  have hapart := h.apart hp hp' hb hb' hne.symm
  exact read64_congr fun x hle hlt => hmem x (by omega)

/-! ### The lists of slabs -/

namespace Slabs

section

variable (h : sl.Queues fl q)

include h

theorem Queues.insert (hp : p ∈ sl.pages) (hdet : Detached q p) (hfl : fl p ≠ []) :
    { sl with links := sl.links.insertTail .slabs p }.Queues fl
      (update q .slabs (q .slabs ++ [p])) where
  links := h.links.insertTail hdet
  listed := fun k x hx => by
    rcases (mem_insertTail q _ _ k x).mp hx with hx | ⟨-, rfl⟩
    · exact h.listed k x hx
    · exact hp
  list := fun k x hx => by
    rcases (mem_insertTail q _ _ k x).mp hx with hx | ⟨rfl, rfl⟩
    · exact h.list k x hx
    · obtain ⟨b, rest, hcons⟩ := List.exists_cons_of_ne_nil hfl
      rw [hcons, listFor]
  detached := fun x hx hd =>
    h.detached x hx fun k hk => hd k ((mem_insertTail q _ _ k x).mpr (.inl hk))

theorem Queues.change {sl' : Slabs}
    (hp : p ∈ q k) (hpages : sl'.pages = sl.pages) (hlinks : Represents sl'.links q')
    (hq : ∀ k x, x ∈ q' k ↔ if x = p then k = listFor l else x ∈ q k)
    (hrest : ∀ x, x ≠ p → sl'.refcount x = sl.refcount x) :
    sl'.Queues (update fl p l) q' ∧ ∀ x, Detached q' x ↔ Detached q x := by
  have hdet : ∀ x, Detached q' x ↔ Detached q x := by
    intro x
    by_cases hx : x = p
    · subst hx
      constructor
      · intro hd
        exact absurd ((hq (listFor l) x).mpr (by rw [if_pos rfl])) (hd _)
      · intro hd
        exact absurd hp (hd k)
    · unfold Detached
      simp only [hq, hx, if_false]
  refine ⟨⟨hlinks, ?_, ?_, ?_⟩, hdet⟩
  · intro k' x hx
    rw [hpages]
    by_cases hxp : x = p
    · rw [hxp]
      exact h.listed k p hp
    · rw [hq, if_neg hxp] at hx
      exact h.listed k' x hx
  · intro k' x hx
    rw [hq] at hx
    by_cases hxp : x = p
    · rw [hxp, update_self]
      rwa [if_pos hxp] at hx
    · rw [update_of_ne hxp]
      rw [if_neg hxp] at hx
      exact h.list k' x hx
  · intro x hx hd
    rw [hpages] at hx
    rw [hdet] at hd
    have hxp : x ≠ p := fun heq => hd k (heq ▸ hp)
    rw [hrest x hxp]
    exact h.detached x hx hd

theorem Queues.mem_iff (hp : p ∈ q k) : p ∈ q k' ↔ k' = listFor (fl p) := by
  constructor
  · exact h.list k' p
  · intro hk
    rw [hk, ← h.list k p hp]
    exact hp

theorem Queues.mem_list_iff (hp : p ∈ q k)
    (hl : listFor l = listFor (fl p)) : x ∈ q k' ↔ if x = p then k' = listFor l else x ∈ q k' := by
  by_cases hx : x = p
  · subst hx
    rw [if_pos rfl, hl]
    exact h.mem_iff hp
  · rw [if_neg hx]

theorem Queues.unlink (hp : p ∈ q .slabs) (hfl : fl p = b :: rest) (hnext : next = 0 ↔ rest = []) :
    ∃ q', (sl.unlink p next).Queues (update fl p rest) q' ∧ ∀ x, Detached q' x ↔ Detached q x := by
  -- the last buffer takes the slab to the other list
  obtain ⟨q', hlinks, hq⟩ : ∃ q', Represents (sl.unlink p next).links q' ∧
      ∀ k x, x ∈ q' k ↔ if x = p then k = listFor rest else x ∈ q k := by
    simp only [Slabs.unlink]
    cases rest with
    | nil =>
      rw [if_pos (hnext.mpr rfl)]
      exact h.links.moveTail hp
    | cons c l =>
      rw [if_neg (fun hz => by cases hnext.mp hz)]
      exact ⟨q, h.links, fun k x => h.mem_list_iff hp (by rw [hfl, listFor, listFor])⟩
  exact ⟨q', h.change hp rfl hlinks hq fun x hx => update_of_ne hx _ _⟩

theorem Queues.link (b bufctl : Nat) (hp : p ∈ sl.pages)
    (hused : 0 < sl.refcount p) (hzero : sl.buflist p = 0 ↔ fl p = []) :
    ∃ q', (sl.link p bufctl).Queues (update fl p (b :: fl p)) q' ∧ p ∈ q' .slabs ∧
      ∀ x, Detached q' x ↔ Detached q x := by
  obtain ⟨k, hk⟩ : ∃ k, p ∈ q k := by
    by_contra hdet
    have hnone := h.detached p hp fun k hk => hdet ⟨k, hk⟩
    omega
  have hlist := h.list k p hk
  obtain ⟨q', hlinks, hq⟩ : ∃ q', Represents (sl.link p bufctl).links q' ∧
      ∀ k x, x ∈ q' k ↔ if x = p then k = listFor (b :: fl p) else x ∈ q k := by
    simp only [Slabs.link]
    cases hfl : fl p with
    | nil =>
      rw [hfl, listFor] at hlist
      rw [if_pos (hzero.mpr hfl)]
      exact h.links.moveHead (hlist ▸ hk)
    | cons c l =>
      rw [if_neg (fun hz => by rw [hzero.mp hz] at hfl; cases hfl)]
      exact ⟨q, h.links, fun k x => h.mem_list_iff hk (by rw [hfl, listFor, listFor])⟩
  obtain ⟨hqueues, hdet⟩ := h.change hk (show (sl.link p bufctl).pages = sl.pages from rfl)
    hlinks hq fun x hx => update_of_ne hx _ _
  refine ⟨q', hqueues, ?_, hdet⟩
  rw [hq, if_pos rfl, listFor]

theorem Queues.slab_destroy (hp : p ∈ q .slabs) :
    (sl.slab_destroy p).Queues fl (update q .slabs ((q .slabs).erase p)) where
  links := h.links.remove hp
  listed := fun k x hx => by
    rw [h.links.mem_remove hp] at hx
    exact Finset.mem_erase.mpr ⟨hx.2, h.listed k x hx.1⟩
  list := fun k x hx => by
    rw [h.links.mem_remove hp] at hx
    exact h.list k x hx.1
  detached := fun x hx hd => by
    obtain ⟨hxp, hx⟩ := Finset.mem_erase.mp hx
    exact h.detached x hx fun k hk => hd k ((h.links.mem_remove hp k x).mpr ⟨hk, hxp⟩)

theorem Queues.create {sl' : Slabs} (l : List Nat) (hnew : p ∉ sl.pages)
    (hlinks : sl'.links = sl.links) (hpages : sl'.pages = Insert.insert p sl.pages)
    (hzero : sl'.refcount p = 0) (hrest : ∀ x, x ≠ p → sl'.refcount x = sl.refcount x) :
    sl'.Queues (update fl p l) q := by
  have hold : ∀ x ∈ sl.pages, x ≠ p := fun x hx heq => hnew (heq ▸ hx)
  refine ⟨hlinks ▸ h.links, ?_, ?_, ?_⟩
  · intro k x hx
    rw [hpages]
    exact Finset.mem_insert_of_mem (h.listed k x hx)
  · intro k x hx
    rw [update_of_ne (hold x (h.listed k x hx))]
    exact h.list k x hx
  · intro x hx hdet
    rw [hpages] at hx
    rcases Finset.mem_insert.mp hx with rfl | hx
    · exact hzero
    · rw [hrest x (hold x hx)]
      exact h.detached x hx hdet

end

end Slabs

/-! ### Creating a slab -/

theorem nextColor_le (cp : Cache) (color : Nat) : nextColor cp color ≤ cp.maxcolor := by
  unfold nextColor
  split <;> omega

theorem Cache.Fits.nextColor_le (hfit : cp.Fits) (color : Nat) :
    nextColor cp color ≤ PAGE_SIZE - SIZEOF_KMEM_SLAB := by
  have hle := Slab.nextColor_le cp color
  have hmod := Nat.mod_le (PAGE_SIZE - SIZEOF_KMEM_SLAB) cp.chunk_size
  have hmax := hfit.maxcolor
  omega

section
variable (cp : Cache) (sl : Slabs) (page : Nat)

/-- The slab layer with a new slab, from what its loop leaves: the memory and
`ret->buflist`. -/
def Slabs.withSlab (carved : Mem × Nat) : Slabs :=
  { sl with
    mem := carved.1
    color := nextColor cp sl.color
    refcount := update sl.refcount page 0
    buflist := update sl.buflist page carved.2
    pages := insert page sl.pages
    colorOf := update sl.colorOf page (nextColor cp sl.color) }

@[simp] theorem Slabs.withSlab_buflist (carved : Mem × Nat) :
    (sl.withSlab cp page carved).buflist page = carved.2 := update_self _ _ _

theorem buffers_withSlab (carved : Mem × Nat) : buffers cp (sl.withSlab cp page carved) page =
      bufs cp (page + nextColor cp sl.color) (capacity cp (nextColor cp sl.color)) := by
  simp [buffers, Slabs.withSlab]

end

theorem Slabs.Ok.withSlab (h : sl.Ok cp fl q) (hfit : cp.Fits) (hfresh : Fresh sl page)
    (hchain : Chain carved.1 carved.2 ((bufs cp (page + nextColor cp sl.color) (capacity cp
      (nextColor cp sl.color))).map (· + cp.offset)))
    (hmem : ∀ x, x < page ∨ page + PAGE_SIZE ≤ x → carved.1 x = sl.mem x) :
    (sl.withSlab cp page carved).Ok cp
      (update fl page (buffers cp (sl.withSlab cp page carved) page)) q := by
  have hchunk := hfit.bufctl
  have hcolor := hfit.nextColor_le sl.color
  have hqueues := h.queues.create (buffers cp (sl.withSlab cp page carved) page) hfresh.unused
    (show (sl.withSlab cp page carved).links = sl.links from rfl) rfl
    (update_self _ _ _) fun x hx => update_of_ne hx _ _
  refine hqueues.ok fun p hp => ?_
  rcases Finset.mem_insert.mp hp with rfl | hp
  · rw [update_self, buffers_withSlab]
    refine ⟨hfresh.aligned, hfresh.pos, hfresh.le, ?_, ?_, ?_, fun b hb => ?_, ?_⟩
    · simpa [Slabs.withSlab] using hcolor
    · simpa [Slabs.withSlab] using hchain
    · exact bufs_nodup hfit.pos _ _
    · rwa [buffers_withSlab]
    · rw [length_bufs]
      simp [Slabs.withSlab]
  · have hne : p ≠ page := fun heq => hfresh.unused (heq ▸ hp)
    rw [update_of_ne hne]
    apply (h.page p hp).congr
    · intro b hb
      have hbound := (h.page p hp).bounds ((h.page p hp).free b hb)
      have hpages := pages_apart (h.page p hp).aligned hfresh.aligned hne
      exact read64_congr fun x hxle hxlt => hmem x (by omega)
    all_goals exact update_of_ne hne _ _

theorem Slabs.Ok.insert (h : sl.Ok cp fl q) (hp : p ∈ sl.pages) (hdet : Detached q p)
    (hfl : fl p ≠ []) : { sl with links := sl.links.insertTail .slabs p }.Ok cp fl
      (update q .slabs (q .slabs ++ [p])) :=
  (h.queues.insert hp hdet hfl).ok fun x hx => (h.page x hx).congr (fun _ _ => rfl) rfl rfl rfl

theorem Slabs.Ok.takeBuf (h : sl.Ok cp fl q) (hfit : cp.Fits) (hp : p ∈ q .slabs) :
    ∃ sl' rest q', sl.takeBuf p = some sl' ∧ fl p = sl.firstBuf cp p :: rest ∧
      sl'.Ok cp (update fl p rest) q' ∧ (∀ x, Detached q' x ↔ Detached q x) ∧
      sl'.pages = sl.pages ∧ sl'.colorOf = sl.colorOf := by
  have hchunk := hfit.bufctl
  have hpage := h.page p (h.listed _ p hp)
  have hlist := h.list _ p hp
  cases hfl : fl p with
  | nil =>
    rw [hfl] at hlist
    cases hlist
  | cons b rest =>
    rw [hfl] at hpage
    obtain ⟨hhead, hne, hrest⟩ := hpage.chain
    have hhead : sl.buflist p = b + cp.offset := hhead
    have hbound := hpage.bounds (hpage.free b (by simp))
    have hle := hpage.le
    have hbuf : sl.firstBuf cp p = b := by
      have heq : sl.buflist p + W - cp.offset = b + W := by
        rw [hhead]
        omega
      rw [Slabs.firstBuf, heq, Nat.add_mod_right]
      exact Nat.mod_eq_of_lt (by omega)
    have hzero : read64 sl.mem (sl.buflist p) = 0 ↔ rest = [] := by
      rw [hhead, hrest.eq_nil_iff, List.map_eq_nil_iff]
    obtain ⟨q', hqueues, hdet⟩ := h.queues.unlink hp hfl hzero
    change (sl.popBuf p).Queues _ q' at hqueues
    have hcount := hpage.count
    have hcap := capacity_lt cp (sl.colorOf p)
    rw [List.length_cons] at hcount
    have hpage' : PageOk cp (sl.popBuf p) p rest :=
      { aligned := hpage.aligned
        pos := hpage.pos
        le := hpage.le
        color := hpage.color
        chain := by
          simp only [Slabs.popBuf, Slabs.unlink, update_self]
          rw [hhead]
          exact hrest
        nodup := (List.nodup_cons.mp hpage.nodup).2
        free := fun x hx => hpage.free x (by simp [hx])
        count := by
          simp only [Slabs.popBuf, Slabs.unlink, update_self]
          rw [Nat.mod_eq_of_lt (by omega)]
          omega }
    have hok : (sl.popBuf p).Ok cp (update fl p rest) q' := by
      refine hqueues.ok fun x hx => ?_
      by_cases hxp : x = p
      · rw [hxp, update_self]
        exact hpage'
      · rw [update_of_ne hxp]
        exact (h.page x hx).congr (fun _ _ => rfl) (update_of_ne hxp _ _) (update_of_ne hxp _ _) rfl
    refine ⟨sl.popBuf p, rest, q', ?_, by rw [hbuf], hok, hdet, rfl, rfl⟩
    rw [Slabs.takeBuf, if_neg (hhead ▸ hne)]

/-! ### Putting a buffer back -/

theorem PageOk.refcount_pos (h : PageOk cp sl page l) (hb : b ∈ buffers cp sl page) (hnot : b ∉ l) :
    0 < sl.refcount page := by
  have hnodup : (b :: l).Nodup := List.nodup_cons.mpr ⟨hnot, h.nodup⟩
  have hsub : b :: l ⊆ buffers cp sl page := List.cons_subset.mpr ⟨hb, h.free⟩
  have hle := (List.subperm_of_subset hnodup hsub).length_le
  rw [buffers, length_bufs, List.length_cons] at hle
  have hcount := h.count
  omega

theorem Slabs.Ok.putBuf (h : sl.Ok cp fl q) (hfit : cp.Fits) (hp : p ∈ sl.pages)
    (hb : b ∈ buffers cp sl p) (hnot : b ∉ fl p) :
    ∃ q', (sl.putBuf cp p b).Ok cp (update fl p (b :: fl p)) q' ∧ p ∈ q' .slabs ∧
      ∀ x, Detached q' x ↔ Detached q x := by
  have hchunk := hfit.bufctl
  have hpage := h.page p hp
  have hbound := hpage.bounds hb
  have hle := hpage.le
  have hpos := hpage.pos
  have hused := hpage.refcount_pos hb hnot
  have hcount := hpage.count
  have hcap := capacity_lt cp (sl.colorOf p)
  have hbufctl : (b + cp.offset) % W = b + cp.offset := Nat.mod_eq_of_lt (by omega)
  have hzero : sl.buflist p = 0 ↔ fl p = [] := by
    rw [hpage.chain.eq_nil_iff, List.map_eq_nil_iff]
  obtain ⟨q', hqueues, hlist, hdet⟩ := h.queues.link b ((b + cp.offset) % W) hp hused hzero
  have hpage' : PageOk cp (sl.putBuf cp p b) p (b :: fl p) :=
    { aligned := hpage.aligned
      pos := hpage.pos
      le := hpage.le
      color := hpage.color
      chain := by
        simp only [Slabs.putBuf, Slabs.link, update_self, hbufctl]
        apply hpage.chain.push (by omega)
        · exact hpage.buflist_lt hfit
        · intro x hx
          obtain ⟨b', hb', rfl⟩ := List.mem_map.mp hx
          have hne : b ≠ b' := fun heq => hnot (heq ▸ hb')
          have hapart := h.apart hp hp hb (hpage.free b' hb') hne
          omega
      nodup := List.nodup_cons.mpr ⟨hnot, hpage.nodup⟩
      free := fun x hx => by
        rcases List.mem_cons.mp hx with rfl | hx
        · exact hb
        · exact hpage.free x hx
      count := by
        simp only [Slabs.putBuf, Slabs.link, update_self]
        have heq : sl.refcount p + W - 1 = (sl.refcount p - 1) + W := by omega
        rw [heq, Nat.add_mod_right, Nat.mod_eq_of_lt (by omega), List.length_cons]
        omega }
  have hqueues' : (sl.putBuf cp p b).Queues (update fl p (b :: fl p)) q' :=
    ⟨hqueues.links, hqueues.listed, hqueues.list, hqueues.detached⟩
  refine ⟨q', hqueues'.ok fun x hx => ?_, hlist, hdet⟩
  by_cases hxp : x = p
  · rw [hxp, update_self]
    exact hpage'
  · rw [update_of_ne hxp]
    have hx : x ∈ sl.pages := hx
    apply (h.page x hx).congr
    · intro b' hb'
      have hfree := (h.page x hx).free b' hb'
      have hne : b' ≠ b := fun heq => hxp (h.page_unique hfit hx hp (heq ▸ hfree) hb)
      apply h.word_kept hfit hp hx hb hfree hne
      intro y hy
      exact write64_outside (by rw [hbufctl]; omega)
    · exact update_of_ne hxp _ _
    · exact update_of_ne hxp _ _
    · rfl

theorem PageOk.all_free (h : PageOk cp sl page l) (hzero : sl.refcount page = 0)
    (hb : b ∈ buffers cp sl page) : b ∈ l := by
  by_contra hnot
  have hpos := h.refcount_pos hb hnot
  omega

theorem Slabs.Ok.slab_destroy (h : sl.Ok cp fl q) (hp : p ∈ q .slabs) :
    (sl.slab_destroy p).Ok cp fl (update q .slabs ((q .slabs).erase p)) :=
  (h.queues.slab_destroy hp).ok fun x hx =>
    (h.page x (Finset.mem_of_mem_erase hx)).congr (fun _ _ => rfl) rfl rfl rfl

theorem Slabs.Ok.write (h : sl.Ok cp fl q) (hfit : cp.Fits) (hp : p ∈ sl.pages)
    (hb : b ∈ buffers cp sl p) (hnot : b ∉ fl p)
    (hmem : ∀ x, x < b ∨ b + cp.object_size ≤ x → mem' x = sl.mem x) :
    { sl with mem := mem' }.Ok cp fl q where
  links := h.links
  listed := h.listed
  list := h.list
  detached := h.detached
  page := fun x hx => by
    have hobject := hfit.object
    apply (h.page x hx).congr
    · intro b' hb'
      have hfree := (h.page x hx).free b' hb'
      have hne : b' ≠ b := by
        intro heq
        have hxp := h.page_unique hfit hx hp (heq ▸ hfree) hb
        exact hnot (hxp ▸ heq ▸ hb')
      apply h.word_kept hfit hp hx hb hfree hne
      intro y hy
      exact hmem y (by omega)
    all_goals rfl

end Slab
