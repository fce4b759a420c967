import Dufay.Mm.Init

/-! # The metadata of the physical allocator

`pmm_init` of `mm/physical.c` reserves the structs and the bitmaps of all
usable entries in one sum and carves that many bytes, rounded up to a
page, out of an entry. It then places a module after the other, each
rounded up to the size of a struct. The reservation has nothing for that
rounding: it fits only as long as the padding stays within the slack of
the last page.

`place` is the placement over the natural numbers. The addresses that
`pmm_init` computes are these, modulo the number of 64-bit words.
-/

open Memory Size

namespace Pmm

/-! ### Placement over the natural numbers -/

/-- Where the metadata of a module is: its struct at `start`, and its bitmap
two structs further. -/
structure Place where
  start : Nat
  bitmap_size : Nat
  deriving DecidableEq

/-- The bytes of the struct and of the bitmap. -/
def Place.Byte (sizeof : Nat) (p : Place) (u : Nat) : Prop := (p.start ≤ u ∧ u < p.start + sizeof) ∨
    (p.start + sizeof * 2 ≤ u ∧ u < p.start + sizeof * 2 + p.bitmap_size)

def Place.behind (sizeof : Nat) (p : Place) : Nat := p.start + sizeof * 2 + p.bitmap_size

/-- The place of the module of one entry, from `pos` on. -/
def placeOne (sizeof : Nat) (e : MemmapEntry) (pos : Nat) : Place :=
  ⟨roundUp sizeof pos, DIV_ROUNDUP (DIV_ROUNDUP e.length PAGE_SIZE) 8⟩

/-- The places of the modules of some entries. -/
def place (sizeof : Nat) : List MemmapEntry → Nat → List Place
  | [], _ => []
  | e :: rest, pos =>
    placeOne sizeof e pos :: place sizeof rest ((placeOne sizeof e pos).behind sizeof)

/-- The address behind all of them. -/
def placeEnd (sizeof : Nat) : List MemmapEntry → Nat → Nat
  | [], pos => pos
  | e :: rest, pos => placeEnd sizeof rest ((placeOne sizeof e pos).behind sizeof)

/-! ### The bytes of a placement -/

section Placement

variable {sizeof : Nat} {l : List MemmapEntry} {pos : Nat}

theorem le_behind (hs : 0 < sizeof) (e : MemmapEntry) (pos : Nat) :
    pos ≤ (placeOne sizeof e pos).start ∧ (placeOne sizeof e pos).start < pos + sizeof ∧
      (placeOne sizeof e pos).start ≤ (placeOne sizeof e pos).behind sizeof := by
  obtain ⟨hle, hlt⟩ := le_roundUp hs pos
  refine ⟨hle, hlt, ?_⟩
  unfold Place.behind
  omega

theorem le_placeEnd (hs : 0 < sizeof) : ∀ (l : List MemmapEntry) (pos : Nat),
    pos ≤ placeEnd sizeof l pos := by
  intro l
  induction l with
  | nil => exact fun pos => le_rfl
  | cons e rest ih =>
    intro pos
    have hone := le_behind hs e pos
    have hrest := ih ((placeOne sizeof e pos).behind sizeof)
    rw [placeEnd]
    omega

theorem byte_bounds (hs : 0 < sizeof) : ∀ {l : List MemmapEntry} {pos : Nat} {p : Place} {u : Nat},
    p ∈ place sizeof l pos → p.Byte sizeof u → pos ≤ u ∧ u < placeEnd sizeof l pos := by
  intro l
  induction l with
  | nil =>
    intro pos p u hp _
    cases hp
  | cons e rest ih =>
    intro pos p u hp hu
    have hone := le_behind hs e pos
    rw [placeEnd]
    rcases List.mem_cons.mp hp with rfl | hp
    · have hend := le_placeEnd hs rest ((placeOne sizeof e pos).behind sizeof)
      unfold Place.Byte at hu
      unfold Place.behind at hend hone ⊢
      omega
    · have hrest := ih hp hu
      omega

/-- An entry with a bitmap. -/
def HasBitmap (e : MemmapEntry) : Prop := 0 < DIV_ROUNDUP (DIV_ROUNDUP e.length PAGE_SIZE) 8

theorem exists_byte (hs : 0 < sizeof) : ∀ {l : List MemmapEntry} {pos x : Nat},
    (∀ e ∈ l, HasBitmap e) → pos ≤ x → x < placeEnd sizeof l pos →
    ∃ p ∈ place sizeof l pos, ∃ u, p.Byte sizeof u ∧ x ≤ u ∧ u < x + sizeof * 2 := by
  intro l
  induction l with
  | nil =>
    intro pos x _ hle hlt
    exact absurd hlt (Nat.not_lt.mpr hle)
  | cons e rest ih =>
    intro pos x hbitmap hle hlt
    obtain ⟨hpos, hpad, -⟩ := le_behind hs e pos
    have hsize : 0 < (placeOne sizeof e pos).bitmap_size := hbitmap e (List.mem_cons_self ..)
    by_cases hx : x < (placeOne sizeof e pos).behind sizeof
    · have hbyte : ∃ u, (placeOne sizeof e pos).Byte sizeof u ∧ x ≤ u ∧ u < x + sizeof * 2 := by
        unfold Place.behind at hx
        unfold Place.Byte
        generalize placeOne sizeof e pos = p at *
        by_cases h1 : x < p.start
        · exact ⟨p.start, by omega, by omega, by omega⟩
        by_cases h2 : x < p.start + sizeof
        · exact ⟨x, by omega, by omega, by omega⟩
        by_cases h3 : x < p.start + sizeof * 2
        · exact ⟨p.start + sizeof * 2, by omega, by omega, by omega⟩
        · exact ⟨x, by omega, by omega, by omega⟩
      obtain ⟨u, hu, hxu, hux⟩ := hbyte
      exact ⟨placeOne sizeof e pos, List.mem_cons_self .., u, hu, hxu, hux⟩
    · obtain ⟨p, hp, hu⟩ := ih (fun e he => hbitmap e (List.mem_cons_of_mem _ he))
        (Nat.not_lt.mp hx) hlt
      exact ⟨p, List.mem_cons_of_mem _ hp, hu⟩

/-- **When the bytes lie in a region**: if they all do, as 64-bit addresses,
the placement ends inside the region and below the top of the address
space. A byte behind the end would be outside, or wrap to the first
addresses, which are in no region. -/
theorem placeEnd_le_of_inside (hs : 0 < sizeof) (hs64 : sizeof ≤ 64)
    (hlow : size ≠ 0 → 192 ≤ base) : ∀ {l : List MemmapEntry} {pos : Nat},
    (∀ e ∈ l, HasBitmap e) → pos ≤ base + size → pos ≤ W →
    (∀ p ∈ place sizeof l pos, ∀ u, p.Byte sizeof u → base ≤ u % W ∧ u % W < base + size) →
    placeEnd sizeof l pos ≤ base + size ∧ placeEnd sizeof l pos ≤ W := by
  intro l
  induction l with
  | nil =>
    intro pos _ hpos hposW _
    exact ⟨hpos, hposW⟩
  | cons e rest ih =>
    intro pos hbitmap hpos hposW hinside
    obtain ⟨-, hpad, -⟩ := le_behind hs e pos
    have hsize : 0 < (placeOne sizeof e pos).bitmap_size := hbitmap e (List.mem_cons_self ..)
    have hbyte := hinside (placeOne sizeof e pos) (List.mem_cons_self ..)
    -- no byte from the end of the region on, up to three structs further
    have hno : ∀ u, base + size ≤ u ∨ W ≤ u → u < base + size + 192 → u < W + 192 →
        ¬ (placeOne sizeof e pos).Byte sizeof u := by
      intro u hout hnear hnearW hu
      obtain ⟨hge, hlt⟩ := hbyte u hu
      have hW : 192 ≤ W := by
        rw [W_eq]
        decide
      by_cases huW : u < W
      · rw [Nat.mod_eq_of_lt huW] at hlt
        omega
      · rw [Nat.mod_eq_sub_mod (Nat.not_lt.mp huW), Nat.mod_eq_of_lt (by omega)] at hge
        omega
    have hbehind : (placeOne sizeof e pos).behind sizeof ≤ base + size ∧
        (placeOne sizeof e pos).behind sizeof ≤ W := by
      generalize placeOne sizeof e pos = p at *
      unfold Place.behind
      unfold Place.Byte at hno
      by_contra hcon
      -- the first byte of the bitmap that is not before the end
      by_cases hfirst : p.start + sizeof * 2 ≤ base + size ∧ p.start + sizeof * 2 ≤ W
      · exact hno (min (base + size) W) (by omega) (by omega) (by omega) (by omega)
      · exact hno (p.start + sizeof * 2) (by omega) (by omega) (by omega) (by omega)
    refine ih (fun e he => hbitmap e (List.mem_cons_of_mem _ he)) hbehind.1 hbehind.2 ?_
    intro p hp u hu
    exact hinside p (List.mem_cons_of_mem _ hp) u hu

end Placement

/-! ### What `pmm_init` computes -/

variable {sizeof HIGH_VMA : Nat} {mmap : List MemmapEntry} {mem : Mem}

theorem P2V_add : (P2V HIGH_VMA x + k) % W = P2V HIGH_VMA (x + k) := by
  unfold P2V
  rw [Nat.mod_add_mod]
  congr 1
  omega

theorem P2V_add_W : P2V HIGH_VMA (x + W) = P2V HIGH_VMA x := by
  unfold P2V
  rw [show x + W + HIGH_VMA = x + HIGH_VMA + W from by omega, Nat.add_mod_right]

theorem P2V_sub (hvma : HIGH_VMA ≤ W) : (P2V HIGH_VMA x + W - HIGH_VMA) % W = x % W := by
  unfold P2V
  rw [Nat.add_sub_assoc hvma, Nat.mod_add_mod,
    show x + HIGH_VMA + (W - HIGH_VMA) = x + W from by omega, Nat.add_mod_right]

theorem mod_eq_of_P2V (h : P2V HIGH_VMA x = P2V HIGH_VMA y) : x % W = y % W :=
  Nat.ModEq.add_right_cancel' HIGH_VMA h

/-- What `pmm_init_module` is given for a place. -/
structure AtPlace (sizeof HIGH_VMA : Nat) (m : PmmModule) (p : Place) : Prop where
  bitmap : m.bitmap = P2V HIGH_VMA (p.start + sizeof * 2)
  bitmap_size : m.bitmap_size = p.bitmap_size

theorem makeModule_place (hs : 0 < sizeof) (hsW : sizeof ∣ W) (hlt : sizeof < W)
    (hvma : HIGH_VMA ≤ W) :
    AtPlace sizeof HIGH_VMA (makeModule sizeof HIGH_VMA e (P2V HIGH_VMA pos) mem).1
        (placeOne sizeof e pos) ∧
      (makeModule sizeof HIGH_VMA e (P2V HIGH_VMA pos) mem).2.1 =
        P2V HIGH_VMA ((placeOne sizeof e pos).behind sizeof) := by
  have hmeta : (ALIGN_UP ((P2V HIGH_VMA pos + W - HIGH_VMA) % W) sizeof + HIGH_VMA) % W =
      P2V HIGH_VMA (roundUp sizeof pos) := by
    rw [P2V_sub hvma, ALIGN_UP_mod hs hsW hlt, Nat.mod_add_mod, P2V]
  have hbitmap : (makeModule sizeof HIGH_VMA e (P2V HIGH_VMA pos) mem).1.bitmap =
      P2V HIGH_VMA (roundUp sizeof pos + sizeof * 2) := by
    show ((ALIGN_UP ((P2V HIGH_VMA pos + W - HIGH_VMA) % W) sizeof + HIGH_VMA) % W + sizeof * 2) % W
      = _
    rw [hmeta, P2V_add]
  refine ⟨⟨hbitmap, rfl⟩, ?_⟩
  show ((makeModule sizeof HIGH_VMA e (P2V HIGH_VMA pos) mem).1.bitmap +
    DIV_ROUNDUP (DIV_ROUNDUP e.length PAGE_SIZE) 8) % W = _
  rw [hbitmap, P2V_add]
  rfl

/-- **The modules are at their places**, in 64-bit arithmetic. -/
theorem makeModules_places (hs : 0 < sizeof) (hsW : sizeof ∣ W) (hlt : sizeof < W)
    (hvma : HIGH_VMA ≤ W) : ∀ (l : List MemmapEntry) (pos : Nat) (mem : Mem),
    List.Forall₂ (AtPlace sizeof HIGH_VMA) (makeModules sizeof HIGH_VMA l (P2V HIGH_VMA pos) mem).1
      (place sizeof (l.filter managed) pos) := by
  intro l
  induction l with
  | nil => exact fun pos mem => .nil
  | cons e rest ih =>
    intro pos mem
    rw [makeModules]
    by_cases he : e.type = .USABLE ∧ e.length ≠ 0
    · have hmanaged : managed e = true := decide_eq_true he
      obtain ⟨hplace, hnext⟩ := makeModule_place hs hsW hlt hvma
      rw [if_pos he, List.filter_cons_of_pos hmanaged, place]
      dsimp only
      rw [hnext]
      exact .cons hplace (ih _ _)
    · have hmanaged : ¬ managed e = true := fun h => he (of_decide_eq_true h)
      rw [if_neg he, List.filter_cons_of_neg hmanaged]
      exact ih pos mem

/-- The physical address `t` is a byte of the struct or of the bitmap of a
module. The struct is two structs in front of the bitmap. -/
def MetadataByte (sizeof HIGH_VMA : Nat) (m : PmmModule) (t : Nat) : Prop :=
  t < W ∧ ((∃ k < sizeof, P2V HIGH_VMA t = (m.bitmap + (W - sizeof * 2) + k) % W) ∨
    ∃ k < m.bitmap_size, P2V HIGH_VMA t = (m.bitmap + k) % W)

theorem metadataByte_iff (hs64 : sizeof ≤ 64) (h : AtPlace sizeof HIGH_VMA m p) :
    MetadataByte sizeof HIGH_VMA m t ↔ ∃ u, p.Byte sizeof u ∧ t = u % W := by
  have hW : sizeof * 2 ≤ W := by
    rw [W_eq]
    omega
  have hstruct : ∀ k, (m.bitmap + (W - sizeof * 2) + k) % W = P2V HIGH_VMA (p.start + k) := by
    intro k
    rw [h.bitmap, Nat.add_assoc, P2V_add,
      show p.start + sizeof * 2 + (W - sizeof * 2 + k) = p.start + k + W from by omega, P2V_add_W]
  have hbitmap : ∀ k, (m.bitmap + k) % W = P2V HIGH_VMA (p.start + sizeof * 2 + k) := by
    intro k
    rw [h.bitmap, P2V_add]
  constructor
  · rintro ⟨htW, ⟨k, hk, heq⟩ | ⟨k, hk, heq⟩⟩
    · rw [hstruct] at heq
      refine ⟨p.start + k, .inl (by omega), ?_⟩
      rw [← mod_eq_of_P2V heq, Nat.mod_eq_of_lt htW]
    · rw [hbitmap] at heq
      rw [h.bitmap_size] at hk
      refine ⟨p.start + sizeof * 2 + k, .inr (by omega), ?_⟩
      rw [← mod_eq_of_P2V heq, Nat.mod_eq_of_lt htW]
  · rintro ⟨u, hu, rfl⟩
    have hmod : P2V HIGH_VMA (u % W) = P2V HIGH_VMA u := by
      unfold P2V
      rw [Nat.mod_add_mod]
    refine ⟨Nat.mod_lt u W_pos, ?_⟩
    rcases hu with ⟨hle, hlt⟩ | ⟨hle, hlt⟩
    · refine .inl ⟨u - p.start, by omega, ?_⟩
      rw [hstruct, hmod, show p.start + (u - p.start) = u from by omega]
    · refine .inr ⟨u - (p.start + sizeof * 2), by rw [h.bitmap_size]; omega, ?_⟩
      rw [hbitmap, hmod, show p.start + sizeof * 2 + (u - (p.start + sizeof * 2)) = u from by omega]

/-! ### Bitmaps -/

variable {e : MemmapEntry}

theorem hasBitmap_of_pages (hlength : PAGE_SIZE ∣ e.length) (hlengthW : e.length < W)
    (hne : e.length ≠ 0) : HasBitmap e := by
  obtain ⟨q, hq⟩ := hlength
  have hW := W_eq
  have hpage : PAGE_SIZE = 4096 := rfl
  rw [hpage] at hq
  have hpages : DIV_ROUNDUP e.length PAGE_SIZE = q := by
    rw [hpage, hq, Nat.mul_comm]
    exact DIV_ROUNDUP_mul (by decide) (by omega)
  rw [HasBitmap, hpages, DIV_ROUNDUP_eq (by decide) (by omega)]
  omega

/-! ### Modules and metadata -/

theorem metadata_iff_place (hs : 0 < sizeof) (hs64 : sizeof ≤ 64) (hsW : sizeof ∣ W)
    (hvma : HIGH_VMA ≤ W) {pos : Nat} (hpos : (prepare sizeof HIGH_VMA mmap).2 = P2V HIGH_VMA pos)
    (t : Nat) : (∃ m ∈ (pmm_init sizeof HIGH_VMA mmap mem).1, MetadataByte sizeof HIGH_VMA m t) ↔
      ∃ p ∈ place sizeof (managedEntries sizeof HIGH_VMA mmap) pos, ∃ u,
        p.Byte sizeof u ∧ t = u % W := by
  have hlt : sizeof < W := by
    rw [W_eq]
    omega
  have hplaces : List.Forall₂ (AtPlace sizeof HIGH_VMA) (pmm_init sizeof HIGH_VMA mmap mem).1
      (place sizeof (managedEntries sizeof HIGH_VMA mmap) pos) := by
    have h := makeModules_places hs hsW hlt hvma (prepare sizeof HIGH_VMA mmap).1 pos mem
    rw [← hpos] at h
    exact h
  constructor
  · rintro ⟨m, hm, hbyte⟩
    obtain ⟨p, hp, hat⟩ := exists_of_mem_forall₂ hplaces.flip hm
    exact ⟨p, hp, (metadataByte_iff hs64 hat).mp hbyte⟩
  · rintro ⟨p, hp, hbyte⟩
    obtain ⟨m, hm, hat⟩ := exists_of_mem_forall₂ hplaces hp
    exact ⟨m, hm, (metadataByte_iff hs64 hat).mpr hbyte⟩

theorem managed_iff_entry (hpage : PageAligned mmap) :
    (∃ m ∈ (pmm_init sizeof HIGH_VMA mmap mem).1, m.mmap_entry.base ≤ t ∧ t < m.limit) ↔
      ∃ e ∈ managedEntries sizeof HIGH_VMA mmap, e.base ≤ t ∧ t < e.base + e.length := by
  have hentries := (@makeModules_entries sizeof HIGH_VMA
    (prepare sizeof HIGH_VMA mmap).1 (prepare sizeof HIGH_VMA mmap).2 mem).1
  constructor
  · rintro ⟨m, hm, hle, hlt⟩
    obtain ⟨hin, heq⟩ := module_entry hpage hm
    exact ⟨m.mmap_entry, hin, hle, by omega⟩
  · rintro ⟨e, he, hle, hlt⟩
    rw [managedEntries, ← hentries] at he
    obtain ⟨m, hm, rfl⟩ := List.mem_map.mp he
    obtain ⟨-, heq⟩ := module_entry hpage hm
    exact ⟨m, hm, hle, by omega⟩

/-- **The metadata fits**: every byte of a struct or of a bitmap lies in the
pages that were carved out for them, and in no page of a module. -/
structure MetadataFits (sizeof HIGH_VMA : Nat) (mmap : List MemmapEntry) (mem : Mem) : Prop where
  inside : ∀ m ∈ (pmm_init sizeof HIGH_VMA mmap mem).1, ∀ t, MetadataByte sizeof HIGH_VMA m t →
    ∃ e, holder sizeof mmap = some e ∧ e.base ≤ t ∧
      t < e.base + roundUp PAGE_SIZE (reserved sizeof mmap)
  apart : ∀ m ∈ (pmm_init sizeof HIGH_VMA mmap mem).1, ∀ t, MetadataByte sizeof HIGH_VMA m t →
    ¬ ∃ m' ∈ (pmm_init sizeof HIGH_VMA mmap mem).1, m'.mmap_entry.base ≤ t ∧ t < m'.limit

/-- The structs and bitmaps of the entries that get a module, one after the
other and each rounded up to the size of a struct, end within the
reservation, and no such entry overlaps them. -/
def Room (sizeof HIGH_VMA : Nat) (mmap : List MemmapEntry) : Prop :=
  managedEntries sizeof HIGH_VMA mmap = [] ∨
  ∃ e, holder sizeof mmap = some e ∧ placeEnd sizeof (managedEntries sizeof HIGH_VMA mmap) e.base ≤
      e.base + roundUp PAGE_SIZE (reserved sizeof mmap) ∧
    placeEnd sizeof (managedEntries sizeof HIGH_VMA mmap) e.base ≤ W ∧
    ∀ e' ∈ managedEntries sizeof HIGH_VMA mmap, e'.base + e'.length ≤ e.base ∨
      placeEnd sizeof (managedEntries sizeof HIGH_VMA mmap) e.base ≤ e'.base

theorem page_in_entry (hbase : PAGE_SIZE ∣ e.base) (hlength : PAGE_SIZE ∣ e.length)
    (hx : PAGE_SIZE ∣ x) (hlt : x < e.base + e.length) : x + PAGE_SIZE ≤ e.base + e.length := by
  unfold PAGE_SIZE at *
  omega

theorem exists_byte_in_entry (hs : 0 < sizeof) (hs64 : sizeof ≤ 64)
    (hbitmap : ∀ e ∈ l, HasBitmap e) (hpos : PAGE_SIZE ∣ pos) (he : e ∈ l)
    (hbase : PAGE_SIZE ∣ e.base) (hlength : PAGE_SIZE ∣ e.length) (hne : e.length ≠ 0)
    (hend : pos < e.base + e.length) (hstart : e.base < placeEnd sizeof l pos) :
    ∃ p ∈ place sizeof l pos, ∃ u, p.Byte sizeof u ∧ e.base ≤ u ∧ u < e.base + e.length := by
  have hnonempty : pos < placeEnd sizeof l pos := by
    cases l with
    | nil => cases he
    | cons e₀ rest =>
      have hfirst : (placeOne sizeof e₀ pos).Byte sizeof (placeOne sizeof e₀ pos).start :=
        Or.inl ⟨le_rfl, by omega⟩
      have hmem : placeOne sizeof e₀ pos ∈ place sizeof (e₀ :: rest) pos := List.mem_cons_self ..
      have hbounds := byte_bounds hs hmem hfirst
      exact Nat.lt_of_le_of_lt hbounds.1 hbounds.2
  -- the first page of the entry that is not before the placement
  have hx : PAGE_SIZE ∣ max pos e.base := by
    rcases max_choice pos e.base with h | h <;> rw [h] <;> assumption
  have hpage := page_in_entry hbase hlength hx (by omega)
  obtain ⟨p, hp, u, hu, hle, hlt⟩ := exists_byte hs hbitmap (le_max_left pos e.base) (by omega)
  have hsize : PAGE_SIZE = 4096 := rfl
  exact ⟨p, hp, u, hu, by omega, by omega⟩

theorem prepare_of_holder (he : holder sizeof mmap = some e) :
    (prepare sizeof HIGH_VMA mmap).2 = P2V HIGH_VMA e.base := by
  rw [prepare_snd, he]
  rfl

section Fits

variable (hs : 0 < sizeof) (hs64 : sizeof ≤ 64) (hsW : sizeof ∣ W) (hvma : HIGH_VMA ≤ W)
  (hpage : PageAligned mmap)

include hs hs64 hsW hvma

theorem MetadataFits.holder (h : MetadataFits sizeof HIGH_VMA mmap mem)
    (hne : managedEntries sizeof HIGH_VMA mmap ≠ []) : ∃ e, Pmm.holder sizeof mmap = some e := by
  by_contra hnone
  have hprep : (prepare sizeof HIGH_VMA mmap).2 = P2V HIGH_VMA (W - HIGH_VMA) := by
    rw [prepare_snd, Option.eq_none_iff_forall_ne_some.mpr fun e he => hnone ⟨e, he⟩, P2V,
      Nat.sub_add_cancel hvma, Nat.mod_self]
    rfl
  obtain ⟨e₀, rest, hcons⟩ := List.exists_cons_of_ne_nil hne
  have hfirst : (placeOne sizeof e₀ (W - HIGH_VMA)).Byte sizeof
      (placeOne sizeof e₀ (W - HIGH_VMA)).start := Or.inl ⟨le_rfl, by omega⟩
  have hplace : placeOne sizeof e₀ (W - HIGH_VMA) ∈
      place sizeof (managedEntries sizeof HIGH_VMA mmap) (W - HIGH_VMA) := by
    rw [hcons]
    exact List.mem_cons_self ..
  obtain ⟨m, hm, hmeta⟩ := (@metadata_iff_place sizeof HIGH_VMA mmap mem hs hs64 hsW hvma _ hprep
    _).mpr ⟨_, hplace, _, hfirst, rfl⟩
  obtain ⟨e, he, -⟩ := h.inside m hm _ hmeta
  exact hnone ⟨e, he⟩

include hpage

theorem MetadataFits.room (h : MetadataFits sizeof HIGH_VMA mmap mem) :
    Room sizeof HIGH_VMA mmap := by
  by_cases hnil : managedEntries sizeof HIGH_VMA mmap = []
  · exact .inl hnil
  have hbitmap : ∀ e ∈ managedEntries sizeof HIGH_VMA mmap, HasBitmap e := by
    intro e he
    obtain ⟨-, hlength, hlengthW, hne⟩ := managedEntries_pages hpage he
    exact hasBitmap_of_pages hlength hlengthW hne
  obtain ⟨e, he⟩ := h.holder hs hs64 hsW hvma hnil
  obtain ⟨hbase, hbaseW, hhigh⟩ := holder_pages hpage he
  have hbyte := @metadata_iff_place sizeof HIGH_VMA mmap mem hs hs64 hsW hvma e.base
    (prepare_of_holder he)
  have hend : placeEnd sizeof (managedEntries sizeof HIGH_VMA mmap) e.base ≤
        e.base + roundUp PAGE_SIZE (reserved sizeof mmap) ∧
      placeEnd sizeof (managedEntries sizeof HIGH_VMA mmap) e.base ≤ W := by
    apply placeEnd_le_of_inside hs hs64 _ hbitmap (Nat.le_add_right _ _) (by omega)
    · intro p hp u hu
      obtain ⟨m, hm, hmeta⟩ := (hbyte (u % W)).mpr ⟨p, hp, u, hu, rfl⟩
      obtain ⟨e', he', hin⟩ := h.inside m hm _ hmeta
      rw [he, Option.some.injEq] at he'
      rw [he']
      exact hin
    · intro hsize
      have hne : reserved sizeof mmap ≠ 0 := by
        intro h0
        rw [h0] at hsize
        exact hsize (by decide)
      omega
  refine .inr ⟨e, he, hend.1, hend.2, fun e' he' => ?_⟩
  by_contra hover
  obtain ⟨hbase', hlength', -, hne'⟩ := managedEntries_pages hpage he'
  obtain ⟨p, hp, u, hu, hle, hlt⟩ := exists_byte_in_entry hs hs64 hbitmap hbase he' hbase'
    hlength' hne' (by omega) (by omega)
  have hbounds := byte_bounds hs hp hu
  have huW : u % W = u := Nat.mod_eq_of_lt (by omega)
  obtain ⟨m, hm, hmeta⟩ := (hbyte u).mpr ⟨p, hp, u, hu, huW.symm⟩
  exact h.apart m hm u hmeta ((managed_iff_entry hpage).mpr ⟨e', he', hle, hlt⟩)

theorem Room.fits (h : Room sizeof HIGH_VMA mmap) : MetadataFits sizeof HIGH_VMA mmap mem := by
  rcases h with hnil | ⟨e, he, hend, hendW, hclear⟩
  · -- no module at all
    have hentries := (@makeModules_entries sizeof HIGH_VMA
      (prepare sizeof HIGH_VMA mmap).1 (prepare sizeof HIGH_VMA mmap).2 mem).1
    rw [← managedEntries, hnil, List.map_eq_nil_iff] at hentries
    have hnone : ∀ m, m ∉ (pmm_init sizeof HIGH_VMA mmap mem).1 := by
      intro m hm
      rw [pmm_init] at hm
      rw [hentries] at hm
      cases hm
    exact ⟨fun m hm => absurd hm (hnone m), fun m hm => absurd hm (hnone m)⟩
  -- the bytes do not wrap
  have hbyte : ∀ m ∈ (pmm_init sizeof HIGH_VMA mmap mem).1, ∀ t, MetadataByte sizeof HIGH_VMA m t →
      e.base ≤ t ∧ t < placeEnd sizeof (managedEntries sizeof HIGH_VMA mmap) e.base := by
    intro m hm t ht
    obtain ⟨p, hp, u, hu, rfl⟩ := (@metadata_iff_place sizeof HIGH_VMA mmap mem hs hs64 hsW hvma
      e.base (prepare_of_holder he) t).mp ⟨m, hm, ht⟩
    have hbounds := byte_bounds hs hp hu
    rw [Nat.mod_eq_of_lt (by omega)]
    exact hbounds
  constructor
  · intro m hm t ht
    have hbounds := hbyte m hm t ht
    exact ⟨e, he, hbounds.1, by omega⟩
  · intro m hm t ht hmanaged
    have hbounds := hbyte m hm t ht
    obtain ⟨e', he', hle, hlt⟩ := (managed_iff_entry hpage).mp hmanaged
    have := hclear e' he'
    omega

end Fits

/-- **When the metadata fits**, for every map of page-aligned entries and
every power of two up to 64 as the size of a struct. -/
theorem metadata_fits_iff (hs : sizeof ∣ 64) (hvma : HIGH_VMA ≤ W) (hpage : PageAligned mmap) :
    MetadataFits sizeof HIGH_VMA mmap mem ↔ Room sizeof HIGH_VMA mmap := by
  have hs0 : 0 < sizeof := Nat.pos_of_dvd_of_pos hs (by decide)
  have hs64 : sizeof ≤ 64 := Nat.le_of_dvd (by decide) hs
  have hsW : sizeof ∣ W := by
    rw [W_eq]
    exact hs.trans (by decide)
  constructor
  · intro hfits
    exact hfits.room hs0 hs64 hsW hvma hpage
  · intro hroom
    exact hroom.fits hs0 hs64 hsW hvma hpage

/-- Usable memory below 1 MiB, a hole, and two usable entries above. -/
def usualMap : List MemmapEntry :=
  [⟨0x1000, 0x9e000, .USABLE⟩, ⟨0x9f000, 0x61000, .RESERVED⟩, ⟨0x100000, 0x10000, .USABLE⟩,
    ⟨0x200000, 0x4000, .USABLE⟩]

/-- The metadata of two modules is in the page that was carved out. -/
theorem metadata_fits_iff_usualMap :
    PageAligned usualMap ∧ Room 64 0 usualMap ∧ MetadataFits 64 0 usualMap fun _ => 0 := by
  have hpage : PageAligned usualMap := by
    unfold PageAligned
    decide +kernel
  have hroom : Room 64 0 usualMap := by
    refine .inr ⟨⟨0x100000, 0x10000, .USABLE⟩, ?_, ?_, ?_, ?_⟩ <;> decide +kernel
  exact ⟨hpage, hroom, (metadata_fits_iff (by decide) (Nat.zero_le _) hpage).mpr hroom⟩

/-- A large usable entry, and thirty of one page. -/
def scatteredMap : List MemmapEntry := ⟨0x100000, 0x10000, .USABLE⟩ ::
    (List.range 30).map fun i => ⟨0x200000 + 0x2000 * i, 0x1000, .USABLE⟩

/-- **The reservation is too small**: for this map it is less than a page, and
the bitmap of the module of the 22nd entry is at 0x101040, in the first
page that the module of the first entry hands out. -/
theorem metadata_in_managed_page :
    ¬ ∀ mmap : List MemmapEntry, PageAligned mmap → MetadataFits 64 0 mmap fun _ => 0 := by
  intro h
  have hpage : PageAligned scatteredMap := by
    unfold PageAligned
    decide +kernel
  have hmodules : (∃ m ∈ (pmm_init 64 0 scatteredMap fun _ => 0).1,
      m.bitmap = 0x101040 ∧ m.bitmap_size = 1) ∧
      ∃ m ∈ (pmm_init 64 0 scatteredMap fun _ => 0).1,
        m.mmap_entry.base ≤ 0x101040 ∧ 0x101040 < m.limit := by decide +kernel
  obtain ⟨⟨m, hm, hbitmap, hsize⟩, hmanaged⟩ := hmodules
  have hbyte : MetadataByte 64 0 m 0x101040 := by
    refine ⟨by decide +kernel, .inr ⟨0, by omega, ?_⟩⟩
    rw [hbitmap]
    rfl
  exact (h scatteredMap hpage).apart m hm _ hbyte hmanaged

end Pmm
