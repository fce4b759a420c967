import Dufay.Mm.Physical

/-! # Initialisation of the physical allocator

`pmm_init` of `mm/physical.c`. Three passes over the memory map, each on
what the one before left: memory below 1 MiB is trimmed while the size of
the metadata is added up, the metadata is carved out of the first usable
entry that can hold it, and every usable entry that is left gets a
module.

The trimming of an entry that reaches 1 MiB moves its base first and
then subtracts the distance of the new base, which is zero: the entry
keeps its length and ends behind its old end.
-/

open Memory Size

namespace Pmm

/-! ### The three passes -/

/-- What the first pass does to an entry below 1 MiB. -/
def trim (e : MemmapEntry) : MemmapEntry :=
  if e.base < 0x100000 then
    if e.length < 0x100000 - e.base then { e with length := 0 }
    else
      let e := { e with base := e.base + (0x100000 - e.base) }
      { e with length := e.length - (0x100000 - e.base) }
  else e

/-- The first pass, with the size of the metadata so far. -/
def trimAll (sizeof : Nat) : List MemmapEntry → Nat → List MemmapEntry × Nat
  | [], buffer_size => ([], buffer_size)
  | e :: rest, buffer_size =>
    let buffer_size :=
      match e.type with
      | .USABLE =>
        (buffer_size + (sizeof * 2 + DIV_ROUNDUP (DIV_ROUNDUP e.length PAGE_SIZE) 8) % W) % W
      | _ => buffer_size
    let r := trimAll sizeof rest buffer_size
    (trim e :: r.1, r.2)

/-- What is left of the entry that holds the metadata. -/
def carve (buffer_size : Nat) (e : MemmapEntry) : MemmapEntry :=
  { e with
    base := ALIGN_UP ((e.base + buffer_size) % W) PAGE_SIZE
    length := (e.length - buffer_size) / PAGE_SIZE * PAGE_SIZE }

/-- The second pass: the map, and `meta_buffer` if an entry was found. -/
def carveFirst (HIGH_VMA buffer_size : Nat) : List MemmapEntry → List MemmapEntry × Option Nat
  | [] => ([], none)
  | e :: rest =>
    if e.type = .USABLE ∧ buffer_size ≤ e.length then
      (carve buffer_size e :: rest, some (P2V HIGH_VMA e.base))
    else
      let r := carveFirst HIGH_VMA buffer_size rest
      (e :: r.1, r.2)

/-- The module of one entry, and `meta_buffer` and the memory behind it. -/
def makeModule (sizeof HIGH_VMA : Nat) (e : MemmapEntry) (meta_buffer : Nat) (mem : Mem) :
    PmmModule × Nat × Mem :=
  let meta_buffer := (ALIGN_UP ((meta_buffer + W - HIGH_VMA) % W) sizeof + HIGH_VMA) % W
  let mem := Memory.zero mem meta_buffer sizeof
  pmm_init_module .zeroed e ((meta_buffer + sizeof * 2) % W) mem

/-- The third pass. Modules are appended to the list. -/
def makeModules (sizeof HIGH_VMA : Nat) : List MemmapEntry → Nat → Mem → List PmmModule × Nat × Mem
  | [], meta_buffer, mem => ([], meta_buffer, mem)
  | e :: rest, meta_buffer, mem =>
    if e.type = .USABLE ∧ e.length ≠ 0 then
      let r := makeModule sizeof HIGH_VMA e meta_buffer mem
      let r' := makeModules sizeof HIGH_VMA rest r.2.1 r.2.2
      (r.1 :: r'.1, r'.2)
    else makeModules sizeof HIGH_VMA rest meta_buffer mem

/-- The map after the first two passes, and `meta_buffer`, which is null if
no entry can hold the metadata. -/
def prepare (sizeof HIGH_VMA : Nat) (mmap : List MemmapEntry) : List MemmapEntry × Nat :=
  let trimmed := trimAll sizeof mmap 0
  let carved := carveFirst HIGH_VMA trimmed.2 trimmed.1
  (carved.1, carved.2.getD 0)

/-- `pmm_init`: the modules and the memory. `sizeof` is the size of a
`struct pmm_module`. -/
def pmm_init (sizeof HIGH_VMA : Nat) (mmap : List MemmapEntry) (mem : Mem) : List PmmModule × Mem :=
  let prepared := prepare sizeof HIGH_VMA mmap
  let r := makeModules sizeof HIGH_VMA prepared.1 prepared.2 mem
  (r.1, r.2.2)

variable {mmap : List MemmapEntry} {mem : Mem} {sizeof HIGH_VMA : Nat} {e : MemmapEntry}

/-! ### The reservation -/

def usable (e : MemmapEntry) : Bool := decide (e.type = .USABLE)

/-- A usable entry that can hold the metadata. -/
def canHold (buffer_size : Nat) (e : MemmapEntry) : Bool :=
  decide (e.type = .USABLE ∧ buffer_size ≤ e.length)

/-- The bytes that the first pass adds up: two structs and a bitmap for each
usable entry, as the map has it. -/
def reserved (sizeof : Nat) (mmap : List MemmapEntry) : Nat := ((mmap.filter usable).map fun e =>
    sizeof * 2 + DIV_ROUNDUP (DIV_ROUNDUP e.length PAGE_SIZE) 8).sum % W

/-- The entry that the reservation is carved out of. -/
def holder (sizeof : Nat) (mmap : List MemmapEntry) : Option MemmapEntry :=
  (mmap.map trim).find? (canHold (reserved sizeof mmap))

def managed (e : MemmapEntry) : Bool := decide (e.type = .USABLE ∧ e.length ≠ 0)

/-- The entries that get a module. -/
def managedEntries (sizeof HIGH_VMA : Nat) (mmap : List MemmapEntry) : List MemmapEntry :=
  (prepare sizeof HIGH_VMA mmap).1.filter managed

theorem trimAll_eq : ∀ (l : List MemmapEntry) {buffer_size : Nat}, buffer_size < W →
    trimAll sizeof l buffer_size = (l.map trim, (buffer_size + ((l.filter usable).map fun e =>
        sizeof * 2 + DIV_ROUNDUP (DIV_ROUNDUP e.length PAGE_SIZE) 8).sum) % W) := by
  intro l
  induction l with
  | nil =>
    intro buffer_size hlt
    show ([], buffer_size) = ([], (buffer_size + 0) % W)
    rw [Nat.add_zero, Nat.mod_eq_of_lt hlt]
  | cons e rest ih =>
    intro buffer_size hlt
    by_cases he : e.type = .USABLE
    · have hpos : usable e = true := decide_eq_true he
      rw [List.filter_cons_of_pos hpos, List.map_cons, List.map_cons, List.sum_cons, trimAll, he]
      rw [ih (Nat.mod_lt _ W_pos), Nat.add_mod_mod, Nat.mod_add_mod, Nat.add_assoc]
    · have hneg : ¬ usable e = true := fun h => he (of_decide_eq_true h)
      have htrim : trimAll sizeof (e :: rest) buffer_size =
          (trim e :: (trimAll sizeof rest buffer_size).1, (trimAll sizeof rest buffer_size).2) := by
        rw [trimAll]
        split
        · next husable => exact absurd husable he
        · rfl
      rw [htrim, List.filter_cons_of_neg hneg, List.map_cons, ih hlt]

theorem carveFirst_snd : ∀ l : List MemmapEntry, (carveFirst HIGH_VMA buffer_size l).2 =
      (l.find? (canHold buffer_size)).map fun e => P2V HIGH_VMA e.base := by
  intro l
  induction l with
  | nil => rfl
  | cons e rest ih =>
    rw [carveFirst]
    by_cases he : e.type = .USABLE ∧ buffer_size ≤ e.length
    · have hpos : canHold buffer_size e = true := decide_eq_true he
      rw [if_pos he, List.find?_cons_of_pos hpos]
      rfl
    · have hneg : ¬ canHold buffer_size e = true := fun h => he (of_decide_eq_true h)
      rw [if_neg he, List.find?_cons_of_neg hneg]
      exact ih

theorem trimAll_zero : trimAll sizeof mmap 0 = (mmap.map trim, reserved sizeof mmap) := by
  rw [trimAll_eq mmap W_pos, Nat.zero_add, reserved]

theorem prepare_snd : (prepare sizeof HIGH_VMA mmap).2 =
    ((holder sizeof mmap).map fun e => P2V HIGH_VMA e.base).getD 0 := by
  show ((carveFirst HIGH_VMA (trimAll sizeof mmap 0).2 (trimAll sizeof mmap 0).1).2).getD 0 = _
  rw [trimAll_zero, carveFirst_snd, holder]

/-- The entries of the map are on pages, and their fields are 64-bit numbers. -/
def PageAligned (mmap : List MemmapEntry) : Prop :=
  ∀ e ∈ mmap, PAGE_SIZE ∣ e.base ∧ PAGE_SIZE ∣ e.length ∧ e.base < W ∧ e.length < W

theorem trim_below (h : e.base + e.length < 0x100000) : trim e = { e with length := 0 } := by
  have hbase : e.base < 0x100000 := by omega
  have hlen : e.length < 0x100000 - e.base := by omega
  simp [trim, hbase, hlen]

theorem trim_above (h : 0x100000 ≤ e.base) : trim e = e := by
  simp [trim, Nat.not_lt.mpr h]

/-- The entry is moved up to 1 MiB and keeps its length. -/
theorem trim_reaching (hbase : e.base < 0x100000) (hend : 0x100000 ≤ e.base + e.length) :
    trim e = { e with base := 0x100000 } := by
  have hlen : ¬e.length < 0x100000 - e.base := by omega
  have hsum : e.base + (0x100000 - e.base) = 0x100000 := by omega
  simp [trim, hbase, hlen, hsum]

theorem trim_pages (h : PAGE_SIZE ∣ e.base ∧ PAGE_SIZE ∣ e.length ∧ e.base < W ∧ e.length < W) :
    (PAGE_SIZE ∣ (trim e).base ∧ PAGE_SIZE ∣ (trim e).length ∧ (trim e).base < W ∧
      (trim e).length < W) ∧ ((trim e).length ≠ 0 → 0x100000 ≤ (trim e).base) := by
  obtain ⟨hbase, hlength, hbaseW, hlengthW⟩ := h
  have hW : 0x100000 < W := by
    rw [W_eq]
    decide
  by_cases hlow : e.base < 0x100000
  · by_cases hshort : e.base + e.length < 0x100000
    · rw [trim_below hshort]
      exact ⟨⟨hbase, Nat.dvd_zero _, hbaseW, W_pos⟩, fun hne => absurd rfl hne⟩
    · have hmib : PAGE_SIZE ∣ 0x100000 := by decide
      rw [trim_reaching hlow (by omega)]
      exact ⟨⟨hmib, hlength, hW, hlengthW⟩, fun _ => le_rfl⟩
  · rw [trim_above (by omega)]
    exact ⟨⟨hbase, hlength, hbaseW, hlengthW⟩, fun _ => Nat.not_lt.mp hlow⟩

theorem holder_pages (hpage : PageAligned mmap) (he : holder sizeof mmap = some e) :
    PAGE_SIZE ∣ e.base ∧ e.base < W ∧ (reserved sizeof mmap ≠ 0 → 0x100000 ≤ e.base) := by
  have hholds : canHold (reserved sizeof mmap) e = true := List.find?_some he
  have hfits := of_decide_eq_true hholds
  obtain ⟨e₀, he₀, rfl⟩ := List.mem_map.mp (List.mem_of_find?_eq_some he)
  obtain ⟨⟨hbase, -, hbaseW, -⟩, hhigh⟩ := trim_pages (hpage e₀ he₀)
  exact ⟨hbase, hbaseW, fun hne => hhigh (by omega)⟩

theorem carveFirst_pages : ∀ {l : List MemmapEntry},
    (∀ e ∈ l, PAGE_SIZE ∣ e.base ∧ PAGE_SIZE ∣ e.length ∧ e.length < W) →
    ∀ e ∈ (carveFirst HIGH_VMA buffer_size l).1,
      PAGE_SIZE ∣ e.base ∧ PAGE_SIZE ∣ e.length ∧ e.length < W := by
  intro l
  induction l with
  | nil => exact fun h => h
  | cons e rest ih =>
    intro h x hx
    rw [carveFirst] at hx
    split at hx
    · rcases List.mem_cons.mp hx with rfl | hx
      · refine ⟨dvd_ALIGN_UP _ _, Nat.dvd_mul_left _ _, ?_⟩
        have hle := Nat.div_mul_le_self (e.length - buffer_size) PAGE_SIZE
        have hlt := (h e (List.mem_cons_self ..)).2.2
        show (e.length - buffer_size) / PAGE_SIZE * PAGE_SIZE < W
        omega
      · exact h x (List.mem_cons_of_mem _ hx)
    · rcases List.mem_cons.mp hx with rfl | hx
      · exact h x (List.mem_cons_self ..)
      · exact ih (fun y hy => h y (List.mem_cons_of_mem _ hy)) x hx

theorem managedEntries_pages (hpage : PageAligned mmap)
    (he : e ∈ managedEntries sizeof HIGH_VMA mmap) :
    PAGE_SIZE ∣ e.base ∧ PAGE_SIZE ∣ e.length ∧ e.length < W ∧ e.length ≠ 0 := by
  obtain ⟨hprep, hmanaged⟩ := List.mem_filter.mp he
  have htrimmed : ∀ x ∈ (trimAll sizeof mmap 0).1,
      PAGE_SIZE ∣ x.base ∧ PAGE_SIZE ∣ x.length ∧ x.length < W := by
    rw [trimAll_zero]
    intro x hx
    obtain ⟨x₀, hx₀, rfl⟩ := List.mem_map.mp hx
    obtain ⟨⟨hbase, hlength, -, hlengthW⟩, -⟩ := trim_pages (hpage x₀ hx₀)
    exact ⟨hbase, hlength, hlengthW⟩
  obtain ⟨hbase, hlength, hlengthW⟩ := carveFirst_pages htrimmed e hprep
  exact ⟨hbase, hlength, hlengthW, (of_decide_eq_true hmanaged).2⟩

/-! ### The modules -/

/-- The fields that `pmm_init_module` sets on a zeroed struct. -/
structure FreshModule (m : PmmModule) : Prop where
  entry_cnt : m.bitmap_entry_cnt = DIV_ROUNDUP m.mmap_entry.length PAGE_SIZE
  bitmap_size : m.bitmap_size = DIV_ROUNDUP m.bitmap_entry_cnt 8
  last_free : m.last_free = 0

theorem makeModules_entries : ∀ {l : List MemmapEntry} {meta_buffer : Nat} {mem : Mem},
    (makeModules sizeof HIGH_VMA l meta_buffer mem).1.map (·.mmap_entry) = l.filter managed ∧
      ∀ m ∈ (makeModules sizeof HIGH_VMA l meta_buffer mem).1, FreshModule m := by
  intro l
  induction l with
  | nil =>
    intro meta_buffer mem
    exact ⟨rfl, fun m hm => by cases hm⟩
  | cons e rest ih =>
    intro meta_buffer mem
    rw [makeModules]
    by_cases he : e.type = .USABLE ∧ e.length ≠ 0
    · have hmanaged : managed e = true := decide_eq_true he
      rw [if_pos he, List.filter_cons_of_pos hmanaged]
      refine ⟨congrArg (e :: ·) ih.1, fun m hm => ?_⟩
      rcases List.mem_cons.mp hm with rfl | hm
      · exact ⟨rfl, rfl, rfl⟩
      · exact ih.2 m hm
    · have hmanaged : ¬ managed e = true := fun h => he (of_decide_eq_true h)
      rw [if_neg he, List.filter_cons_of_neg hmanaged]
      exact ih

theorem limit_eq (hfresh : FreshModule m)
    (hpage : PAGE_SIZE ∣ m.mmap_entry.length) (hW : m.mmap_entry.length < W) :
    m.limit = m.mmap_entry.base + m.mmap_entry.length := by
  obtain ⟨q, hq⟩ := hpage
  rw [Nat.mul_comm] at hq
  have hfit : q * PAGE_SIZE + PAGE_SIZE ≤ W := by
    rw [← hq]
    unfold PAGE_SIZE W at *
    omega
  rw [PmmModule.limit, hfresh.entry_cnt, hq, DIV_ROUNDUP_mul (by decide) hfit]

theorem module_entry (hpage : PageAligned mmap) {m : PmmModule}
    (hm : m ∈ (pmm_init sizeof HIGH_VMA mmap mem).1) :
    m.mmap_entry ∈ managedEntries sizeof HIGH_VMA mmap ∧
      m.limit = m.mmap_entry.base + m.mmap_entry.length := by
  obtain ⟨hentries, hfresh⟩ := @makeModules_entries sizeof HIGH_VMA
    (prepare sizeof HIGH_VMA mmap).1 (prepare sizeof HIGH_VMA mmap).2 mem
  have hin : m.mmap_entry ∈ managedEntries sizeof HIGH_VMA mmap := by
    rw [managedEntries, ← hentries]
    exact List.mem_map_of_mem hm
  obtain ⟨-, hlength, hlengthW, -⟩ := managedEntries_pages hpage hin
  exact ⟨hin, limit_eq (hfresh m hm) hlength hlengthW⟩

/-! ### Memory maps -/

/-- Page-aligned entries of 64-bit addresses that do not overlap, in order. -/
structure MemoryMap (mmap : List MemmapEntry) : Prop where
  aligned : ∀ e ∈ mmap, PAGE_SIZE ∣ e.base ∧ PAGE_SIZE ∣ e.length
  range : ∀ e ∈ mmap, e.base < W ∧ e.length < W ∧ e.base + e.length ≤ W
  sorted : mmap.Pairwise fun e e' => e.base + e.length ≤ e'.base

/-- No usable entry that begins below 1 MiB reaches 1 MiB. -/
def BelowOrAbove (mmap : List MemmapEntry) : Prop :=
  ∀ e ∈ mmap, e.type = .USABLE → e.base < 0x100000 → e.base + e.length < 0x100000

/-- A usable entry that is not empty lies in the old one, above 1 MiB. -/
structure Keeps (e e' : MemmapEntry) : Prop where
  type : e'.type = e.type
  inside : e'.type = .USABLE → e'.length ≠ 0 → 0x100000 ≤ e'.base ∧ e.base ≤ e'.base ∧
    e'.base + e'.length ≤ e.base + e.length ∧ PAGE_SIZE ∣ e'.base ∧ PAGE_SIZE ∣ e'.length

/-- The entries that get a module are in order, each in a usable entry of the map
and above 1 MiB. -/
def UsableOnly (mmap l : List MemmapEntry) : Prop :=
  (l.Pairwise fun e e' => e.base + e.length ≤ e'.base) ∧
  ∀ t ∈ l, (∃ e ∈ mmap, e.type = .USABLE ∧ e.base ≤ t.base ∧
    t.base + t.length ≤ e.base + e.length) ∧ 0x100000 ≤ t.base

theorem MemoryMap.pages (hmap : MemoryMap mmap) : PageAligned mmap := fun e he =>
  ⟨(hmap.aligned e he).1, (hmap.aligned e he).2, (hmap.range e he).1, (hmap.range e he).2.1⟩

theorem usable_iff_entries (hmap : MemoryMap mmap) :
    (((pmm_init sizeof HIGH_VMA mmap mem).1.Pairwise fun m m' => m.limit ≤ m'.mmap_entry.base) ∧
    ∀ m ∈ (pmm_init sizeof HIGH_VMA mmap mem).1,
      (∃ e ∈ mmap, e.type = .USABLE ∧ e.base ≤ m.mmap_entry.base ∧ m.limit ≤ e.base + e.length) ∧
      0x100000 ≤ m.mmap_entry.base) ↔ UsableOnly mmap (managedEntries sizeof HIGH_VMA mmap) := by
  have hentries := (@makeModules_entries sizeof HIGH_VMA
    (prepare sizeof HIGH_VMA mmap).1 (prepare sizeof HIGH_VMA mmap).2 mem).1
  have hlimit := fun m hm => (@module_entry mmap mem sizeof HIGH_VMA hmap.pages m hm).2
  rw [managedEntries, UsableOnly, ← hentries, List.pairwise_map, List.forall_mem_map]
  refine and_congr (List.Pairwise.iff_of_mem fun {m m'} hm _ => ?_)
    (forall₂_congr fun m hm => ?_)
  · rw [hlimit m hm]
  · rw [hlimit m hm]

/-! ### No entry reaches 1 MiB from below -/

theorem trim_keeps (hpage : PAGE_SIZE ∣ e.base ∧ PAGE_SIZE ∣ e.length)
    (hlow : e.type = .USABLE → e.base < 0x100000 → e.base + e.length < 0x100000) :
    Keeps e (trim e) := by
  by_cases hbase : e.base < 0x100000
  · by_cases hend : e.base + e.length < 0x100000
    · rw [trim_below hend]
      exact ⟨rfl, fun _ hne => absurd rfl hne⟩
    · rw [trim_reaching hbase (by omega)]
      exact ⟨rfl, fun husable _ => absurd (hlow husable hbase) hend⟩
  · rw [trim_above (by omega)]
    exact ⟨rfl, fun _ _ => ⟨by omega, le_rfl, le_rfl, hpage⟩⟩

/-- What the metadata leaves of an entry. If anything is left, no number wraps, and
the rounding of the base and of the length fit together. -/
theorem carve_inside (hpage : PAGE_SIZE ∣ e.base ∧ PAGE_SIZE ∣ e.length)
    (hrange : e.base + e.length ≤ W) (hne : (carve buffer_size e).length ≠ 0) :
    e.base + buffer_size ≤ (carve buffer_size e).base ∧
      (carve buffer_size e).base + (carve buffer_size e).length ≤ e.base + e.length ∧
      PAGE_SIZE ∣ (carve buffer_size e).base ∧ PAGE_SIZE ∣ (carve buffer_size e).length := by
  have hlength' : (carve buffer_size e).length =
      (e.length - buffer_size) / PAGE_SIZE * PAGE_SIZE := rfl
  have hpos : 0 < PAGE_SIZE := by decide
  have hroom : buffer_size + PAGE_SIZE ≤ e.length := by
    by_contra hlt
    have hdiv : (e.length - buffer_size) / PAGE_SIZE = 0 := Nat.div_eq_of_lt (by omega)
    rw [hlength', hdiv, Nat.zero_mul] at hne
    exact hne rfl
  have hfit : e.base + buffer_size + PAGE_SIZE ≤ W := by omega
  have hmod : (e.base + buffer_size) % W = e.base + buffer_size := by
    apply Nat.mod_eq_of_lt
    omega
  have hbase' : (carve buffer_size e).base = ALIGN_UP (e.base + buffer_size) PAGE_SIZE := by
    rw [carve, hmod]
  have hup := le_ALIGN_UP hpos hfit
  have hdvd := dvd_ALIGN_UP (e.base + buffer_size) PAGE_SIZE
  rw [hbase', hlength']
  generalize ALIGN_UP (e.base + buffer_size) PAGE_SIZE = a at hup hdvd ⊢
  obtain ⟨hbasePage, hlenPage⟩ := hpage
  refine ⟨hup.1, ?_, hdvd, Nat.dvd_mul_left _ _⟩
  unfold PAGE_SIZE at *
  omega

theorem Keeps.carve (h : Keeps e t)
    (hrange : e.base + e.length ≤ W) (husable : t.type = .USABLE) :
    Keeps e (carve buffer_size t) := by
  refine ⟨h.type, fun _ hne => ?_⟩
  have hlen : t.length ≠ 0 := by
    intro h0
    simp [Pmm.carve, h0] at hne
  obtain ⟨hhigh, hbase, hend, hpage⟩ := h.inside husable hlen
  obtain ⟨hbase', hend', hpage'⟩ := carve_inside hpage (by omega) hne
  exact ⟨by omega, by omega, by omega, hpage'⟩

theorem exists_of_mem_forall₂ {α β : Type} {R : α → β → Prop} {l : List α} {l' : List β}
    (h : List.Forall₂ R l l') {b : β} (hb : b ∈ l') : ∃ a ∈ l, R a b := by
  induction h with
  | nil => cases hb
  | @cons a b' l l' hab _ ih =>
    rcases List.mem_cons.mp hb with rfl | hb
    · exact ⟨a, List.mem_cons_self .., hab⟩
    · obtain ⟨a', ha', hab'⟩ := ih hb
      exact ⟨a', List.mem_cons_of_mem _ ha', hab'⟩

theorem pairwise_of_forall₂ {α β : Type} {R : α → β → Prop} {S : α → α → Prop} {T : β → β → Prop}
    (hT : ∀ a a' b b', R a b → R a' b' → S a a' → T b b') {l : List α} {l' : List β}
    (h : List.Forall₂ R l l') (hl : l.Pairwise S) : l'.Pairwise T := by
  induction h with
  | nil => exact List.Pairwise.nil
  | @cons a b l l' hab htail ih =>
    obtain ⟨hhead, hrest⟩ := List.pairwise_cons.mp hl
    refine List.pairwise_cons.mpr ⟨fun b' hb' => ?_, ih hrest⟩
    obtain ⟨a', ha', hab'⟩ := exists_of_mem_forall₂ htail hb'
    exact hT a a' b b' hab hab' (hhead a' ha')

theorem map_trim_keeps (hmap : MemoryMap mmap) (hlow : BelowOrAbove mmap) :
    List.Forall₂ Keeps mmap (mmap.map trim) :=
  List.forall₂_map_right_iff.mpr
    (List.forall₂_same.mpr fun e he => trim_keeps (hmap.aligned e he) (hlow e he))

theorem carveFirst_keeps
    (h : List.Forall₂ Keeps mmap l) (hrange : ∀ e ∈ mmap, e.base + e.length ≤ W) :
    List.Forall₂ Keeps mmap (carveFirst HIGH_VMA buffer_size l).1 := by
  induction h with
  | nil => exact .nil
  | @cons e t rest l hkeeps htail ih =>
    rw [carveFirst]
    split
    · next hfits => exact .cons (hkeeps.carve (hrange e (List.mem_cons_self ..)) hfits.1) htail
    · exact .cons hkeeps (ih fun x hx => hrange x (List.mem_cons_of_mem _ hx))

theorem prepare_fst : (prepare sizeof HIGH_VMA mmap).1 =
    (carveFirst HIGH_VMA (reserved sizeof mmap) (mmap.map trim)).1 := by
  show (carveFirst HIGH_VMA (trimAll sizeof mmap 0).2 (trimAll sizeof mmap 0).1).1 = _
  rw [trimAll_zero]

theorem usableOnly_of_belowOrAbove (hmap : MemoryMap mmap) (hlow : BelowOrAbove mmap) :
    UsableOnly mmap (managedEntries sizeof HIGH_VMA mmap) := by
  have hkeeps : List.Forall₂ Keeps mmap (prepare sizeof HIGH_VMA mmap).1 := by
    rw [prepare_fst]
    exact carveFirst_keeps (map_trim_keeps hmap hlow) fun e he => (hmap.range e he).2.2
  constructor
  · rw [managedEntries, List.pairwise_filter]
    refine pairwise_of_forall₂ ?_ hkeeps hmap.sorted
    intro e e' t t' ht ht' hee' hmt hmt'
    obtain ⟨husable, hne⟩ := of_decide_eq_true hmt
    obtain ⟨husable', hne'⟩ := of_decide_eq_true hmt'
    have hin := ht.inside husable hne
    have hin' := ht'.inside husable' hne'
    omega
  · intro t ht
    obtain ⟨hprep, hmanaged⟩ := List.mem_filter.mp ht
    obtain ⟨husable, hne⟩ := of_decide_eq_true hmanaged
    obtain ⟨e, he, hk⟩ := exists_of_mem_forall₂ hkeeps hprep
    obtain ⟨hhigh, hbase, hend, -⟩ := hk.inside husable hne
    exact ⟨⟨e, he, hk.type.symm.trans husable, hbase, hend⟩, hhigh⟩

/-! ### An entry that reaches 1 MiB from below -/

/-- Where a usable entry may reach 1 MiB: the metadata takes all of it, or it ends at
1 MiB and what it becomes lies in the metadata that the entry from 1 MiB on holds. -/
def Harmless (sizeof : Nat) (mmap : List MemmapEntry) (r : MemmapEntry) : Prop :=
  reserved sizeof mmap ≤ r.length ∧ (r.length - reserved sizeof mmap) / PAGE_SIZE = 0 ∨
  r.base + r.length = 0x100000 ∧ r.length < reserved sizeof mmap ∧
    ∃ f ∈ mmap, f.type = .USABLE ∧ f.base = 0x100000 ∧ reserved sizeof mmap ≤ f.length

/-- What the first pass makes of an entry that reaches 1 MiB. -/
def moved (r : MemmapEntry) : MemmapEntry := { r with base := 0x100000 }

theorem carveFirst_append (h : ∀ e ∈ l, ¬(e.type = .USABLE ∧ buffer_size ≤ e.length)) :
    (carveFirst HIGH_VMA buffer_size (l ++ l')).1 = l ++ (carveFirst HIGH_VMA buffer_size l').1 := by
  induction l with
  | nil => rfl
  | cons e l ih =>
    rw [List.cons_append, carveFirst, if_neg (h e (List.mem_cons_self ..))]
    exact congrArg (e :: ·) (ih fun x hx => h x (List.mem_cons_of_mem _ hx))

/-- The metadata is carved out of the first part or of the second. -/
theorem carveFirst_split (HIGH_VMA buffer_size : Nat) (l l' : List MemmapEntry) :
    ∃ l₁, (carveFirst HIGH_VMA buffer_size (l ++ l')).1 = l₁ ++ l' ∨
      (carveFirst HIGH_VMA buffer_size (l ++ l')).1 =
        l₁ ++ (carveFirst HIGH_VMA buffer_size l').1 := by
  induction l with
  | nil => exact ⟨[], .inr rfl⟩
  | cons e l ih =>
    rw [List.cons_append, carveFirst]
    split
    · exact ⟨carve buffer_size e :: l, .inl rfl⟩
    · obtain ⟨l₁, h⟩ := ih
      exact ⟨e :: l₁, h.imp (congrArg (e :: ·)) (congrArg (e :: ·))⟩

theorem mem_carveFirst (he : e ∈ l) :
    e ∈ (carveFirst HIGH_VMA buffer_size l).1 ∨ buffer_size ≤ e.length := by
  induction l with
  | nil => cases he
  | cons x l ih =>
    rw [carveFirst]
    split
    · next hfits =>
      rcases List.mem_cons.mp he with rfl | he
      · exact .inr hfits.2
      · exact .inl (List.mem_cons_of_mem _ he)
    · rcases List.mem_cons.mp he with rfl | he
      · exact .inl (List.mem_cons_self ..)
      · exact (ih he).imp_left (List.mem_cons_of_mem _)

section

/- `r` is the entry that reaches 1 MiB; the ones before it are empty after the first
pass, and the ones behind it are as they were. -/
variable {pre post : List MemmapEntry} {r : MemmapEntry} (hmap : MemoryMap (pre ++ r :: post))
include hmap

theorem around : (∀ e ∈ pre, e.base + e.length ≤ r.base) ∧
    (∀ e ∈ post, r.base + r.length ≤ e.base) ∧
    post.Pairwise fun e e' => e.base + e.length ≤ e'.base := by
  obtain ⟨-, hcons, hpre⟩ := List.pairwise_append.mp hmap.sorted
  obtain ⟨hhead, hpost⟩ := List.pairwise_cons.mp hcons
  exact ⟨fun e he => hpre e he r (List.mem_cons_self ..), hhead, hpost⟩

variable (husable : r.type = .USABLE) (hbase : r.base < 0x100000)
  (hend : 0x100000 ≤ r.base + r.length)
include hbase hend

theorem map_trim_around : (∀ x ∈ pre.map trim, x.length = 0) ∧ (pre ++ r :: post).map trim =
    pre.map trim ++ moved r :: post := by
  obtain ⟨hpre, hpost, -⟩ := around hmap
  constructor
  · intro x hx
    obtain ⟨e, he, rfl⟩ := List.mem_map.mp hx
    have := hpre e he
    rw [trim_below (by omega)]
  · have hid : ∀ e ∈ post, trim e = id e := fun e he => by
      have := hpost e he
      exact trim_above (by omega)
    rw [List.map_append, List.map_cons, trim_reaching hbase hend, List.map_congr_left hid,
      List.map_id, moved]

include husable

omit hmap in
theorem managed_moved : managed (moved r) = true := by
  refine decide_eq_true ⟨husable, ?_⟩
  show r.length ≠ 0
  omega

/-- A module made of what `r` became lies in an entry behind it, which must have
been carved. -/
theorem exists_behind {p₁ p₂ : List MemmapEntry} {x : MemmapEntry}
    (h : UsableOnly (pre ++ r :: post) ((p₁ ++ x :: p₂).filter managed)) (hx : managed x = true)
    (hbeyond : 0x100000 ≤ x.base → r.base + r.length < x.base + x.length) :
    ∃ e ∈ post, e.type = .USABLE ∧ e.base ≤ x.base ∧ e ∉ p₂ := by
  obtain ⟨hpre, hpost, -⟩ := around hmap
  obtain ⟨-, hne⟩ := of_decide_eq_true hx
  have hmem : x ∈ (p₁ ++ x :: p₂).filter managed := List.mem_filter.mpr ⟨by simp, hx⟩
  obtain ⟨⟨e, he, htype, hle, hend'⟩, hhigh⟩ := h.2 x hmem
  rcases List.mem_append.mp he with he | he
  · have := hpre e he
    omega
  rcases List.mem_cons.mp he with rfl | he
  · have := hbeyond hhigh
    omega
  refine ⟨e, he, htype, hle, fun hin => ?_⟩
  have hpair := h.1
  rw [List.filter_append, List.filter_cons_of_pos hx] at hpair
  have hmanaged : managed e = true := decide_eq_true ⟨htype, by omega⟩
  have hbefore := (List.pairwise_cons.mp (List.pairwise_append.mp hpair).2.1).1 e
    (List.mem_filter.mpr ⟨hin, hmanaged⟩)
  omega

omit hmap husable in
theorem carve_beyond (hpages : PAGE_SIZE ∣ r.length ∧ r.length < W)
    (hne : (carve buffer_size (moved r)).length ≠ 0)
    (hhigh : 0x100000 ≤ (carve buffer_size (moved r)).base) :
    r.base + r.length < (carve buffer_size (moved r)).base +
      (carve buffer_size (moved r)).length := by
  simp only [carve, moved, ALIGN_UP, DIV_ROUNDUP] at hne hhigh ⊢
  rw [W_eq] at *
  unfold PAGE_SIZE at *
  omega

theorem harmless_of_usableOnly
    (h : UsableOnly (pre ++ r :: post) (managedEntries sizeof HIGH_VMA (pre ++ r :: post))) :
    Harmless sizeof (pre ++ r :: post) r := by
  have hr : r ∈ pre ++ r :: post := by simp
  have hpages := (hmap.pages r hr).2
  have hmoved := managed_moved husable hbase hend
  have hbeyond : r.base + r.length < (moved r).base + (moved r).length := by
    show _ < 0x100000 + r.length
    omega
  rw [managedEntries, prepare_fst, (map_trim_around hmap hbase hend).2] at h
  unfold Harmless
  generalize reserved sizeof (pre ++ r :: post) = buffer_size at h ⊢
  obtain ⟨p₁, hp | hp⟩ := carveFirst_split HIGH_VMA buffer_size (pre.map trim)
    (moved r :: post)
  · rw [hp] at h
    obtain ⟨e, he, -, -, hnot⟩ := exists_behind hmap husable hbase hend h hmoved fun _ => hbeyond
    exact absurd he hnot
  · rw [hp, carveFirst] at h
    split at h
    · next hfits =>
      -- the metadata is carved out of `r`
      refine .inl ⟨hfits.2, by_contra fun hne => ?_⟩
      have hcarved : managed (carve buffer_size (moved r)) = true :=
        decide_eq_true ⟨husable, Nat.mul_ne_zero hne (by decide)⟩
      obtain ⟨e, he, -, -, hnot⟩ := exists_behind hmap husable hbase hend h hcarved
        (carve_beyond hbase hend ⟨hpages.1, hpages.2.2⟩ (of_decide_eq_true hcarved).2)
      exact hnot he
    · next hfits =>
      obtain ⟨e, he, htype, hle, hnot⟩ :=
        exists_behind hmap husable hbase hend h hmoved fun _ => hbeyond
      have hhold := (mem_carveFirst he).resolve_left hnot
      have hbehind := (around hmap).2.1 e he
      have hle' : e.base ≤ 0x100000 := hle
      refine .inr ⟨by omega, Nat.lt_of_not_le fun hfit => hfits ⟨husable, hfit⟩, e, by simp [he],
        htype, by omega, hhold⟩

omit husable hbase in
/-- The entries behind `r` that are not touched. -/
theorem untouched (he : e ∈ post) (hmanaged : managed e = true) :
    (∃ e' ∈ pre ++ r :: post, e'.type = .USABLE ∧ e'.base ≤ e.base ∧
      e.base + e.length ≤ e'.base + e'.length) ∧ 0x100000 ≤ e.base := by
  have := (around hmap).2.1 e he
  exact ⟨⟨e, by simp [he], (of_decide_eq_true hmanaged).1, le_rfl, le_rfl⟩, by omega⟩

omit husable hbase in
theorem usableOnly_of_held {mid post' : List MemmapEntry} {f : MemmapEntry}
    (hpost : post = mid ++ f :: post') (hf : f.type = .USABLE ∧ f.base = 0x100000)
    (hlt : r.length < buffer_size) (hle : buffer_size ≤ f.length) :
    UsableOnly (pre ++ r :: post)
      (moved r :: (carve buffer_size f :: post').filter managed) := by
  obtain ⟨-, -, hsorted⟩ := around hmap
  rw [hpost] at hsorted
  obtain ⟨hhead, hrest⟩ := List.pairwise_cons.mp (List.pairwise_append.mp hsorted).2.1
  have hfmem : f ∈ pre ++ r :: post := by simp [hpost]
  have hcarve : managed (carve buffer_size f) = true →
      f.base + buffer_size ≤ (carve buffer_size f).base ∧
      (carve buffer_size f).base + (carve buffer_size f).length ≤ f.base + f.length := fun hm =>
    have h := carve_inside (hmap.aligned f hfmem) (hmap.range f hfmem).2.2 (of_decide_eq_true hm).2
    ⟨h.1, h.2.1⟩
  refine ⟨List.pairwise_cons.mpr ⟨fun t ht => ?_, ?_⟩, fun t ht => ?_⟩
  · obtain ⟨ht, hm⟩ := List.mem_filter.mp ht
    show 0x100000 + r.length ≤ t.base
    rcases List.mem_cons.mp ht with rfl | ht
    · have := hcarve hm
      omega
    · have := hhead t ht
      omega
  · rw [List.pairwise_filter, List.pairwise_cons]
    refine ⟨fun t ht hm _ => ?_, hrest.imp fun h _ _ => h⟩
    have := hcarve hm
    have := hhead t ht
    omega
  · rcases List.mem_cons.mp ht with rfl | ht
    · refine ⟨⟨f, hfmem, hf.1, hf.2.le, ?_⟩, le_rfl⟩
      show 0x100000 + r.length ≤ f.base + f.length
      omega
    · obtain ⟨ht, hm⟩ := List.mem_filter.mp ht
      rcases List.mem_cons.mp ht with rfl | ht
      · have := hcarve hm
        exact ⟨⟨f, hfmem, hf.1, by omega, this.2⟩, by omega⟩
      · exact untouched hmap hend (by simp [hpost, ht]) hm

theorem usableOnly_of_harmless (h : Harmless sizeof (pre ++ r :: post) r) :
    UsableOnly (pre ++ r :: post) (managedEntries sizeof HIGH_VMA (pre ++ r :: post)) := by
  obtain ⟨hpre, hpost, hsorted⟩ := around hmap
  obtain ⟨hempty, htrim⟩ := map_trim_around hmap hbase hend
  have hpage : PAGE_SIZE ∣ r.length := (hmap.aligned r (by simp)).2
  rw [managedEntries, prepare_fst, htrim]
  unfold Harmless at h
  generalize reserved sizeof (pre ++ r :: post) = buffer_size at h ⊢
  have hpos : 0 < buffer_size := by
    rcases h with ⟨-, hdiv⟩ | ⟨-, hlt, -⟩
    · unfold PAGE_SIZE at *
      omega
    · omega
  have hskip : ∀ x : MemmapEntry, x.length = 0 → ¬(x.type = .USABLE ∧ buffer_size ≤ x.length) := by
    intro x hx hfits
    omega
  have hnone : ∀ l : List MemmapEntry, (∀ x ∈ l, x.length = 0) → l.filter managed = [] := by
    intro l hl
    exact List.filter_eq_nil_iff.mpr fun x hx => by simp [managed, hl x hx]
  rw [carveFirst_append fun x hx => hskip x (hempty x hx), List.filter_append, hnone _ hempty,
    List.nil_append, carveFirst]
  rcases h with ⟨hle, hdiv⟩ | ⟨hat, hlt, f, hf, htype, hfbase, hfle⟩
  · -- nothing is left of `r`
    rw [if_pos ⟨husable, hle⟩, List.filter_cons_of_neg (by simp [managed, carve, moved, hdiv])]
    refine ⟨hsorted.filter _, fun t ht => ?_⟩
    obtain ⟨ht, hm⟩ := List.mem_filter.mp ht
    exact untouched hmap hend ht hm
  · have hfpost : f ∈ post := by
      rcases List.mem_append.mp hf with hf | hf
      · have := hpre f hf
        omega
      · rcases List.mem_cons.mp hf with rfl | hf
        · omega
        · exact hf
    obtain ⟨mid, post', hsplit⟩ := List.append_of_mem hfpost
    have hmid : ∀ x ∈ mid, x.length = 0 := by
      intro x hx
      rw [hsplit] at hsorted
      have hbefore := (List.pairwise_append.mp hsorted).2.2 x hx f (by simp)
      have hbehind := hpost x (by simp [hsplit, hx])
      omega
    rw [if_neg (fun hfits => absurd hfits.2 (Nat.not_le.mpr hlt))]
    dsimp only
    rw [List.filter_cons_of_pos (managed_moved husable hbase hend), hsplit,
      carveFirst_append fun x hx => hskip x (hmid x hx), List.filter_append, hnone _ hmid,
      List.nil_append, carveFirst, if_pos ⟨htype, hfle⟩, ← hsplit]
    exact usableOnly_of_held hmap hend hsplit ⟨htype, hfbase⟩ hlt hfle

end

/-- **`pmm_init` manages usable memory only**, for every page-aligned, sorted map of
entries that do not overlap: the page ranges of the modules are disjoint,
each lies in one usable entry of the map, and each lies above 1 MiB, just if
every usable entry that reaches 1 MiB from below is harmless. -/
theorem pmm_init_usable_iff (hmap : MemoryMap mmap) :
    (((pmm_init sizeof HIGH_VMA mmap mem).1.Pairwise fun m m' => m.limit ≤ m'.mmap_entry.base) ∧
    ∀ m ∈ (pmm_init sizeof HIGH_VMA mmap mem).1,
      (∃ e ∈ mmap, e.type = .USABLE ∧ e.base ≤ m.mmap_entry.base ∧ m.limit ≤ e.base + e.length) ∧
      0x100000 ≤ m.mmap_entry.base) ↔
    ∀ r ∈ mmap, r.type = .USABLE → r.base < 0x100000 → 0x100000 ≤ r.base + r.length →
      Harmless sizeof mmap r := by
  rw [usable_iff_entries hmap]
  constructor
  · intro h r hr husable hbase hend
    obtain ⟨pre, post, rfl⟩ := List.append_of_mem hr
    exact harmless_of_usableOnly hmap husable hbase hend h
  · intro h
    by_cases hlow : BelowOrAbove mmap
    · exact usableOnly_of_belowOrAbove hmap hlow
    · simp only [BelowOrAbove, not_forall, Nat.not_lt] at hlow
      obtain ⟨r, hr, husable, hbase, hend⟩ := hlow
      have hharmless := h r hr husable hbase hend
      obtain ⟨pre, post, rfl⟩ := List.append_of_mem hr
      exact usableOnly_of_harmless hmap husable hbase hend hharmless

/-- The last page below 1 MiB and four pages from 2 MiB on. -/
def takenMap : List MemmapEntry := [⟨0xff000, 0x1000, .USABLE⟩, ⟨0x200000, 0x4000, .USABLE⟩]

/-- The metadata takes the page below 1 MiB, or rather the one above. -/
theorem pmm_init_usable_iff_taken :
    ((pmm_init 64 0 takenMap fun _ => 0).1.map
      fun m => (m.mmap_entry.base, m.bitmap_entry_cnt)) = [(0x200000, 4)] ∧
    ∀ m ∈ (pmm_init 64 0 takenMap fun _ => 0).1, 0x100000 ≤ m.mmap_entry.base := by
  have hmap : MemoryMap takenMap := ⟨by decide +kernel, by decide +kernel, by decide +kernel⟩
  have hharmless : ∀ r ∈ takenMap, r.type = .USABLE → r.base < 0x100000 →
      0x100000 ≤ r.base + r.length → Harmless 64 takenMap r := by
    unfold Harmless
    decide +kernel
  exact ⟨by decide +kernel, fun m hm => (((pmm_init_usable_iff hmap).mpr hharmless).2 m hm).2⟩

/-- **An entry that reaches 1 MiB from below keeps its length**: of the usable
entry from 0xff000 to 0x102000, the metadata takes a page and the module
manages the pages from 0x101000 to 0x103000. -/
theorem pmm_init_beyond_entry :
    ¬ ∀ mmap : List MemmapEntry, MemoryMap mmap → ∀ m ∈ (pmm_init 64 0 mmap fun _ => 0).1,
      ∃ e ∈ mmap, e.type = .USABLE ∧ e.base ≤ m.mmap_entry.base ∧ m.limit ≤ e.base + e.length := by
  intro h
  have hmap : MemoryMap [⟨0xff000, 0x3000, .USABLE⟩] :=
    ⟨by decide +kernel, by decide +kernel, by decide +kernel⟩
  have hmodule : ∃ m ∈ (pmm_init 64 0 [⟨0xff000, 0x3000, .USABLE⟩] fun _ => 0).1,
      m.limit = 0x103000 := by decide +kernel
  obtain ⟨m, hm, hlimit⟩ := hmodule
  obtain ⟨e, he, -, -, hend⟩ := h _ hmap m hm
  rw [List.mem_singleton.mp he, hlimit] at hend
  exact absurd hend (by decide)

end Pmm
