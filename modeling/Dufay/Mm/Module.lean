import Dufay.Framework.Memory
import Dufay.Framework.Size

/-! # One module of the physical allocator

`pmm_init_module`, `pmm_module_alloc` and `pmm_module_free` of
`mm/physical.c`. A module manages the pages of one entry of the memory
map with a bitmap, one bit a page. The bitmap is in memory, at
`module->bitmap`.

Numbers are 64-bit: sums and products are taken modulo `W`. The nested
search of `pmm_module_alloc` keeps two counters, the address
`alloc_base` and the bit `i`, which advance separately. `Placed` says
how they belong together.
-/

open Memory Size

namespace Pmm

def PAGE_SIZE : Nat := 4096

/-- `limine_memmap_entry::type` -/
inductive MemmapType where
  | USABLE
  | RESERVED
  | ACPI_RECLAIMABLE
  | ACPI_NVS
  | BAD_MEMORY
  | BOOTLOADER_RECLAIMABLE
  | KERNEL_AND_MODULES
  | FRAMEBUFFER
  deriving DecidableEq

/-- `struct limine_memmap_entry` -/
structure MemmapEntry where
  base : Nat
  length : Nat
  type : MemmapType
  deriving DecidableEq

/-- `struct pmm_module`, without the list and the lock. -/
structure PmmModule where
  mmap_entry : MemmapEntry
  bitmap_size : Nat
  bitmap_entry_cnt : Nat
  last_free : Nat
  bitmap : Nat
  deriving DecidableEq

/-- The struct after `memset8(module, 0, sizeof(struct pmm_module))`. -/
def PmmModule.zeroed : PmmModule where
  mmap_entry := ⟨0, 0, .USABLE⟩
  bitmap_size := 0
  bitmap_entry_cnt := 0
  last_free := 0
  bitmap := 0

/-- `pmm_init_module`, which also moves `meta_buffer` behind the bitmap. -/
def pmm_init_module (module : PmmModule) (mmap_entry : MemmapEntry) (meta_buffer : Nat)
    (mem : Mem) : PmmModule × Nat × Mem :=
  let page_cnt := DIV_ROUNDUP mmap_entry.length PAGE_SIZE
  let module :=
    { module with
      mmap_entry := mmap_entry
      bitmap_size := DIV_ROUNDUP page_cnt 8
      bitmap_entry_cnt := page_cnt
      bitmap := meta_buffer }
  (module, (meta_buffer + module.bitmap_size) % W, Memory.zero mem module.bitmap module.bitmap_size)

/-! ### Allocation -/

/-- How the inner loop of `pmm_module_alloc` ends. -/
inductive Scan where
  /-- A bit is set: the loop is left. -/
  | taken
  /-- `count` reached `cnt` at bit `j`. -/
  | free (j : Nat)
  /-- The bound was reached first. -/
  | done
  deriving DecidableEq

/-- The inner loop, with `n` bits to go to its bound. -/
def scan (mem : Mem) (bitmap cnt : Nat) : Nat → Nat → Nat → Scan
  | 0, _, _ => .done
  | n + 1, j, count =>
    if BIT_TEST mem bitmap j then .taken
    else if count + 1 = cnt then .free j
    else scan mem bitmap cnt n (j + 1) (count + 1)

/-- Where the search succeeds. -/
structure Found where
  alloc_base : Nat
  i : Nat
  j : Nat

/-- The outer loop, for at most `fuel` rounds: `some none` is
`RETURN_ERROR`, `none` means that the rounds did not suffice. -/
def search (m : PmmModule) (mem : Mem) (cnt align : Nat) : Nat → Nat → Nat → Option (Option Found)
  | 0, _, _ => none
  | fuel + 1, alloc_base, i =>
    if i < m.bitmap_entry_cnt then
      if m.bitmap_entry_cnt < (i + cnt) % W then some none
      else
        match scan mem m.bitmap cnt ((i + cnt) % W - i) i 0 with
        | .taken =>
          search m mem cnt align fuel ((alloc_base + align * PAGE_SIZE % W) % W) ((i + align) % W)
        | .free j => some (some ⟨alloc_base, i, j⟩)
        | .done => search m mem cnt align fuel alloc_base ((i + align) % W)
    else some none

/-- The address at which the search begins. -/
def alloc_base (m : PmmModule) (align : Nat) : Nat :=
  ALIGN_UP ((m.mmap_entry.base + m.last_free * PAGE_SIZE % W) % W) (align * PAGE_SIZE % W)

/-- The bit at which the search begins. -/
def bit_base (m : PmmModule) (align : Nat) : Nat :=
  (alloc_base m align + W - m.mmap_entry.base) % W / PAGE_SIZE

/-- What is done with the result of the search: the bits are set, and
`last_free` becomes the next clear bit behind them, or 0. -/
def finish (m : PmmModule) (mem : Mem) (cnt : Nat) :
    Option (Option Found) → Option (Option Nat × PmmModule × Mem)
  | none => none
  | some none => some (none, m, mem)
  | some (some found) =>
    let mem := setBits mem m.bitmap found.i cnt
    let last_free := (firstClear mem m.bitmap (m.bitmap_entry_cnt - found.j) found.j).getD 0
    some (some found.alloc_base, { m with last_free := last_free }, mem)

/-- `pmm_module_alloc`: the address or `none` for `RETURN_ERROR`, the module
and the memory. The result is `none` if the search does not end within
one round for each page, and one more. -/
def pmm_module_alloc (m : PmmModule) (mem : Mem) (cnt align : Nat) :
    Option (Option Nat × PmmModule × Mem) :=
  finish m mem cnt
    (search m mem cnt align (m.bitmap_entry_cnt + 1) (alloc_base m align) (bit_base m align))

def pmm_module_free (m : PmmModule) (mem : Mem) (base cnt : Nat) : Mem :=
  let i := DIV_ROUNDUP base PAGE_SIZE
  clearBits mem m.bitmap i ((i + cnt) % W - i)

/-- A module as `pmm_init` makes one: the entry is page-aligned and not
empty, and the counts are those of the entry. -/
structure PmmModule.Valid (m : PmmModule) : Prop where
  base_lt : m.mmap_entry.base < W
  aligned : PAGE_SIZE ∣ m.mmap_entry.base
  entry_cnt : m.bitmap_entry_cnt = DIV_ROUNDUP m.mmap_entry.length PAGE_SIZE
  nonempty : 0 < m.bitmap_entry_cnt
  last_free_lt : m.last_free < m.bitmap_entry_cnt

variable {m : PmmModule} {mem : Mem} {cnt align : Nat}

theorem PmmModule.Valid.entry_cnt_lt (h : m.Valid) : m.bitmap_entry_cnt < 2 ^ 52 := by
  have hlt : DIV_ROUNDUP _ _ * _ < W := ALIGN_UP_lt m.mmap_entry.length PAGE_SIZE
  rw [← h.entry_cnt] at hlt
  unfold PAGE_SIZE W at hlt
  omega

/-- Unless a bit is set, the scan ends at the last of `cnt` clear bits. -/
theorem scan_spec {bitmap : Nat} : ∀ {n j count : Nat}, count + (n + 1) = cnt →
      scan mem bitmap cnt (n + 1) j count = .taken ∨
        (scan mem bitmap cnt (n + 1) j count = .free (j + n) ∧
          ∀ k, j ≤ k → k ≤ j + n → BIT_TEST mem bitmap k = false) := by
  intro n
  induction n with
  | zero =>
    intro j count hcnt
    simp only [scan]
    cases htest : BIT_TEST mem bitmap j with
    | true => exact .inl rfl
    | false =>
      refine .inr ⟨by simp [hcnt], fun k hk hkn => ?_⟩
      obtain rfl : k = j := by omega
      exact htest
  | succ n ih =>
    intro j count hcnt
    rw [scan]
    cases htest : BIT_TEST mem bitmap j with
    | true => exact .inl rfl
    | false =>
      have hnot : count + 1 ≠ cnt := by omega
      rw [if_neg Bool.false_ne_true, if_neg hnot]
      rcases @ih (j + 1) (count + 1) (by omega) with htaken | ⟨hfree, hclear⟩
      · exact .inl htaken
      · right
        refine ⟨by rw [hfree]; congr 1; omega, fun k hk hkn => ?_⟩
        rcases Nat.eq_or_lt_of_le hk with rfl | hlt
        · exact htest
        · exact hclear k hlt (by omega)

/-! ### The two counters -/

/-- The address belongs to the bit, and is aligned. -/
structure Placed (m : PmmModule) (align alloc_base i : Nat) : Prop where
  address : alloc_base = (m.mmap_entry.base + i * PAGE_SIZE) % W
  aligned : align * PAGE_SIZE ∣ alloc_base

theorem align_cases (halign : align = 2 ^ k) :
    align * PAGE_SIZE ∣ W ∨ align * PAGE_SIZE % W = 0 := by
  have hpow : align * PAGE_SIZE = 2 ^ (k + 12) := by
    rw [halign, Nat.pow_add]
    rfl
  rw [hpow, W]
  rcases Nat.le_total (k + 12) 64 with hle | hle
  · exact .inl (Nat.pow_dvd_pow 2 hle)
  · exact .inr (Nat.mod_eq_zero_of_dvd (Nat.pow_dvd_pow 2 hle))

theorem Placed.next {alloc_base : Nat} (h : Placed m align alloc_base i) (halign : align = 2 ^ k) :
    Placed m align ((alloc_base + align * PAGE_SIZE % W) % W) ((i + align) % W) := by
  constructor
  · have hmul : (i + align) % W * PAGE_SIZE % W = (i + align) * PAGE_SIZE % W := by
      rw [Nat.mod_mul_mod]
    rw [h.address, Nat.mod_add_mod, Nat.add_mod_mod, Nat.add_mod _ ((i + align) % W * PAGE_SIZE),
      hmul, ← Nat.add_mod, Nat.add_mul, Nat.add_assoc]
  · rcases align_cases halign with hdvd | hzero
    · rw [Nat.dvd_mod_iff hdvd]
      exact Nat.dvd_add h.aligned ((Nat.dvd_mod_iff hdvd).mpr dvd_rfl)
    · -- the address does not move
      have hlt : alloc_base < W := by
        rw [h.address]
        exact Nat.mod_lt _ W_pos
      rw [hzero, Nat.add_zero, Nat.mod_eq_of_lt hlt]
      exact h.aligned

theorem Placed.start {k : Nat} (hm : m.Valid) (halign : align = 2 ^ k) :
    Placed m align (alloc_base m align) (bit_base m align) := by
  have haligned : align * PAGE_SIZE ∣ alloc_base m align := by
    unfold alloc_base
    rcases align_cases halign with hdvd | hzero
    · exact dvd_trans ((Nat.dvd_mod_iff hdvd).mpr dvd_rfl) (dvd_ALIGN_UP _ _)
    · rw [hzero, ALIGN_UP_zero]
      exact dvd_zero _
  refine ⟨?_, haligned⟩
  have hpage : PAGE_SIZE ∣ alloc_base m align := dvd_trans (Nat.dvd_mul_left _ _) haligned
  have hlt : alloc_base m align < W := ALIGN_UP_lt _ _
  unfold bit_base
  generalize alloc_base m align = a at hpage hlt ⊢
  have hbase := hm.base_lt
  have hbasePage := hm.aligned
  unfold PAGE_SIZE W at *
  omega

/-! ### The outer loop -/

section search

variable {k : Nat} (hm : m.Valid) (halign : align = 2 ^ k) (hk : k < 64)

include halign in
theorem align_pos : 0 < align := by
  rw [halign]
  exact Nat.two_pow_pos k

include hm halign hk in
theorem step_lt (hi : i < m.bitmap_entry_cnt) : (i + align) % W = i + align := by
  have hle : align ≤ 2 ^ 63 := by
    rw [halign]
    exact Nat.pow_le_pow_right (by decide) (by omega)
  have hcnt := hm.entry_cnt_lt
  apply Nat.mod_eq_of_lt
  unfold W
  omega

include hm halign hk in
theorem search_error (hcnt : cnt = 0 ∨ m.bitmap_entry_cnt < cnt) (hW : cnt < W) :
    ∀ {fuel alloc_base i : Nat}, m.bitmap_entry_cnt - i < fuel →
      search m mem cnt align fuel alloc_base i = some none := by
  intro fuel
  induction fuel with
  | zero =>
    intro alloc_base i hfuel
    cases hfuel
  | succ fuel ih =>
    intro alloc_base i hfuel
    rw [search]
    by_cases hi : i < m.bitmap_entry_cnt
    · rw [if_pos hi]
      by_cases hover : m.bitmap_entry_cnt < (i + cnt) % W
      · rw [if_pos hover]
      · rw [if_neg hover]
        have hempty : (i + cnt) % W - i = 0 := by
          unfold W at *
          omega
        rw [hempty]
        have hpos := align_pos halign
        have hstep := step_lt hm halign hk hi
        exact ih (by omega)
    · rw [if_neg hi]

include hm halign hk in
/-- The search ends, and what it finds are `cnt` clear bits at an aligned
address. -/
theorem search_spec (hpos : 0 < cnt) (hcnt : cnt ≤ m.bitmap_entry_cnt) :
    ∀ {fuel alloc_base i : Nat}, m.bitmap_entry_cnt - i < fuel → Placed m align alloc_base i →
      search m mem cnt align fuel alloc_base i = some none ∨
        ∃ found, search m mem cnt align fuel alloc_base i = some (some found) ∧
          Placed m align found.alloc_base found.i ∧
          found.i + cnt ≤ m.bitmap_entry_cnt ∧ found.j + 1 = found.i + cnt ∧
          ∀ b, found.i ≤ b → b < found.i + cnt → BIT_TEST mem m.bitmap b = false := by
  intro fuel
  induction fuel with
  | zero =>
    intro alloc_base i hfuel
    cases hfuel
  | succ fuel ih =>
    intro alloc_base i hfuel hplaced
    rw [search]
    by_cases hi : i < m.bitmap_entry_cnt
    · have hlt := hm.entry_cnt_lt
      have hsum : (i + cnt) % W = i + cnt := by
        apply Nat.mod_eq_of_lt
        unfold W
        omega
      rw [if_pos hi, hsum]
      by_cases hover : m.bitmap_entry_cnt < i + cnt
      · exact .inl (if_pos hover)
      · rw [if_neg hover]
        obtain ⟨n, rfl⟩ : ∃ n, cnt = n + 1 := ⟨cnt - 1, by omega⟩
        have hn : i + (n + 1) - i = n + 1 := by omega
        rw [hn]
        rcases @scan_spec mem (n + 1) m.bitmap n i 0 (Nat.zero_add (n + 1)) with
          htaken | ⟨hfree, hclear⟩
        · rw [htaken]
          have hpos' := align_pos halign
          have hstep := step_lt hm halign hk hi
          exact ih (by omega) (hplaced.next halign)
        · rw [hfree]
          refine .inr ⟨⟨alloc_base, i, i + n⟩, rfl, hplaced, Nat.le_of_not_lt hover, rfl, fun b hb hbn => ?_⟩
          exact hclear b hb (Nat.le_of_lt_succ hbn)
    · exact .inl (if_neg hi)

end search

/-! ### What a call does -/

/-- A successful allocation of the pages `first` to `first + cnt`. -/
structure Allocates (m : PmmModule) (mem : Mem) (cnt align : Nat) (addr first : Nat)
    (m' : PmmModule) (mem' : Mem) : Prop where
  pos : 0 < cnt
  inside : first + cnt ≤ m.bitmap_entry_cnt
  clear : ∀ b, first ≤ b → b < first + cnt → BIT_TEST mem m.bitmap b = false
  mem : mem' = setBits mem m.bitmap first cnt
  module : ∃ last_free, last_free < m.bitmap_entry_cnt ∧ m' = { m with last_free := last_free }
  address : addr = (m.mmap_entry.base + first * PAGE_SIZE) % W
  aligned : align * PAGE_SIZE ∣ addr

/-- **`pmm_module_alloc`** for every count and every alignment that is a
power of two: it ends, and either fails and changes nothing, or
allocates. -/
theorem pmm_module_alloc_spec {k : Nat} (hm : m.Valid) (hW : cnt < W) (halign : align = 2 ^ k)
    (hk : k < 64) : pmm_module_alloc m mem cnt align = some (none, m, mem) ∨
      ∃ addr first m' mem', pmm_module_alloc m mem cnt align = some (some addr, m', mem') ∧
        Allocates m mem cnt align addr first m' mem' := by
  have hfuel : m.bitmap_entry_cnt - bit_base m align < m.bitmap_entry_cnt + 1 := by omega
  rw [pmm_module_alloc]
  by_cases hcnt : cnt = 0 ∨ m.bitmap_entry_cnt < cnt
  · left
    rw [search_error hm halign hk hcnt hW hfuel, finish]
  · have hpos : 0 < cnt := by omega
    have hle : cnt ≤ m.bitmap_entry_cnt := by omega
    rcases @search_spec m mem cnt align k hm halign hk hpos hle _ _ _ hfuel (.start hm halign) with
      herr | ⟨found, hfound, hplaced, hinside, hj, hclear⟩
    · left
      rw [herr, finish]
    · right
      rw [hfound, finish]
      refine ⟨found.alloc_base, found.i, _, _, rfl, ?_⟩
      refine ⟨hpos, hinside, hclear, rfl, ⟨_, ?_, rfl⟩, hplaced.address, hplaced.aligned⟩
      -- the hint is a bit of the module, or 0
      cases hnext : firstClear (setBits mem m.bitmap found.i cnt) m.bitmap
          (m.bitmap_entry_cnt - found.j) found.j with
      | none => exact hm.nonempty
      | some z =>
        have hz := firstClear_lt hnext
        have hgoal : z < m.bitmap_entry_cnt := by omega
        exact hgoal

theorem pmm_module_free_eq (hW : (first + cnt) * PAGE_SIZE ≤ W) (hpos : 0 < cnt) :
    pmm_module_free m mem (first * PAGE_SIZE) cnt = clearBits mem m.bitmap first cnt := by
  have hfirst : first * PAGE_SIZE + PAGE_SIZE ≤ W := calc
      first * PAGE_SIZE + PAGE_SIZE = (first + 1) * PAGE_SIZE := (Nat.succ_mul _ _).symm
      _ ≤ (first + cnt) * PAGE_SIZE := Nat.mul_le_mul_right _ (by omega)
      _ ≤ W := hW
  have hsum : (first + cnt) % W = first + cnt := by
    apply Nat.mod_eq_of_lt
    unfold PAGE_SIZE W at *
    omega
  have hdiv : DIV_ROUNDUP (first * PAGE_SIZE) PAGE_SIZE = first :=
    DIV_ROUNDUP_mul (by decide) hfirst
  have hcnt : (first + cnt) % W - first = cnt := by
    rw [hsum]
    omega
  rw [pmm_module_free, hdiv, hcnt]

end Pmm
