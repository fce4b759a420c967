import Dufay.Mm.Physical

/-! # When an allocation fails

`pmm_module_alloc` looks for free pages from its hint `last_free` on. An
allocation moves the hint behind the pages it takes, and `pmm_free` does
not move it back, so that free pages in front of it are not found until
the hint returns to 0.
-/

open Lts Memory Size

namespace Pmm

variable {m : PmmModule} {mem : Mem} {cnt align first : Nat}

/-! ### Free pages -/

/-- The `cnt` pages from page `first` on are free pages of the module, and
begin at an aligned address. -/
structure PmmModule.Fits (m : PmmModule) (mem : Mem) (cnt align first : Nat) : Prop where
  inside : first + cnt ≤ m.bitmap_entry_cnt
  clear : ∀ b, first ≤ b → b < first + cnt → BIT_TEST mem m.bitmap b = false
  aligned : align * PAGE_SIZE ∣ m.mmap_entry.base + first * PAGE_SIZE

/-- The page is at the hint or behind it. In a module at address 0, a start
of the search that overflows is page 0 again. -/
def PmmModule.Reaches (m : PmmModule) (align first : Nat) : Prop := m.last_free ≤ first ∨
    (m.mmap_entry.base = 0 ∧ W < m.last_free * PAGE_SIZE + align * PAGE_SIZE)

instance (m : PmmModule) (align first : Nat) : Decidable (m.Reaches align first) :=
  inferInstanceAs (Decidable (_ ∨ _))

/-! ### Where the search begins -/

section start

variable {k : Nat} (hm : m.Valid) (hrange : m.limit ≤ W) (halign : align = 2 ^ k)

include hrange in
theorem address_lt (hfirst : first < m.bitmap_entry_cnt) :
    m.mmap_entry.base + first * PAGE_SIZE < W := by
  unfold PmmModule.limit PAGE_SIZE at *
  omega

include hm hrange in
theorem alloc_base_eq (hlt : align * PAGE_SIZE < W) : alloc_base m align =
      ALIGN_UP (m.mmap_entry.base + m.last_free * PAGE_SIZE) (align * PAGE_SIZE) := by
  have haddr := address_lt hrange hm.last_free_lt
  have hmod : m.last_free * PAGE_SIZE % W = m.last_free * PAGE_SIZE := Nat.mod_eq_of_lt (by omega)
  rw [alloc_base, hmod, Nat.mod_eq_of_lt hlt, Nat.mod_eq_of_lt haddr]

include hrange in
theorem bit_base_of_zero (hzero : alloc_base m align = 0) (hfirst : first < m.bitmap_entry_cnt) :
    bit_base m align ≤ first ↔ m.mmap_entry.base = 0 := by
  rw [bit_base, hzero]
  unfold PmmModule.limit PAGE_SIZE W at *
  omega

theorem bit_base_of_le (hbase : m.mmap_entry.base ≤ alloc_base m align) :
    bit_base m align = (alloc_base m align - m.mmap_entry.base) / PAGE_SIZE := by
  have hlt : alloc_base m align < W := ALIGN_UP_lt _ _
  have heq : alloc_base m align + W - m.mmap_entry.base =
      alloc_base m align - m.mmap_entry.base + W := by omega
  rw [bit_base, heq, Nat.add_mod_right, Nat.mod_eq_of_lt (by omega)]

section aligned

variable (hfirst : first < m.bitmap_entry_cnt)
  (haligned : align * PAGE_SIZE ∣ m.mmap_entry.base + first * PAGE_SIZE)

include hrange hfirst haligned in
theorem bit_base_le_iff_beyond (hge : W ≤ align * PAGE_SIZE)
    (hstart : alloc_base m align = 0) : bit_base m align ≤ first ↔ m.Reaches align first := by
  have haddr := address_lt hrange hfirst
  have hzero := Nat.eq_zero_of_dvd_of_lt haligned (by omega)
  have hbase : m.mmap_entry.base = 0 := by omega
  rw [bit_base_of_zero hrange hstart hfirst]
  refine ⟨fun _ => ?_, fun _ => hbase⟩
  rcases Nat.eq_zero_or_pos m.last_free with hnone | hsome
  · exact .inl (by omega)
  · exact .inr ⟨hbase, by unfold PAGE_SIZE at *; omega⟩

include hm hrange hfirst haligned in
theorem bit_base_le_iff_over (hdvd : align * PAGE_SIZE ∣ W) (hlt : align * PAGE_SIZE < W)
    (hover : W < m.mmap_entry.base + m.last_free * PAGE_SIZE + align * PAGE_SIZE) :
    bit_base m align ≤ first ↔ m.Reaches align first := by
  have hroom := add_le_of_dvd haligned hdvd (address_lt hrange hfirst)
  have hzero : alloc_base m align = 0 := by
    by_contra hne
    have hdvdStart := dvd_ALIGN_UP (m.mmap_entry.base + m.last_free * PAGE_SIZE) (align * PAGE_SIZE)
    rw [alloc_base_eq hm hrange hlt] at hne
    have hle := le_ALIGN_UP_of_ne_zero (address_lt hrange hm.last_free_lt) hlt hne
    have hnext := add_le_of_dvd hdvdStart hdvd (ALIGN_UP_lt _ _)
    omega
  rw [bit_base_of_zero hrange hzero hfirst]
  constructor
  · intro hbase
    exact .inr ⟨hbase, by omega⟩
  · intro hreach
    rcases hreach with hle | ⟨hbase, -⟩
    · have hmul := Nat.mul_le_mul_right PAGE_SIZE hle
      omega
    · exact hbase

include hm hrange haligned in
theorem bit_base_le_iff_fit (hpos : 0 < align * PAGE_SIZE) (hlt : align * PAGE_SIZE < W)
    (hfit : m.mmap_entry.base + m.last_free * PAGE_SIZE + align * PAGE_SIZE ≤ W) :
    bit_base m align ≤ first ↔ m.Reaches align first := by
  have hstart := alloc_base_eq hm hrange hlt
  obtain ⟨hle, hup⟩ := le_ALIGN_UP hpos hfit
  have hdvd := dvd_ALIGN_UP (m.mmap_entry.base + m.last_free * PAGE_SIZE) (align * PAGE_SIZE)
  rw [← hstart] at hle hup hdvd
  rw [bit_base_of_le (by omega)]
  constructor
  · intro hbit
    left
    unfold PAGE_SIZE at *
    omega
  · intro hreach
    have hhint : m.last_free ≤ first := by
      rcases hreach with hhint | ⟨hbase, hover⟩
      · exact hhint
      · omega
    have hmul := Nat.mul_le_mul_right PAGE_SIZE hhint
    have hnot : ¬ m.mmap_entry.base + first * PAGE_SIZE < alloc_base m align := by
      intro hbehind
      have hnext := add_le_of_dvd haligned hdvd hbehind
      omega
    unfold PAGE_SIZE at *
    omega

include hm hrange halign hfirst haligned in
theorem bit_base_le_iff : bit_base m align ≤ first ↔ m.Reaches align first := by
  have hpos : 0 < align * PAGE_SIZE := Nat.mul_pos (align_pos halign) (by decide)
  rcases Nat.lt_or_ge (align * PAGE_SIZE) W with hlt | hge
  · have hdvd : align * PAGE_SIZE ∣ W := by
      rcases align_cases halign with hdvd | hzero
      · exact hdvd
      · rw [Nat.mod_eq_of_lt hlt] at hzero
        omega
    rcases Nat.lt_or_ge W (m.mmap_entry.base + m.last_free * PAGE_SIZE + align * PAGE_SIZE) with
      hover | hfit
    · exact bit_base_le_iff_over hm hrange hfirst haligned hdvd hlt hover
    · exact bit_base_le_iff_fit hm hrange haligned hpos hlt hfit
  · have hmod : align * PAGE_SIZE % W = 0 := by
      rcases align_cases halign with hdvd | hmod
      · rw [Nat.le_antisymm (Nat.le_of_dvd W_pos hdvd) hge, Nat.mod_self]
      · exact hmod
    apply bit_base_le_iff_beyond hrange hfirst haligned hge
    rw [alloc_base, hmod, ALIGN_UP_zero]

include hm hrange halign hfirst haligned in
theorem dvd_sub_bit_base (hle : bit_base m align ≤ first) : align ∣ first - bit_base m align := by
  have hplaced := Placed.start hm halign
  have haddress := hplaced.address
  rw [Nat.mod_eq_of_lt (address_lt hrange (by omega))] at haddress
  have hdvd : align * PAGE_SIZE ∣ (first - bit_base m align) * PAGE_SIZE := by
    have heq : (first - bit_base m align) * PAGE_SIZE =
        m.mmap_entry.base + first * PAGE_SIZE - alloc_base m align := by
      rw [haddress, Nat.sub_mul, Nat.add_sub_add_left]
    rw [heq]
    exact Nat.dvd_sub haligned hplaced.aligned
  exact Nat.dvd_of_mul_dvd_mul_right (by decide) hdvd

end aligned

end start

/-! ### The search is complete -/

theorem exists_of_scan_taken : ∀ {n j count : Nat}, scan mem bitmap cnt n j count = .taken →
      ∃ b, j ≤ b ∧ b < j + n ∧ BIT_TEST mem bitmap b = true := by
  intro n
  induction n with
  | zero =>
    intro j count h
    cases h
  | succ n ih =>
    intro j count h
    rw [scan] at h
    by_cases htest : BIT_TEST mem bitmap j = true
    · exact ⟨j, Nat.le_refl j, by omega, htest⟩
    · rw [if_neg htest] at h
      split at h
      · cases h
      · obtain ⟨b, hb, hbn, hset⟩ := ih h
        exact ⟨b, by omega, by omega, hset⟩

section search

variable {k : Nat} (hm : m.Valid) (halign : align = 2 ^ k) (hk : k < 64)

include hm halign hk in
theorem le_of_search :
    ∀ {fuel alloc_base i : Nat}, search m mem cnt align fuel alloc_base i = some (some found) →
      i ≤ found.i := by
  intro fuel
  induction fuel with
  | zero =>
    intro alloc_base i h
    cases h
  | succ fuel ih =>
    intro alloc_base i h
    rw [search] at h
    by_cases hi : i < m.bitmap_entry_cnt
    · have hstep := step_lt hm halign hk hi
      rw [if_pos hi] at h
      split at h
      · cases h
      · split at h
        · have hle := ih h
          omega
        · cases h
          exact Nat.le_refl i
        · have hle := ih h
          omega
    · rw [if_neg hi] at h
      cases h

include hm halign hk in
theorem search_complete (hpos : 0 < cnt) (hfits : m.Fits mem cnt align first) :
    ∀ {fuel alloc_base i : Nat}, i ≤ first → align ∣ first - i →
      search m mem cnt align fuel alloc_base i ≠ some none := by
  intro fuel
  induction fuel with
  | zero =>
    intro alloc_base i _ _ h
    cases h
  | succ fuel ih =>
    intro alloc_base i hi hdvd h
    have hinside := hfits.inside
    have hcnt := hm.entry_cnt_lt
    have hlt : i < m.bitmap_entry_cnt := by omega
    have hsum : (i + cnt) % W = i + cnt := by
      apply Nat.mod_eq_of_lt
      unfold W
      omega
    rw [search, if_pos hlt, hsum, if_neg (by omega)] at h
    obtain ⟨n, rfl⟩ : ∃ n, cnt = n + 1 := ⟨cnt - 1, by omega⟩
    have hn : i + (n + 1) - i = n + 1 := by omega
    rw [hn] at h
    rcases @scan_spec mem (n + 1) m.bitmap n i 0 (Nat.zero_add (n + 1)) with htaken | ⟨hfree, -⟩
    · -- a set bit, so these are not the free pages
      obtain ⟨b, hb, hbn, hset⟩ := exists_of_scan_taken htaken
      have hne : i ≠ first := by
        intro heq
        rw [hfits.clear b (by omega) (by omega)] at hset
        cases hset
      have hstep := step_lt hm halign hk hlt
      have hle := Nat.le_of_dvd (by omega) hdvd
      rw [htaken, hstep] at h
      apply ih _ _ h
      · omega
      · rw [Nat.sub_add_eq]
        exact Nat.dvd_sub hdvd (Nat.dvd_refl align)
    · rw [hfree] at h
      cases h

include hm halign hk in
/-- **What a module refuses**: the requests that no free pages within reach
of its hint can serve. -/
theorem pmm_module_alloc_none_iff (hrange : m.limit ≤ W) (hpos : 0 < cnt) (hW : cnt < W) :
    pmm_module_alloc m mem cnt align = some (none, m, mem) ↔
      ∀ first, m.Fits mem cnt align first → ¬ m.Reaches align first := by
  have hfuel : m.bitmap_entry_cnt - bit_base m align < m.bitmap_entry_cnt + 1 := by omega
  constructor
  · intro herr first hfits hreach
    have hinside := hfits.inside
    have hle := (bit_base_le_iff hm hrange halign (by omega) hfits.aligned).mpr hreach
    have hdvd := dvd_sub_bit_base hm hrange halign (by omega) hfits.aligned hle
    rw [pmm_module_alloc] at herr
    cases hsearch : search m mem cnt align (m.bitmap_entry_cnt + 1) (alloc_base m align)
        (bit_base m align) with
    | none =>
      rw [hsearch] at herr
      cases herr
    | some r =>
      cases r with
      | none => exact search_complete hm halign hk hpos hfits hle hdvd hsearch
      | some found =>
        rw [hsearch] at herr
        cases herr
  · intro hnone
    rw [pmm_module_alloc]
    by_cases hcnt : m.bitmap_entry_cnt < cnt
    · rw [search_error hm halign hk (.inr hcnt) hW hfuel, finish]
    · rcases @search_spec m mem cnt align k hm halign hk hpos (by omega) _ _ _ hfuel
          (.start hm halign) with
        herr | ⟨found, hfound, hplaced, hinside, -, hclear⟩
      · rw [herr, finish]
      · exfalso
        have haligned := hplaced.aligned
        rw [hplaced.address, Nat.mod_eq_of_lt (address_lt hrange (by omega))] at haligned
        apply hnone found.i ⟨hinside, hclear, haligned⟩
        exact (bit_base_le_iff hm hrange halign (by omega) haligned).mp
          (le_of_search hm halign hk hfound)

end search

/-! ### The list of modules -/

variable {HIGH_VMA : Nat} {s : State}

/-- **What `pmm_alloc` refuses**: the requests that every module refuses. -/
theorem pmm_alloc_none_iff (hpos : 0 < cnt) (hW : cnt < W) (halign : align = 2 ^ k)
    (hk : k < 64) : ∀ {modules : List PmmModule}, Layout modules →
      ((∃ r, pmm_alloc HIGH_VMA cnt align modules mem = some (none, r)) ↔
        ∀ m ∈ modules, ∀ first, m.Fits mem cnt align first → ¬ m.Reaches align first) := by
  intro modules
  induction modules with
  | nil =>
    intro _
    exact ⟨fun _ m hm => absurd hm List.not_mem_nil, fun _ => ⟨_, rfl⟩⟩
  | cons m rest ih =>
    intro h
    have hiff := @pmm_module_alloc_none_iff m mem cnt align k (h.valid m (List.mem_cons_self ..))
      halign hk (h.range m (List.mem_cons_self ..)) hpos hW
    rw [List.forall_mem_cons, ← hiff, ← ih h.tail, pmm_alloc]
    rcases @pmm_module_alloc_spec m mem cnt align k (h.valid m (List.mem_cons_self ..)) hW halign
        hk with herr | ⟨addr, first, m', mem', hok, -⟩
    · -- this module refuses, and the rest of the list decides
      rw [herr]
      constructor
      · rintro ⟨r, hr⟩
        obtain ⟨⟨res, q⟩, hq, heq⟩ := Option.map_eq_some_iff.mp hr
        cases heq
        exact ⟨rfl, q, hq⟩
      · rintro ⟨-, q, hq⟩
        exact ⟨(m :: q.1, q.2), by simp [tryNext, hq]⟩
    · rw [hok]
      constructor
      · rintro ⟨r, hr⟩
        cases hr
      · rintro ⟨herr, -⟩
        cases herr

theorem layout_of_reachable (hs : Reachable (system HIGH_VMA) s) : Layout s.modules := by
  have hpool : PoolOk s := by
    apply ReachableBy.invariant _ _ hs
    · intro s h
      refine ⟨h.layout, fun b hb => ?_⟩
      rw [h.live] at hb
      cases hb
    · intro s a s' h _ hst
      exact h.step hst
  exact hpool.layout

/-- **`pmm_alloc` fails only when memory is exhausted**, in every state of
every run, exactly for the requests that free pages at the hint of some
module or behind it can serve, or no free pages at all. -/
theorem pmm_alloc_exhausted_iff {k : Nat} (hs : Reachable (system HIGH_VMA) s) (hpos : 0 < cnt)
    (hW : cnt < W) (halign : align = 2 ^ k) (hk : k < 64) :
    ((∃ r, pmm_alloc HIGH_VMA cnt align s.modules s.mem = some (none, r)) →
        ∀ m ∈ s.modules, ∀ first, ¬ m.Fits s.mem cnt align first) ↔
      ((∃ m ∈ s.modules, ∃ first, m.Fits s.mem cnt align first) →
        ∃ m ∈ s.modules, ∃ first, m.Fits s.mem cnt align first ∧ m.Reaches align first) := by
  rw [pmm_alloc_none_iff hpos hW halign hk (layout_of_reachable hs)]
  constructor
  · rintro hfails ⟨m, hm, first, hfits⟩
    by_contra hnone
    refine hfails (fun m' hm' first' hfits' hreach => ?_) m hm first hfits
    exact hnone ⟨m', hm', first', hfits', hreach⟩
  · intro hreaches hrefused m hm first hfits
    obtain ⟨m', hm', first', hfits', hreach⟩ := hreaches ⟨m, hm, first, hfits⟩
    exact hrefused m' hm' first' hfits' hreach

/-- One module of two pages. -/
def twoPages : State where
  modules := [smallModule]
  mem := fun _ => 0
  live := []

theorem twoPages_init : (system 0x10000000).init twoPages := by
  refine ⟨⟨?_, ?_, ?_⟩, rfl⟩
  · intro m hm
    rw [List.mem_singleton.mp hm]
    exact ⟨by decide +kernel, by decide +kernel, by decide +kernel, by decide, by decide⟩
  all_goals decide +kernel

/-- One of the two pages is taken. The hint is at the other, so that a
request for one page is refused only if that is taken too. -/
theorem pmm_alloc_exhausted_iff_second :
    ∃ s, exec (system 0x10000000) twoPages [.pmm_alloc 1 1] = some s ∧
      ((∃ r, pmm_alloc 0x10000000 1 1 s.modules s.mem = some (none, r)) →
        ∀ m ∈ s.modules, ∀ first, ¬ m.Fits s.mem 1 1 first) := by
  refine run_imp (fun s => s.modules = [{ smallModule with last_free := 1 }] ∧
    BIT_TEST s.mem 0 1 = false) (by decide +kernel) fun s hs ⟨hmodules, hclear⟩ => ?_
  apply (pmm_alloc_exhausted_iff (k := 0) (.of_exec twoPages_init hs) (by decide) (by decide +kernel)
    (by decide) (by decide)).mpr
  intro _
  rw [hmodules]
  refine ⟨_, List.mem_singleton_self _, 1, ⟨by decide, fun b hb hb1 => ?_, by decide⟩,
    Or.inl (by decide)⟩
  obtain rfl : b = 1 := by omega
  exact hclear

/-- **The whole memory is free, and an allocation of it is refused**: one of
the two pages was allocated and given back, and the hint still points
behind it. -/
theorem pmm_alloc_refuses_free_memory : ∃ s : State, Reachable (system 0x10000000) s ∧ s.live = [] ∧
      (∃ r, pmm_alloc 0x10000000 2 1 s.modules s.mem = some (none, r)) ∧
      ∃ m ∈ s.modules, m.Fits s.mem 2 1 0 := by
  obtain ⟨s, hs, hlive, hmodules, hclear, ⟨_, r⟩, hr, rfl⟩ : ∃ s, exec (system 0x10000000) twoPages
      [.pmm_alloc 1 1, .pmm_free ⟨0x100000, 1⟩] = some s ∧ s.live = [] ∧
      s.modules = [{ smallModule with last_free := 1 }] ∧ (∀ b < 2, BIT_TEST s.mem 0 b = false) ∧
      ∃ r, pmm_alloc 0x10000000 2 1 s.modules s.mem = some r ∧ r.1 = none := by decide +kernel
  refine ⟨s, .of_exec twoPages_init hs, hlive, ⟨r, hr⟩, ?_⟩
  rw [hmodules]
  exact ⟨_, List.mem_singleton_self _, by decide, fun b _ hb => hclear b (by omega), by decide⟩

end Pmm
