import Dufay.Mm.Blocks

/-! # The physical allocator

`pmm_alloc` and `pmm_free` of `mm/physical.c` over the list of modules.

The test with which `pmm_free` looks for the module to give the pages back
to does not look at the end of the block: a module in front of the owner
passes it if it has `cnt` pages at all.
-/

open Lts Memory Size

namespace Pmm

open PmmModule

def P2V (HIGH_VMA x : Nat) : Nat := (x + HIGH_VMA) % W

/-- `memset64(p, 0, n)` -/
def memset64 (mem : Mem) (p n : Nat) : Mem := Memory.zero mem p (8 * n)

/-- One round of the loop of `pmm_alloc`: the result of the module, and what
the rest of the list would give. -/
def tryNext (HIGH_VMA cnt : Nat) (rest : List PmmModule)
    (next : Mem → Option (Option Nat × List PmmModule × Mem)) :
    Option (Option Nat × PmmModule × Mem) → Option (Option Nat × List PmmModule × Mem)
  | none => none
  | some (some alloc, m, mem) =>
    some (some alloc, m :: rest, memset64 mem (P2V HIGH_VMA alloc) (cnt * PAGE_SIZE % W / 8))
  | some (none, m, mem) => (next mem).map fun r => (r.1, m :: r.2.1, r.2.2)

/-- `pmm_alloc`, for the modules from `root_module` on. -/
def pmm_alloc (HIGH_VMA cnt align : Nat) :
    List PmmModule → Mem → Option (Option Nat × List PmmModule × Mem)
  | [], mem => some (none, [], mem)
  | m :: rest, mem =>
    tryNext HIGH_VMA cnt rest (fun mem => pmm_alloc HIGH_VMA cnt align rest mem)
      (pmm_module_alloc m mem cnt align)

/-- The test of `pmm_free`. -/
def takesFree (m : PmmModule) (base cnt : Nat) : Prop := m.mmap_entry.base ≤ base ∧
    (m.mmap_entry.base + cnt * PAGE_SIZE % W) % W ≤
      (m.mmap_entry.base + m.bitmap_entry_cnt * PAGE_SIZE % W) % W

instance (m : PmmModule) (base cnt : Nat) : Decidable (takesFree m base cnt) :=
  inferInstanceAs (Decidable (_ ∧ _))

def pmm_free (mem : Mem) (base cnt : Nat) : List PmmModule → Mem
  | [] => mem
  | m :: rest =>
    if takesFree m base cnt then
      pmm_module_free m mem ((base + W - m.mmap_entry.base) % W) cnt
    else pmm_free mem base cnt rest

/-! ### Modules in memory-map order -/

def PmmModule.limit (m : PmmModule) : Nat := m.mmap_entry.base + m.bitmap_entry_cnt * PAGE_SIZE

/-- The pages of the block are pages of the module. -/
def PmmModule.Contains (m : PmmModule) (b : Block) : Prop :=
  m.mmap_entry.base ≤ b.addr ∧ b.addr + b.cnt * PAGE_SIZE ≤ m.limit

instance (m : PmmModule) (b : Block) : Decidable (m.Contains b) :=
  inferInstanceAs (Decidable (_ ∧ _))

structure Layout (modules : List PmmModule) : Prop where
  valid : ∀ m ∈ modules, m.Valid
  range : ∀ m ∈ modules, m.limit ≤ W
  sorted : modules.Pairwise fun m m' => m.limit ≤ m'.mmap_entry.base

/-- A module without its hint. -/
def PmmModule.fixed (m : PmmModule) : PmmModule := { m with last_free := 0 }

variable {modules modules' : List PmmModule} {m m' : PmmModule} {b : Block} {mem : Mem}
  {HIGH_VMA cnt align : Nat}

theorem Layout.tail (h : Layout (m :: modules)) : Layout modules :=
  ⟨fun x hx => h.valid x (List.mem_cons_of_mem _ hx),
    fun x hx => h.range x (List.mem_cons_of_mem _ hx), (List.pairwise_cons.mp h.sorted).2⟩

theorem Layout.congr (h : Layout modules) (hfixed : modules'.map fixed =
    modules.map fixed) (hvalid : ∀ m ∈ modules', m.Valid) : Layout modules' := by
  constructor
  · exact hvalid
  · intro m' hm'
    have hmem : m'.fixed ∈ modules.map fixed := hfixed ▸ List.mem_map_of_mem hm'
    obtain ⟨m, hm, heq⟩ := List.mem_map.mp hmem
    calc
      m'.limit = m'.fixed.limit := rfl
      _ = m.fixed.limit := by rw [heq]
      _ ≤ W := h.range m hm
  · have hmap : (modules.map fixed).Pairwise
        fun m m' => m.limit ≤ m'.mmap_entry.base := List.pairwise_map.mpr h.sorted
    rw [← hfixed] at hmap
    exact List.pairwise_map.mp hmap

theorem exists_contains_congr (hfixed : modules'.map fixed = modules.map fixed)
    {P : PmmModule → Prop} (hP : ∀ m, P m ↔ P m.fixed) (h : ∃ m ∈ modules, P m) :
    ∃ m ∈ modules', P m := by
  obtain ⟨m, hm, hPm⟩ := h
  have hmem : m.fixed ∈ modules'.map fixed := hfixed ▸ List.mem_map_of_mem hm
  obtain ⟨m', hm', heq⟩ := List.mem_map.mp hmem
  refine ⟨m', hm', ?_⟩
  rw [hP, heq, ← hP]
  exact hPm

/-! ### Where the pages come from -/

/-- The block consists of whole pages of the module. -/
structure Owns (m : PmmModule) (b : Block) : Prop where
  pos : 0 < b.cnt
  contains : m.Contains b
  offset : b.offset m = b.first m * PAGE_SIZE
  inside : b.first m + b.cnt ≤ m.bitmap_entry_cnt

theorem owns_fixed : Owns m b ↔ Owns m.fixed b := ⟨fun h => ⟨h.pos, h.contains, h.offset, h.inside⟩,
    fun h => ⟨h.pos, h.contains, h.offset, h.inside⟩⟩

theorem Allocates.owns (hm : m.Valid) (hrange : m.limit ≤ W)
    (h : Allocates m mem cnt align addr first m' mem') : Owns m ⟨addr, cnt⟩ := by
  obtain ⟨hoffset, hfirst⟩ := h.block hm
  have hpos := h.pos
  have hinside := h.inside
  have haddr : addr = m.mmap_entry.base + first * PAGE_SIZE := by
    rw [h.address]
    apply Nat.mod_eq_of_lt
    unfold limit PAGE_SIZE W at *
    omega
  refine ⟨hpos, ⟨?_, ?_⟩, ?_, ?_⟩
  · rw [haddr]
    exact Nat.le_add_right _ _
  · simp only [haddr, limit]
    unfold PAGE_SIZE
    omega
  · rw [hoffset, hfirst]
  · rw [hfirst]
    exact hinside

/-- **`pmm_alloc`** ends. It changes the hints only, and an address it
returns is that of a block of some module. -/
theorem pmm_alloc_spec {k : Nat} (hW : cnt < W) (halign : align = 2 ^ k) (hk : k < 64) :
    ∀ {modules : List PmmModule} {mem : Mem}, Layout modules →
      ∃ r modules' mem', pmm_alloc HIGH_VMA cnt align modules mem = some (r, modules', mem') ∧
        modules'.map fixed = modules.map fixed ∧ (∀ m ∈ modules', m.Valid) ∧
        ∀ addr, r = some addr → ∃ m ∈ modules, Owns m ⟨addr, cnt⟩ := by
  intro modules
  induction modules with
  | nil =>
    intro mem _
    refine ⟨none, [], mem, rfl, rfl, ?_, ?_⟩
    · intro m hm
      cases hm
    · intro addr haddr
      cases haddr
  | cons m rest ih =>
    intro mem h
    have hm := h.valid m (List.mem_cons_self ..)
    rw [pmm_alloc]
    rcases @pmm_module_alloc_spec m mem cnt align k hm hW halign hk with
      herr | ⟨addr, first, m', mem', hok, ha⟩
    · -- this module has none: the rest of the list
      rw [herr]
      obtain ⟨r, rest', mem', heq, hfixed, hvalid, howns⟩ := @ih mem h.tail
      refine ⟨r, m :: rest', mem', by simp [tryNext, heq], by simp [hfixed], ?_, ?_⟩
      · intro x hx
        rcases List.mem_cons.mp hx with rfl | hx
        · exact hm
        · exact hvalid x hx
      · intro addr haddr
        obtain ⟨x, hx, hown⟩ := howns addr haddr
        exact ⟨x, List.mem_cons_of_mem _ hx, hown⟩
    · rw [hok]
      obtain ⟨last_free, hlt, rfl⟩ := ha.module
      refine ⟨some addr, _ :: rest, _, rfl, rfl, ?_, ?_⟩
      · intro x hx
        rcases List.mem_cons.mp hx with rfl | hx
        · exact ⟨hm.base_lt, hm.aligned, hm.entry_cnt, hm.nonempty, hlt⟩
        · exact h.valid x (List.mem_cons_of_mem _ hx)
      · intro addr' haddr
        cases haddr
        exact ⟨m, List.mem_cons_self .., ha.owns hm (h.range m (List.mem_cons_self ..))⟩

/-! ### The system -/

structure State where
  modules : List PmmModule
  mem : Mem
  live : List Block

inductive Action where
  | pmm_alloc (cnt align : Nat)
  | pmm_free (b : Block)
  deriving DecidableEq

/-- The caller gets the block, if there is one. -/
def State.afterAlloc (s : State) (cnt : Nat) :
    Option (Option Nat × List PmmModule × Mem) → Option State
  | none => none
  | some (none, modules, mem) => some ⟨modules, mem, s.live⟩
  | some (some addr, modules, mem) => some ⟨modules, mem, ⟨addr, cnt⟩ :: s.live⟩

def step (HIGH_VMA : Nat) (s : State) : Action → Option State
  | .pmm_alloc cnt align =>
    if cnt < W ∧ ∃ k < 64, align = 2 ^ k then
      s.afterAlloc cnt (pmm_alloc HIGH_VMA cnt align s.modules s.mem)
    else none
  | .pmm_free b =>
    if b ∈ s.live then
      some { s with mem := pmm_free s.mem b.addr b.cnt s.modules, live := s.live.erase b }
    else none

/-- Any list of disjoint modules in memory-map order, and nothing out. -/
structure Init (s : State) : Prop where
  layout : Layout s.modules
  live : s.live = []

def system (HIGH_VMA : Nat) : System State Action where
  init := Init
  step := step HIGH_VMA

/-- Every module in front of the owner of the block has fewer pages than the
block, and the owner does not end at the top of the address space. -/
def OwnerFirst (b : Block) : List PmmModule → Prop
  | [] => True
  | m :: rest =>
    if m.Contains b then m.limit < W else m.bitmap_entry_cnt < b.cnt ∧ OwnerFirst b rest

def decideOwnerFirst (b : Block) : (modules : List PmmModule) → Decidable (OwnerFirst b modules)
  | [] => .isTrue trivial
  | m :: rest =>
    have := decideOwnerFirst b rest
    inferInstanceAs (Decidable
      (if m.Contains b then m.limit < W else m.bitmap_entry_cnt < b.cnt ∧ OwnerFirst b rest))

instance (b : Block) (modules : List PmmModule) : Decidable (OwnerFirst b modules) :=
  decideOwnerFirst b modules

/-- The frees of a run find the owner. -/
def FreesOwner (s : State) : Action → Prop
  | .pmm_alloc _ _ => True
  | .pmm_free b => OwnerFirst b s.modules

instance (s : State) (a : Action) : Decidable (FreesOwner s a) := by
  cases a <;> unfold FreesOwner <;> infer_instance

/-! ### Frees -/

theorem Owns.takesFree (h : Owns m b) (hlimit : m.limit < W) : takesFree m b.addr b.cnt := by
  refine ⟨h.contains.1, ?_⟩
  have hinside := h.inside
  unfold limit PAGE_SIZE W at *
  omega

theorem not_takesFree (hm : m.Valid) (hfront : m.limit ≤ m'.mmap_entry.base) (hown : Owns m' b)
    (hrange : m'.limit ≤ W) (hsmall : m.bitmap_entry_cnt < b.cnt) : ¬ takesFree m b.addr b.cnt := by
  rintro ⟨-, hle⟩
  have hpos := hm.nonempty
  have hinside := hown.inside
  unfold limit PAGE_SIZE W at *
  omega

theorem pmm_free_eq : ∀ {modules : List PmmModule}, Layout modules → OwnerFirst b modules →
    (∃ m ∈ modules, Owns m b) → ∃ m ∈ modules, Owns m b ∧
      pmm_free mem b.addr b.cnt modules = clearBits mem m.bitmap (b.first m) b.cnt := by
  intro modules
  induction modules with
  | nil =>
    rintro - - ⟨m, hm, -⟩
    cases hm
  | cons m rest ih =>
    rintro h hfirst ⟨x, hx, hown⟩
    rw [OwnerFirst] at hfirst
    by_cases hc : m.Contains b
    · -- a module that contains the block is its owner
      rw [if_pos hc] at hfirst
      obtain rfl : x = m := by
        rcases List.mem_cons.mp hx with rfl | hx
        · rfl
        · exfalso
          have hsorted := (List.pairwise_cons.mp h.sorted).1 x hx
          have hpos := hown.pos
          have hx' := hown.contains.1
          have hm' := hc.2
          unfold PAGE_SIZE at hm'
          omega
      refine ⟨x, hx, hown, ?_⟩
      rw [pmm_free, if_pos (hown.takesFree hfirst)]
      have hoffset : (b.addr + W - x.mmap_entry.base) % W = b.first x * PAGE_SIZE := hown.offset
      rw [hoffset]
      refine pmm_module_free_eq ?_ hown.pos
      have hinside := hown.inside
      have hcnt := (h.valid x hx).entry_cnt_lt
      unfold PAGE_SIZE W
      omega
    · rw [if_neg hc] at hfirst
      -- the owner is further back
      have hrest : x ∈ rest := by
        rcases List.mem_cons.mp hx with rfl | hrest
        · exact absurd hown.contains hc
        · exact hrest
      have hnot := not_takesFree (h.valid m (List.mem_cons_self ..))
        ((List.pairwise_cons.mp h.sorted).1 x hrest) hown (h.range x hx) hfirst.1
      obtain ⟨y, hy, howny, heq⟩ := ih h.tail hfirst.2 ⟨x, hrest, hown⟩
      refine ⟨y, List.mem_cons_of_mem _ hy, howny, ?_⟩
      rw [pmm_free, if_neg hnot, heq]

/-- The modules stay in place, and every live block is one of some module. -/
structure PoolOk (s : State) : Prop where
  layout : Layout s.modules
  owned : ∀ b ∈ s.live, ∃ m ∈ s.modules, Owns m b

variable {s s' : State} {a : Action}

theorem PoolOk.step (h : PoolOk s) (hst : (system HIGH_VMA).step s a = some s') : PoolOk s' := by
  cases a with
  | pmm_alloc cnt align =>
    simp only [system, Pmm.step] at hst
    split at hst
    · next hargs =>
      obtain ⟨hcnt, k, hk, halign⟩ := hargs
      obtain ⟨r, modules', mem', heq, hfixed, hvalid, howns⟩ :=
        @pmm_alloc_spec HIGH_VMA cnt align k hcnt halign hk s.modules s.mem h.layout
      have hlayout := h.layout.congr hfixed hvalid
      have hold : ∀ b ∈ s.live, ∃ m ∈ modules', Owns m b := fun b hb =>
        exists_contains_congr hfixed (fun m => owns_fixed) (h.owned b hb)
      rw [heq] at hst
      cases r with
      | none =>
        cases hst
        exact ⟨hlayout, hold⟩
      | some addr =>
        cases hst
        refine ⟨hlayout, fun b hb => ?_⟩
        rcases List.mem_cons.mp hb with rfl | hb
        · exact exists_contains_congr hfixed (fun m => owns_fixed) (howns addr rfl)
        · exact hold b hb
    · cases hst
  | pmm_free b =>
    simp only [system, Pmm.step] at hst
    split at hst
    · cases hst
      exact ⟨h.layout, fun b' hb' => h.owned b' (List.mem_of_mem_erase hb')⟩
    · cases hst

theorem poolOk_of_freesOwner (hs : ReachableBy (system HIGH_VMA) FreesOwner s) : PoolOk s := by
  refine ReachableBy.invariant (fun s h => ⟨h.layout, fun b hb => ?_⟩)
    (fun s a s' h _ hst => h.step hst) hs
  rw [h.live] at hb
  cases hb

/-- **`pmm_free` gives the pages back to their owner**, for any disjoint
modules in memory-map order and in every run whose frees meet the
condition: if every module in front of the owner of a live block has
fewer pages than the block, and the owner does not end at the top of the
address space, the bits of the block in the owner's bitmap are cleared,
and every other bit of the memory stays. -/
theorem pmm_free_exact (hs : ReachableBy (system HIGH_VMA) FreesOwner s) (hb : b ∈ s.live)
    (hfirst : OwnerFirst b s.modules) :
    ∃ m ∈ s.modules, m.Contains b ∧ b.first m + b.cnt ≤ m.bitmap_entry_cnt ∧
      ∀ n, bit (pmm_free s.mem b.addr b.cnt s.modules) n =
        (bit s.mem n && !decide (InBits m.bitmap (b.first m) b.cnt n)) := by
  have h := poolOk_of_freesOwner hs
  obtain ⟨m, hm, hown, heq⟩ := @pmm_free_eq b s.mem s.modules h.layout hfirst (h.owned b hb)
  refine ⟨m, hm, hown.contains, hown.inside, fun n => ?_⟩
  rw [heq, bit_clearBits]

/-- Two pages at 1 MiB. -/
def smallModule : PmmModule where
  mmap_entry := ⟨0x100000, 0x2000, .USABLE⟩
  bitmap_size := 1
  bitmap_entry_cnt := 2
  last_free := 0
  bitmap := 0

/-- Four pages at 2 MiB. -/
def largeModule : PmmModule where
  mmap_entry := ⟨0x200000, 0x4000, .USABLE⟩
  bitmap_size := 1
  bitmap_entry_cnt := 4
  last_free := 0
  bitmap := 1

/-- The two modules. The bitmaps are the bytes 0 and 1 of the memory, and
every other byte is in use. -/
def twoModules : State where
  modules := [smallModule, largeModule]
  mem := fun a => if a < 2 then 0 else 0xff
  live := []

theorem twoModules_init : (system 0x10000000).init twoModules := by
  refine ⟨⟨?_, ?_, ?_⟩, rfl⟩
  · intro m hm
    rcases List.mem_pair.mp hm with rfl | rfl
    all_goals exact ⟨by decide +kernel, by decide +kernel, by decide +kernel, by decide, by decide⟩
  all_goals decide +kernel

/-- Four pages are allocated, which only the second module has, and given
back to it. -/
theorem pmm_free_exact_large :
    ∃ s, execBy (system 0x10000000) FreesOwner twoModules [.pmm_alloc 4 1] = some s ∧
      ⟨0x200000, 4⟩ ∈ s.live ∧ OwnerFirst ⟨0x200000, 4⟩ s.modules ∧
      ∃ m ∈ s.modules, m.Contains ⟨0x200000, 4⟩ ∧
        (⟨0x200000, 4⟩ : Block).first m + 4 ≤ m.bitmap_entry_cnt ∧
        ∀ n, bit (pmm_free s.mem 0x200000 4 s.modules) n =
          (bit s.mem n && !decide (InBits m.bitmap ((⟨0x200000, 4⟩ : Block).first m) 4 n)) := by
  refine run_imp (fun s => ⟨0x200000, 4⟩ ∈ s.live ∧ OwnerFirst ⟨0x200000, 4⟩ s.modules)
    (by decide +kernel) fun s hs ⟨hlive, hfirst⟩ => ⟨hlive, hfirst, ?_⟩
  exact pmm_free_exact (.of_execBy (.init twoModules_init) hs) hlive hfirst

/-- **Another module takes the free**: with the first module full, a page
comes from the second. `pmm_free` gives it to the first one, which has a
page: the bit of the page stays set, and a byte that is in no bitmap is
written. -/
theorem pmm_free_misses_owner :
    ∃ (s : State) (b : Block) (m : PmmModule), Reachable (system 0x10000000) s ∧ b ∈ s.live ∧
      m ∈ s.modules ∧ m.Contains b ∧
      BIT_TEST (pmm_free s.mem b.addr b.cnt s.modules) m.bitmap (b.first m) = true ∧
      pmm_free s.mem b.addr b.cnt s.modules 32 ≠ s.mem 32 ∧
      ∀ m ∈ s.modules, ¬ (m.bitmap ≤ 32 ∧ 32 < m.bitmap + m.bitmap_size) := by
  obtain ⟨s, hs, hfound⟩ : ∃ s, exec (system 0x10000000) twoModules
      [.pmm_alloc 2 1, .pmm_alloc 1 1] = some s ∧ ⟨0x200000, 1⟩ ∈ s.live ∧
      { largeModule with last_free := 1 } ∈ s.modules ∧
      BIT_TEST (pmm_free s.mem 0x200000 1 s.modules) 1 0 = true ∧
      pmm_free s.mem 0x200000 1 s.modules 32 ≠ s.mem 32 ∧
      ∀ m ∈ s.modules, ¬ (m.bitmap ≤ 32 ∧ 32 < m.bitmap + m.bitmap_size) := by decide +kernel
  obtain ⟨hlive, hmodule, hbit, hrest⟩ := hfound
  have hfirst : (⟨0x200000, 1⟩ : Block).first { largeModule with last_free := 1 } = 0 := by
    decide +kernel
  exact ⟨s, _, _, .of_exec twoModules_init hs, hlive, hmodule, by decide +kernel,
    hfirst ▸ hbit, hrest⟩

end Pmm
