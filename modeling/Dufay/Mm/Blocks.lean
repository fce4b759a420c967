import Dufay.Framework.Lts
import Dufay.Mm.Module

/-! # The live blocks of one module

Runs of `pmm_module_alloc` and `pmm_module_free` on one module, where
every free returns one live block. What the module is for is told by the
list of live blocks; the bitmap is its representation (`LiveOk`).
-/

open Lts Memory Size

namespace Pmm

/-- What a caller of `pmm_module_alloc` holds. -/
structure Block where
  addr : Nat
  cnt : Nat
  deriving DecidableEq

/-- The offset of a block in its module: the `base` of `pmm_module_free`. -/
def Block.offset (b : Block) (m : PmmModule) : Nat := (b.addr + W - m.mmap_entry.base) % W

def Block.first (b : Block) (m : PmmModule) : Nat := b.offset m / PAGE_SIZE

/-- Page `k` of the module belongs to the block. -/
def Block.Has (b : Block) (m : PmmModule) (k : Nat) : Prop := b.first m ≤ k ∧ k < b.first m + b.cnt

/-- No page of the module belongs to both blocks. -/
def Block.Disjoint (m : PmmModule) (a b : Block) : Prop := ∀ k, a.Has m k → ¬ b.Has m k

theorem Block.Disjoint.symm (h : Block.Disjoint m a b) :
    Block.Disjoint m b a := fun k hb ha => h k ha hb

structure ModuleState where
  module : PmmModule
  mem : Mem
  live : List Block

inductive ModuleAction where
  | alloc (cnt align : Nat)
  | free (b : Block)
  deriving DecidableEq

/-- The caller gets the block, if there is one. -/
def ModuleState.afterAlloc (s : ModuleState) (cnt : Nat) :
    Option (Option Nat × PmmModule × Mem) → Option ModuleState
  | none => none
  | some (none, m, mem) => some ⟨m, mem, s.live⟩
  | some (some addr, m, mem) => some ⟨m, mem, ⟨addr, cnt⟩ :: s.live⟩

/-- `cnt` is any 64-bit number and `align` any power of two. -/
def moduleStep (s : ModuleState) : ModuleAction → Option ModuleState
  | .alloc cnt align =>
    if cnt < W ∧ ∃ k < 64, align = 2 ^ k then
      s.afterAlloc cnt (pmm_module_alloc s.module s.mem cnt align)
    else none
  | .free b =>
    if b ∈ s.live then
      some { s with
        mem := pmm_module_free s.module s.mem (b.offset s.module) b.cnt
        live := s.live.erase b }
    else none

/-- A module with an all-clear bitmap. -/
structure ModuleInit (s : ModuleState) : Prop where
  valid : s.module.Valid
  clear : ∀ k, k < s.module.bitmap_entry_cnt → BIT_TEST s.mem s.module.bitmap k = false
  live : s.live = []

def moduleSystem : System ModuleState ModuleAction where
  init := ModuleInit
  step := moduleStep

/-! ### The invariant -/

/-- The live blocks, represented by the bitmap. -/
structure LiveOk (s : ModuleState) : Prop where
  valid : s.module.Valid
  inside : ∀ b ∈ s.live, 0 < b.cnt ∧ b.first s.module + b.cnt ≤ s.module.bitmap_entry_cnt
  pages : ∀ b ∈ s.live, b.offset s.module = b.first s.module * PAGE_SIZE
  disjoint : s.live.Pairwise (Block.Disjoint s.module)
  bits : ∀ k, k < s.module.bitmap_entry_cnt →
    (BIT_TEST s.mem s.module.bitmap k = true ↔ ∃ b ∈ s.live, b.Has s.module k)

variable {s s' : ModuleState} {m : PmmModule} {mem : Mem} {cnt align : Nat}

theorem BIT_TEST_setBits :
    BIT_TEST (setBits mem p i n) p k = (BIT_TEST mem p k || decide (i ≤ k ∧ k < i + n)) := by
  rw [BIT_TEST_eq, BIT_TEST_eq, bit_setBits]
  congr 1
  exact decide_eq_decide.mpr (by unfold InBits; omega)

theorem BIT_TEST_clearBits :
    BIT_TEST (clearBits mem p i n) p k = (BIT_TEST mem p k && !decide (i ≤ k ∧ k < i + n)) := by
  rw [BIT_TEST_eq, BIT_TEST_eq, bit_clearBits]
  congr 2
  exact decide_eq_decide.mpr (by unfold InBits; omega)

theorem offset_of_address (hm : m.Valid) (hfirst : first < m.bitmap_entry_cnt) :
    ((m.mmap_entry.base + first * PAGE_SIZE) % W + W - m.mmap_entry.base) % W =
      first * PAGE_SIZE := by
  have hbase := hm.base_lt
  have hcnt := hm.entry_cnt_lt
  unfold PAGE_SIZE W at *
  omega

theorem Allocates.block (hm : m.Valid) (h : Allocates m mem cnt align addr first m' mem') :
    (⟨addr, cnt⟩ : Block).offset m = first * PAGE_SIZE ∧ (⟨addr, cnt⟩ : Block).first m = first := by
  have hfirst : first < m.bitmap_entry_cnt := by
    have hpos := h.pos
    have hinside := h.inside
    omega
  have hoffset : (⟨addr, cnt⟩ : Block).offset m = first * PAGE_SIZE := by
    rw [Block.offset, h.address]
    exact offset_of_address hm hfirst
  refine ⟨hoffset, ?_⟩
  rw [Block.first, hoffset]
  exact Nat.mul_div_cancel _ (by decide)

theorem LiveOk.setHint (h : LiveOk s) (hlt : last_free < s.module.bitmap_entry_cnt) :
    LiveOk { s with module := { s.module with last_free := last_free } } :=
  ⟨⟨h.valid.base_lt, h.valid.aligned, h.valid.entry_cnt, h.valid.nonempty, hlt⟩, h.inside, h.pages,
    h.disjoint, h.bits⟩

theorem LiveOk.alloc (h : LiveOk s) (ha : Allocates s.module s.mem cnt align addr first m' mem') :
    LiveOk ⟨m', mem', ⟨addr, cnt⟩ :: s.live⟩ := by
  obtain ⟨hoffset, hfirst⟩ := ha.block h.valid
  obtain ⟨last_free, hlt, rfl⟩ := ha.module
  have hhas : ∀ k, (⟨addr, cnt⟩ : Block).Has s.module k ↔ first ≤ k ∧ k < first + cnt := by
    intro k
    rw [Block.Has, hfirst]
  -- the bits of the new block were clear, so its pages belonged to nobody
  have hfree : ∀ b ∈ s.live, Block.Disjoint s.module ⟨addr, cnt⟩ b := by
    intro b hb k hk hbk
    rw [hhas] at hk
    have hin := ha.inside
    have hset := (h.bits k (by omega)).mpr ⟨b, hb, hbk⟩
    rw [ha.clear k hk.1 hk.2] at hset
    cases hset
  refine .setHint (s := ⟨s.module, mem', ⟨addr, cnt⟩ :: s.live⟩) ?_ hlt
  constructor
  · exact h.valid
  · intro b hb
    rcases List.mem_cons.mp hb with rfl | hb
    · rw [hfirst]
      exact ⟨ha.pos, ha.inside⟩
    · exact h.inside b hb
  · intro b hb
    rcases List.mem_cons.mp hb with rfl | hb
    · rw [hfirst]
      exact hoffset
    · exact h.pages b hb
  · exact List.pairwise_cons.mpr ⟨hfree, h.disjoint⟩
  · intro k hk
    rw [ha.mem, BIT_TEST_setBits, Bool.or_eq_true, decide_eq_true_eq, h.bits k hk, ← hhas]
    simp only [List.mem_cons, exists_eq_or_imp]
    exact or_comm

theorem LiveOk.disjoint_erase (h : LiveOk s) (hb : b ∈ s.live) :
    ∀ a ∈ s.live.erase b, Block.Disjoint s.module b a := by
  have hperm : (b :: s.live.erase b).Pairwise (Block.Disjoint s.module) :=
    ((List.perm_cons_erase hb).pairwise_iff fun hab => hab.symm).mp h.disjoint
  exact (List.pairwise_cons.mp hperm).1

theorem LiveOk.free (h : LiveOk s) (hb : b ∈ s.live) : LiveOk { s with
      mem := pmm_module_free s.module s.mem (b.offset s.module) b.cnt
      live := s.live.erase b } := by
  obtain ⟨hpos, hin⟩ := h.inside b hb
  have hsub : ∀ a ∈ s.live.erase b, a ∈ s.live := fun a ha => List.mem_of_mem_erase ha
  have hmem : pmm_module_free s.module s.mem (b.offset s.module) b.cnt =
      clearBits s.mem s.module.bitmap (b.first s.module) b.cnt := by
    rw [h.pages b hb]
    refine pmm_module_free_eq ?_ hpos
    have hcnt := h.valid.entry_cnt_lt
    unfold PAGE_SIZE W
    omega
  constructor
  · exact h.valid
  · exact fun a ha => h.inside a (hsub a ha)
  · exact fun a ha => h.pages a (hsub a ha)
  · exact h.disjoint.sublist List.erase_sublist
  · intro k hk
    have hhas : (b.first s.module ≤ k ∧ k < b.first s.module + b.cnt) ↔ b.Has s.module k := .rfl
    rw [hmem, BIT_TEST_clearBits, Bool.and_eq_true, h.bits k hk, Bool.not_eq_true',
      decide_eq_false_iff_not, hhas]
    constructor
    · rintro ⟨⟨a, ha, hak⟩, hnot⟩
      have hne : a ≠ b := fun heq => hnot (heq ▸ hak)
      exact ⟨a, (List.mem_erase_of_ne hne).mpr ha, hak⟩
    · rintro ⟨a, ha, hak⟩
      exact ⟨⟨a, hsub a ha, hak⟩, fun hbk => h.disjoint_erase hb a ha k hbk hak⟩

theorem LiveOk.step (h : LiveOk s) {a : ModuleAction} (hst : moduleSystem.step s a = some s') :
    LiveOk s' := by
  cases a with
  | alloc cnt align =>
    simp only [moduleSystem, moduleStep] at hst
    split at hst
    · next hargs =>
      obtain ⟨hcnt, k, hk, halign⟩ := hargs
      rcases @pmm_module_alloc_spec s.module s.mem cnt align k h.valid hcnt halign hk with
        herr | ⟨addr, first, m', mem', hok, ha⟩
      · rw [herr] at hst
        cases hst
        exact h
      · rw [hok] at hst
        cases hst
        exact h.alloc ha
    · cases hst
  | free b =>
    simp only [moduleSystem, moduleStep] at hst
    obtain ⟨hb, rfl⟩ := of_guard hst
    exact h.free hb

theorem LiveOk.init (h : ModuleInit s) : LiveOk s := by
  constructor
  · exact h.valid
  · intro b hb
    rw [h.live] at hb
    cases hb
  · intro b hb
    rw [h.live] at hb
    cases hb
  · rw [h.live]
    exact List.Pairwise.nil
  · intro k hk
    rw [h.clear k hk, h.live]
    simp

theorem liveOk_of_reachable (hs : Reachable moduleSystem s) : LiveOk s :=
  ReachableBy.invariant (fun _ h => .init h) (fun _ _ _ h _ hst => h.step hst) hs

/-- **The module invariant**, in every run of allocations (of any count,
with any alignment that is a power of two) and frees of live blocks:
the live blocks are disjoint and inside the module, a bit is set exactly
if its page belongs to a live block, and `last_free` is a page of the
module. The next allocation fails and changes nothing, or it sets `cnt`
bits that were clear, from `first` on, and returns the aligned address
of page `first`. -/
theorem pmm_module_invariant (hs : Reachable moduleSystem s) :
    s.live.Pairwise (Block.Disjoint s.module) ∧
    (∀ b ∈ s.live, b.first s.module + b.cnt ≤ s.module.bitmap_entry_cnt) ∧
    (∀ k, k < s.module.bitmap_entry_cnt →
      (BIT_TEST s.mem s.module.bitmap k = true ↔ ∃ b ∈ s.live, b.Has s.module k)) ∧
    s.module.last_free < s.module.bitmap_entry_cnt ∧ ∀ cnt k, cnt < W → k < 64 →
      pmm_module_alloc s.module s.mem cnt (2 ^ k) = some (none, s.module, s.mem) ∨
      ∃ addr first m' mem',
        pmm_module_alloc s.module s.mem cnt (2 ^ k) = some (some addr, m', mem') ∧
        2 ^ k * PAGE_SIZE ∣ addr ∧ addr = (s.module.mmap_entry.base + first * PAGE_SIZE) % W ∧
        0 < cnt ∧
        (∀ b, first ≤ b → b < first + cnt → BIT_TEST s.mem s.module.bitmap b = false) ∧
        ∀ b, BIT_TEST mem' s.module.bitmap b =
          (BIT_TEST s.mem s.module.bitmap b || decide (first ≤ b ∧ b < first + cnt)) := by
  have h := liveOk_of_reachable hs
  refine ⟨h.disjoint, fun b hb => (h.inside b hb).2, h.bits, h.valid.last_free_lt, ?_⟩
  intro cnt k hcnt hk
  rcases @pmm_module_alloc_spec s.module s.mem cnt (2 ^ k) k h.valid hcnt rfl hk with
    herr | ⟨addr, first, m', mem', hok, ha⟩
  · exact .inl herr
  · right
    refine ⟨addr, first, m', mem', hok, ha.aligned, ha.address, ha.pos, ha.clear, fun b => ?_⟩
    rw [ha.mem, BIT_TEST_setBits]

/-- Eight pages at 1 MiB + 4 KiB, all free. -/
def eightPages : ModuleState where
  module :=
    { mmap_entry := ⟨0x101000, 0x8000, .USABLE⟩
      bitmap_size := 1
      bitmap_entry_cnt := 8
      last_free := 0
      bitmap := 0 }
  mem := fun _ => 0
  live := []

theorem eightPages_init : moduleSystem.init eightPages := by
  refine ⟨⟨?_, ?_, ?_, ?_, ?_⟩, fun k _ => ?_, rfl⟩
  · decide +kernel
  · decide +kernel
  · decide +kernel
  · decide +kernel
  · decide +kernel
  · simp [eightPages, BIT_TEST]

/-- Two pages, then four at an even page: the address is aligned in absolute
terms, so the second block begins at page 3. The first block is freed,
and one page is taken again. -/
def eightPagesRun : List ModuleAction := [.alloc 2 1, .alloc 4 2, .free ⟨0x101000, 2⟩, .alloc 1 1]

theorem pmm_module_invariant_eightPages : ∃ s, exec moduleSystem eightPages eightPagesRun = some s ∧
      s.live = [⟨0x108000, 1⟩, ⟨0x104000, 4⟩] ∧
      s.live.Pairwise (Block.Disjoint s.module) ∧
      (∀ b ∈ s.live, b.first s.module + b.cnt ≤ s.module.bitmap_entry_cnt) ∧
      (∀ k, k < s.module.bitmap_entry_cnt →
        (BIT_TEST s.mem s.module.bitmap k = true ↔ ∃ b ∈ s.live, b.Has s.module k)) ∧
      s.module.last_free < s.module.bitmap_entry_cnt := by
  refine run_imp (fun s => s.live = [⟨0x108000, 1⟩, ⟨0x104000, 4⟩]) (by decide +kernel)
    fun s hs hlive => ⟨hlive, ?_⟩
  have hinv := pmm_module_invariant (.of_exec eightPages_init hs)
  exact ⟨hinv.1, hinv.2.1, hinv.2.2.1, hinv.2.2.2.1⟩

end Pmm
