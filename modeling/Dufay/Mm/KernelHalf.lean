import Dufay.Mm.PageTables

/-! # The kernel half

The upper half of every root table is filled in by `pmap_init_kernel` and
copied by `pmap_new`, once. The entries of the upper half are present
from the start, and no call writes to a present entry of a root
(`Edits.root_entry`), so all roots lead to the same tables.
-/

open Lts

namespace Paging

def UpperHalf (i : Index) : Prop := 256 ≤ i.toNat ∧ i.toNat < 512

/-- The index that is looked up in the root table. -/
def top_index (cfg : Config) (vaddr : BitVec 64) : Index :=
  if cfg.pml5_supported then (compute_table_indices vaddr).pml5_index
  else (compute_table_indices vaddr).pml4_index

theorem Edit.root_entry (he : Edit p q) (h : Leveled p.1 p.2) (hr : p.2 r = some k) (hk : 4 ≤ k)
    (hp : present (p.1.mem r i) = true) : q.1.mem r i = p.1.mem r i := by
  cases he with
  | access _ => rfl
  | follow _ _ => rfl
  | @leaf s lab t j e k' ht hk' _ =>
    -- leaves are below the roots
    have hne : ¬ (r = t ∧ i = j) := by
      rintro ⟨rfl, -⟩
      have := Option.some.inj (hr.symm.trans ht)
      omega
    simp only [store, Radix.write_apply, if_neg hne]
  | @link s lab t page j k' pool ht _ habsent hpage _ =>
    -- the entry of a new link was absent, and its table is not a root
    have hne : ¬ (r = t ∧ i = j) := by
      rintro ⟨rfl, rfl⟩
      rw [habsent] at hp
      cases hp
    have hrp : r ≠ page := by
      rintro rfl
      exact hpage (h.tables _ _ hr)
    simp only [link_mem, if_neg hne, if_neg hrp]

theorem Edits.root_entry (he : Edits p q) (h : Leveled p.1 p.2) (hr : p.2 r = some k) (hk : 4 ≤ k)
    (hp : present (p.1.mem r i) = true) : q.1.mem r i = p.1.mem r i := by
  induction he with
  | refl => rfl
  | tail hpre hstep ih =>
    rw [← ih] at hp
    rw [hstep.root_entry (h.edits hpre) (h.lab_mono hpre hr) hk hp, ih]

/-! ### The invariant -/

/-- All roots have the entries of the kernel's in the upper half, and they are
present. -/
def Shared (p : Pmaps) : Prop := ∀ r ∈ p.pmaps, ∀ i, UpperHalf i →
    present (p.state.mem p.kernel_pmap i) = true ∧ p.state.mem r i = p.state.mem p.kernel_pmap i

theorem Shared.init {p : Pmaps} (h : Init p) : Shared p := by
  obtain ⟨state, kernel_pmap, pmaps⟩ := p
  obtain ⟨s, -, -, -, hinit, hpmaps⟩ := h
  dsimp only at hinit hpmaps
  obtain ⟨pages, rest, hlen, husable, rfl⟩ := pmap_init_kernel_inv hinit
  intro r hr i hi
  have hrk : r = kernel_pmap := by simpa [hpmaps] using hr
  refine ⟨?_, by rw [hrk]⟩
  have hin : kernel_pmap = kernel_pmap ∧ 256 ≤ i.toNat ∧ i.toNat < 256 + pages.length :=
    ⟨rfl, hi.1, by have := hi.2; omega⟩
  have hlt : i.toNat - 256 < pages.length := by
    have := hi.1
    omega
  have hpage : pages.getD (i.toNat - 256) 0 ∈ pages := by
    rw [List.getD_eq_getElem?_getD, List.getElem?_eq_getElem hlt]
    exact List.getElem_mem hlt
  have hentry : (s.kernelInit kernel_pmap pages rest).mem kernel_pmap i
      = tableEntry (pages.getD (i.toNat - 256) 0) := if_pos hin
  rw [hentry]
  exact present_tableEntry (husable.addr _ (List.mem_cons_of_mem _ hpage))

theorem Shared.pmap_new (h : Shared p) (hok : PmapsOk cfg p lab)
    (hnew : pmap_new (p.state.withPool pool) p.kernel_pmap = some (s', pmlt)) :
    Shared { p with state := s', pmaps := pmlt :: p.pmaps } := by
  have htab : ∀ r ∈ p.pmaps, r ∈ p.state.tables :=
    fun r hr => hok.leveled.tables _ _ (hok.roots r hr)
  obtain ⟨hpage, -, -, -, hmem⟩ :=
    pmap_new_inv (s := p.state.withPool pool) (htab _ hok.kernel_pmap) hnew
  have hne : ∀ r ∈ p.pmaps, r ≠ pmlt := fun r hr heq => hpage (heq ▸ htab r hr)
  intro r hr i hi
  have hkernel : s'.mem p.kernel_pmap i = p.state.mem p.kernel_pmap i := by
    rw [hmem, if_neg (hne _ hok.kernel_pmap)]
    rfl
  obtain ⟨hp, -⟩ := h _ hok.kernel_pmap i hi
  refine ⟨by rwa [hkernel], ?_⟩
  rw [hkernel]
  rcases List.mem_cons.mp hr with rfl | hr
  · rw [hmem, if_pos rfl]
    exact if_pos hi
  · rw [hmem, if_neg (hne r hr)]
    exact (h r hr i hi).2

theorem Shared.edits {cfg : Config} {p : Pmaps} {lab lab' : Addr → Option Nat} {pool : List Addr}
    {s' : State} (h : Shared p) (hok : PmapsOk cfg p lab)
    (he : Edits (p.state.withPool pool, lab) (s', lab')) : Shared { p with state := s' } := by
  have hkeep : ∀ r ∈ p.pmaps, ∀ i, UpperHalf i → s'.mem r i = p.state.mem r i := by
    intro r hr i hi
    obtain ⟨hp, hsame⟩ := h r hr i hi
    exact he.root_entry (hok.leveled.withPool pool) (hok.roots r hr) (levels_ge cfg)
      (by rw [← hsame] at hp; exact hp)
  intro r hr i hi
  obtain ⟨hp, hsame⟩ := h r hr i hi
  rw [hkeep r hr i hi, hkeep _ hok.kernel_pmap i hi]
  exact ⟨hp, hsame⟩

theorem Shared.step {cfg : Config} {p p' : Pmaps} {a : Action} {lab : Addr → Option Nat}
    (h : Shared p) (hok : PmapsOk cfg p lab) (hout : ¬ InsideLeaf cfg p a)
    (hstep : step cfg p a = some p') : Shared p' := by
  by_cases hnew : ∃ pool, a = .pmap_new pool
  · obtain ⟨pool, rfl⟩ := hnew
    obtain ⟨r, hnew, rfl⟩ := Option.map_eq_some_iff.mp hstep
    exact h.pmap_new hok hnew
  · obtain ⟨pool, s', lab', rfl, hedits⟩ := hok.call hout hstep (fun pool heq => hnew ⟨pool, heq⟩)
    exact h.edits hok hedits

theorem Shared.of_reachableBy {cfg : Config} {p : Pmaps}
    (hs : ReachableBy (system cfg) (fun p a => ¬ InsideLeaf cfg p a) p) : Shared p := by
  induction hs with
  | init h => exact .init h
  | step a hs hout hst ih =>
    obtain ⟨lab, hok⟩ := PmapsOk.of_reachableBy hs
    exact ih.step hok hout hst

/-! ### Translations -/

theorem top_index_lt : (top_index cfg vaddr).toNat < 512 := by
  unfold top_index compute_table_indices
  split <;> (dsimp only; rw [index_toNat]; omega)

theorem pmap_translate_of_top_entry
    (h : s.mem r (top_index cfg vaddr) = s.mem r' (top_index cfg vaddr)) :
    (pmap_translate cfg s r vaddr).2 = (pmap_translate cfg s r' vaddr).2 := by
  rw [pmap_translate_snd, pmap_translate_snd]
  unfold top_index at h
  unfold pml4_of
  split at h
  · next h5 => simp only [h5, if_true, next_table, h]
  · next h5 => simp only [h5, Bool.false_eq_true, if_false, next_table, h, Option.bind_some]

/-- **One kernel half**: in every run in which no page is mapped inside a larger
one that is present, an address of the upper half is translated in the same
way in all pmaps. -/
theorem pmap_translate_upper_half {cfg : Config} {p : Pmaps}
    (hs : ReachableBy (system cfg) (fun p a => ¬ InsideLeaf cfg p a) p) {r r' : Addr}
    (hr : r ∈ p.pmaps) (hr' : r' ∈ p.pmaps) {vaddr : BitVec 64}
    (hv : 256 ≤ (top_index cfg vaddr).toNat) :
    (pmap_translate cfg p.state r vaddr).2 = (pmap_translate cfg p.state r' vaddr).2 := by
  have hshared := Shared.of_reachableBy hs
  have hup : UpperHalf (top_index cfg vaddr) := ⟨hv, top_index_lt⟩
  exact pmap_translate_of_top_entry ((hshared r hr _ hup).2.trans (hshared r' hr' _ hup).2.symm)

/-- A kernel page that is mapped through a new pmap is seen through the
kernel's. -/
theorem pmap_translate_upper_half_new :
    ∃ p, ReachableBy (system gibPages) (fun p a => ¬ InsideLeaf gibPages p a) p ∧
      (pmap_translate gibPages p.state 0x200000 0xffff800040000000).2
        = some ⟨0x40000000, some ⟨false, true, false⟩, VM_PROT_ALL⟩ ∧
      (pmap_translate gibPages p.state 0x200000 0xffff800040000000).2
        = (pmap_translate gibPages p.state 0x1000 0xffff800040000000).2 := by
  obtain ⟨p, hp, hpmaps, hroot, hentry⟩ : ∃ p,
      execBy (system gibPages) (fun p a => ¬ InsideLeaf gibPages p a) boot
        [.pmap_new [0x200000], .pmap_map [] 0x200000 0xffff800040000000 0x40000000 VM_PROT_ALL
          ⟨false, true, true⟩] = some p ∧ p.pmaps = [0x200000, 0x1000] ∧
      p.state.mem 0x200000 256 = 0x2007 ∧ p.state.mem 0x2000 1 = 0x40000187 := by decide +kernel
  have hreach := ReachableBy.of_execBy (.init boot_init) hp
  refine ⟨p, hreach, ?_, pmap_translate_upper_half hreach (by simp [hpmaps])
    (by simp [hpmaps]) (by decide)⟩
  have hindices : compute_table_indices 0xffff800040000000 = ⟨511, 256, 1, 0, 0⟩ := rfl
  have hpml3 : next_table p.state.mem 0x200000 256 = some 0x2000 := by
    rw [next_table, hroot]
    decide
  rw [pmap_translate_snd, hindices]
  simp only [pml4_of, gibPages, Bool.false_eq_true, if_false, Option.bind_some, hpml3,
    translate_pml3, hentry]
  exact (if_pos (by decide)).trans (by decide)

end Paging
