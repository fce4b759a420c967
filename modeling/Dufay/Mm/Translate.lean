import Dufay.Mm.PageTables
import Mathlib.Algebra.Group.Nat.Defs

/-! # What a translation reports

`pmap_map` chooses the level of a page by its flags and by what the CPU
supports, and `pmap_translate` by the bit of a large page in the entries.
They agree on the level, as long as the page is not inside a larger one,
and on the address.

Two of the answers are not taken from the entry of the page.
-/

open Lts

namespace Paging

/-! ### Sizes of pages -/

inductive PageSize where
  | normal
  | large
  | huge
  deriving DecidableEq

/-- The page that `pmap_map` uses. -/
def page_used (cfg : Config) (flags : VmFlags) : PageSize :=
  if flags.huge_page && cfg.gib_pages_supported then .huge
  else if flags.huge_page || flags.large_page then .large
  else .normal

/-- `VM_LARGE_PAGE` and `VM_HUGE_PAGE` of a page. -/
def PageSize.bits : PageSize → Bool × Bool
  | .normal => (false, false)
  | .large => (true, false)
  | .huge => (false, true)

/-- `VM_LARGE_PAGE` and `VM_HUGE_PAGE` of a variable. -/
def VmFlags.sizeBits (flags : VmFlags) : Bool × Bool := (flags.large_page, flags.huge_page)

/-- What `pmap_translate` writes to `flags`. -/
def PageSize.written : PageSize → Option VmFlags
  | .normal => none
  | .large => some ⟨true, false, false⟩
  | .huge => some ⟨false, true, false⟩

/-- The protection of the entry of `pml3` on the walk. -/
def pml3_prot (cfg : Config) (mem : Addr → Index → Entry) (pmlt : Addr) (vaddr : BitVec 64) :
    Option VmProt :=
  let indices := compute_table_indices vaddr
  (pml4_of cfg mem pmlt indices).bind fun pml4 =>
    (next_table mem pml4 indices.pml4_index).map fun pml3 =>
      x86_to_vm_prot (PTE_GET_FLAGS (mem pml3 indices.pml3_index))

/-- The caller learns the page: with `before` in its variable `flags`, it has
the address, the protection and the size afterwards. -/
def Reports (t : Option Translation) (before : VmFlags) (paddr : BitVec 64) (prot : VmProt)
    (size : PageSize) : Prop :=
  ∃ tr, t = some tr ∧ tr.outpaddr = paddr ∧ tr.prot = prot ∧
    (tr.flags.getD before).sizeBits = size.bits

/-! ### Tables along the walk -/

/-- What a step down the tables leaves behind: the entry leads to `y`, and the
tables of higher levels are as they were. -/
structure Descends (s s' : State) (lab lab' : Addr → Option Nat) (t : Addr) (i : Index) (y : Addr)
    (k : Nat) : Prop where
  leveled : Leveled s' lab'
  mono : ∀ x l, lab x = some l → lab' x = some l
  below : lab' y = some k
  next : next_table s'.mem t i = some y
  leads : pageSize (s'.mem t i) = false
  frame : ∀ x l, lab x = some l → k + 1 < l → s'.mem x = s.mem x

section walk

variable {cfg : Config} {s s' : State} {lab : Addr → Option Nat} {pmlt : Addr}
  {vaddr paddr : BitVec 64} {prot : VmProt} {flags : VmFlags}

theorem Leveled.link_frame (h : Leveled s lab)
    (ht : lab t = some k) (hx : lab x = some l) (hkl : k ≠ l)
    (hpage : a ∉ s.tables) : (link s t i a pool).mem x = s.mem x := by
  funext j
  have hxt : x ≠ t := by
    rintro rfl
    rw [ht] at hx
    exact hkl (Option.some.inj hx)
  have hxp : x ≠ a := fun heq => hpage (heq ▸ h.tables x l hx)
  rw [link_mem, if_neg (fun hc => hxt hc.1), if_neg hxp]

theorem Leveled.descends (h : Leveled s lab) {k : Nat}
    (ht : lab t = some (k + 1)) (hk : 1 ≤ k) (hleads : Leads (s.mem t i))
    (hd : descend_table s t i true = (s', some y)) : ∃ lab', Descends s s' lab lab' t i y k := by
  obtain ⟨lab', hedits, hy⟩ := h.descend ht hk hleads hd
  have hmono : ∀ x l, lab x = some l → lab' x = some l := fun x l hx => h.lab_mono hedits hx
  rcases descend_table_true hd with ⟨hp, rfl, rfl⟩ | ⟨hp, pool, -, hfresh, haddr, rfl⟩
  · refine ⟨lab', h.edits hedits, hmono, hy, ?_, hleads hp, fun x l _ _ => rfl⟩
    show next_table s.mem t i = _
    simp [next_table, hp]
  · have hentry : (link (access s t) t i y pool).mem t i = tableEntry y := by
      rw [link_mem, if_pos ⟨rfl, rfl⟩]
    refine ⟨lab', h.edits hedits, hmono, hy, ?_, ?_, fun x l hx hl => ?_⟩
    · rw [next_table, hentry, present_tableEntry haddr, if_pos rfl, get_addr_tableEntry haddr]
    · rw [hentry]
      exact pageSize_tableEntry haddr
    · exact (h.accessed ht).link_frame ht hx (by omega) hfresh

theorem store_frame {e : Entry} (ht : lab t = some k)
    (hx : lab x = some l) (hkl : k ≠ l) : (store s t i e).mem x = s.mem x := by
  funext j
  have hne : ¬ (x = t ∧ j = i) := by
    rintro ⟨rfl, -⟩
    rw [ht] at hx
    exact hkl (Option.some.inj hx)
  simp only [store, Radix.write_apply, if_neg hne]

theorem store_self : (store s t i e).mem t i = e := by
  simp [store, Radix.write_apply]

theorem next_table_congr (h : mem' t = mem t) : next_table mem' t i = next_table mem t i := by
  unfold next_table
  rw [h]

def pml3_of (cfg : Config) (mem : Addr → Index → Entry) (pmlt : Addr) (indices : PmlIndices) :
    Option Addr :=
  (pml4_of cfg mem pmlt indices).bind fun pml4 => next_table mem pml4 indices.pml4_index

theorem pmap_translate_pml3 (cfg : Config) (s : State) (pmlt : Addr) (vaddr : BitVec 64) :
    (pmap_translate cfg s pmlt vaddr).2 =
      (pml3_of cfg s.mem pmlt (compute_table_indices vaddr)).bind fun pml3 =>
        translate_pml3 s.mem (compute_table_indices vaddr) pml3 := by
  rw [pmap_translate_snd, pml3_of, Option.bind_assoc]

theorem Leveled.pml3_congr (h : Leveled s lab) (hroot : lab pmlt = some cfg.levels)
    (hframe : ∀ x l, lab x = some l → 3 < l → mem x = s.mem x)
    (indices : PmlIndices) : pml3_of cfg mem pmlt indices = pml3_of cfg s.mem pmlt indices := by
  have hpmlt := hframe pmlt _ hroot (levels_ge cfg)
  have h4 : pml4_of cfg mem pmlt indices = pml4_of cfg s.mem pmlt indices := by
    unfold pml4_of
    rw [next_table_congr hpmlt]
  unfold pml3_of
  rw [h4]
  cases hpml4 : pml4_of cfg s.mem pmlt indices with
  | none => rfl
  | some pml4 =>
    have hl4 := h.pml4 hroot hpml4
    exact next_table_congr (hframe pml4 4 hl4 (by omega))

theorem Leveled.reach_pml3 (h : Leveled s lab) (hroot : lab pmlt = some cfg.levels) {pml4 : Addr}
    (h1 : Paging.descend_pml5 cfg s pmlt indices true = (s1, some pml4))
    (h2 : descend_table s1 pml4 indices.pml4_index true = (s2, some pml3)) :
    ∃ lab2, Leveled s2 lab2 ∧ lab2 pmlt = some cfg.levels ∧ lab2 pml3 = some 3 ∧
      pml3_of cfg s2.mem pmlt indices = some pml3 ∧
      Continues s.mem (pml3_of cfg s.mem pmlt indices) s2 pml3 := by
  obtain ⟨lab1, he1, hl1, hc1⟩ := h.descend_pml5 hroot h1
  have hlev1 := h.edits he1
  have hroot1 := h.lab_mono he1 hroot
  have hc2 := hc1.descend (hlev1.tables _ _ hl1) h2
  obtain ⟨lab2, hd⟩ := hlev1.descends hl1 (by omega) (hlev1.leads hl1 (by omega) _) h2
  refine ⟨lab2, hd.leveled, hd.mono _ _ hroot1, hd.below, ?_, hc2⟩
  -- the step from `pml4` does not change the root of a five-level walk
  have hpml4 : pml4_of cfg s2.mem pmlt indices = some pml4 := by
    unfold Paging.descend_pml5 at h1
    unfold pml4_of
    unfold Config.levels at hroot hroot1
    split at h1
    · next h5 =>
      rw [if_pos h5] at hroot hroot1 ⊢
      obtain ⟨lab', hd1⟩ := h.descends hroot (by omega) (h.leads hroot (by omega) _) h1
      rw [next_table_congr (hd.frame pmlt 5 hroot1 (by omega))]
      exact hd1.next
    · next h5 =>
      cases h1
      exact if_neg h5
  rw [pml3_of, hpml4]
  exact hd.next

/-- A walk from `pml3` comes to an entry of a table: at the level of 1 GiB
pages, and further down as long as there are no pages above. -/
inductive Visits (mem : Addr → Index → Entry) (indices : PmlIndices) (pml3 : Addr) :
    PageSize → Addr → Index → Prop where
  | huge : Visits mem indices pml3 .huge pml3 indices.pml3_index
  | large {pml2 : Addr} (leads : pageSize (mem pml3 indices.pml3_index) = false)
      (next : next_table mem pml3 indices.pml3_index = some pml2) :
      Visits mem indices pml3 .large pml2 indices.pml2_index
  | normal {pml2 pml1 : Addr} (leads : pageSize (mem pml3 indices.pml3_index) = false)
      (next : next_table mem pml3 indices.pml3_index = some pml2)
      (leads' : pageSize (mem pml2 indices.pml2_index) = false)
      (next' : next_table mem pml2 indices.pml2_index = some pml1) :
      Visits mem indices pml3 .normal pml1 indices.pml1_index

theorem Leveled.pmap_map_visits (h : Leveled s lab) (hroot : lab pmlt = some cfg.levels)
    (hout : inside_leaf cfg s.mem pmlt vaddr flags = false)
    (hmap : Paging.pmap_map cfg s pmlt vaddr paddr prot flags = some s') :
    ∃ pml3 t i, pml3_of cfg s'.mem pmlt (compute_table_indices vaddr) = some pml3 ∧
      Visits s'.mem (compute_table_indices vaddr) pml3 (page_used cfg flags) t i ∧
      s'.mem t i = paddr ||| vm_prot_to_x86 prot flags := by
  obtain ⟨s1, pml4, s2, pml3, h1, h2, hrest⟩ := pmap_map_inv hmap
  obtain ⟨lab2, hlev2, hroot2, hl2, hpml3, hc2⟩ := h.reach_pml3 hroot h1 h2
  -- what is written from here on is written below level 4
  have hfind : (∀ x l, lab2 x = some l → 3 < l → s'.mem x = s2.mem x) →
      pml3_of cfg s'.mem pmlt (compute_table_indices vaddr) = some pml3 := fun hframe =>
    (hlev2.pml3_congr hroot2 hframe _).trans hpml3
  rcases hrest with ⟨hhuge, rfl⟩ | ⟨hhuge, s3, pml2, h3, hrest⟩
  · rw [show page_used cfg flags = .huge from if_pos hhuge]
    exact ⟨pml3, _, _, hfind fun x l hx hl => store_frame hl2 hx (by omega), .huge, store_self ..⟩
  · obtain ⟨lab3, hd3⟩ := hlev2.descends hl2 (by omega) (hc2.leads_pml3 hout hhuge) h3
    have hc3 := hc2.descend (hlev2.tables _ _ hl2) h3
    have hpml3' := hd3.mono _ _ hl2
    rcases hrest with ⟨hlarge, rfl⟩ | ⟨hlarge, s4, pml1, h4, rfl⟩
    · have hused : page_used cfg flags = .large := by
        rw [page_used, hhuge, hlarge]
        rfl
      have hsame := store_frame (s := s3) (i := (compute_table_indices vaddr).pml2_index)
        (e := paddr ||| vm_prot_to_x86 prot flags) hd3.below hpml3' (by omega)
      rw [hused]
      refine ⟨pml3, pml2, _, hfind fun x l hx hl => ?_, .large ?_ ?_, store_self ..⟩
      · rw [store_frame hd3.below (hd3.mono _ _ hx) (by omega)]
        exact hd3.frame x l hx (by omega)
      · rw [hsame]
        exact hd3.leads
      · rw [next_table_congr hsame]
        exact hd3.next
    · have hused : page_used cfg flags = .normal := by
        rw [page_used, hhuge, hlarge]
        rfl
      obtain ⟨lab4, hd4⟩ :=
        hd3.leveled.descends hd3.below (by omega) (hc3.leads_pml2 hout hhuge hlarge) h4
      have hsame2 := store_frame (s := s4) (i := (compute_table_indices vaddr).pml1_index)
        (e := paddr ||| vm_prot_to_x86 prot flags) hd4.below (hd4.mono _ _ hd3.below) (by omega)
      have hsame3 := (store_frame (s := s4) (i := (compute_table_indices vaddr).pml1_index)
        (e := paddr ||| vm_prot_to_x86 prot flags) hd4.below (hd4.mono _ _ hpml3')
          (by omega)).trans (hd4.frame pml3 3 hpml3' (by omega))
      rw [hused]
      refine ⟨pml3, pml1, _, hfind fun x l hx hl => ?_, @Visits.normal _ _ _ pml2 _ ?_ ?_ ?_ ?_,
        store_self ..⟩
      · rw [store_frame hd4.below (hd4.mono _ _ (hd3.mono _ _ hx)) (by omega),
          hd4.frame x l (hd3.mono _ _ hx) (by omega)]
        exact hd3.frame x l hx (by omega)
      · rw [hsame3]
        exact hd3.leads
      · rw [next_table_congr hsame3]
        exact hd3.next
      · rw [hsame2]
        exact hd4.leads
      · rw [next_table_congr hsame2]
        exact hd4.next

end walk

/-! ### What is reported -/

theorem Visits.translate (h : Visits mem indices pml3 (page_used cfg flags) t i)
    (hentry : mem t i = paddr ||| vm_prot_to_x86 prot flags) (haddr : PTE_GET_ADDR paddr = paddr)
    (hpresent : prot.present = true) : translate_pml3 mem indices pml3 =
      some ⟨paddr, (page_used cfg flags).written,
        if page_used cfg flags = .large then
          x86_to_vm_prot (PTE_GET_FLAGS (mem pml3 indices.pml3_index))
        else prot⟩ := by
  have hps : page_used cfg flags ≠ .normal →
      pageSize (paddr ||| vm_prot_to_x86 prot flags) = true := by
    intro hused
    refine pageSize_leaf paddr prot ?_
    unfold page_used at hused
    cases hl : flags.large_page <;> cases hh : flags.huge_page <;> simp [hl, hh] at hused ⊢
  generalize page_used cfg flags = size at h hps
  unfold translate_pml3
  cases h with
  | huge =>
    rw [hentry]
    simp only [hps (by decide), if_true, get_addr_or_flags haddr, x86_to_vm_prot_leaf haddr]
    rfl
  | large leads next =>
    simp only [leads, next, Bool.false_eq_true, if_false, Option.bind_some, hentry,
      hps (by decide), if_true, get_addr_or_flags haddr]
    rfl
  | normal leads next leads' next' =>
    simp only [leads, next, leads', next', Bool.false_eq_true, if_false, Option.bind_some, hentry,
      present_leaf haddr, hpresent, if_true, get_addr_or_flags haddr, x86_to_vm_prot_leaf haddr]
    rfl

/-- When the answers to a translation are those of the mapping: always for a
1 GiB page; for a 2 MiB page, if the table above it has the protection of
the page; for a 4 KiB page, if the caller's `flags` named no size. -/
def ReportsWhen (cfg : Config) (mem : Addr → Index → Entry) (pmlt : Addr) (vaddr : BitVec 64)
    (before : VmFlags) (prot : VmProt) : PageSize → Prop
  | .huge => True
  | .large => pml3_prot cfg mem pmlt vaddr = some prot
  | .normal => before.sizeBits = (false, false)

/-- **Translation reports the mapping** for every page size, in every well-formed
memory and outside of larger pages, exactly under `ReportsWhen`: the page
is found at its address in any case, the protection of a 2 MiB page is
that of the table above it, and `flags` is left alone for a 4 KiB page. -/
theorem pmap_translate_reports_iff {cfg : Config} {s s' : State} {lab : Addr → Option Nat}
    {pmlt : Addr} {vaddr paddr : BitVec 64} {prot : VmProt} {flags : VmFlags}
    (h : Leveled s lab) (hroot : lab pmlt = some cfg.levels)
    (hout : inside_leaf cfg s.mem pmlt vaddr flags = false) (halign : paddr.toNat % 4096 = 0)
    (hlt : paddr.toNat < 2 ^ 52) (hpresent : prot.present = true)
    (hmap : pmap_map cfg s pmlt vaddr paddr prot flags = some s') (before : VmFlags) :
    Reports (pmap_translate cfg s' pmlt vaddr).2 before paddr prot (page_used cfg flags) ↔
      ReportsWhen cfg s'.mem pmlt vaddr before prot (page_used cfg flags) := by
  have haddr := get_addr_of_aligned halign hlt
  obtain ⟨pml3, t, i, hpml3, hvisits, hentry⟩ := h.pmap_map_visits hroot hout hmap
  have habove : pml3_prot cfg s'.mem pmlt vaddr = some (x86_to_vm_prot
      (PTE_GET_FLAGS (s'.mem pml3 (compute_table_indices vaddr).pml3_index))) := by
    have hmapped : pml3_prot cfg s'.mem pmlt vaddr =
        (pml3_of cfg s'.mem pmlt (compute_table_indices vaddr)).map fun pml3 =>
          x86_to_vm_prot
            (PTE_GET_FLAGS (s'.mem pml3 (compute_table_indices vaddr).pml3_index)) := by
      rw [pml3_prot, pml3_of, Option.map_bind]
      rfl
    rw [hmapped, hpml3, Option.map_some]
  rw [pmap_translate_pml3, hpml3, Option.bind_some, hvisits.translate hentry haddr hpresent]
  unfold Reports ReportsWhen
  rw [habove]
  cases page_used cfg flags with
  | huge => simp [PageSize.written, PageSize.bits, VmFlags.sizeBits]
  | large => simp [PageSize.written, PageSize.bits, VmFlags.sizeBits]
  | normal => simp [PageSize.written, PageSize.bits]

/-- A gigabyte, mapped after boot: address, protection and size are reported. -/
theorem pmap_translate_reports_iff_gib :
    ∃ (s s' : State) (lab : Addr → Option Nat), Leveled s lab ∧ lab 4096 = some gibPages.levels ∧
      inside_leaf gibPages s.mem 4096 0xffff800040000000 ⟨false, true, true⟩ = false ∧
      pmap_map gibPages s 4096 0xffff800040000000 0x40000000 ⟨true, true, false, false⟩
        ⟨false, true, true⟩ = some s' ∧
      (Reports (pmap_translate gibPages s' 4096 0xffff800040000000).2 .none 0x40000000
          ⟨true, true, false, false⟩ (page_used gibPages ⟨false, true, true⟩) ↔
        ReportsWhen gibPages s'.mem 4096 0xffff800040000000 .none ⟨true, true, false, false⟩
          (page_used gibPages ⟨false, true, true⟩)) := by
  obtain ⟨lab, hok⟩ := @PmapsOk.of_reachableBy gibPages _ (.init boot_init)
  have hmap : (pmap_map gibPages boot.state 4096 0xffff800040000000 0x40000000
      ⟨true, true, false, false⟩ ⟨false, true, true⟩).isSome = true := by
    decide +kernel
  obtain ⟨s', hs'⟩ := Option.isSome_iff_exists.mp hmap
  have hroot := hok.roots 4096 (List.mem_singleton_self _)
  have hout : inside_leaf gibPages boot.state.mem 4096 0xffff800040000000 ⟨false, true, true⟩ =
      false := by
    decide +kernel
  exact ⟨boot.state, s', lab, hok.leveled, hroot, hout, hs',
    pmap_translate_reports_iff hok.leveled hroot hout (by decide) (by decide) rfl hs' _⟩

/-- **A read-only 2 MiB page is reported with all protections**: after boot it
is mapped on its own, and what is reported is the protection of the new
table above it. -/
theorem large_page_reported_writable : ∃ (p : Pmaps) (s' : State),
      ReachableBy (system gibPages) (fun p a => ¬ InsideLeaf gibPages p a) p ∧
      inside_leaf gibPages p.state.mem 4096 0xffff800000200000 ⟨true, false, false⟩ = false ∧
      pmap_map gibPages (p.state.withPool [0x200000]) 4096 0xffff800000200000 0x400000
        ⟨true, false, false, false⟩ ⟨true, false, false⟩ = some s' ∧
      (pmap_translate gibPages s' 4096 0xffff800000200000).2 =
        some ⟨0x400000, some ⟨true, false, false⟩, VM_PROT_ALL⟩ ∧
      ∀ before, ¬ Reports (pmap_translate gibPages s' 4096 0xffff800000200000).2 before 0x400000
        ⟨true, false, false, false⟩ (page_used gibPages ⟨true, false, false⟩) := by
  obtain ⟨s', hs', htranslate⟩ : ∃ s', pmap_map gibPages (boot.state.withPool [0x200000]) 4096
      0xffff800000200000 0x400000 ⟨true, false, false, false⟩ ⟨true, false, false⟩ = some s' ∧
      (pmap_translate gibPages s' 4096 0xffff800000200000).2 =
        some ⟨0x400000, some ⟨true, false, false⟩, VM_PROT_ALL⟩ := by decide +kernel
  refine ⟨boot, s', .init boot_init, by decide +kernel, hs', htranslate, ?_⟩
  rintro before ⟨tr, htr, -, hprot, -⟩
  rw [htranslate] at htr
  cases htr
  exact absurd hprot (by decide)

end Paging
