import Mathlib.Logic.Relation
import Dufay.Mm.Pmap

/-! # Which pages are used as tables

Pages of three sizes may be mapped in any order and over each other. The
entry of a large or huge page has the same present bit as an entry that
leads to a table, and `descend_table` looks at nothing else. So a page
that is mapped inside a larger one is written into the memory of the
larger one.

As long as that is not done, tables have levels: every entry that leads
on leads to a table one level down (`Leveled`). What a call does to the
memory is a sequence of `Edit`s, and each of them keeps this.
-/

open Lts Function

namespace Paging

/-! ### Levels -/

/-- The label of a table is its level, from 1 for `pml1` up. -/
def levelScheme : Radix.Scheme Addr Index Entry Nat where
  next := fun _ e => if present e && !pageSize e then some (PTE_GET_ADDR e) else none
  down := fun k _ => if 2 ≤ k then some (k - 1) else none
  empty := 0
  next_empty := fun k => by simp

/-- The tables have levels, and all accesses were to tables. -/
structure Leveled (s : State) (lab : Addr → Option Nat) : Prop where
  labelled : Radix.Labelled levelScheme s.mem lab
  tables : ∀ t k, lab t = some k → t ∈ s.tables
  /-- There are no pages above level 3. -/
  tops : ∀ t k i, lab t = some k → 4 ≤ k → pageSize (s.mem t i) = false
  derefs : ∀ t ∈ s.derefs, t ∈ s.tables
  follows : ∀ e ∈ s.follows, pageSize e = false

/-- What the functions do to the memory, one access at a time. -/
inductive Edit : State × (Addr → Option Nat) → State × (Addr → Option Nat) → Prop where
  | access {s : State} {lab : Addr → Option Nat} {t : Addr} {k : Nat} (ht : lab t = some k) :
      Edit (s, lab) (access s t, lab)
  | follow {s : State} {lab : Addr → Option Nat} {t : Addr} {i : Index} {k : Nat}
      (ht : lab t = some k) (hps : pageSize (s.mem t i) = false) :
      Edit (s, lab) (follow s t i, lab)
  /-- A new table is linked in below level 1. -/
  | link {s : State} {lab : Addr → Option Nat} {t page : Addr} {i : Index} {k : Nat}
      (pool : List Addr) (ht : lab t = some (k + 1)) (hk : 1 ≤ k)
      (habsent : present (s.mem t i) = false) (hpage : page ∉ s.tables)
      (haddr : PTE_GET_ADDR page = page) :
      Edit (s, lab) (link s t i page pool, Function.update lab page (some k))
  /-- An entry becomes a page, or nothing. -/
  | leaf {s : State} {lab : Addr → Option Nat} {t : Addr} {i : Index} {e : Entry} {k : Nat}
      (ht : lab t = some k) (hk : k ≤ 3) (he : k = 1 ∨ pageSize e = true ∨ e = 0) :
      Edit (s, lab) (store s t i e, lab)

abbrev Edits := Relation.ReflTransGen Edit

variable {p q : State × (Addr → Option Nat)} {t : Addr} {k : Nat} {s : State}
variable {lab : Addr → Option Nat} {i : Index} {mem : Addr → Index → Entry} {cfg : Config}

theorem Edit.lab_mono (h : Edit p q) (hp : Leveled p.1 p.2) (ht : p.2 t = some k) :
    q.2 t = some k := by
  cases h with
  | access _ => exact ht
  | follow _ _ => exact ht
  | leaf _ _ _ => exact ht
  | @link s lab t' page i k' pool _ _ _ hpage _ =>
    have hne : t ≠ page := fun heq => hpage (heq ▸ hp.tables t k ht)
    exact (update_of_ne hne ..).trans ht

section

variable (h : Leveled s lab)

include h

theorem Leveled.fresh (hpage : page ∉ s.tables) : lab page = none := by
  by_contra hne
  obtain ⟨l, hl⟩ := Option.ne_none_iff_exists'.mp hne
  exact hpage (h.tables page l hl)

theorem Leveled.accessed (ht : lab t = some k) : Leveled (access s t) lab := by
  refine ⟨h.labelled, h.tables, h.tops, fun x hmem => ?_, h.follows⟩
  rcases List.mem_cons.mp hmem with rfl | hmem
  · exact h.tables _ _ ht
  · exact h.derefs x hmem

theorem Leveled.leaf {e : Entry} (ht : lab t = some k) (hk : k ≤ 3)
    (he : k = 1 ∨ pageSize e = true ∨ e = 0) : Leveled (store s t i e) lab := by
  refine ⟨h.labelled.write (fun l l' y hl hdown hnext => ?_), h.tables, fun x l j hx hl => ?_,
    (h.accessed ht).derefs, h.follows⟩
  · have hlk : l = k := Option.some.inj (hl.symm.trans ht)
    subst hlk
    have hone : l ≠ 1 := by
      rintro rfl
      simp [levelScheme] at hdown
    rcases he with he | he | he
    · exact absurd he hone
    all_goals simp [levelScheme, he] at hnext
  · have hne : ¬ (x = t ∧ j = i) := by
      rintro ⟨rfl, -⟩
      have hlk : l = k := Option.some.inj (hx.symm.trans ht)
      omega
    have hsame : (store s t i e).mem x j = s.mem x j := by
      simp only [store, Radix.write_apply, if_neg hne]
    rw [hsame]
    exact h.tops x l j hx hl

theorem Leveled.new {page : Addr} (hpage : page ∉ s.tables) (k : Nat) (pool : List Addr) :
    Leveled { s with
      mem := update s.mem page (fun _ => 0)
      pool := pool
      tables := page :: s.tables } (update lab page (some k)) := by
  refine ⟨h.labelled.clear (h.fresh hpage) k, fun t l ht => ?_, fun t l i ht hl => ?_,
    fun t hmem => List.mem_cons_of_mem _ (h.derefs t hmem), h.follows⟩
  · by_cases htp : t = page
    · exact htp ▸ List.mem_cons_self
    · rw [update_of_ne htp] at ht
      exact List.mem_cons_of_mem _ (h.tables t l ht)
  · by_cases htp : t = page
    · simp [htp]
    · rw [update_of_ne htp] at ht
      simp only [update_of_ne htp]
      exact h.tops t l i ht hl

theorem Leveled.store_table (ht : lab t = some (k + 1))
    (hk : 1 ≤ k) (hpage : lab page = some k) (haddr : PTE_GET_ADDR page = page) :
    Leveled (store s t i (tableEntry page)) lab := by
  refine ⟨h.labelled.write (fun l l' y hl hdown hnext => ?_), h.tables, fun x l j hx hl => ?_,
    (h.accessed ht).derefs, h.follows⟩
  · rw [ht] at hl
    cases hl
    have hl' : l' = k := by
      simpa [levelScheme, show 2 ≤ k + 1 by omega] using hdown.symm
    have hy : y = page := by
      simpa [levelScheme, haddr] using hnext.symm
    rw [hy, hl', hpage]
  · simp only [store, Radix.write_apply]
    split
    · exact pageSize_tableEntry haddr
    · exact h.tops x l j hx hl

end

theorem Leveled.edit (h : Leveled p.1 p.2) (he : Edit p q) : Leveled q.1 q.2 := by
  cases he with
  | access ht => exact h.accessed ht
  | @follow s lab t i k ht hps =>
    have hacc := h.accessed ht
    refine ⟨hacc.labelled, hacc.tables, hacc.tops, hacc.derefs, fun e hmem => ?_⟩
    rcases List.mem_cons.mp hmem with rfl | hmem
    · exact hps
    · exact h.follows e hmem
  | leaf ht hk he => exact h.leaf ht hk he
  | @link s lab t page i k pool ht hk habsent hpage haddr =>
    have htp : t ≠ page := fun heq => hpage (heq ▸ h.tables t _ ht)
    exact (h.new hpage k pool).store_table ((update_of_ne htp ..).trans ht) hk
      (update_self ..) haddr

theorem Leveled.edits (h : Leveled p.1 p.2) (he : Edits p q) : Leveled q.1 q.2 := by
  induction he with
  | refl => exact h
  | tail _ hstep ih => exact ih.edit hstep

theorem Leveled.lab_mono (h : Leveled p.1 p.2) (he : Edits p q) (ht : p.2 t = some k) :
    q.2 t = some k := by
  induction he with
  | refl => exact ht
  | tail hpre hstep ih => exact hstep.lab_mono (h.edits hpre) ih

/-! ### Walking down -/

/-- The entry leads on: it is no page. -/
def Leads (e : Entry) : Prop := present e = true → pageSize e = false

theorem Leveled.leads (h : Leveled s lab) (ht : lab t = some k) (hk : 4 ≤ k) (i : Index) :
    Leads (s.mem t i) :=
  fun _ => h.tops t k i ht hk

theorem Leveled.next (h : Leveled s lab) (ht : lab t = some (k + 1)) (hk : 1 ≤ k)
    (hleads : Leads (s.mem t i)) (hn : next_table s.mem t i = some y) : lab y = some k := by
  unfold next_table at hn
  obtain ⟨hp, rfl⟩ := of_guard hn
  refine h.labelled t (k + 1) i k _ ht (by simp [levelScheme, hk]) ?_
  simp [levelScheme, hp, hleads hp]

theorem edit_visit (ht : lab t = some k) (hleads : Leads (s.mem t i)) :
    Edit (s, lab) (visit s t i, lab) := by
  unfold visit
  split
  · next hp => exact .follow ht (hleads hp)
  · exact .access ht

theorem Leveled.descend (h : Leveled s lab) (ht : lab t = some (k + 1))
    (hk : 1 ≤ k) (hleads : Leads (s.mem t i)) (hd : descend_table s t i true = (s', some y)) :
    ∃ lab', Edits (s, lab) (s', lab') ∧ lab' y = some k := by
  rcases descend_table_true hd with ⟨hp, rfl, rfl⟩ | ⟨hp, pool, -, hfresh, haddr, rfl⟩
  · refine ⟨lab, .single (.follow ht (hleads hp)), h.next ht hk hleads ?_⟩
    simp [next_table, hp]
  · have hlink : Edit (access s t, lab) (link (access s t) t i y pool, update lab y (some k)) :=
      .link pool ht hk hp hfresh haddr
    exact ⟨_, (Relation.ReflTransGen.single (.access ht)).tail hlink, update_self ..⟩

/-- How a walk that allocates compares with the tables of the memory `mem`
before it: it is where the plain walk (`o`) is and has changed nothing, or
the plain walk has ended and it is at a new, empty table. -/
def Continues (mem : Addr → Index → Entry) (o : Option Addr) (s : State) (t : Addr) : Prop :=
  (o = some t ∧ s.mem = mem) ∨ (o = none ∧ ∀ j, s.mem t j = 0)

theorem Continues.descend (h : Continues mem o s t)
    (ht : t ∈ s.tables) (hd : descend_table s t i true = (s', some y)) :
    Continues mem (o.bind fun t => next_table mem t i) s' y := by
  rcases descend_table_true hd with ⟨hp, rfl, rfl⟩ | ⟨hp, pool, -, hfresh, haddr, rfl⟩
  · rcases h with ⟨rfl, hmem⟩ | ⟨-, hzero⟩
    · left
      exact ⟨by simp [next_table, ← hmem, hp], hmem⟩
    · simp [hzero] at hp
  · right
    constructor
    · rcases h with ⟨rfl, hmem⟩ | ⟨rfl, -⟩
      · simp [next_table, ← hmem, hp]
      · rfl
    · intro j
      have hne : ¬ (y = t ∧ j = i) := fun hc => hfresh (hc.1 ▸ ht)
      simp [link, store, access, Radix.write_apply, hne]

/-- The page `vaddr` is inside a larger page that is present. -/
def inside_leaf (cfg : Config) (mem : Addr → Index → Entry) (pmlt : Addr) (vaddr : BitVec 64)
    (flags : VmFlags) : Bool :=
  let indices := compute_table_indices vaddr
  match (pml4_of cfg mem pmlt indices).bind fun pml4 => next_table mem pml4 indices.pml4_index with
  | none => false
  | some pml3 =>
    if flags.huge_page && cfg.gib_pages_supported then false
    else
      let pml3e := mem pml3 indices.pml3_index
      let pml2e := mem (PTE_GET_ADDR pml3e) indices.pml2_index
      present pml3e && (pageSize pml3e ||
        (!(flags.huge_page || flags.large_page) && (present pml2e && pageSize pml2e)))

/-! ### The calls -/

section calls

variable {cfg : Config} {s s' : State} {lab : Addr → Option Nat} {pmlt : Addr}
  {vaddr paddr : BitVec 64} {prot : VmProt} {flags : VmFlags}

theorem Leveled.descend_pml5 (h : Leveled s lab) (hroot : lab pmlt = some cfg.levels)
    (hd : descend_pml5 cfg s pmlt indices true = (s', some pml4)) :
    ∃ lab', Edits (s, lab) (s', lab') ∧ lab' pml4 = some 4 ∧
      Continues s.mem (pml4_of cfg s.mem pmlt indices) s' pml4 := by
  unfold Paging.descend_pml5 at hd
  unfold Config.levels at hroot
  have hstart : Continues s.mem (some pmlt) s pmlt := Or.inl ⟨rfl, rfl⟩
  split at hd
  · next h5 =>
    rw [if_pos h5] at hroot
    obtain ⟨lab', hedits, hpml4⟩ := h.descend hroot (by omega) (h.leads hroot (by omega) _) hd
    refine ⟨lab', hedits, hpml4, ?_⟩
    have hc := hstart.descend (h.tables _ _ hroot) hd
    simpa [pml4_of, h5] using hc
  · next h5 =>
    rw [if_neg h5] at hroot
    cases hd
    exact ⟨lab, .refl, hroot, by simpa [pml4_of, h5] using hstart⟩

theorem Continues.leads (h : Continues mem o s t)
    (hok : o = some t → Leads (mem t i)) : Leads (s.mem t i) := by
  intro hp
  rcases h with ⟨ho, hmem⟩ | ⟨-, hzero⟩
  · rw [hmem] at hp ⊢
    exact hok ho hp
  · simp [hzero] at hp

theorem Continues.leads_pml3
    (h : Continues mem ((pml4_of cfg mem pmlt (compute_table_indices vaddr)).bind fun pml4 =>
      next_table mem pml4 (compute_table_indices vaddr).pml4_index) s pml3)
    (hok : inside_leaf cfg mem pmlt vaddr flags = false)
    (hhuge : (flags.huge_page && cfg.gib_pages_supported) = false) :
    Leads (s.mem pml3 (compute_table_indices vaddr).pml3_index) := by
  unfold inside_leaf at hok
  refine h.leads (fun ho hp => ?_)
  simp only [ho, hhuge, Bool.false_eq_true, if_false, hp, Bool.true_and,
    Bool.or_eq_false_iff] at hok
  exact hok.1

theorem Continues.leads_pml2
    (h : Continues mem (((pml4_of cfg mem pmlt (compute_table_indices vaddr)).bind fun pml4 =>
      next_table mem pml4
      (compute_table_indices vaddr).pml4_index).bind fun pml3 => next_table mem pml3
      (compute_table_indices vaddr).pml3_index) s pml2)
    (hok : inside_leaf cfg mem pmlt vaddr flags = false)
    (hhuge : (flags.huge_page && cfg.gib_pages_supported) = false)
    (hlarge : (flags.huge_page || flags.large_page) = false) :
    Leads (s.mem pml2 (compute_table_indices vaddr).pml2_index) := by
  unfold inside_leaf at hok
  refine h.leads (fun ho hp => ?_)
  obtain ⟨x, hx, hnext⟩ := Option.bind_eq_some_iff.mp ho
  unfold next_table at hnext
  obtain ⟨hp3, rfl⟩ := of_guard hnext
  simp only [hx, hhuge, hlarge, Bool.false_eq_true, if_false, hp3, hp, Bool.true_and,
    Bool.not_false, Bool.or_eq_false_iff] at hok
  exact hok.2

section
variable (h : Leveled s lab) (hroot : lab pmlt = some cfg.levels)
include h hroot

theorem Leveled.pmap_map (hok : inside_leaf cfg s.mem pmlt vaddr flags = false)
    (hmap : pmap_map cfg s pmlt vaddr paddr prot flags = some s') :
    ∃ lab', Edits (s, lab) (s', lab') := by
  obtain ⟨s1, pml4, s2, pml3, h1, h2, hrest⟩ := pmap_map_inv hmap
  -- down to `pml3`: there are no pages at these levels
  obtain ⟨lab1, he1, hl1, hc1⟩ := h.descend_pml5 hroot h1
  have hlev1 := h.edits he1
  obtain ⟨lab2, he2, hl2⟩ := hlev1.descend hl1 (by omega) (hlev1.leads hl1 (by omega) _) h2
  have hlev2 := hlev1.edits he2
  have hc2 := hc1.descend (hlev1.tables _ _ hl1) h2
  rcases hrest with ⟨hhuge, rfl⟩ | ⟨hhuge, s3, pml2, h3, hrest⟩
  · have hps : pageSize (paddr ||| vm_prot_to_x86 prot flags) = true := by
      refine pageSize_leaf paddr prot ?_
      simp only [Bool.and_eq_true] at hhuge
      simp [hhuge.1]
    exact ⟨lab2, (he1.trans he2).tail (.leaf hl2 (by omega) (.inr (.inl hps)))⟩
  · obtain ⟨lab3, he3, hl3⟩ := hlev2.descend hl2 (by omega) (hc2.leads_pml3 hok hhuge) h3
    have hlev3 := hlev2.edits he3
    have hc3 := hc2.descend (hlev2.tables _ _ hl2) h3
    have he123 := (he1.trans he2).trans he3
    rcases hrest with ⟨hlarge, rfl⟩ | ⟨hlarge, s4, pml1, h4, rfl⟩
    · have hps : pageSize (paddr ||| vm_prot_to_x86 prot flags) = true :=
        pageSize_leaf paddr prot (by rw [Bool.or_comm]; exact hlarge)
      exact ⟨lab3, he123.tail (.leaf hl3 (by omega) (.inr (.inl hps)))⟩
    · obtain ⟨lab4, he4, hl4⟩ := hlev3.descend hl3 (by omega) (hc3.leads_pml2 hok hhuge hlarge) h4
      exact ⟨lab4, (he123.trans he4).tail (.leaf hl4 (by omega) (.inl rfl))⟩

theorem Leveled.pml4 {pml4 : Addr} (h4 : pml4_of cfg s.mem pmlt indices = some pml4) : lab pml4 =
    some 4 := by
  unfold pml4_of at h4
  unfold Config.levels at hroot
  split at h4
  · next h5 =>
    rw [if_pos h5] at hroot
    exact h.next hroot (by omega) (h.leads hroot (by omega) _) h4
  · next h5 =>
    rw [if_neg h5] at hroot
    cases h4
    exact hroot

theorem Leveled.visit_pml5 (indices : PmlIndices) : Edits (s, lab)
    (visit_pml5 cfg s pmlt indices, lab) := by
  unfold Paging.visit_pml5
  split
  · exact .single (edit_visit hroot (h.leads hroot (levels_ge cfg) _))
  · exact .refl

end

theorem leads_of_not_pageSize (h : ¬ pageSize e = true) : Leads e :=
  fun _ => by simpa using h

section
variable (h : Leveled s lab) (hroot : lab pmlt = some cfg.levels)
include h hroot

theorem Leveled.page_entry (vaddr : BitVec 64) : Edits (s, lab)
    ((amd64_page_entry cfg s pmlt vaddr).1, lab) ∧
      ∀ t i, (amd64_page_entry cfg s pmlt vaddr).2 = some (t, i) → ∃ k ≤ 3, lab t = some k := by
  have he5 := h.visit_pml5 hroot (compute_table_indices vaddr)
  simp only [amd64_page_entry, descend_pml5_false]
  cases h4 : pml4_of cfg s.mem pmlt (compute_table_indices vaddr) with
  | none => exact ⟨he5, fun t i hti => by cases hti⟩
  | some pml4 =>
    have hl4 := h.pml4 hroot h4
    have hleads4 := h.leads hl4 (by omega) (compute_table_indices vaddr).pml4_index
    have he4 := he5.tail (edit_visit hl4 (by rw [visit_pml5_mem]; exact hleads4))
    simp only [descend_table_false, visit_pml5_mem]
    cases h3 : next_table s.mem pml4 (compute_table_indices vaddr).pml4_index with
    | none => exact ⟨he4, fun t i hti => by cases hti⟩
    | some pml3 =>
      have hl3 := h.next hl4 (by omega) hleads4 h3
      have he3 := he4.tail (.access hl3)
      simp only [access_mem, visit_mem, visit_pml5_mem]
      split
      · refine ⟨he3, fun t i hti => ?_⟩
        cases hti
        exact ⟨3, by omega, hl3⟩
      · next hps3 =>
        have hleads3 := leads_of_not_pageSize hps3
        have he3' := he3.tail (edit_visit hl3 (by simpa using hleads3))
        cases h2 : next_table s.mem pml3 (compute_table_indices vaddr).pml3_index with
        | none => exact ⟨he3', fun t i hti => by cases hti⟩
        | some pml2 =>
          have hl2 := h.next hl3 (by omega) hleads3 h2
          have he2 := he3'.tail (.access hl2)
          simp only [access_mem, visit_mem, visit_pml5_mem]
          split
          · refine ⟨he2, fun t i hti => ?_⟩
            cases hti
            exact ⟨2, by omega, hl2⟩
          · next hps2 =>
            have hleads2 := leads_of_not_pageSize hps2
            have he2' := he2.tail (edit_visit hl2 (by simpa using hleads2))
            cases h1 : next_table s.mem pml2 (compute_table_indices vaddr).pml2_index with
            | none => exact ⟨he2', fun t i hti => by cases hti⟩
            | some pml1 =>
              refine ⟨he2', fun t i hti => ?_⟩
              cases hti
              exact ⟨1, by omega, h.next hl2 (by omega) hleads2 h1⟩

theorem Leveled.pmap_unmap : Edits (s, lab) (pmap_unmap cfg s pmlt vaddr, lab) := by
  obtain ⟨hedits, hentry⟩ := h.page_entry hroot vaddr
  rw [(amd64_page_entry_users ..).1]
  generalize amd64_page_entry cfg s pmlt vaddr = r at hedits hentry
  rcases r with ⟨s1, _ | ⟨t, i⟩⟩
  · exact hedits
  · obtain ⟨k, hk, ht⟩ := hentry t i rfl
    exact hedits.tail (.leaf ht hk (.inr (.inr rfl)))

theorem Leveled.pmap_translate : Edits (s, lab) ((pmap_translate cfg s pmlt vaddr).1, lab) := by
  obtain ⟨hedits, hentry⟩ := h.page_entry hroot vaddr
  rw [(amd64_page_entry_users ..).2]
  generalize amd64_page_entry cfg s pmlt vaddr = r at hedits hentry
  rcases r with ⟨s1, _ | ⟨t, i⟩⟩
  · exact hedits
  · obtain ⟨k, hk, ht⟩ := hentry t i rfl
    exact hedits.tail (.access ht)

end

end calls

theorem Leveled.pmm_alloc (h : Leveled s lab)
    (ha : pmm_alloc s = some (s', page)) (k : Nat) : Leveled s' (update lab page (some k)) := by
  obtain ⟨hpage, -, pool, -, rfl⟩ := pmm_alloc_eq ha
  exact h.new hpage k pool

theorem Leveled.preallocate :
    ∀ {s s' : State} {lab : Addr → Option Nat} {pmlt : Addr} {k : Nat}, Leveled s lab →
      lab pmlt = some k → 4 ≤ k → preallocate s pmlt is = some s' →
      ∃ lab', Edits (s, lab) (s', lab') := by
  induction is with
  | nil =>
    intro s s' lab pmlt k _ _ _ hp
    cases hp
    exact ⟨lab, .refl⟩
  | cons i is ih =>
    intro s s' lab pmlt k h hroot hk hp
    unfold Paging.preallocate at hp
    split at hp
    · cases hp
    · next s1 y hd =>
      obtain ⟨j, rfl⟩ : ∃ j, k = j + 1 := ⟨k - 1, by omega⟩
      obtain ⟨lab1, he1, -⟩ := h.descend hroot (by omega) (h.leads hroot hk _) hd
      obtain ⟨lab', he2⟩ := ih (h.edits he1) (h.lab_mono he1 hroot) hk hp
      exact ⟨lab', he1.trans he2⟩

/-! ### Pmaps -/

structure Pmaps where
  state : State
  kernel_pmap : Addr
  pmaps : List Addr

inductive Action where
  | pmap_new (pool : List Addr)
  | pmap_map (pool : List Addr) (pmap : Addr) (vaddr paddr : BitVec 64) (prot : VmProt)
      (flags : VmFlags)
  | pmap_unmap (pmap : Addr) (vaddr : BitVec 64)
  | pmap_translate (pmap : Addr) (vaddr : BitVec 64)
  deriving DecidableEq

def step (cfg : Config) (p : Pmaps) : Action → Option Pmaps
  | .pmap_new pool =>
    (pmap_new (p.state.withPool pool) p.kernel_pmap).map fun r =>
      { p with state := r.1, pmaps := r.2 :: p.pmaps }
  | .pmap_map pool pmap vaddr paddr prot flags =>
    if pmap ∈ p.pmaps then
      (pmap_map cfg (p.state.withPool pool) pmap vaddr paddr prot flags).map fun s =>
        { p with state := s }
    else none
  | .pmap_unmap pmap vaddr =>
    if pmap ∈ p.pmaps then some { p with state := pmap_unmap cfg p.state pmap vaddr } else none
  | .pmap_translate pmap vaddr =>
    if pmap ∈ p.pmaps then some { p with state := (pmap_translate cfg p.state pmap vaddr).1 }
    else none

/-- After `pmap_init_kernel`, in whatever memory there was. -/
def Init (p : Pmaps) : Prop := ∃ s : State, s.tables = [] ∧ s.derefs = [] ∧ s.follows = [] ∧
    pmap_init_kernel s = some (p.state, p.kernel_pmap) ∧ p.pmaps = [p.kernel_pmap]

def system (cfg : Config) : System Pmaps Action where
  init := Init
  step := step cfg

/-- The call maps a page inside a larger one that is present. -/
def InsideLeaf (cfg : Config) (p : Pmaps) : Action → Prop
  | .pmap_map _ pmap vaddr _ _ flags => inside_leaf cfg p.state.mem pmap vaddr flags = true
  | .pmap_new _ | .pmap_unmap _ _ | .pmap_translate _ _ => False

instance (cfg : Config) (p : Pmaps) (a : Action) : Decidable (InsideLeaf cfg p a) := by
  cases a <;> unfold InsideLeaf <;> infer_instance

/-- The tables have levels, and the roots are at the top. -/
structure PmapsOk (cfg : Config) (p : Pmaps) (lab : Addr → Option Nat) : Prop where
  leveled : Leveled p.state lab
  roots : ∀ r ∈ p.pmaps, lab r = some cfg.levels
  kernel_pmap : p.kernel_pmap ∈ p.pmaps

theorem Leveled.withPool (h : Leveled s lab) (pool : List Addr) : Leveled (s.withPool pool) lab :=
  ⟨h.labelled, h.tables, h.tops, h.derefs, h.follows⟩

theorem Init.edits {p : Pmaps} (h : Init p) : ∃ (s : State) (lab : Addr → Option Nat),
      Leveled s (update (fun _ => none) p.kernel_pmap (some cfg.levels)) ∧
      (∀ i, s.mem p.kernel_pmap i = 0) ∧
      Edits (s, update (fun _ => none) p.kernel_pmap (some cfg.levels)) (p.state, lab) ∧
      p.pmaps = [p.kernel_pmap] := by
  obtain ⟨state, kernel_pmap, pmaps⟩ := p
  obtain ⟨s, htables, hderefs, hfollows, hinit, hpmaps⟩ := h
  dsimp only at hinit hpmaps ⊢
  unfold pmap_init_kernel at hinit
  split at hinit
  · cases hinit
  · next s1 pmlt ha =>
    obtain ⟨s2, hpre, heq⟩ := Option.map_eq_some_iff.mp hinit
    obtain ⟨rfl, rfl⟩ := Prod.mk.inj heq
    have hnil : Leveled s (fun _ => none) :=
      ⟨fun _ _ _ _ _ hl => (by cases hl), fun _ _ hl => (by cases hl),
        fun _ _ _ hl => (by cases hl), by simp [hderefs], by simp [hfollows]⟩
    have hroot := hnil.pmm_alloc ha cfg.levels
    obtain ⟨-, -, pool, -, rfl⟩ := pmm_alloc_eq ha
    obtain ⟨lab, hedits⟩ := hroot.preallocate (update_self ..) (levels_ge cfg) hpre
    exact ⟨_, lab, hroot, fun i => by simp, hedits, hpmaps⟩

theorem PmapsOk.init {p : Pmaps} (h : Init p) : ∃ lab, PmapsOk cfg p lab := by
  obtain ⟨s, lab, hroot, -, hedits, hpmaps⟩ := @Init.edits cfg p h
  have hself : update (fun _ => none) p.kernel_pmap (some cfg.levels) p.kernel_pmap
      = some cfg.levels := update_self ..
  refine ⟨lab, hroot.edits hedits, fun r hr => ?_, ?_⟩
  · rw [hpmaps] at hr
    rw [List.mem_singleton.mp hr]
    exact hroot.lab_mono hedits hself
  · rw [hpmaps]
    exact List.mem_singleton_self _

theorem PmapsOk.edits {p : Pmaps} {s' : State} {lab' : Addr → Option Nat} (h : PmapsOk cfg p lab)
    (he : Edits (p.state, lab) (s', lab')) : PmapsOk cfg { p with state := s' } lab' :=
  ⟨h.leveled.edits he, fun r hr => h.leveled.lab_mono he (h.roots r hr), h.kernel_pmap⟩

theorem PmapsOk.pmap_new {p : Pmaps} (h : PmapsOk cfg p lab)
    (hnew : pmap_new (p.state.withPool pool) p.kernel_pmap = some (s', pmlt)) :
    PmapsOk cfg { p with state := s', pmaps := pmlt :: p.pmaps }
      (update lab pmlt (some cfg.levels)) := by
  have hk := h.roots _ h.kernel_pmap
  obtain ⟨hpage, htables, hfollows, hderefs, hmem⟩ :=
    pmap_new_inv (s := p.state.withPool pool) (h.leveled.tables _ _ hk) hnew
  have hself : update lab pmlt (some cfg.levels) pmlt = some cfg.levels := update_self ..
  have hold : ∀ t k, lab t = some k → update lab pmlt (some cfg.levels) t = some k := by
    intro t k ht
    have hne : t ≠ pmlt := by
      rintro rfl
      exact hpage (h.leveled.tables t k ht)
    rwa [update_of_ne hne]
  have htab : ∀ t ∈ p.state.tables, t ∈ s'.tables := by
    intro t ht
    rw [htables]
    exact List.mem_cons_of_mem _ ht
  refine ⟨⟨?_, ?_, ?_, ?_, ?_⟩, ?_, ?_⟩
  · -- the entries of the new root are those of the kernel's
    intro t l i l' y hl hdown hnext
    rw [hmem] at hnext
    by_cases ht : t = pmlt
    · subst ht
      cases hself.symm.trans hl
      rw [if_pos rfl] at hnext
      split at hnext
      · exact hold y l' (h.leveled.labelled _ _ i l' y hk hdown hnext)
      · simp [levelScheme] at hnext
    · rw [update_of_ne ht] at hl
      rw [if_neg ht] at hnext
      exact hold y l' (h.leveled.labelled t l i l' y hl hdown hnext)
  · intro t k ht
    by_cases htp : t = pmlt
    · rw [htables, htp]
      exact List.mem_cons_self
    · rw [update_of_ne htp] at ht
      exact htab t (h.leveled.tables t k ht)
  · intro t k i ht hk4
    rw [hmem]
    by_cases htp : t = pmlt
    · rw [if_pos htp]
      split
      · exact h.leveled.tops _ _ i hk (levels_ge cfg)
      · exact pageSize_zero
    · rw [if_neg htp]
      rw [update_of_ne htp] at ht
      exact h.leveled.tops t k i ht hk4
  · intro t ht
    rcases hderefs t ht with rfl | rfl | ht
    · rw [htables]
      exact List.mem_cons_self
    · exact htab _ (h.leveled.tables _ _ hk)
    · exact htab t (h.leveled.derefs t ht)
  · intro e he
    rw [hfollows] at he
    exact h.leveled.follows e he
  · intro r hr
    rcases List.mem_cons.mp hr with rfl | hr
    · exact hself
    · exact hold r _ (h.roots r hr)
  · exact List.mem_cons_of_mem _ h.kernel_pmap

theorem PmapsOk.call {p : Pmaps} (h : PmapsOk cfg p lab)
    (hok : ¬ InsideLeaf cfg p a) (hstep : step cfg p a = some p')
    (hnew : ∀ pool, a ≠ .pmap_new pool) : ∃ pool s' lab', p' = { p with state := s' } ∧
      Edits (p.state.withPool pool, lab) (s', lab') := by
  cases a with
  | pmap_new pool => exact absurd rfl (hnew pool)
  | pmap_map pool pmap vaddr paddr prot flags =>
    simp only [step] at hstep
    split at hstep
    · next hmem =>
      obtain ⟨s', hmap, rfl⟩ := Option.map_eq_some_iff.mp hstep
      have hout : inside_leaf cfg p.state.mem pmap vaddr flags = false := by
        simpa [InsideLeaf] using hok
      obtain ⟨lab', hedits⟩ := (h.leveled.withPool pool).pmap_map (h.roots pmap hmem) hout hmap
      exact ⟨pool, s', lab', rfl, hedits⟩
    · cases hstep
  | pmap_unmap pmap vaddr =>
    simp only [step] at hstep
    obtain ⟨hmem, rfl⟩ := of_guard hstep
    exact ⟨p.state.pool, _, lab, rfl, h.leveled.pmap_unmap (h.roots pmap hmem)⟩
  | pmap_translate pmap vaddr =>
    simp only [step] at hstep
    obtain ⟨hmem, rfl⟩ := of_guard hstep
    exact ⟨p.state.pool, _, lab, rfl, h.leveled.pmap_translate (h.roots pmap hmem)⟩

theorem PmapsOk.step {p p' : Pmaps} {a : Action} (h : PmapsOk cfg p lab)
    (hok : ¬ InsideLeaf cfg p a) (hstep : step cfg p a = some p') :
    ∃ lab', PmapsOk cfg p' lab' := by
  by_cases hnew : ∃ pool, a = .pmap_new pool
  · obtain ⟨pool, rfl⟩ := hnew
    obtain ⟨r, hnew, rfl⟩ := Option.map_eq_some_iff.mp hstep
    exact ⟨_, h.pmap_new hnew⟩
  · obtain ⟨pool, s', lab', rfl, hedits⟩ := h.call hok hstep (fun pool heq => hnew ⟨pool, heq⟩)
    have hpool : PmapsOk cfg { p with state := p.state.withPool pool } lab :=
      ⟨h.leveled.withPool pool, h.roots, h.kernel_pmap⟩
    exact ⟨lab', hpool.edits hedits⟩

/-! ### Boot -/

/-- After `pmap_init_kernel`. -/
def boot : Pmaps where
  state := blank.kernelInit 4096 bootPages []
  kernel_pmap := 4096
  pmaps := [4096]

theorem boot_init : Init boot := ⟨blank, rfl, rfl, rfl,
    pmap_init_kernel_eq (by simp [blank]) bootPages_usable (by simp [bootPages]), rfl⟩

/-- The CPU has four levels and 1 GiB pages. -/
def gibPages : Config := ⟨false, true⟩

/-- `vmm_init` maps the gigabyte at `phys`. -/
def identityMap (phys : BitVec 64) : Action :=
  .pmap_map [] 4096 (phys + 0xffff800000000000) phys VM_PROT_ALL ⟨false, true, true⟩

/-- `apic_init` maps the registers of the I/O APIC. -/
def ioapicMap (pool : List Addr) : Action :=
  .pmap_map pool 4096 0xffff8000fec00000 0xfec00000 ⟨true, true, false, false⟩ ⟨true, false, true⟩

/-! ### Accesses -/

theorem PmapsOk.of_reachableBy {p : Pmaps}
    (hs : ReachableBy (system cfg) (fun p a => ¬ InsideLeaf cfg p a) p) :
    ∃ lab, PmapsOk cfg p lab := by
  induction hs with
  | init h => exact PmapsOk.init h
  | step a _ hok hst ih =>
    obtain ⟨lab, h⟩ := ih
    exact h.step hok hst

/-! ### When `pmm_alloc` fails -/

/-- `descend_table` with all its answers. If `pmm_alloc` fails, its -1 becomes
the entry, and the walk goes on to where this entry leads. -/
def descend_table_total (s : State) (table : Addr) (index : Index) : State × Addr :=
  match descend_table s table index true with
  | (s, some next) => (s, next)
  | (s, none) =>
    (store s table index (BitVec.allOnes 64), PTE_GET_ADDR (BitVec.allOnes 64))

/-- `pmap_map`, whatever `pmm_alloc` answers. -/
def pmap_map_total (cfg : Config) (s : State) (pmlt : Addr) (vaddr paddr : BitVec 64)
    (prot : VmProt) (flags : VmFlags) : State :=
  let indices := compute_table_indices vaddr
  let leaf := paddr ||| vm_prot_to_x86 prot flags
  let (s, pml4) :=
    if cfg.pml5_supported then descend_table_total s pmlt indices.pml5_index else (s, pmlt)
  let (s, pml3) := descend_table_total s pml4 indices.pml4_index
  -- 1 gb page mapping
  if flags.huge_page && cfg.gib_pages_supported then store s pml3 indices.pml3_index leaf
  else
    let (s, pml2) := descend_table_total s pml3 indices.pml3_index
    -- 2 mb page mapping
    if flags.huge_page || flags.large_page then store s pml2 indices.pml2_index leaf
    else
      let (s, pml1) := descend_table_total s pml2 indices.pml2_index
      store s pml1 indices.pml1_index leaf

def stepTotal (cfg : Config) (p : Pmaps) : Action → Option Pmaps
  | .pmap_map pool pmap vaddr paddr prot flags =>
    if pmap ∈ p.pmaps then
      some { p with
        state := pmap_map_total cfg (p.state.withPool pool) pmap vaddr paddr prot flags }
    else none
  | a => step cfg p a

def totalSystem (cfg : Config) : System Pmaps Action where
  init := Init
  step := stepTotal cfg

/-- `pmm_alloc` has a page whenever the call asks for one. -/
def Served (cfg : Config) (p : Pmaps) : Action → Prop
  | .pmap_map pool pmap vaddr paddr prot flags =>
    (pmap_map cfg (p.state.withPool pool) pmap vaddr paddr prot flags).isSome = true
  | .pmap_new _ | .pmap_unmap _ _ | .pmap_translate _ _ => True

instance (cfg : Config) (p : Pmaps) (a : Action) : Decidable (Served cfg p a) := by
  cases a <;> unfold Served <;> infer_instance

theorem descend_table_total_eq (h : descend_table s t i true = (s', some y)) :
    descend_table_total s t i = (s', y) := by
  rw [descend_table_total, h]

theorem pmap_map_total_eq {pmlt : Addr} {vaddr paddr : BitVec 64} {prot : VmProt} {flags : VmFlags}
    (h : pmap_map cfg s pmlt vaddr paddr prot flags = some s') :
    pmap_map_total cfg s pmlt vaddr paddr prot flags = s' := by
  obtain ⟨s1, pml4, s2, pml3, h5, h4, hrest⟩ := pmap_map_inv h
  have htop : (if cfg.pml5_supported then
      descend_table_total s pmlt (compute_table_indices vaddr).pml5_index else (s, pmlt)) =
        (s1, pml4) := by
    unfold descend_pml5 at h5
    split at h5
    · next hpml5 => rw [if_pos hpml5, descend_table_total_eq h5]
    · next hpml5 =>
      cases h5
      rw [if_neg hpml5]
  simp only [pmap_map_total, htop, descend_table_total_eq h4]
  rcases hrest with ⟨hhuge, rfl⟩ | ⟨hhuge, s3, pml2, h3, hrest⟩
  · rw [if_pos hhuge]
  · rw [if_neg (by simp [hhuge])]
    simp only [descend_table_total_eq h3]
    rcases hrest with ⟨hlarge, rfl⟩ | ⟨hlarge, s4, pml1, h2, rfl⟩
    · rw [if_pos hlarge]
    · rw [if_neg (by simp [hlarge])]
      simp only [descend_table_total_eq h2]

theorem step_of_served {p p' : Pmaps} {a : Action} (h : stepTotal cfg p a = some p')
    (hserved : Served cfg p a) : step cfg p a = some p' := by
  cases a with
  | pmap_map pool pmap vaddr paddr prot flags =>
    obtain ⟨hmem, rfl⟩ := of_guard h
    obtain ⟨s', hs'⟩ := Option.isSome_iff_exists.mp hserved
    rw [step, if_pos hmem, hs', pmap_map_total_eq hs']
    rfl
  | pmap_new _ => exact h
  | pmap_unmap _ _ => exact h
  | pmap_translate _ _ => exact h

/-- **Only tables are used as tables**: in every run in which no page is
mapped inside a larger one that is present and `pmm_alloc` does not fail,
each page that one of the calls accesses as a table was allocated as one,
and no entry of a larger page is followed. -/
theorem derefs_are_tables {cfg : Config} {p : Pmaps}
    (hs : ReachableBy (totalSystem cfg) (fun p a => ¬ InsideLeaf cfg p a ∧ Served cfg p a) p) :
    (∀ t ∈ p.state.derefs, t ∈ p.state.tables) ∧ ∀ e ∈ p.state.follows, pageSize e = false := by
  have hsys : ReachableBy (system cfg) (fun p a => ¬ InsideLeaf cfg p a) p := by
    induction hs with
    | init h => exact .init h
    | step a _ hok hst ih => exact .step a ih hok.1 (step_of_served hst hok.2)
  obtain ⟨lab, h⟩ := PmapsOk.of_reachableBy hsys
  exact ⟨h.leveled.derefs, h.leveled.follows⟩

/-- Three gigabytes and, beside them, the I/O APIC. -/
theorem derefs_are_tables_ioapic :
    ∃ p, ReachableBy (totalSystem gibPages)
        (fun p a => ¬ InsideLeaf gibPages p a ∧ Served gibPages p a) p ∧
      (0x200000 : Addr) ∈ p.state.derefs ∧
      (∀ t ∈ p.state.derefs, t ∈ p.state.tables) ∧ ∀ e ∈ p.state.follows, pageSize e = false := by
  obtain ⟨p, hp, hmem⟩ : ∃ p, execBy (totalSystem gibPages)
      (fun p a => ¬ InsideLeaf gibPages p a ∧ Served gibPages p a) boot
      [identityMap 0, identityMap 0x40000000, identityMap 0x80000000, ioapicMap [0x200000]] =
        some p ∧ (0x200000 : Addr) ∈ p.state.derefs := by decide +kernel
  have hreach := ReachableBy.of_execBy (.init boot_init) hp
  exact ⟨p, hreach, hmem, derefs_are_tables hreach⟩

/-- The boot code maps the I/O APIC inside the last gigabyte: the memory at
`0xc0000000` is read and written as a table. Without memory for a table, the
last page below 2^52 is. -/
theorem data_used_as_table : (∃ p, Reachable (totalSystem gibPages) p ∧
      (0xc0000000 : Addr) ∈ p.state.derefs ∧ (0xc0000000 : Addr) ∉ p.state.tables ∧
      ∃ e ∈ p.state.follows, pageSize e = true) ∧
    ∃ p, Reachable (totalSystem gibPages) p ∧ (0xffffffffff000 : Addr) ∈ p.state.derefs ∧
      (0xffffffffff000 : Addr) ∉ p.state.tables := by
  constructor
  · obtain ⟨p, hp, hderef, htable, hfollows⟩ : ∃ p, exec (totalSystem gibPages) boot
        [identityMap 0xc0000000, ioapicMap []] = some p ∧ (0xc0000000 : Addr) ∈ p.state.derefs ∧
        (0xc0000000 : Addr) ∉ p.state.tables ∧ p.state.follows.any pageSize = true := by
      decide +kernel
    exact ⟨p, .of_exec boot_init hp, hderef, htable, List.any_eq_true.mp hfollows⟩
  · obtain ⟨p, hp, hderef, htable⟩ : ∃ p, exec (totalSystem gibPages) boot [ioapicMap []] =
        some p ∧ (0xffffffffff000 : Addr) ∈ p.state.derefs ∧
        (0xffffffffff000 : Addr) ∉ p.state.tables := by
      decide +kernel
    exact ⟨p, .of_exec boot_init hp, hderef, htable⟩

end Paging
