import Dufay.Mm.Translate

/-! # The walkers of the page tables

`pmap_unmap`, `pmap_translate` and `amd64_page_entry` each have a copy of
the walk down the tables. They stop at the same entry.

What clearing that entry does to other addresses rests on the shape of the
tables: every table has one list of indices that leads to it, in whichever
pmap the walk starts (`Pathed`). The pmaps share the tables of the upper
half, and there the lists are the same.
-/

open Lts Function

namespace Paging

open PageSize

open Radix

/-! ### The lists of indices -/

/-- The label of a table is the list of the indices that lead to it. An entry
of a page leads nowhere. -/
def leafScheme (levels : Nat) : Scheme Addr Index Entry (List Index) where
  next := fun _ e => if present e && !pageSize e then some (PTE_GET_ADDR e) else none
  down := fun p i => if p.length + 1 < levels then some (p ++ [i]) else none
  empty := 0
  next_empty := fun _ => by simp

/-- The tables with a list of indices are those with a level, and the list ends
at that level. -/
structure Pathed (cfg : Config) (s : State) (lab : Addr → Option Nat)
    (paths : Addr → Option (List Index)) : Prop where
  labelled : Labelled (leafScheme cfg.levels) s.mem paths
  level : ∀ t, lab t = (paths t).map fun p => cfg.levels - p.length

section pathed

variable {cfg : Config} {s s' : State} {lab : Addr → Option Nat}
  {paths : Addr → Option (List Index)}

section

variable (h : Pathed cfg s lab paths)

include h

theorem Pathed.congr (hmem : s'.mem = s.mem) : Pathed cfg s' lab paths :=
  ⟨hmem ▸ h.labelled, h.level⟩

theorem Pathed.path (hk : lab t = some k) : ∃ p, paths t = some p ∧ cfg.levels - p.length = k := by
  rw [h.level] at hk
  exact Option.map_eq_some_iff.mp hk

theorem Pathed.label (hp : paths t = some p) : lab t = some (cfg.levels - p.length) := by
  rw [h.level, hp, Option.map_some]

theorem Pathed.level_update (page : Addr)
    (hk : cfg.levels - p.length = k) (t : Addr) : update lab page (some k) t =
      (update paths page (some p) t).map fun p => cfg.levels - p.length := by
  by_cases ht : t = page
  · rw [ht, update_self, update_self, Option.map_some, hk]
  · rw [update_of_ne ht, update_of_ne ht]
    exact h.level t

theorem Pathed.next
    (hp : paths t = some p) (hlen : p.length + 1 < cfg.levels) (hleads : Leads (s.mem t i))
    (hn : next_table s.mem t i = some y) : paths y = some (p ++ [i]) := by
  unfold next_table at hn
  obtain ⟨hpresent, rfl⟩ := of_guard hn
  refine h.labelled t p i _ _ hp (if_pos hlen) ?_
  simp [leafScheme, hpresent, hleads hpresent]

theorem Pathed.link {t page : Addr} {i : Index} {k : Nat}
    (pool : List Addr) (ht : lab t = some (k + 1)) (hk : 1 ≤ k) (hpage : lab page = none)
    (haddr : PTE_GET_ADDR page = page) :
    ∃ p, Pathed cfg (link s t i page pool) (update lab page (some k))
      (update paths page (some p)) := by
  obtain ⟨p, hp, hlen⟩ := h.path ht
  have hnone : paths page = none := by
    by_contra hne
    obtain ⟨p', hp'⟩ := Option.ne_none_iff_exists'.mp hne
    rw [h.label hp'] at hpage
    cases hpage
  have hne : t ≠ page := by
    rintro rfl
    rw [hpage] at ht
    cases ht
  refine ⟨p ++ [i], ?_, h.level_update page ?_⟩
  · refine .write (h.labelled.clear hnone _) (fun l l' y hl hdown hnext => ?_)
    rw [update_of_ne hne, hp] at hl
    cases hl
    simp only [leafScheme, show p.length + 1 < cfg.levels by omega, if_true,
      Option.some.injEq] at hdown
    simp only [leafScheme, present_tableEntry haddr, pageSize_tableEntry haddr,
      get_addr_tableEntry haddr, Bool.not_false, Bool.and_self, if_true,
      Option.some.injEq] at hnext
    rw [← hdown, ← hnext, update_self]
  · rw [List.length_append, List.length_singleton]
    omega

theorem Pathed.leaf {t : Addr} {i : Index} {e : Entry} {k : Nat}
    (ht : lab t = some k) (he : k = 1 ∨ pageSize e = true ∨ e = 0) :
    Pathed cfg (store s t i e) lab paths := by
  refine ⟨h.labelled.write (fun l l' y hl hdown hnext => ?_), h.level⟩
  obtain ⟨p, hp, hlen⟩ := h.path ht
  rw [hp] at hl
  cases hl
  rcases he with rfl | he | rfl
  · -- there is nothing below the last level
    have hlast : ¬ l.length + 1 < cfg.levels := by omega
    simp [leafScheme, hlast] at hdown
  · simp [leafScheme, he] at hnext
  · simp [leafScheme] at hnext

end

theorem Pathed.edit (h : Pathed cfg a.1 a.2 paths) (hlev : Leveled a.1 a.2) (he : Edit a b) :
    ∃ paths', Pathed cfg b.1 b.2 paths' ∧ ∀ t p, paths t = some p → paths' t = some p := by
  cases he with
  | access _ => exact ⟨paths, h.congr rfl, fun _ _ ht => ht⟩
  | follow _ _ => exact ⟨paths, h.congr rfl, fun _ _ ht => ht⟩
  | leaf ht _ he => exact ⟨paths, h.leaf ht he, fun _ _ ht => ht⟩
  | @link s lab t page i k pool ht hk _ hpage haddr =>
    have hfresh := hlev.fresh hpage
    obtain ⟨p, hp⟩ := h.link pool ht hk hfresh haddr
    refine ⟨_, hp, fun x q hx => ?_⟩
    have hne : x ≠ page := by
      rintro rfl
      cases hfresh.symm.trans (h.label hx)
    rw [update_of_ne hne]
    exact hx

theorem Pathed.edits {a b : State × (Addr → Option Nat)} (h : Pathed cfg a.1 a.2 paths)
    (hlev : Leveled a.1 a.2) (he : Edits a b) :
    ∃ paths', Pathed cfg b.1 b.2 paths' ∧ ∀ t p, paths t = some p → paths' t = some p := by
  induction he with
  | refl => exact ⟨paths, h, fun _ _ ht => ht⟩
  | tail hpre hstep ih =>
    obtain ⟨paths1, h1, hmono1⟩ := ih
    obtain ⟨paths2, h2, hmono2⟩ := h1.edit (hlev.edits hpre) hstep
    exact ⟨paths2, h2, fun t p ht => hmono2 t p (hmono1 t p ht)⟩

end pathed

/-! ### Pmaps -/

/-- The levels and the lists of all tables, from the roots on. -/
structure PathsOk (cfg : Config) (p : Pmaps) (lab : Addr → Option Nat)
    (paths : Addr → Option (List Index)) : Prop where
  ok : PmapsOk cfg p lab
  pathed : Pathed cfg p.state lab paths
  roots : ∀ r ∈ p.pmaps, paths r = some []

section pmaps

variable {cfg : Config} {p p' : Pmaps} {lab lab' : Addr → Option Nat}
  {paths : Addr → Option (List Index)}

theorem Pathed.root (hempty : ∀ i, s.mem pmlt i = 0) :
    Pathed cfg s (update (fun _ => none) pmlt (some cfg.levels))
      (update (fun _ => none) pmlt (some [])) := by
  refine ⟨fun t l i l' y hl _ hnext => ?_, fun t => ?_⟩
  · have ht : t = pmlt := by
      by_contra hne
      rw [update_of_ne hne] at hl
      cases hl
    rw [ht, hempty] at hnext
    simp [leafScheme] at hnext
  · by_cases ht : t = pmlt
    · rw [ht, update_self, update_self]
      rfl
    · rw [update_of_ne ht, update_of_ne ht]
      rfl

theorem PathsOk.init (h : Init p) : ∃ lab paths, PathsOk cfg p lab paths := by
  obtain ⟨s, lab, hlev, hempty, hedits, hpmaps⟩ := @Init.edits cfg p h
  obtain ⟨paths, hpathed, hmono⟩ := (Pathed.root hempty).edits hlev hedits
  have hself : update (fun _ => none) p.kernel_pmap (some cfg.levels) p.kernel_pmap
      = some cfg.levels := update_self ..
  refine ⟨lab, paths, ⟨hlev.edits hedits, fun r hr => ?_, ?_⟩, hpathed, fun r hr => ?_⟩
  · rw [hpmaps, List.mem_singleton] at hr
    rw [hr]
    exact hlev.lab_mono hedits hself
  · rw [hpmaps]
    exact List.mem_singleton_self _
  · rw [hpmaps, List.mem_singleton] at hr
    rw [hr]
    exact hmono _ _ (update_self ..)

theorem PathsOk.pmap_new (h : PathsOk cfg p lab paths)
    (hnew : pmap_new (p.state.withPool pool) p.kernel_pmap = some (s', pmlt)) :
    PathsOk cfg { p with state := s', pmaps := pmlt :: p.pmaps }
      (update lab pmlt (some cfg.levels)) (update paths pmlt (some [])) := by
  have hkernel := h.ok.roots _ h.ok.kernel_pmap
  have hkernel' := h.roots _ h.ok.kernel_pmap
  obtain ⟨hpage, -, -, -, hmem⟩ :=
    pmap_new_inv (s := p.state.withPool pool) (h.ok.leveled.tables _ _ hkernel) hnew
  have hold : ∀ t q, paths t = some q → update paths pmlt (some []) t = some q := by
    intro t q ht
    have hne : t ≠ pmlt :=
      fun heq => hpage (heq ▸ h.ok.leveled.tables t _ (h.pathed.label ht))
    rw [update_of_ne hne]
    exact ht
  refine ⟨h.ok.pmap_new hnew, ⟨fun t l i l' y hl hdown hnext => ?_,
    h.pathed.level_update pmlt rfl⟩, fun r hr => ?_⟩
  · rw [hmem] at hnext
    by_cases ht : t = pmlt
    · rw [ht, update_self] at hl
      cases hl
      rw [if_pos ht] at hnext
      split at hnext
      · exact hold y l' (h.pathed.labelled _ _ i l' y hkernel' hdown hnext)
      · simp [leafScheme] at hnext
    · rw [update_of_ne ht] at hl
      rw [if_neg ht] at hnext
      exact hold y l' (h.pathed.labelled t l i l' y hl hdown hnext)
  · rcases List.mem_cons.mp hr with rfl | hr
    · exact update_self ..
    · exact hold r [] (h.roots r hr)

theorem PathsOk.step (h : PathsOk cfg p lab paths) {a : Action} (hok : ¬ InsideLeaf cfg p a)
    (hstep : step cfg p a = some p') : ∃ lab' paths', PathsOk cfg p' lab' paths' := by
  by_cases hnew : ∃ pool, a = .pmap_new pool
  · obtain ⟨pool, rfl⟩ := hnew
    obtain ⟨r, hnew, rfl⟩ := Option.map_eq_some_iff.mp hstep
    exact ⟨_, _, h.pmap_new hnew⟩
  · obtain ⟨pool, s', lab', rfl, hedits⟩ := h.ok.call hok hstep (fun pool heq => hnew ⟨pool, heq⟩)
    have hlev := h.ok.leveled.withPool pool
    have hpool : Pathed cfg (p.state.withPool pool) lab paths := h.pathed.congr rfl
    obtain ⟨paths', hpathed, hmono⟩ := hpool.edits hlev hedits
    exact ⟨lab', paths', ⟨hlev.edits hedits, fun r hr => hlev.lab_mono hedits (h.ok.roots r hr),
      h.ok.kernel_pmap⟩, hpathed, fun r hr => hmono r [] (h.roots r hr)⟩

theorem PathsOk.of_reachableBy (hs : ReachableBy (system cfg) (fun p a => ¬ InsideLeaf cfg p a) p) :
    ∃ lab paths, PathsOk cfg p lab paths := by
  induction hs with
  | init h => exact PathsOk.init h
  | step a _ hok hst ih =>
    obtain ⟨lab, paths, h⟩ := ih
    exact h.step hok hst

end pmaps

/-! ### Where a walk comes to -/

def PageSize.level : PageSize → Nat
  | .normal => 1
  | .large => 2
  | .huge => 3

theorem PageSize.level_inj {b : PageSize} (h : a.level = b.level) : a = b := by
  cases a <;> cases b <;> simp [level] at h ⊢

/-- The indices that lead to `pml3`. -/
def top (cfg : Config) (indices : PmlIndices) : List Index :=
  if cfg.pml5_supported then [indices.pml5_index, indices.pml4_index] else [indices.pml4_index]

/-- The indices that lead on from `pml3`. -/
def PageSize.rest (indices : PmlIndices) : PageSize → List Index
  | .huge => []
  | .large => [indices.pml3_index]
  | .normal => [indices.pml3_index, indices.pml2_index]

theorem top_length (cfg : Config) (indices : PmlIndices) :
    (top cfg indices).length + 3 = cfg.levels := by
  unfold top Config.levels
  split <;> rfl

section walk

variable {cfg : Config} {p : Pmaps} {lab : Addr → Option Nat}
  {paths : Addr → Option (List Index)} {r pml3 t : Addr} {i : Index} {size : PageSize}
  {indices : PmlIndices}

section
variable (h : PathsOk cfg p lab paths) (hr : r ∈ p.pmaps)
  (hpml3 : pml3_of cfg p.state.mem r indices = some pml3)
include h hr hpml3

theorem PathsOk.at_pml3 : lab pml3 = some 3 ∧ paths pml3 = some (top cfg indices) := by
  have hroot := h.ok.roots r hr
  have hlevels := levels_ge cfg
  obtain ⟨pml4, h4, h3⟩ := Option.bind_eq_some_iff.mp hpml3
  have hl4 := h.ok.leveled.pml4 hroot h4
  have hleads := h.ok.leveled.leads hl4 (by omega) indices.pml4_index
  refine ⟨h.ok.leveled.next hl4 (by omega) hleads h3, ?_⟩
  have hpath4 : paths pml4 = some (if cfg.pml5_supported then [indices.pml5_index] else []) := by
    unfold pml4_of at h4
    split at h4
    · next h5 =>
      rw [if_pos h5]
      exact h.pathed.next (h.roots r hr) (by simp; omega) (h.ok.leveled.leads hroot hlevels _) h4
    · next h5 =>
      cases h4
      rw [if_neg h5]
      exact h.roots r hr
  have hlen := top_length cfg indices
  unfold top at hlen ⊢
  split at hpath4
  · next h5 =>
    rw [if_pos h5] at hlen ⊢
    simp only [List.length_cons, List.length_nil] at hlen
    exact h.pathed.next hpath4 (by simp; omega) hleads h3
  · next h5 =>
    rw [if_neg h5] at hlen ⊢
    simp only [List.length_cons, List.length_nil] at hlen
    exact h.pathed.next hpath4 (by simp; omega) hleads h3

theorem PathsOk.visits (hv : Visits p.state.mem indices pml3 size t i) :
    lab t = some size.level ∧ paths t = some (top cfg indices ++ size.rest indices) := by
  obtain ⟨hl3, hp3⟩ := h.at_pml3 hr hpml3
  have hlen := top_length cfg indices
  cases hv with
  | huge => exact ⟨hl3, by simpa [rest] using hp3⟩
  | large leads next =>
    have hleads : Leads (p.state.mem pml3 indices.pml3_index) := fun _ => leads
    have hl2 : lab t = some 2 := h.ok.leveled.next hl3 (by omega) hleads next
    exact ⟨hl2, h.pathed.next hp3 (by omega) hleads next⟩
  | normal leads next leads' next' =>
    have hleads : Leads (p.state.mem pml3 indices.pml3_index) := fun _ => leads
    have hl2 := h.ok.leveled.next hl3 (by omega) hleads next
    have hp2 := h.pathed.next hp3 (by omega) hleads next
    have hl1 : lab t = some 1 := h.ok.leveled.next hl2 (by omega) (fun _ => leads') next'
    refine ⟨hl1, ?_⟩
    have hp1 := h.pathed.next hp2 (by simp; omega) (fun _ => leads') next'
    rw [hp1, List.append_assoc]
    rfl

end

end walk

/-! ### The entry at the end -/

section entry

variable {mem : Addr → Index → Entry} {indices : PmlIndices} {pml3 t : Addr} {i : Index}
  {size : PageSize}

/-- The walk ends at the entry: it is one of the last level, or a page. -/
def Ends (size : PageSize) (e : Entry) : Prop := size = .normal ∨ pageSize e = true

theorem page_entry_pml3_eq (h : page_entry_pml3 mem indices pml3 = some (t, i)) :
    ∃ size, Visits mem indices pml3 size t i ∧ Ends size (mem t i) := by
  unfold page_entry_pml3 at h
  split at h
  · next hps =>
    cases h
    exact ⟨.huge, .huge, .inr hps⟩
  · next hps =>
    obtain ⟨pml2, h2, h⟩ := Option.bind_eq_some_iff.mp h
    have hleads : pageSize (mem pml3 indices.pml3_index) = false := by simpa using hps
    split at h
    · next hps2 =>
      cases h
      exact ⟨.large, .large hleads h2, .inr hps2⟩
    · next hps2 =>
      obtain ⟨pml1, h1, h⟩ := Option.bind_eq_some_iff.mp h
      cases h
      exact ⟨.normal, .normal hleads h2 (by simpa using hps2) h1, .inl rfl⟩

theorem translate_pml3_eq_none (h : page_entry_pml3 mem indices pml3 = none) :
    translate_pml3 mem indices pml3 = none := by
  unfold page_entry_pml3 at h
  unfold translate_pml3
  split at h
  · cases h
  · next hps =>
    simp only [if_neg hps]
    cases hn : next_table mem pml3 indices.pml3_index with
    | none => rfl
    | some pml2 =>
      rw [hn] at h
      simp only [Option.bind_some] at h ⊢
      split at h
      · cases h
      · next hps2 =>
        rw [if_neg hps2]
        cases hn2 : next_table mem pml2 indices.pml2_index with
        | none => rfl
        | some pml1 =>
          rw [hn2] at h
          cases h

theorem Visits.outpaddr (h : Visits mem indices pml3 size t i) (hends : Ends size (mem t i)) :
    (translate_pml3 mem indices pml3).map Translation.outpaddr =
      if size = .normal ∧ present (mem t i) = false then none
      else some (PTE_GET_ADDR (mem t i)) := by
  unfold translate_pml3
  cases h with
  | huge =>
    have hps : pageSize (mem pml3 indices.pml3_index) = true := hends.resolve_left (by decide)
    simp [hps]
  | large leads next =>
    have hps : pageSize (mem t indices.pml2_index) = true := hends.resolve_left (by decide)
    simp [leads, next, hps]
  | normal leads next leads' next' =>
    simp only [leads, next, leads', next', Bool.false_eq_true, if_false, Option.bind_some]
    cases present (mem t indices.pml1_index) <;> simp

theorem translate_pml3_write (hnot : ∀ size, ¬ Visits mem indices pml3 size t i) :
    translate_pml3 (write mem t i e) indices pml3 = translate_pml3 mem indices pml3 := by
  have hsame : ∀ {size : PageSize} {x : Addr} {j : Index}, Visits mem indices pml3 size x j →
      write mem t i e x j = mem x j := by
    intro size x j hv
    rw [write_apply, if_neg]
    rintro ⟨rfl, rfl⟩
    exact hnot size hv
  have hnext : ∀ {size : PageSize} {x : Addr} {j : Index}, Visits mem indices pml3 size x j →
      next_table (write mem t i e) x j = next_table mem x j := by
    intro size x j hv
    unfold next_table
    rw [hsame hv]
  unfold translate_pml3
  simp only [hsame .huge, hnext .huge]
  cases hps : pageSize (mem pml3 indices.pml3_index) with
  | true => rfl
  | false =>
    simp only [Bool.false_eq_true, if_false]
    cases hn : next_table mem pml3 indices.pml3_index with
    | none => rfl
    | some pml2 =>
      have hv2 : Visits mem indices pml3 .large pml2 indices.pml2_index := .large hps hn
      simp only [Option.bind_some, hsame hv2, hnext hv2]
      cases hps2 : pageSize (mem pml2 indices.pml2_index) with
      | true => rfl
      | false =>
        simp only [Bool.false_eq_true, if_false]
        cases hn2 : next_table mem pml2 indices.pml2_index with
        | none => rfl
        | some pml1 =>
          have hv1 : Visits mem indices pml3 .normal pml1 indices.pml1_index :=
            .normal hps hn hps2 hn2
          simp only [Option.bind_some, hsame hv1]

theorem Visits.translate_cleared (h : Visits mem indices pml3 size t i) (hzero : mem' t i = 0)
    (hkeep : ∀ size' x j, Visits mem indices pml3 size' x j → size' ≠ size →
      mem' x j = mem x j) : translate_pml3 mem' indices pml3 = none := by
  unfold translate_pml3
  cases h with
  | huge => simp [next_table, hzero]
  | large leads next =>
    have hkeep3 := hkeep .huge _ _ .huge (by decide)
    have hnext : next_table mem' pml3 indices.pml3_index = some t := by
      rw [← next, next_table, next_table, hkeep3]
    simp only [hkeep3, leads, hnext, Bool.false_eq_true, if_false, Option.bind_some]
    simp [next_table, hzero]
  | @normal pml2 _ leads next leads' next' =>
    have hkeep3 := hkeep .huge _ _ .huge (by decide)
    have hkeep2 := hkeep .large _ _ (.large leads next) (by decide)
    have hnext : next_table mem' pml3 indices.pml3_index = some pml2 := by
      rw [← next, next_table, next_table, hkeep3]
    have hnext' : next_table mem' pml2 indices.pml2_index = some t := by
      rw [← next', next_table, next_table, hkeep2]
    simp only [hkeep3, hkeep2, leads, leads', hnext, hnext', Bool.false_eq_true, if_false,
      Option.bind_some]
    simp [hzero]

end entry

/-! ### The pages of an address -/

def PageSize.bytes : PageSize → Nat
  | .normal => 4096
  | .large => 2097152
  | .huge => 1073741824

/-- The number of bits of an address that a walk looks at. -/
def Config.bits (cfg : Config) : Nat := if cfg.pml5_supported then 57 else 48

/-- The page of a size in which an address lies. -/
def page_number (cfg : Config) (size : PageSize) (v : BitVec 64) : Nat :=
  v.toNat % 2 ^ cfg.bits / size.bytes

/-- The index of an address at the level of a size. -/
def PageSize.index (indices : PmlIndices) : PageSize → Index
  | .huge => indices.pml3_index
  | .large => indices.pml2_index
  | .normal => indices.pml1_index

theorem Visits.index (h : Visits mem indices pml3 size t i) : i = size.index indices := by
  cases h <;> rfl

theorem page_number_eq
    (hrest : top cfg (compute_table_indices v) ++ size.rest (compute_table_indices v) =
      top cfg (compute_table_indices w) ++ size.rest (compute_table_indices w))
    (hindex : size.index (compute_table_indices v) = size.index (compute_table_indices w)) :
    page_number cfg size v = page_number cfg size w := by
  unfold page_number Config.bits
  unfold top at hrest
  cases hpml5 : cfg.pml5_supported <;> cases size <;>
  · simp only [hpml5, if_true, Bool.false_eq_true, if_false, rest, index, compute_table_indices,
      List.cons_append, List.nil_append, List.append_nil, List.cons.injEq, and_true,
      ← BitVec.toNat_inj, index_toNat, Nat.shiftRight_eq_div_pow, Nat.reducePow, bytes]
      at hrest hindex ⊢
    omega

/-! ### All walkers -/

/-- The walk to `v` ends at an entry of a page of the given size, or of the
last level. -/
def EndsAt (cfg : Config) (mem : Addr → Index → Entry) (pmlt : Addr) (v : BitVec 64)
    (size : PageSize) (t : Addr) (i : Index) : Prop :=
  ∃ pml3, pml3_of cfg mem pmlt (compute_table_indices v) = some pml3 ∧
    Visits mem (compute_table_indices v) pml3 size t i ∧ Ends size (mem t i)

section agree

variable {cfg : Config} {p : Pmaps} {lab : Addr → Option Nat}
  {paths : Addr → Option (List Index)} {r r' t : Addr} {i : Index} {size : PageSize}
  {v w : BitVec 64}

theorem page_entry_eq (cfg : Config) (s : State) (pmlt : Addr) (v : BitVec 64) :
    (amd64_page_entry cfg s pmlt v).2 =
      (pml3_of cfg s.mem pmlt (compute_table_indices v)).bind fun pml3 =>
        page_entry_pml3 s.mem (compute_table_indices v) pml3 := by
  rw [(amd64_page_entry_spec cfg s pmlt v).2.2, pml3_of, Option.bind_assoc]

theorem pmap_unmap_mem (cfg : Config) (s : State) (pmlt : Addr) (v : BitVec 64) :
    (pmap_unmap cfg s pmlt v).mem =
      match (amd64_page_entry cfg s pmlt v).2 with
      | none => s.mem
      | some (t, i) => write s.mem t i 0 := by
  have hmem := (amd64_page_entry_spec cfg s pmlt v).1
  rw [(amd64_page_entry_users ..).1]
  generalize amd64_page_entry cfg s pmlt v = x at hmem
  rcases x with ⟨s1, _ | ⟨t, i⟩⟩
  · exact hmem
  · show write s1.mem t i 0 = write s.mem t i 0
    rw [hmem]

section

variable (h : PathsOk cfg p lab paths)

include h

theorem PathsOk.pml3_of_write (hr : r ∈ p.pmaps) (ht : lab t = some size.level) :
    pml3_of cfg (write p.state.mem t i 0) r indices = pml3_of cfg p.state.mem r indices := by
  refine h.ok.leveled.pml3_congr (h.ok.roots r hr) (fun x l hx hl => ?_) indices
  funext j
  rw [write_apply, if_neg]
  rintro ⟨rfl, -⟩
  rw [ht] at hx
  cases hx
  cases size <;> simp [level] at hl

theorem PathsOk.same_page (hr : r ∈ p.pmaps) (hr' : r' ∈ p.pmaps)
    (hend : EndsAt cfg p.state.mem r v size t i) {size' : PageSize}
    (hpml3 : pml3_of cfg p.state.mem r' (compute_table_indices w) = some pml3)
    (hv : Visits p.state.mem (compute_table_indices w) pml3 size' t i) :
    page_number cfg size w = page_number cfg size v := by
  obtain ⟨pml3', hpml3', hv', -⟩ := hend
  obtain ⟨hl, hp⟩ := h.visits hr' hpml3 hv
  obtain ⟨hl', hp'⟩ := h.visits hr hpml3' hv'
  obtain rfl : size' = size := level_inj (Option.some.inj (hl.symm.trans hl'))
  rw [hp] at hp'
  exact page_number_eq (Option.some.inj hp') (hv.index.symm.trans hv'.index)

theorem PathsOk.translate_cleared (hr : r ∈ p.pmaps) (hend : EndsAt cfg p.state.mem r v size t i)
    (hmem : s'.mem = write p.state.mem t i 0) : (pmap_translate cfg s' r v).2 = none := by
  obtain ⟨pml3, hpml3, hv, -⟩ := hend
  obtain ⟨hl, -⟩ := h.visits hr hpml3 hv
  rw [pmap_translate_pml3, hmem, h.pml3_of_write hr hl, hpml3, Option.bind_some]
  refine hv.translate_cleared (by simp [write_apply]) fun size' x j hv' hne => ?_
  rw [write_apply, if_neg]
  rintro ⟨rfl, -⟩
  -- tables at different levels are different
  obtain ⟨hl', -⟩ := h.visits hr hpml3 hv'
  exact hne (level_inj (Option.some.inj (hl'.symm.trans hl)))

theorem PathsOk.translate_other (hr : r ∈ p.pmaps)
    (hr' : r' ∈ p.pmaps) (hend : EndsAt cfg p.state.mem r v size t i)
    (hmem : s'.mem = write p.state.mem t i 0)
    (hother : page_number cfg size w ≠ page_number cfg size v) :
    (pmap_translate cfg s' r' w).2 = (pmap_translate cfg p.state r' w).2 := by
  have hl : lab t = some size.level := by
    obtain ⟨pml3, hpml3, hv, -⟩ := hend
    exact (h.visits hr hpml3 hv).1
  rw [pmap_translate_pml3, pmap_translate_pml3, hmem, h.pml3_of_write hr' hl]
  cases hpml3 : pml3_of cfg p.state.mem r' (compute_table_indices w) with
  | none => rfl
  | some pml3 =>
    refine translate_pml3_write fun size' hv => ?_
    exact hother (h.same_page hr hr' hend hpml3 hv)

end

/-- **All walkers find the same leaf**, in every run in which no page is mapped
inside a larger one that is present. Where `amd64_page_entry` returns
NULL, nothing is written by `pmap_unmap` and nothing translated. Otherwise
it is the entry at which the walk ends: `pmap_unmap` clears it and writes
nothing else, and `pmap_translate` reports its address, unless it is one
of the last level that is not present. So `pmap_unmap` changes nothing
just if there is no entry or the entry is zero already. Afterwards the
address is not translated, and all addresses outside of the leaf are
translated as before. -/
theorem walkers_agree (hs : ReachableBy (system cfg) (fun p a => ¬ InsideLeaf cfg p a) p)
    (hr : r ∈ p.pmaps) (v : BitVec 64) : ((amd64_page_entry cfg p.state r v).2 = none →
      (pmap_unmap cfg p.state r v).mem = p.state.mem ∧ (pmap_translate cfg p.state r v).2 = none) ∧
    (∀ t i, (amd64_page_entry cfg p.state r v).2 = some (t, i) →
      (pmap_unmap cfg p.state r v).mem = write p.state.mem t i 0 ∧
      ∃ size, EndsAt cfg p.state.mem r v size t i ∧
        (pmap_translate cfg p.state r v).2.map Translation.outpaddr =
          (if size = .normal ∧ present (p.state.mem t i) = false then none
            else some (PTE_GET_ADDR (p.state.mem t i))) ∧
        ∀ r' ∈ p.pmaps, ∀ w, page_number cfg size w ≠ page_number cfg size v →
          (pmap_translate cfg (pmap_unmap cfg p.state r v) r' w).2 =
            (pmap_translate cfg p.state r' w).2) ∧ ((pmap_unmap cfg p.state r v).mem = p.state.mem ↔
      ∀ t i, (amd64_page_entry cfg p.state r v).2 = some (t, i) → p.state.mem t i = 0) ∧
    (pmap_translate cfg (pmap_unmap cfg p.state r v) r v).2 = none := by
  obtain ⟨lab, paths, h⟩ := PathsOk.of_reachableBy hs
  have hunmap := pmap_unmap_mem cfg p.state r v
  cases hentry : (amd64_page_entry cfg p.state r v).2 with
  | none =>
    have htranslate : (pmap_translate cfg p.state r v).2 = none := by
      rw [page_entry_eq] at hentry
      rw [pmap_translate_pml3]
      cases hpml3 : pml3_of cfg p.state.mem r (compute_table_indices v) with
      | none => rfl
      | some pml3 =>
        rw [hpml3, Option.bind_some] at hentry
        exact translate_pml3_eq_none hentry
    simp only [hentry] at hunmap
    refine ⟨fun _ => ⟨hunmap, htranslate⟩, by simp, by simp [hunmap], ?_⟩
    rw [pmap_translate_pml3, hunmap, ← pmap_translate_pml3]
    exact htranslate
  | some found =>
    obtain ⟨t, i⟩ := found
    simp only [hentry] at hunmap
    obtain ⟨pml3, hpml3, hpage⟩ := Option.bind_eq_some_iff.mp ((page_entry_eq ..).symm.trans hentry)
    obtain ⟨size, hv, hends⟩ := page_entry_pml3_eq hpage
    have hend : EndsAt cfg p.state.mem r v size t i := ⟨pml3, hpml3, hv, hends⟩
    refine ⟨by simp, ?_, ?_, h.translate_cleared hr hend hunmap⟩
    · rintro t' i' heq
      cases heq
      refine ⟨hunmap, size, hend, ?_, fun r' hr' w hw => h.translate_other hr hr' hend hunmap hw⟩
      rw [pmap_translate_pml3, hpml3, Option.bind_some]
      exact hv.outpaddr hends
    · rw [hunmap, write_eq_self_iff]
      constructor
      · rintro hzero t' i' heq
        cases heq
        exact hzero
      · intro hzero
        exact hzero t i rfl

end agree

/-- One page, and the next one, which is not mapped. -/
def onePage : List Action :=
  [.pmap_map [0x200000, 0x201000] 4096 0xffff800000000000 0x400000 ⟨true, true, false, false⟩ .none]

theorem walkers_agree_onePage :
    ∃ p, ReachableBy (system gibPages) (fun p a => ¬ InsideLeaf gibPages p a) p ∧
      (amd64_page_entry gibPages p.state 4096 0xffff800000000000).2 = some (0x201000, 0) ∧
      (pmap_unmap gibPages p.state 4096 0xffff800000000000).mem = write p.state.mem 0x201000 0 0 ∧
      (pmap_translate gibPages (pmap_unmap gibPages p.state 4096 0xffff800000000000) 4096
        0xffff800000000000).2 = none := by
  obtain ⟨p, hp, hentry, hr⟩ : ∃ p,
      execBy (system gibPages) (fun p a => ¬ InsideLeaf gibPages p a) boot onePage = some p ∧
      (amd64_page_entry gibPages p.state 4096 0xffff800000000000).2 = some (0x201000, 0) ∧
      (4096 : Addr) ∈ p.pmaps := by decide +kernel
  have hreach := ReachableBy.of_execBy (.init boot_init) hp
  obtain ⟨-, hsome, -, hnone⟩ := walkers_agree hreach hr 0xffff800000000000
  exact ⟨p, hreach, hentry, (hsome _ _ hentry).1, hnone⟩

/-- **An entry that is there and empty**: of the page behind the one that is
mapped, `amd64_page_entry` returns the entry, although `pmap_translate`
reports nothing and `pmap_unmap` changes nothing. -/
theorem empty_entry_returned :
    ∃ p, ReachableBy (system gibPages) (fun p a => ¬ InsideLeaf gibPages p a) p ∧ 4096 ∈ p.pmaps ∧
      (amd64_page_entry gibPages p.state 4096 0xffff800000001000).2 = some (0x201000, 1) ∧
      (pmap_unmap gibPages p.state 4096 0xffff800000001000).mem = p.state.mem ∧
      (pmap_translate gibPages p.state 4096 0xffff800000001000).2 = none := by
  obtain ⟨p, hp, hr, hentry, hzero, htranslate⟩ : ∃ p,
      execBy (system gibPages) (fun p a => ¬ InsideLeaf gibPages p a) boot onePage = some p ∧
      4096 ∈ p.pmaps ∧
      (amd64_page_entry gibPages p.state 4096 0xffff800000001000).2 = some (0x201000, 1) ∧
      p.state.mem 0x201000 1 = 0 ∧
      (pmap_translate gibPages p.state 4096 0xffff800000001000).2 = none := by decide +kernel
  refine ⟨p, .of_execBy (.init boot_init) hp, hr, hentry, ?_, htranslate⟩
  rw [pmap_unmap_mem, hentry]
  exact write_eq_self_iff.mpr hzero

end Paging
