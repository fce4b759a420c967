import Dufay.Mm.Pmap

/-! # Page tables as a partial map

A pmap on which only 4 KiB pages are mapped and unmapped is a partial map
from page numbers to physical pages with protections. Its tables form a
tree: each has the list of the indices that lead to it (`Tree`), and what
the tree stores is a function of such lists (`Stores`).
-/

open Lts Function

namespace Paging

open Radix

/-! ### Trees of tables -/

/-- The label of a table is the list of the indices that lead to it. -/
def pathScheme (levels : Nat) : Scheme Addr Index Entry (List Index) where
  next := fun _ e => if present e then some (PTE_GET_ADDR e) else none
  down := fun p i => if p.length + 1 < levels then some (p ++ [i]) else none
  empty := 0
  next_empty := fun _ => by simp

variable {q : List Index} {s : State} {pmlt : Addr}

theorem downs_pathScheme :
    ∀ {p p' : List Index}, downs (pathScheme n) p q = some p' → p' = p ++ q := by
  induction q with
  | nil =>
    intro p p' h
    cases h
    simp
  | cons i q ih =>
    intro p p' h
    simp only [downs, pathScheme, Option.bind_eq_some_iff] at h
    obtain ⟨p1, hdown, h⟩ := h
    split at hdown
    · cases hdown
      rw [ih h, List.append_assoc, List.singleton_append]
    · cases hdown

/-- The tables below `pmlt` are a tree without larger pages. -/
structure Tree (cfg : Config) (s : State) (pmlt : Addr) (lab : Addr → Option (List Index)) :
    Prop where
  labelled : Labelled (pathScheme cfg.levels) s.mem lab
  root : lab pmlt = some []
  tables : ∀ t p, lab t = some p → t ∈ s.tables
  inner : ∀ t p i, lab t = some p → p.length + 1 < cfg.levels → pageSize (s.mem t i) = false

/-- What is stored at the end of a list of indices. -/
abbrev contentOf (cfg : Config) (s : State) (pmlt : Addr) : List Index → Index → Entry :=
  content (pathScheme cfg.levels) s.mem [] pmlt

abbrev walkOf (cfg : Config) (s : State) (pmlt : Addr) : List Index → Option Addr :=
  walk (pathScheme cfg.levels) s.mem [] pmlt

section tree

variable {cfg : Config} {s s' : State} {pmlt : Addr} {lab : Addr → Option (List Index)}

section

variable (h : Tree cfg s pmlt lab)

include h

theorem Tree.fresh (hpage : page ∉ s.tables) : lab page = none := by
  by_contra hne
  obtain ⟨p, hp⟩ := Option.ne_none_iff_exists'.mp hne
  exact hpage (h.tables page p hp)

theorem Tree.lab_of_walk (hw : walkOf cfg s pmlt q = some t) :
    downs (pathScheme cfg.levels) [] q = some q ∧ lab t = some q := by
  obtain ⟨p, hd, hp⟩ := h.labelled.walk h.root hw
  have hpq := downs_pathScheme hd
  rw [List.nil_append] at hpq
  subst hpq
  exact ⟨hd, hp⟩

theorem Tree.congr (hmem : s'.mem = s.mem)
    (htables : s'.tables = s.tables) : Tree cfg s' pmlt lab :=
  ⟨hmem ▸ h.labelled, h.root, htables ▸ h.tables, hmem ▸ h.inner⟩

theorem Tree.link {t page : Addr} {i : Index} (pool : List Addr)
    (ht : lab t = some q) (hq : q.length + 1 < cfg.levels) (hpage : page ∉ s.tables)
    (haddr : PTE_GET_ADDR page = page) :
    Tree cfg (link s t i page pool) pmlt (update lab page (some (q ++ [i]))) := by
  have hfresh := h.fresh hpage
  have hne : ∀ x p, lab x = some p → x ≠ page := by
    rintro x p hx rfl
    rw [hfresh] at hx
    cases hx
  refine ⟨?_, ?_, ?_, ?_⟩
  · refine .write (h.labelled.clear hfresh _) (fun l l' y hl hdown hnext => ?_)
    rw [update_of_ne (hne t q ht), ht] at hl
    cases hl
    simp only [pathScheme, hq, if_true, Option.some.injEq] at hdown
    simp only [pathScheme, present_tableEntry haddr, get_addr_tableEntry haddr, if_true,
      Option.some.injEq] at hnext
    rw [← hdown, ← hnext, update_self]
  · rw [update_of_ne (hne pmlt [] h.root), h.root]
  · intro x p hx
    by_cases hxp : x = page
    · exact hxp ▸ List.mem_cons_self
    · rw [update_of_ne hxp] at hx
      exact List.mem_cons_of_mem _ (h.tables x p hx)
  · intro x p j hx hp
    rw [link_mem]
    split
    · exact pageSize_tableEntry haddr
    · split
      · exact pageSize_zero
      · next hxp =>
        rw [update_of_ne hxp] at hx
        exact h.inner x p j hx hp

end

end tree

/-- The tables below `pmlt` are a tree that stores `c`. -/
def Stores (cfg : Config) (s : State) (pmlt : Addr) (c : List Index → Index → Entry) : Prop :=
  ∃ lab, Tree cfg s pmlt lab ∧ ∀ q j, q.length + 1 = cfg.levels → contentOf cfg s pmlt q j = c q j

section stores

variable {cfg : Config} {s s' : State} {pmlt : Addr} {c : List Index → Index → Entry}

theorem Stores.congr (h : Stores cfg s pmlt c) (hmem : s'.mem = s.mem)
    (htables : s'.tables = s.tables) : Stores cfg s' pmlt c := by
  obtain ⟨lab, htree, hc⟩ := h
  exact ⟨lab, htree.congr hmem htables, fun q j hq => by rw [← hc q j hq, contentOf, hmem]⟩

theorem down_last (hq : q.length + 1 = cfg.levels)
    (hd : downs (pathScheme cfg.levels) [] q = some p) :
    (pathScheme cfg.levels).down p j = none := by
  have hpq := downs_pathScheme hd
  rw [List.nil_append] at hpq
  subst hpq
  simp [pathScheme, hq]

theorem Stores.descend (h : Stores cfg s pmlt c)
    (hw : walkOf cfg s pmlt q = some t) (hq : q.length + 1 < cfg.levels)
    (hd : descend_table s t i true = (s', some y)) :
    Stores cfg s' pmlt c ∧ walkOf cfg s' pmlt (q ++ [i]) = some y := by
  obtain ⟨lab, htree, hc⟩ := h
  obtain ⟨hdowns, ht⟩ := htree.lab_of_walk hw
  have hdown : (pathScheme cfg.levels).down q i = some (q ++ [i]) := if_pos hq
  rcases descend_table_true hd with ⟨hp, rfl, rfl⟩ | ⟨hp, pool, -, hpage, haddr, rfl⟩
  · refine ⟨⟨lab, htree.congr rfl rfl, hc⟩, ?_⟩
    have hnext : (pathScheme cfg.levels).next q (s.mem t i) = some (PTE_GET_ADDR (s.mem t i)) :=
      if_pos hp
    rw [walkOf, walk_append_singleton hdown hdowns]
    exact (congrArg (Option.bind · _) hw).trans hnext
  · have hacc : Tree cfg (access s t) pmlt lab := htree.congr rfl rfl
    have hfresh := hacc.fresh hpage
    have hnone : ∀ l, lab t = some l → (pathScheme cfg.levels).next l (s.mem t i) = none := by
      intro l _
      simp [pathScheme, hp]
    have hlink : ∀ l, lab t = some l → (pathScheme cfg.levels).next l (tableEntry y) = some y := by
      intro l _
      simp [pathScheme, haddr]
    constructor
    · refine ⟨_, hacc.link pool ht hq hpage haddr, fun q' j hq' => ?_⟩
      rw [← hc q' j hq']
      refine htree.labelled.content_link hfresh hnone (fun l hl => ?_) hlink htree.root
        (fun p hp => down_last hq' hp)
      rw [ht] at hl
      cases hl
      rw [hdown]
      exact Option.some_ne_none _
    · have hw' := htree.labelled.walk_link (e := tableEntry y) hfresh hnone htree.root hw
      have hentry : (link (access s t) t i y pool).mem t i = tableEntry y := by
        rw [link_mem, if_pos ⟨rfl, rfl⟩]
      rw [walkOf, walk_append_singleton hdown hdowns]
      refine (congrArg (Option.bind · _) hw').trans ?_
      dsimp only [Option.bind_some]
      rw [hentry]
      exact hlink q ht

/-- A function of lists of indices, changed at one place. -/
def updateAt (c : List Index → Index → Entry) (q : List Index) (i : Index) (e : Entry) :
    List Index → Index → Entry :=
  fun q' i' => if q' = q ∧ i' = i then e else c q' i'

theorem Stores.store (h : Stores cfg s pmlt c) (i : Index) (e : Entry)
    (hw : walkOf cfg s pmlt q = some t) (hq : q.length + 1 = cfg.levels) :
    Stores cfg (store s t i e) pmlt (updateAt c q i e) := by
  obtain ⟨lab, htree, hc⟩ := h
  obtain ⟨-, ht⟩ := htree.lab_of_walk hw
  refine ⟨lab, ⟨?_, htree.root, htree.tables, ?_⟩, fun q' j hq' => ?_⟩
  · refine htree.labelled.write (fun l l' y hl hdown _ => ?_)
    rw [ht] at hl
    cases hl
    simp [pathScheme, hq] at hdown
  · intro x p j hx hp
    have hne : ¬ (x = t ∧ j = i) := by
      rintro ⟨rfl, -⟩
      rw [ht] at hx
      cases hx
      omega
    simp only [Paging.store, write_apply, if_neg hne]
    exact htree.inner x p j hx hp
  · have hinj : ∀ q' p, downs (pathScheme cfg.levels) [] q = some p →
        downs (pathScheme cfg.levels) [] q' = some p → q' = q := by
      intro q' p h1 h2
      have e1 := downs_pathScheme h1
      have e2 := downs_pathScheme h2
      simp only [List.nil_append] at e1 e2
      exact e2.symm.trans e1
    have hwrite := htree.labelled.content_write (e := e) htree.root hw
      (fun p hp => down_last (j := i) hq hp) hinj q' j
    refine hwrite.trans ?_
    unfold updateAt
    rw [← hc q' j hq']

end stores

/-! ### The calls -/

/-- The indices above the last, in the order of the walk. -/
def path (cfg : Config) (indices : PmlIndices) : List Index :=
  if cfg.pml5_supported then
    [indices.pml5_index, indices.pml4_index, indices.pml3_index, indices.pml2_index]
  else [indices.pml4_index, indices.pml3_index, indices.pml2_index]

theorem path_length : (path cfg indices).length + 1 = cfg.levels := by
  unfold path Config.levels
  split <;> rfl

section calls

variable {cfg : Config} {s s' : State} {pmlt : Addr} {c : List Index → Index → Entry}
  {vaddr paddr : BitVec 64} {prot : VmProt}

theorem Stores.descend_pml5 (h : Stores cfg s pmlt c)
    (hd : descend_pml5 cfg s pmlt indices true = (s', some pml4)) :
    ∃ q, Stores cfg s' pmlt c ∧ walkOf cfg s' pmlt q = some pml4 ∧ q.length + 4 = cfg.levels ∧
      q ++ [indices.pml4_index, indices.pml3_index, indices.pml2_index] = path cfg indices := by
  unfold Paging.descend_pml5 at hd
  unfold path Config.levels
  split at hd
  · next h5 =>
    obtain ⟨hs, hw⟩ := h.descend (q := []) rfl (by simp [Config.levels, h5]) hd
    exact ⟨_, hs, hw, by simp [h5], by simp [h5]⟩
  · next h5 =>
    cases hd
    exact ⟨[], h, rfl, by simp [h5], by simp [h5]⟩

theorem Stores.pmap_map (h : Stores cfg s pmlt c) (global : Bool)
    (hmap : pmap_map cfg s pmlt vaddr paddr prot ⟨false, false, global⟩ = some s') :
    Stores cfg s' pmlt (updateAt c (path cfg (compute_table_indices vaddr))
      (compute_table_indices vaddr).pml1_index
      (paddr ||| vm_prot_to_x86 prot ⟨false, false, global⟩)) := by
  obtain ⟨s1, pml4, s2, pml3, h1, h2, hrest⟩ := pmap_map_inv hmap
  simp only [Bool.false_and, Bool.or_false, Bool.false_eq_true, false_and, false_or, true_and] at hrest
  obtain ⟨s3, pml2, h3, s4, pml1, h4, rfl⟩ := hrest
  obtain ⟨q, hs1, hw1, hlen, hpath⟩ := h.descend_pml5 h1
  obtain ⟨hs2, hw2⟩ := hs1.descend hw1 (by omega) h2
  obtain ⟨hs3, hw3⟩ := hs2.descend hw2 (by simp; omega) h3
  obtain ⟨hs4, hw4⟩ := hs3.descend hw3 (by simp; omega) h4
  simp only [List.append_assoc, List.cons_append, List.nil_append, hpath] at hw4
  exact hs4.store _ _ hw4 (path_length ..)

theorem Tree.bind_walk {β : Type} (h : Tree cfg s pmlt lab)
    {t : Addr} {p : List Index} (ht : lab t = some p) (hp : p.length + 1 < cfg.levels)
    {f g : Addr → Option β} (hf : ∀ y, lab y = some (p ++ [i]) → f y =
      (walk (pathScheme cfg.levels) s.mem (p ++ [i]) y q).bind g) :
    (next_table s.mem t i).bind f = (walk (pathScheme cfg.levels) s.mem p t (i :: q)).bind g := by
  have hdown : (pathScheme cfg.levels).down p i = some (p ++ [i]) := if_pos hp
  have hnext : next_table s.mem t i = (pathScheme cfg.levels).next p (s.mem t i) := rfl
  simp only [walk, hdown, Option.bind_some, hnext]
  cases hy : (pathScheme cfg.levels).next p (s.mem t i) with
  | none => rfl
  | some y => exact hf y (h.labelled t p i _ y ht hdown hy)

/-- What `pmap_translate` makes of an entry of the last level. -/
def translation (pml1e : Entry) : Option Translation :=
  if present pml1e then
    some ⟨PTE_GET_ADDR pml1e, none, x86_to_vm_prot (PTE_GET_FLAGS pml1e)⟩
  else none

theorem Tree.bind_path {β : Type} (h : Tree cfg s pmlt lab) {f g : Addr → Option β}
    (hf : ∀ pml3 p, lab pml3 = some p → p.length + 3 = cfg.levels →
      f pml3 = (walk (pathScheme cfg.levels) s.mem p pml3
        [indices.pml3_index, indices.pml2_index]).bind g) :
    ((pml4_of cfg s.mem pmlt indices).bind fun pml4 =>
      (next_table s.mem pml4 indices.pml4_index).bind f)
      = (walkOf cfg s pmlt (path cfg indices)).bind g := by
  have h4 : ∀ pml4 p, lab pml4 = some p → p.length + 4 = cfg.levels →
      (next_table s.mem pml4 indices.pml4_index).bind f = (walk (pathScheme cfg.levels) s.mem p pml4
          [indices.pml4_index, indices.pml3_index, indices.pml2_index]).bind g := by
    intro pml4 p hl hp
    exact h.bind_walk hl (by omega) (fun y hy => hf y _ hy (by simp; omega))
  unfold pml4_of path
  split
  · next h5 =>
    have hlev : cfg.levels = 5 := if_pos h5
    exact h.bind_walk h.root (by simp [hlev]) (fun y hy => h4 y _ hy (by simp [hlev]))
  · next h5 =>
    have hlev : cfg.levels = 4 := if_neg h5
    exact h4 pmlt [] h.root (by simp [hlev])

theorem Tree.page_entry (h : Tree cfg s pmlt lab)
    (vaddr : BitVec 64) : (amd64_page_entry cfg s pmlt vaddr).2
      = (walkOf cfg s pmlt (path cfg (compute_table_indices vaddr))).bind fun pml1 =>
        some (pml1, (compute_table_indices vaddr).pml1_index) := by
  rw [(amd64_page_entry_spec ..).2.2]
  refine h.bind_path (fun pml3 p hl hp => ?_)
  unfold page_entry_pml3
  rw [h.inner pml3 p _ hl (by omega), if_neg (by simp)]
  refine h.bind_walk hl (by omega) (fun pml2 hl2 => ?_)
  rw [h.inner pml2 _ _ hl2 (by simp; omega), if_neg (by simp)]
  exact h.bind_walk hl2 (by simp; omega) (fun pml1 _ => rfl)

theorem Stores.pmap_unmap (h : Stores cfg s pmlt c) (vaddr : BitVec 64) :
    Stores cfg (pmap_unmap cfg s pmlt vaddr) pmlt
      (updateAt c (path cfg (compute_table_indices vaddr))
        (compute_table_indices vaddr).pml1_index 0) := by
  obtain ⟨lab, htree, hc⟩ := id h
  have hfound := htree.page_entry vaddr
  obtain ⟨hmem, htables, -⟩ := amd64_page_entry_spec cfg s pmlt vaddr
  rw [(amd64_page_entry_users ..).1]
  generalize amd64_page_entry cfg s pmlt vaddr = r at hfound hmem htables
  obtain ⟨s1, entry⟩ := r
  have hs1 : Stores cfg s1 pmlt c := h.congr hmem htables
  cases hw : walkOf cfg s pmlt (path cfg (compute_table_indices vaddr)) with
  | none =>
    -- there is nothing to clear
    rw [hw] at hfound
    cases hfound
    obtain ⟨lab, htree1, hc1⟩ := hs1
    refine ⟨lab, htree1, fun q j hq => ?_⟩
    rw [hc1 q j hq]
    unfold updateAt
    split
    · next heq =>
      obtain ⟨rfl, rfl⟩ := heq
      rw [← hc _ _ hq, contentOf, content_of_walk_none hw]
      rfl
    · rfl
  | some pml1 =>
    rw [hw] at hfound
    cases hfound
    refine hs1.store _ _ ?_ (path_length ..)
    rw [walkOf, hmem]
    exact hw

theorem Stores.pmap_translate (h : Stores cfg s pmlt c) (vaddr : BitVec 64) :
    (pmap_translate cfg s pmlt vaddr).2 = translation (c (path cfg (compute_table_indices vaddr))
        (compute_table_indices vaddr).pml1_index) := by
  obtain ⟨lab, htree, hc⟩ := h
  have hwalk : (Paging.pmap_translate cfg s pmlt vaddr).2
      = (walkOf cfg s pmlt (path cfg (compute_table_indices vaddr))).bind fun pml1 =>
        translation (s.mem pml1 (compute_table_indices vaddr).pml1_index) := by
    rw [pmap_translate_snd]
    refine htree.bind_path (fun pml3 p hl hp => ?_)
    unfold translate_pml3
    dsimp only
    rw [htree.inner pml3 p _ hl (by omega), if_neg (by simp)]
    refine htree.bind_walk hl (by omega) (fun pml2 hl2 => ?_)
    rw [htree.inner pml2 _ _ hl2 (by simp; omega), if_neg (by simp)]
    exact htree.bind_walk hl2 (by simp; omega) (fun pml1 _ => rfl)
  rw [hwalk, ← hc _ _ (path_length ..)]
  cases hw : walkOf cfg s pmlt (path cfg (compute_table_indices vaddr)) with
  | none =>
    rw [contentOf, content_of_walk_none hw]
    exact (if_neg (by simp [pathScheme])).symm
  | some pml1 =>
    rw [contentOf, content_of_walk hw]
    rfl

end calls

/-! ### A fresh pmap -/

/-- A root of which the upper half leads to empty tables. -/
structure EmptyRoot (s : State) (pmlt : Addr) (pages : List Addr) : Prop where
  nodup : (pmlt :: pages).Nodup
  addr : ∀ p ∈ pages, PTE_GET_ADDR p = p
  tables : ∀ p ∈ pmlt :: pages, p ∈ s.tables
  length : pages.length = 256
  root : ∀ i : Index, s.mem pmlt i =
    if 256 ≤ i.toNat ∧ i.toNat < 512 then tableEntry (pages.getD (i.toNat - 256) 0) else 0
  pages : ∀ p ∈ pages, ∀ i, s.mem p i = 0

/-- The pmap of `pmap_init_kernel`, or one that `pmap_new` made from it before
anything was mapped. -/
inductive Fresh : State → Addr → Prop where
  | kernel {s s' : State} {pmlt : Addr} (h : pmap_init_kernel s = some (s', pmlt)) : Fresh s' pmlt
  | new {s s' s'' : State} {kernel pmlt : Addr} (pool : List Addr)
      (hk : pmap_init_kernel s = some (s', kernel))
      (h : pmap_new (s'.withPool pool) kernel = some (s'', pmlt)) : Fresh s'' pmlt

theorem EmptyRoot.kernel (h : pmap_init_kernel s = some (s', pmlt)) :
    ∃ pages, EmptyRoot s' pmlt pages := by
  obtain ⟨pages, rest, hlen, husable, rfl⟩ := pmap_init_kernel_inv h
  have hroot : pmlt ∉ pages := (List.nodup_cons.mp husable.nodup).1
  refine ⟨pages, husable.nodup, fun p hp => husable.addr p (List.mem_cons_of_mem _ hp), ?_, hlen,
    fun i => ?_, fun p hp i => ?_⟩
  · intro p hp
    simp only [State.kernelInit, State.preallocated, List.mem_append, List.mem_reverse,
      List.mem_cons]
    rcases List.mem_cons.mp hp with rfl | hp
    · exact .inr (.inl rfl)
    · exact .inl hp
  · simp only [State.kernelInit, State.preallocated, preallocated, hlen, true_and, hroot, if_false,
      update_self]
  · have hne : p ≠ pmlt := fun heq => hroot (heq ▸ hp)
    simp only [State.kernelInit, State.preallocated, preallocated, hne, false_and, if_false, hp,
      if_true]

theorem EmptyRoot.new {s' : State} {kernel : Addr} {pages : List Addr}
    (h : EmptyRoot s kernel pages) (hnew : pmap_new s kernel = some (s', pmlt)) :
    EmptyRoot s' pmlt pages := by
  obtain ⟨hpage, htables, -, -, hmem⟩ := pmap_new_inv (h.tables kernel List.mem_cons_self) hnew
  have hne : ∀ p ∈ pages, p ≠ pmlt :=
    fun p hp heq => hpage (heq ▸ h.tables p (List.mem_cons_of_mem _ hp))
  refine ⟨?_, h.addr, fun p hp => ?_, h.length, fun i => ?_, fun p hp i => ?_⟩
  · exact List.nodup_cons.mpr ⟨fun hp => hne pmlt hp rfl, (List.nodup_cons.mp h.nodup).2⟩
  · rw [htables]
    rcases List.mem_cons.mp hp with rfl | hp
    · exact List.mem_cons_self
    · exact List.mem_cons_of_mem _ (h.tables p (List.mem_cons_of_mem _ hp))
  · rw [hmem, if_pos rfl, h.root]
    split <;> rfl
  · rw [hmem, if_neg (hne p hp)]
    exact h.pages p hp i

theorem Fresh.emptyRoot (h : Fresh s pmlt) : ∃ pages, EmptyRoot s pmlt pages := by
  cases h with
  | kernel h => exact EmptyRoot.kernel h
  | @new s0 s1 _ kernel _ pool hk h =>
    obtain ⟨pages, he⟩ := EmptyRoot.kernel hk
    have hpool : EmptyRoot (s1.withPool pool) kernel pages :=
      ⟨he.nodup, he.addr, he.tables, he.length, he.root, he.pages⟩
    exact ⟨pages, hpool.new h⟩

/-- The labels of a fresh pmap. -/
def freshLabels (pmlt : Addr) (pages : List Addr) (t : Addr) : Option (List Index) :=
  if t = pmlt then some []
  else if t ∈ pages then some [BitVec.ofNat 16 (256 + pages.idxOf t)]
  else none

theorem EmptyRoot.page_mem {pages : List Addr} (h : EmptyRoot s pmlt pages)
    (hi : 256 ≤ i.toNat ∧ i.toNat < 512) : pages.getD (i.toNat - 256) 0 ∈ pages ∧
      freshLabels pmlt pages (pages.getD (i.toNat - 256) 0) = some [i] := by
  obtain ⟨hroot, hnodup⟩ := List.nodup_cons.mp h.nodup
  have hlt : i.toNat - 256 < pages.length := by
    rw [h.length]
    omega
  have hget : pages.getD (i.toNat - 256) 0 = pages.get ⟨i.toNat - 256, hlt⟩ := by
    rw [List.getD_eq_getElem?_getD, List.getElem?_eq_getElem hlt]
    rfl
  have hmem : pages.getD (i.toNat - 256) 0 ∈ pages := hget ▸ List.get_mem ..
  have hne : pages.getD (i.toNat - 256) 0 ≠ pmlt := fun heq => hroot (heq ▸ hmem)
  have hidx : pages.idxOf (pages.getD (i.toNat - 256) 0) = i.toNat - 256 := by
    rw [hget]
    exact hnodup.idxOf_getElem _ hlt
  have hi16 : BitVec.ofNat 16 (256 + (i.toNat - 256)) = i := by
    rw [show 256 + (i.toNat - 256) = i.toNat by omega, BitVec.ofNat_toNat, BitVec.setWidth_eq]
  exact ⟨hmem, by simp only [freshLabels, if_neg hne, if_pos hmem, hidx, hi16]⟩

theorem EmptyRoot.next_root {pages : List Addr} (h : EmptyRoot s pmlt pages)
    (hnext : next_table s.mem pmlt i = some y) :
    y ∈ pages ∧ freshLabels pmlt pages y = some [i] := by
  rw [next_table, h.root] at hnext
  by_cases hi : 256 ≤ i.toNat ∧ i.toNat < 512
  · have hpage := h.page_mem hi
    simp only [hi, and_self, if_true, present_tableEntry (h.addr _ hpage.1),
      get_addr_tableEntry (h.addr _ hpage.1), Option.some.injEq] at hnext
    exact hnext ▸ hpage
  · simp [hi] at hnext

theorem EmptyRoot.tree {cfg : Config} {pages : List Addr} (h : EmptyRoot s pmlt pages) :
    Tree cfg s pmlt (freshLabels pmlt pages) := by
  have hpage : ∀ t p, t ≠ pmlt → freshLabels pmlt pages t = some p → t ∈ pages := by
    intro t p hne ht
    by_contra hmem
    simp [freshLabels, hne, hmem] at ht
  refine ⟨?_, by simp [freshLabels], ?_, ?_⟩
  · intro t p i p' y hp hdown hnext
    by_cases ht : t = pmlt
    · subst ht
      have hpnil : p = [] := by simpa [freshLabels] using hp.symm
      subst hpnil
      have hp' : p' = [i] := by
        simp only [pathScheme, Option.ite_none_right_eq_some] at hdown
        exact (Option.some.inj hdown.2).symm
      rw [hp']
      exact (h.next_root hnext).2
    · -- the pages below are empty
      rw [h.pages t (hpage t p ht hp)] at hnext
      simp [pathScheme] at hnext
  · intro t p hp
    by_cases ht : t = pmlt
    · exact h.tables t (ht ▸ List.mem_cons_self)
    · exact h.tables t (List.mem_cons_of_mem _ (hpage t p ht hp))
  · intro t p i hp _
    by_cases ht : t = pmlt
    · rw [ht, h.root]
      split
      · next hi => exact pageSize_tableEntry (h.addr _ (h.page_mem hi).1)
      · exact pageSize_zero
    · rw [h.pages t (hpage t p ht hp)]
      exact pageSize_zero

theorem Fresh.stores {cfg : Config} (h : Fresh s pmlt) : Stores cfg s pmlt (fun _ _ => 0) := by
  obtain ⟨pages, he⟩ := h.emptyRoot
  refine ⟨_, he.tree, fun q j hq => ?_⟩
  cases q with
  | nil =>
    have := levels_ge cfg
    simp only [List.length_nil] at hq
    omega
  | cons i q =>
    cases hnext : (pathScheme cfg.levels).next [] (s.mem pmlt i) with
    | none => exact content_cons_none hnext j
    | some y =>
      have hdown : (pathScheme cfg.levels).down [] i = some [i] := by
        have := levels_ge cfg
        exact if_pos (by simp only [List.length_nil]; omega)
      rw [contentOf, content_cons hdown hnext]
      exact content_empty_table (fun k => he.pages y (he.next_root hnext).1 k) q j

/-! ### The partial map -/

/-- The page number: the bits of the address that are translated. -/
def page (cfg : Config) (vaddr : BitVec 64) : Nat :=
  vaddr.toNat >>> 12 % (if cfg.pml5_supported then 35184372088832 else 68719476736)

theorem page_eq_iff : page cfg v = page cfg w ↔
      path cfg (compute_table_indices v) = path cfg (compute_table_indices w) ∧
        (compute_table_indices v).pml1_index = (compute_table_indices w).pml1_index := by
  have h36 : 68719476736 = 512 * 512 * 512 * 512 := rfl
  have h45 : 35184372088832 = 512 * 512 * 512 * 512 * 512 := rfl
  unfold page path
  split
  · rw [h45, mod_mul_eq_iff, mod_mul_eq_iff, mod_mul_eq_iff, mod_mul_eq_iff]
    simp only [compute_table_indices, List.cons.injEq, and_true,
      ← BitVec.toNat_inj, index_toNat, Nat.shiftRight_eq_div_pow, Nat.reducePow,
      Nat.div_div_eq_div_mul, Nat.reduceMul]
    constructor
    · rintro ⟨⟨⟨⟨h1, h2⟩, h3⟩, h4⟩, h5⟩
      exact ⟨⟨h5, h4, h3, h2⟩, h1⟩
    · rintro ⟨⟨h5, h4, h3, h2⟩, h1⟩
      exact ⟨⟨⟨⟨h1, h2⟩, h3⟩, h4⟩, h5⟩
  · rw [h36, mod_mul_eq_iff, mod_mul_eq_iff, mod_mul_eq_iff]
    simp only [compute_table_indices, List.cons.injEq, and_true,
      ← BitVec.toNat_inj, index_toNat, Nat.shiftRight_eq_div_pow, Nat.reducePow,
      Nat.div_div_eq_div_mul, Nat.reduceMul]
    constructor
    · rintro ⟨⟨⟨h1, h2⟩, h3⟩, h4⟩
      exact ⟨⟨h4, h3, h2⟩, h1⟩
    · rintro ⟨⟨h4, h3, h2⟩, h1⟩
      exact ⟨⟨⟨h1, h2⟩, h3⟩, h4⟩

/-- A call on the pmap, with 4 KiB pages only. -/
inductive PageOp where
  | pmap_map (pool : List Addr) (vaddr paddr : BitVec 64) (prot : VmProt) (global : Bool)
  | pmap_unmap (vaddr : BitVec 64)
  deriving DecidableEq

def PageOp.vaddr : PageOp → BitVec 64
  | .pmap_map _ vaddr _ _ _ => vaddr
  | .pmap_unmap vaddr => vaddr

/-- Physical addresses are page aligned and below `2 ^ 52`. -/
def PageOp.Aligned : PageOp → Prop
  | .pmap_map _ _ paddr _ _ => paddr.toNat % 4096 = 0 ∧ paddr.toNat < 4503599627370496
  | .pmap_unmap _ => True

instance (op : PageOp) : Decidable op.Aligned := by
  cases op <;> unfold PageOp.Aligned <;> infer_instance

def PageOp.run (cfg : Config) (pmlt : Addr) (s : State) : PageOp → Option State
  | .pmap_map pool vaddr paddr prot global =>
    Paging.pmap_map cfg (s.withPool pool) pmlt vaddr paddr prot ⟨false, false, global⟩
  | .pmap_unmap vaddr => some (Paging.pmap_unmap cfg s pmlt vaddr)

/-- One pmap, from when it is fresh. -/
def pageSystem (cfg : Config) (pmlt : Addr) : System State PageOp where
  init := fun s => Fresh s pmlt
  step := PageOp.run cfg pmlt

/-- What is mapped: physical addresses and protections, by page number. -/
abbrev PageMap := Nat → Option (BitVec 64 × VmProt)

/-- What the call leaves at its page. -/
def PageOp.mapped : PageOp → Option (BitVec 64 × VmProt)
  | .pmap_map _ _ paddr prot _ => if prot.present then some (paddr, prot) else none
  | .pmap_unmap _ => none

def PageOp.apply (cfg : Config) (m : PageMap) (op : PageOp) : PageMap :=
  Function.update m (page cfg op.vaddr) op.mapped

/-- What a sequence of calls has mapped. -/
def mappings (cfg : Config) (ops : List PageOp) : PageMap :=
  ops.foldl (PageOp.apply cfg) (fun _ => none)

/-- The answer of `pmap_translate` for a 4 KiB page. -/
def pageTranslation (m : BitVec 64 × VmProt) : Translation := ⟨m.1, none, m.2⟩

theorem translation_leaf (h : PTE_GET_ADDR paddr = paddr) : translation
    (paddr ||| vm_prot_to_x86 prot flags)
      = (if prot.present then some (paddr, prot) else none).map pageTranslation := by
  unfold translation
  rw [present_leaf h, get_addr_or_flags h, x86_to_vm_prot_leaf h]
  split <;> rfl

/-- The tree of the pmap stores the map `m`. -/
def Refines (cfg : Config) (pmlt : Addr) (s : State) (m : PageMap) : Prop :=
  ∃ c, Stores cfg s pmlt c ∧ ∀ vaddr,
    translation (c (path cfg (compute_table_indices vaddr)) (compute_table_indices vaddr).pml1_index)
      = (m (page cfg vaddr)).map pageTranslation

section refinement

variable {cfg : Config} {pmlt : Addr} {s s' : State} {m : PageMap}

theorem Refines.update (c : List Index → Index → Entry)
    (hc : ∀ w, translation (c (path cfg (compute_table_indices w))
      (compute_table_indices w).pml1_index) = (m (page cfg w)).map pageTranslation)
    (vaddr : BitVec 64) (he : translation e = x.map pageTranslation)
    (hs : Stores cfg s' pmlt (updateAt c (path cfg (compute_table_indices vaddr))
      (compute_table_indices vaddr).pml1_index e)) :
    Refines cfg pmlt s' (update m (page cfg vaddr) x) := by
  refine ⟨_, hs, fun w => ?_⟩
  unfold updateAt
  simp only [← page_eq_iff]
  by_cases hw : page cfg w = page cfg vaddr
  · rw [if_pos hw, hw, update_self, he]
  · rw [if_neg hw, update_of_ne hw, hc]

theorem Refines.step {op : PageOp} (h : Refines cfg pmlt s m) (hop : op.Aligned)
    (hrun : op.run cfg pmlt s = some s') : Refines cfg pmlt s' (op.apply cfg m) := by
  obtain ⟨c, hs, hc⟩ := h
  cases op with
  | pmap_map pool vaddr paddr prot global =>
    have hpool : Stores cfg (s.withPool pool) pmlt c := hs.congr rfl rfl
    exact .update c hc vaddr (translation_leaf (get_addr_of_aligned hop.1 hop.2))
      (hpool.pmap_map global hrun)
  | pmap_unmap vaddr =>
    cases hrun
    have hzero : translation 0 = (none : Option (BitVec 64 × VmProt)).map pageTranslation := by
      simp [translation]
    exact .update c hc vaddr hzero (hs.pmap_unmap vaddr)

theorem Refines.run : ∀ {s : State} {m : PageMap}, Refines cfg pmlt s m → (∀ op ∈ ops, op.Aligned) →
      exec (pageSystem cfg pmlt) s ops = some s' →
      Refines cfg pmlt s' (ops.foldl (PageOp.apply cfg) m) := by
  induction ops with
  | nil =>
    intro s m h _ hrun
    cases hrun
    exact h
  | cons op ops ih =>
    intro s m h hops hrun
    simp only [exec, execBy, if_true] at hrun
    cases hst : (pageSystem cfg pmlt).step s op with
    | none => simp [hst] at hrun
    | some s1 =>
      simp only [hst] at hrun
      exact ih (h.step (hops op List.mem_cons_self) hst)
        (fun op' hop' => hops op' (List.mem_cons_of_mem _ hop')) hrun

theorem Refines.translate (h : Refines cfg pmlt s m) (vaddr : BitVec 64) :
    (pmap_translate cfg s pmlt vaddr).2 = (m (page cfg vaddr)).map pageTranslation := by
  obtain ⟨c, hs, hc⟩ := h
  rw [hs.pmap_translate, hc]

theorem Refines.of_fresh (h : Fresh s pmlt) : Refines cfg pmlt s (fun _ => none) :=
  ⟨_, h.stores, fun _ => by simp [translation]⟩

end refinement

/-- **A partial map**: after every sequence of calls on a fresh pmap, an address
is translated to what was mapped last at its page, if it is present and was
not unmapped since; and a call does not change the translation of another
page. -/
theorem pmap_translate_eq_mappings {cfg : Config} {pmlt : Addr} {s s' : State} {ops : List PageOp}
    (hfresh : Fresh s pmlt) (hops : ∀ op ∈ ops, op.Aligned)
    (hrun : exec (pageSystem cfg pmlt) s ops = some s') (vaddr : BitVec 64) :
    (pmap_translate cfg s' pmlt vaddr).2 = (mappings cfg ops (page cfg vaddr)).map pageTranslation ∧
      ∀ op s'', op.Aligned → (pageSystem cfg pmlt).step s' op = some s'' →
        page cfg vaddr ≠ page cfg op.vaddr →
        (pmap_translate cfg s'' pmlt vaddr).2 = (pmap_translate cfg s' pmlt vaddr).2 := by
  have hs' : Refines cfg pmlt s' (mappings cfg ops) := (Refines.of_fresh hfresh).run hops hrun
  refine ⟨hs'.translate vaddr, fun op s'' hop hst hne => ?_⟩
  rw [(hs'.step hop hst).translate, hs'.translate, PageOp.apply, update_of_ne hne]

/-- Two pages are mapped, and one is unmapped again. -/
def twoPages : List PageOp :=
  [.pmap_map [0x200000, 0x201000, 0x202000, 0x203000] 0x1000 0x5000 VM_PROT_ALL false,
    .pmap_map [] 0x2000 0x6000 ⟨true, false, false, true⟩ false, .pmap_unmap 0x1000]

/-- In five-level mode. -/
theorem pmap_translate_eq_mappings_five : ∃ s s', Fresh s 4096 ∧ (∀ op ∈ twoPages, op.Aligned) ∧
      exec (pageSystem ⟨true, false⟩ 4096) s twoPages = some s' ∧
      (pmap_translate ⟨true, false⟩ s' 4096 0x1000).2 = none ∧
      (pmap_translate ⟨true, false⟩ s' 4096 0x2abc).2
        = some ⟨0x6000, none, ⟨true, false, false, true⟩⟩ := by
  have hfresh : Fresh (blank.kernelInit 4096 bootPages []) 4096 :=
    .kernel (pmap_init_kernel_eq (s := blank) (by simp [blank]) bootPages_usable (by simp [bootPages]))
  have haligned : ∀ op ∈ twoPages, op.Aligned := by decide
  have hrun : ((exec (pageSystem ⟨true, false⟩ 4096) (blank.kernelInit 4096 bootPages [])
      twoPages).map fun s => s.tables.length) = some 261 := by
    decide +kernel
  generalize blank.kernelInit 4096 bootPages [] = s at hfresh hrun
  obtain ⟨s', hexec, -⟩ := Option.map_eq_some_iff.mp hrun
  have htranslate := fun v => (pmap_translate_eq_mappings hfresh haligned hexec v).1
  exact ⟨s, s', hfresh, haligned, hexec, (htranslate 0x1000).trans (by decide),
    (htranslate 0x2abc).trans (by decide)⟩

end Paging
