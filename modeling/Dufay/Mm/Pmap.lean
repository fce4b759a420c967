import Dufay.Mm.Paging

/-! # New pmaps

What `pmap_init_kernel` and `pmap_new` leave in the memory: a root table
of which the upper half leads to empty tables, and a copy of that half.
-/

namespace Paging

open Function

variable {s : State} {pmlt : Addr} {pages : List Addr}

theorem pmm_alloc_eq (h : pmm_alloc s = some (s', page)) :
    page ∉ s.tables ∧ PTE_GET_ADDR page = page ∧ ∃ pool, s.pool = page :: pool ∧ s' = { s with
      mem := update s.mem page (fun _ => 0)
      pool := pool
      tables := page :: s.tables } := by
  unfold pmm_alloc at h
  split at h
  · next page' pool hpool =>
    split at h
    · next hfresh =>
      cases h
      exact ⟨hfresh.1, hfresh.2, pool, hpool, rfl⟩
    · cases h
  · cases h

theorem descend_table_absent
    (hp : present (s.mem t i) = false) (hpool : s.pool = page :: pool) (hpage : page ∉ s.tables)
    (haddr : PTE_GET_ADDR page = page) :
    descend_table s t i true = (link (access s t) t i page pool, some page) := by
  simp [descend_table, access, hp, pmm_alloc, hpool, hpage, haddr, link]

theorem link_mem (s : State) (t : Addr) (i : Index) (page : Addr) (pool : List Addr) (t' : Addr)
    (j : Index) : (link s t i page pool).mem t' j =
      if t' = t ∧ j = i then tableEntry page else if t' = page then 0 else s.mem t' j := by
  simp only [link, store, access, Radix.write_apply, update_apply]
  split
  · rfl
  · split <;> rfl

/-! ### `pmap_init_kernel` -/

/-- The pages `pages` are linked in below `pmlt` from index `k` on. -/
def preallocated (mem : Addr → Index → Entry) (pmlt : Addr) (pages : List Addr) (k : Nat) :
    Addr → Index → Entry := fun t i =>
  if t = pmlt ∧ k ≤ i.toNat ∧ i.toNat < k + pages.length then
    tableEntry (pages.getD (i.toNat - k) 0)
  else if t ∈ pages then 0
  else mem t i

theorem preallocated_nil : preallocated mem pmlt [] k = mem := by
  funext t i
  have hempty : ¬ (t = pmlt ∧ k ≤ i.toNat ∧ i.toNat < k + ([] : List Addr).length) := by
    simp only [List.length_nil]
    omega
  simp only [preallocated, if_neg hempty, List.not_mem_nil, if_false]

theorem preallocated_link (pool : List Addr)
    (hidx : (BitVec.ofNat 16 k).toNat = k) (hroot : pmlt ≠ page) (hpages : pmlt ∉ pages) :
    preallocated (link s pmlt (BitVec.ofNat 16 k) page pool).mem pmlt pages (k + 1)
      = preallocated s.mem pmlt (page :: pages) k := by
  funext t i
  have hi : i = BitVec.ofNat 16 k ↔ i.toNat = k := by
    rw [← BitVec.toNat_inj, hidx]
  simp only [preallocated, link_mem, hi, List.length_cons, List.mem_cons]
  by_cases ht : t = pmlt
  · subst ht
    by_cases hik : i.toNat = k
    · have h1 : ¬ (k + 1 ≤ i.toNat ∧ i.toNat < k + 1 + pages.length) := by omega
      have h2 : k ≤ i.toNat ∧ i.toNat < k + (pages.length + 1) := by omega
      rw [if_neg (fun hc => h1 hc.2), if_neg hpages, if_pos ⟨rfl, hik⟩, if_pos ⟨rfl, h2⟩, hik,
        Nat.sub_self, List.getD_cons_zero]
    · by_cases hin : k + 1 ≤ i.toNat ∧ i.toNat < k + 1 + pages.length
      · have h2 : k ≤ i.toNat ∧ i.toNat < k + (pages.length + 1) := by omega
        have h3 : i.toNat - k = (i.toNat - (k + 1)) + 1 := by omega
        simp only [hin, h2, and_self, if_true, true_and]
        rw [h3, List.getD_cons_succ]
      · have h2 : ¬ (k ≤ i.toNat ∧ i.toNat < k + (pages.length + 1)) := by omega
        simp only [hin, h2, hik, and_false, if_false, hroot, false_or]
  · simp only [ht, false_and, if_false]
    by_cases hp : t = page <;> by_cases hps : t ∈ pages <;> simp [hp, hps]

/-- The state after `preallocate` has linked in `pages`. -/
def State.preallocated (s : State) (pmlt : Addr) (pages : List Addr) (k : Nat)
    (rest : List Addr) : State where
  mem := Paging.preallocated s.mem pmlt pages k
  pool := rest
  tables := pages.reverse ++ s.tables
  derefs := List.replicate (2 * pages.length) pmlt ++ s.derefs
  follows := s.follows

theorem State.preallocated_link {pool : List Addr}
    (hidx : (BitVec.ofNat 16 k).toNat = k) (hroot : pmlt ≠ page) (hpages : pmlt ∉ pages) :
    (link (access s pmlt) pmlt (BitVec.ofNat 16 k) page pool).preallocated pmlt pages (k + 1) rest
      = s.preallocated pmlt (page :: pages) k rest := by
  have hmem := Paging.preallocated_link pool (s := access s pmlt) hidx hroot hpages
  have htwo : List.replicate (2 * (pages.length + 1)) pmlt
      = List.replicate (2 * pages.length) pmlt ++ [pmlt, pmlt] := by
    rw [show 2 * (pages.length + 1) = 2 * pages.length + 2 by omega]
    exact (List.replicate_append_replicate (n := 2 * pages.length) (m := 2)).symm
  unfold State.preallocated
  rw [hmem, List.length_cons, htwo]
  simp [link, store, access]

/-- Pages that may become tables. -/
structure Usable (s : State) (pages : List Addr) : Prop where
  nodup : pages.Nodup
  fresh : ∀ p ∈ pages, p ∉ s.tables
  addr : ∀ p ∈ pages, PTE_GET_ADDR p = p

theorem Usable.tail (h : Usable s (page :: pages))
    (htables : s'.tables = page :: s.tables) : Usable s' pages where
  nodup := (List.nodup_cons.mp h.nodup).2
  fresh := by
    intro p hp hmem
    rw [htables] at hmem
    rcases List.mem_cons.mp hmem with rfl | hmem
    · exact (List.nodup_cons.mp h.nodup).1 hp
    · exact h.fresh p (List.mem_cons_of_mem _ hp) hmem
  addr := fun p hp => h.addr p (List.mem_cons_of_mem _ hp)

theorem Usable.cons {s' : State} {page : Addr} (h : Usable s' pages)
    (htables : s'.tables = page :: s.tables) (hpage : page ∉ s.tables)
    (haddr : PTE_GET_ADDR page = page) : Usable s (page :: pages) := by
  have hin : ∀ p ∈ pages, p ≠ page ∧ p ∉ s.tables := by
    intro p hp
    have hnot := h.fresh p hp
    simpa only [htables, List.mem_cons, not_or] using hnot
  refine ⟨List.nodup_cons.mpr ⟨fun hmem => (hin page hmem).1 rfl, h.nodup⟩, ?_, ?_⟩
  · intro p hp
    rcases List.mem_cons.mp hp with rfl | hp
    · exact hpage
    · exact (hin p hp).2
  · intro p hp
    rcases List.mem_cons.mp hp with rfl | hp
    · exact haddr
    · exact h.addr p hp

theorem preallocate_eq :
    ∀ (k : Nat) (s : State), s.pool = pages ++ rest → Usable s pages → pmlt ∈ s.tables →
      k + pages.length ≤ 65536 → (∀ i : Index, k ≤ i.toNat → s.mem pmlt i = 0) →
      preallocate s pmlt (List.range' k pages.length) = some (s.preallocated pmlt pages k rest) :=
        by
  induction pages with
  | nil =>
    intro k s hpool _ _ _ _
    simp only [List.nil_append] at hpool
    simp [preallocate, State.preallocated, preallocated_nil, ← hpool]
  | cons page pages ih =>
    intro k s hpool husable hpmlt hk hzero
    simp only [List.length_cons] at hk ⊢
    have hidx : (BitVec.ofNat 16 k).toNat = k := by
      simp only [BitVec.toNat_ofNat]
      omega
    have habsent : present (s.mem pmlt (BitVec.ofNat 16 k)) = false := by
      rw [hzero _ (by omega)]
      exact present_zero
    have hpage := husable.fresh page List.mem_cons_self
    have hroot : pmlt ≠ page := fun heq => hpage (heq ▸ hpmlt)
    have hpages : pmlt ∉ pages := fun hmem =>
      husable.fresh pmlt (List.mem_cons_of_mem _ hmem) hpmlt
    rw [List.range'_succ, preallocate,
      descend_table_absent habsent hpool hpage (husable.addr page List.mem_cons_self)]
    refine (ih (k + 1) _ rfl (husable.tail rfl) (List.mem_cons_of_mem _ hpmlt) (by omega) ?_).trans ?_
    · intro i hi
      have hne : ¬ (pmlt = pmlt ∧ i = BitVec.ofNat 16 k) := by
        rintro ⟨-, rfl⟩
        omega
      rw [link_mem, if_neg hne, if_neg hroot]
      exact hzero i (by omega)
    · exact congrArg some (State.preallocated_link hidx hroot hpages)

theorem preallocate_inv : ∀ (k : Nat) (s s' : State), pmlt ∈ s.tables → k + n ≤ 65536 →
      (∀ i : Index, k ≤ i.toNat → s.mem pmlt i = 0) →
      preallocate s pmlt (List.range' k n) = some s' →
      ∃ pages rest, pages.length = n ∧ s.pool = pages ++ rest ∧ Usable s pages := by
  induction n with
  | zero =>
    intro k s s' _ _ _ _
    exact ⟨[], s.pool, rfl, rfl, List.nodup_nil, by simp, by simp⟩
  | succ n ih =>
    intro k s s' hpmlt hk hzero hpre
    have hidx : (BitVec.ofNat 16 k).toNat = k := by
      simp only [BitVec.toNat_ofNat]
      omega
    rw [List.range'_succ, preallocate] at hpre
    split at hpre
    · cases hpre
    · next s1 page hd =>
      rcases descend_table_true hd with ⟨hp, -, -⟩ | ⟨hp, pool, hpool0, hfresh, haddr, rfl⟩
      · rw [hzero _ (by omega)] at hp
        simp at hp
      · have hroot : pmlt ≠ page := fun heq => hfresh (heq ▸ hpmlt)
        obtain ⟨pages, rest, hlen, hpool, husable⟩ :=
          ih (k + 1) _ s' (List.mem_cons_of_mem _ hpmlt) (by omega) (fun i hi => by
            have hne : ¬ (pmlt = pmlt ∧ i = BitVec.ofNat 16 k) := by
              rintro ⟨-, rfl⟩
              omega
            rw [link_mem, if_neg hne, if_neg hroot]
            exact hzero i (by omega)) hpre
        refine ⟨page :: pages, rest, by rw [List.length_cons, hlen], ?_, ?_⟩
        · rw [hpool0, List.cons_append, ← hpool]
          rfl
        · exact husable.cons rfl hfresh haddr

/-- The state after `pmap_init_kernel`, with the root `pmlt` and the pages
below it. -/
def State.kernelInit (s : State) (pmlt : Addr) (pages rest : List Addr) : State :=
  State.preallocated { s with
    mem := Function.update s.mem pmlt (fun _ => 0)
    tables := pmlt :: s.tables } pmlt pages 256 rest

theorem pmap_init_kernel_eq (hpool : s.pool = pmlt :: (pages ++ rest))
    (husable : Usable s (pmlt :: pages)) (hlen : pages.length = 256) :
    pmap_init_kernel s = some (s.kernelInit pmlt pages rest, pmlt) := by
  let s1 : State := { s with
    mem := update s.mem pmlt (fun _ => 0)
    pool := pages ++ rest
    tables := pmlt :: s.tables }
  have halloc : pmm_alloc s = some (s1, pmlt) := by
    simp [s1, pmm_alloc, hpool, husable.fresh pmlt List.mem_cons_self,
      husable.addr pmlt List.mem_cons_self]
  have hpre := preallocate_eq 256 s1 rfl (husable.tail rfl) List.mem_cons_self
    (by omega) (fun i _ => by simp [s1])
  rw [hlen] at hpre
  simp only [pmap_init_kernel, halloc, upperHalf, hpre, Option.map_some]
  rfl

theorem pmap_init_kernel_inv (h : pmap_init_kernel s = some (s', pmlt)) :
    ∃ pages rest, pages.length = 256 ∧ Usable s (pmlt :: pages) ∧
      s' = s.kernelInit pmlt pages rest := by
  have h0 := h
  unfold pmap_init_kernel at h
  split at h
  · cases h
  · next s1 pmlt' ha =>
    obtain ⟨s2, hpre, heq⟩ := Option.map_eq_some_iff.mp h
    obtain ⟨rfl, rfl⟩ := Prod.mk.inj heq
    obtain ⟨hpage, haddr, pool, hpool, rfl⟩ := pmm_alloc_eq ha
    obtain ⟨pages, rest, hlen, hpool', husable⟩ := preallocate_inv 256 _ s2
      List.mem_cons_self (by omega) (fun i _ => by simp) hpre
    have hall : Usable s (pmlt' :: pages) := husable.cons rfl hpage haddr
    refine ⟨pages, rest, hlen, hall, ?_⟩
    have hpool'' : pool = pages ++ rest := hpool'
    rw [pmap_init_kernel_eq (by rw [hpool, hpool'']) hall hlen] at h0
    exact (Prod.mk.inj (Option.some.inj h0)).1.symm

/-! ### `pmap_new` -/

theorem copyEntries_mem (hne : pmlt ≠ kernel) :
    ∀ (s : State), (∀ i ∈ is, i < 65536) → ∀ t (j : Index), (copyEntries s pmlt kernel is).mem t j =
        if t = pmlt ∧ j.toNat ∈ is then s.mem kernel j else s.mem t j := by
  induction is with
  | nil =>
    intro s _ t j
    simp [copyEntries]
  | cons i is ih =>
    intro s hlt t j
    have hj : j = BitVec.ofNat 16 i ↔ j.toNat = i := by
      have hi := hlt i List.mem_cons_self
      rw [← BitVec.toNat_inj, BitVec.toNat_ofNat, Nat.mod_eq_of_lt (by omega)]
    rw [copyEntries, ih _ (fun k hk => hlt k (List.mem_cons_of_mem _ hk))]
    simp only [store, access, Radix.write_apply, List.mem_cons, hne.symm, false_and, if_false]
    by_cases ht : t = pmlt
    · subst ht
      by_cases hji : j = BitVec.ofNat 16 i
      · simp [hji, Nat.mod_eq_of_lt (hlt i List.mem_cons_self)]
      · have hjn : j.toNat ≠ i := fun heq => hji (hj.mpr heq)
        simp [hji, hjn]
    · simp [ht]

theorem copyEntries_tables : ∀ (s : State), (copyEntries s pmlt kernel is).tables = s.tables ∧
    (copyEntries s pmlt kernel is).follows = s.follows := by
  induction is with
  | nil => exact fun s => ⟨rfl, rfl⟩
  | cons i is ih => exact fun s => ih _

theorem copyEntries_derefs : ∀ (s : State), ∀ t ∈ (copyEntries s pmlt kernel is).derefs,
      t = pmlt ∨ t = kernel ∨ t ∈ s.derefs := by
  induction is with
  | nil => exact fun s t ht => Or.inr (.inr ht)
  | cons i is ih =>
    intro s t ht
    rcases ih _ t ht with h | h | h
    · exact .inl h
    · exact .inr (.inl h)
    · simpa [store, access] using h

theorem pmap_new_inv (hk : kernel ∈ s.tables) (h : pmap_new s kernel = some (s', pmlt)) :
    pmlt ∉ s.tables ∧ s'.tables = pmlt :: s.tables ∧ s'.follows = s.follows ∧
      (∀ t ∈ s'.derefs, t = pmlt ∨ t = kernel ∨ t ∈ s.derefs) ∧
      ∀ t (i : Index), s'.mem t i =
        if t = pmlt then (if 256 ≤ i.toNat ∧ i.toNat < 512 then s.mem kernel i else 0)
        else s.mem t i := by
  unfold pmap_new at h
  split at h
  · cases h
  · next s1 pmlt' ha =>
    obtain ⟨rfl, rfl⟩ := Prod.mk.inj (Option.some.inj h)
    obtain ⟨hpage, -, pool, -, rfl⟩ := pmm_alloc_eq ha
    have hne : pmlt' ≠ kernel := fun heq => hpage (heq ▸ hk)
    refine ⟨hpage, (copyEntries_tables _).1, (copyEntries_tables _).2, copyEntries_derefs _, ?_⟩
    intro t i
    have hmem : ∀ k ∈ upperHalf, k < 65536 := by
      intro k hk
      simp only [upperHalf, List.mem_range'_1] at hk
      omega
    rw [copyEntries_mem hne _ hmem]
    have hup : i.toNat ∈ upperHalf ↔ 256 ≤ i.toNat ∧ i.toNat < 512 := by
      simp only [upperHalf, List.mem_range'_1]
    simp only [hup, update_of_ne hne.symm, update_apply]
    by_cases ht : t = pmlt'
    · subst ht
      simp
    · simp [ht]

/-! ### Boot -/

/-- The frames that `pmm_alloc` answers with at boot. -/
def bootPages : List Addr := (List.range' 2 256).map fun k => BitVec.ofNat 64 (4096 * k)

def blank : State where
  mem := fun _ _ => 0
  pool := 4096 :: bootPages
  tables := []
  derefs := []
  follows := []

theorem bootPages_usable : Usable blank (4096 :: bootPages) where
  nodup := by
    have hframes : 4096 :: bootPages
        = (List.range' 1 257).map fun k => BitVec.ofNat 64 (4096 * k) := rfl
    rw [hframes]
    refine List.pairwise_map.mpr
      (List.Pairwise.imp_of_mem (fun ha hb hab heq => ?_) List.pairwise_lt_range')
    have hnat := congrArg BitVec.toNat heq
    simp only [List.mem_range'_1, BitVec.toNat_ofNat] at ha hb hnat
    omega
  fresh := by simp [blank]
  addr := by
    simp only [bootPages, List.forall_mem_cons, List.forall_mem_map]
    decide +kernel

end Paging
