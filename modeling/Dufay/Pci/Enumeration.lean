import Mathlib.Data.Fintype.Pigeonhole

/-! # The enumeration of PCI functions

The loops of `pci` over the functions of a segment, and of `pci_device_spawn`
over the capabilities of a function, of `servers/io/pci/pci.c`.
-/

open Function

namespace Pci

/-- `struct mcfg_entry` -/
structure McfgEntry where
  base : Nat
  bus_start : Nat
  bus_end : Nat

def PCI_CONFIG (base bus device func : Nat) : Nat := base + (bus * 256 + device * 8 + func) * 4096

/-- `DIV_ROUNDUP(.., PAGE_SIZE)` -/
def McfgEntry.page_cnt (e : McfgEntry) : Nat :=
  (PCI_CONFIG e.base e.bus_end 31 7 - PCI_CONFIG e.base e.bus_start 0 0 + 4095) / 4096

/-- What becomes of a function: nothing answers, or it is registered and its
server is started; `error` if `dictionary_push` or `pci_device_spawn` fails. -/
inductive Answer where
  | absent
  | spawned
  | error
  deriving DecidableEq

/-- The functions that the three loops go through, in this order. -/
def McfgEntry.functions (e : McfgEntry) : List (Nat × Nat × Nat) :=
  List.range' e.bus_start (e.bus_end - e.bus_start) ×ˢ List.range 32 ×ˢ List.range 8

/-- The body of the loops, and the functions that it reads. `RETURN_ERROR` leaves
all of them. -/
def probe (answer : Nat × Nat × Nat → Answer) : List (Nat × Nat × Nat) → List (Nat × Nat × Nat)
  | [] => []
  | f :: rest =>
    match answer f with
    | .error => [f]
    | .absent | .spawned => f :: probe answer rest

/-- The functions that `pci` probes, once the region of the segment is mapped. -/
def McfgEntry.probes (e : McfgEntry) (answer : Nat × Nat × Nat → Answer) :
    List (Nat × Nat × Nat) :=
  probe answer e.functions

def index (f : Nat × Nat × Nat) : Nat := f.1 * 256 + f.2.1 * 8 + f.2.2

variable {answer : Nat × Nat × Nat → Answer}

theorem probe_cons (answer : Nat × Nat × Nat → Answer) (f : Nat × Nat × Nat)
    (rest : List (Nat × Nat × Nat)) :
    probe answer (f :: rest) = f :: if answer f = .error then [] else probe answer rest := by
  rw [probe]
  cases answer f <;> rfl

theorem probe_sublist (answer : Nat × Nat × Nat → Answer) (l : List (Nat × Nat × Nat)) :
    (probe answer l).Sublist l := by
  induction l with
  | nil => exact .slnil
  | cons f rest ih =>
    rw [probe_cons]
    split
    · exact (List.nil_sublist rest).cons_cons f
    · exact ih.cons_cons f

theorem mem_probe {l : List (Nat × Nat × Nat)} (hl : l.Pairwise (index · < index ·)) :
    f ∈ probe answer l ↔ f ∈ l ∧ ∀ g ∈ l, index g < index f → answer g ≠ .error := by
  induction l with
  | nil => simp [probe]
  | cons g rest ih =>
    obtain ⟨hfirst, hrest⟩ := List.pairwise_cons.mp hl
    rw [probe_cons, List.mem_cons, List.mem_cons, List.forall_mem_cons]
    by_cases hf : f = g
    · subst hf
      have hnone : ∀ x ∈ rest, index x < index f → answer x ≠ .error :=
        fun x hx hlt => absurd (hfirst x hx) (by omega)
      simpa using hnone
    · by_cases herr : answer g = .error
      · simp only [hf, herr, if_true, List.not_mem_nil, or_false, false_or, false_iff]
        exact fun h => h.2.1 (hfirst f h.1) rfl
      · simp [hf, herr, ih hrest]

theorem exists_error {l : List (Nat × Nat × Nat)} (hg : g ∈ l) (herr : answer g = .error) :
    ∃ f ∈ probe answer l, answer f = .error := by
  induction l with
  | nil => cases hg
  | cons f rest ih =>
    rw [probe_cons]
    by_cases hf : answer f = .error
    · exact ⟨f, List.mem_cons_self, hf⟩
    · have hg' := (List.mem_cons.mp hg).resolve_left fun heq => hf (heq ▸ herr)
      obtain ⟨f', hf', herr'⟩ := ih hg'
      rw [if_neg hf]
      exact ⟨f', List.mem_cons_of_mem _ hf', herr'⟩

theorem McfgEntry.mem_functions (e : McfgEntry) : (bus, device, func) ∈ e.functions ↔
    (e.bus_start ≤ bus ∧ bus < e.bus_end) ∧ device < 32 ∧ func < 8 := by
  simp only [McfgEntry.functions, List.mem_product, List.mem_range'_1, List.mem_range]
  omega

theorem McfgEntry.functions_sorted (e : McfgEntry) :
    e.functions.Pairwise (index · < index ·) := by
  have hproduct : ∀ {α : Type} {l : List Nat} {l' : List α} {key : Nat × α → Nat},
      l.Pairwise (· < ·) → (∀ a ∈ l, l'.Pairwise fun b b' => key (a, b) < key (a, b')) →
      (∀ a a' b b', a < a' → b ∈ l' → b' ∈ l' → key (a, b) < key (a', b')) →
      (l ×ˢ l').Pairwise (key · < key ·) := by
    intro α l l' key hl hl' hkey
    simp only [SProd.sprod, List.product, List.pairwise_flatMap, List.pairwise_map]
    refine ⟨hl', hl.imp fun {a a'} hlt => ?_⟩
    simp only [List.mem_map]
    rintro _ ⟨b, hb, rfl⟩ _ ⟨b', hb', rfl⟩
    exact hkey a a' b b' hlt hb hb'
  refine hproduct List.pairwise_lt_range' (fun bus _ => ?_) fun bus bus' f f' hlt hf hf' => ?_
  · refine hproduct List.pairwise_lt_range (fun device _ => ?_) fun d d' f f' hlt hf hf' => ?_
    · exact List.pairwise_lt_range.imp fun {a a'} hlt => by simp only [index]; omega
    · simp only [List.mem_range] at hf hf'
      simp only [index]
      omega
  · obtain ⟨device, func⟩ := f
    obtain ⟨device', func'⟩ := f'
    simp only [List.mem_product, List.mem_range] at hf hf'
    simp only [index]
    omega

theorem PCI_CONFIG_lt (e : McfgEntry) (addr : Nat) (f : Nat × Nat × Nat) :
    PCI_CONFIG addr f.1 f.2.1 f.2.2 < addr + e.page_cnt * 4096 ↔ index f < e.page_cnt := by
  unfold PCI_CONFIG index
  omega

/-- **PCI enumeration** probes no function of the last bus, so it never covers the
segment. The functions of the other buses are probed once, all of them just
if none fails before the last one, and the addresses are in the region that
was mapped just if the segment begins with bus zero, there is nothing to
probe, or a failure inside of the region ends the loops. -/
theorem pci_probes_iff (e : McfgEntry) (hbus : e.bus_start ≤ e.bus_end)
    (answer : Nat × Nat × Nat → Answer) (addr : Nat) :
    (¬ ∀ bus device func, e.bus_start ≤ bus → bus ≤ e.bus_end → device < 32 → func < 8 →
      (e.probes answer).count (bus, device, func) = 1) ∧
    (e.probes answer).Nodup ∧
    ((∀ bus device func, e.bus_start ≤ bus → bus < e.bus_end → device < 32 → func < 8 →
      (bus, device, func) ∈ e.probes answer) ↔
      ∀ f ∈ e.functions, answer f = .error → f = (e.bus_end - 1, 31, 7)) ∧
    ((∀ p ∈ e.probes answer, addr ≤ PCI_CONFIG addr p.1 p.2.1 p.2.2 ∧
        PCI_CONFIG addr p.1 p.2.1 p.2.2 < addr + e.page_cnt * 4096) ↔
      e.bus_start = 0 ∨ e.bus_end ≤ e.bus_start ∨ ∃ f ∈ e.functions, answer f = .error ∧
        PCI_CONFIG addr f.1 f.2.1 f.2.2 < addr + e.page_cnt * 4096) := by
  have hmem : ∀ {f}, f ∈ e.probes answer ↔ f ∈ e.functions ∧
      ∀ g ∈ e.functions, index g < index f → answer g ≠ .error := mem_probe e.functions_sorted
  have hcnt : e.page_cnt = (e.bus_end - e.bus_start) * 256 + 255 := by
    simp only [McfgEntry.page_cnt, PCI_CONFIG]
    omega
  have hlast : ∀ {f}, f ∈ e.functions → f ≠ (e.bus_end - 1, 31, 7) →
      index f < index (e.bus_end - 1, 31, 7) := by
    rintro ⟨bus, device, func⟩ hf hne
    rw [e.mem_functions] at hf
    simp only [ne_eq, Prod.mk.injEq, index] at hne ⊢
    omega
  refine ⟨fun h => ?_, ?_, ⟨fun h f hf herr => ?_, fun h bus device func hb hb' hd hfn => ?_⟩,
    fun h => ?_, fun h p hp => ⟨by unfold PCI_CONFIG; omega, ?_⟩⟩
  · have hone := h e.bus_end 0 0 hbus le_rfl (by decide) (by decide)
    have hin := (hmem.mp (List.count_pos_iff.mp (hone ▸ Nat.one_pos))).1
    rw [e.mem_functions] at hin
    omega
  · have hnodup : e.functions.Nodup := e.functions_sorted.imp fun hlt heq => by
      rw [heq] at hlt
      omega
    exact hnodup.sublist (probe_sublist ..)
  · by_contra hne
    obtain ⟨bus, device, func⟩ := f
    have hbounds := e.mem_functions.mp hf
    have hin := hmem.mp (h (e.bus_end - 1) 31 7 (by omega) (by omega) (by decide) (by decide))
    exact hin.2 _ hf (hlast hf hne) herr
  · have hf : (bus, device, func) ∈ e.functions := e.mem_functions.mpr ⟨⟨hb, hb'⟩, hd, hfn⟩
    refine hmem.mpr ⟨hf, fun g hg hlt herr => ?_⟩
    rw [h g hg herr] at hlt
    simp only [index] at hlt
    omega
  · by_contra hnot
    simp only [not_or, not_exists, not_and] at hnot
    -- the last function is outside of the region, so it is not probed
    have hend : (e.bus_end - 1, 31, 7) ∉ e.probes answer := by
      intro hin
      have hlt := (PCI_CONFIG_lt e addr _).mp (h _ hin).2
      simp only [index, hcnt] at hlt
      omega
    have hfun : (e.bus_end - 1, 31, 7) ∈ e.functions := e.mem_functions.mpr (by omega)
    have herr : ∃ g ∈ e.functions, answer g = .error := by
      by_contra hnone
      exact hend (hmem.mpr ⟨hfun, fun g hg _ herr => hnone ⟨g, hg, herr⟩⟩)
    obtain ⟨g, hg, herr⟩ := herr
    obtain ⟨f, hf, herr⟩ := exists_error hg herr
    exact hnot.2.2 f (hmem.mp hf).1 herr (h f hf).2
  · obtain ⟨hp, hbefore⟩ := hmem.mp hp
    rw [PCI_CONFIG_lt]
    obtain ⟨bus, device, func⟩ := p
    have hbounds := e.mem_functions.mp hp
    rcases h with hzero | hempty | ⟨g, hg, herr, hlt⟩
    · rw [hcnt]
      simp only [index]
      omega
    · omega
    · have hle : ¬ index g < index (bus, device, func) := fun hlt => hbefore g hg hlt herr
      have := (PCI_CONFIG_lt e addr g).mp hlt
      omega

/-- Of a segment with the buses four to six, the last bus is not probed, and the
first address is behind the region. Where the first function fails, it is
the only one that is probed. -/
theorem pci_probes_not : ∃ e : McfgEntry, e.bus_start = 4 ∧ e.bus_end = 6 ∧
    (4, 0, 0) ∈ e.probes (fun _ => .spawned) ∧ (6, 0, 0) ∉ e.probes (fun _ => .spawned) ∧
    e.page_cnt * 4096 ≤ PCI_CONFIG 0 4 0 0 ∧ e.probes (fun _ => .error) = [(4, 0, 0)] :=
  ⟨⟨0, 4, 6⟩, rfl, rfl, by decide +kernel⟩

/-- On bus zero, nothing answers. -/
theorem pci_probes_iff_zero : (0, 31, 7) ∈ (McfgEntry.mk 0 0 1).probes (fun _ => .absent) ∧
    ∀ p ∈ (McfgEntry.mk 0 0 1).probes fun _ => .absent,
      0x1000 ≤ PCI_CONFIG 0x1000 p.1 p.2.1 p.2.2 ∧
        PCI_CONFIG 0x1000 p.1 p.2.1 p.2.2 < 0x1000 + (McfgEntry.mk 0 0 1).page_cnt * 4096 :=
  ⟨by decide +kernel,
    (pci_probes_iff ⟨0, 0, 1⟩ (by decide) (fun _ => .absent) 0x1000).2.2.2.mpr (.inl rfl)⟩

/-! ### Capabilities -/

/-- What `pci_device_bar`, `as_vmem_allocate` and the portal answer for MSI-X. -/
inductive Msix where
  | bar_failed
  | error
  | mapped

/-- Where the loop of `pci_device_spawn` goes from an offset. Zero ends it, and so
does an error; after a failed lookup it goes on without a step. -/
def next (config : Nat → BitVec 8) (msix : BitVec 8 → Msix) (offset : BitVec 8) : BitVec 8 :=
  if offset = 0 then 0
  else if config offset.toNat = 0x11 then
    match msix offset with
    | .bar_failed => offset
    | .error => 0
    | .mapped => config (offset.toNat + 1)
  else config (offset.toNat + 1)

section walk

variable (f : BitVec 8 → BitVec 8)

/-- The offsets that the loop visits, for `fuel` rounds. -/
def walk : Nat → BitVec 8 → Option (List (BitVec 8))
  | 0, _ => none
  | fuel + 1, offset => if offset = 0 then some [] else (walk fuel (f offset)).map (offset :: ·)

/-- No capability leads back to itself. -/
def Acyclic (offset : BitVec 8) : Prop :=
  ∀ n m, 0 < m → f^[m + n] offset = f^[n] offset → f^[n] offset = 0

variable {f}

theorem iterate_zero_of_walk (h : walk f fuel offset = some visited) : ∃ k, f^[k] offset = 0 := by
  induction fuel generalizing offset visited with
  | zero => cases h
  | succ fuel ih =>
    by_cases hzero : offset = 0
    · exact ⟨0, hzero⟩
    · rw [walk, if_neg hzero] at h
      obtain ⟨rest, hrest, -⟩ := Option.map_eq_some_iff.mp h
      obtain ⟨k, hk⟩ := ih hrest
      exact ⟨k + 1, hk⟩

theorem acyclic_of_iterate (hf : f 0 = 0) (h : f^[k] offset = 0) : Acyclic f offset := by
  intro n m hm hback
  have hfix : f^[m * k + n] offset = f^[n] offset := by
    rw [iterate_add_apply, iterate_mul]
    exact iterate_fixed (by rw [← iterate_add_apply, hback]) k
  have hle : k ≤ m * k + n := (Nat.le_mul_of_pos_left k hm).trans (Nat.le_add_right _ _)
  rw [← hfix, ← Nat.sub_add_cancel hle, iterate_add_apply, h]
  exact iterate_fixed hf _

theorem Acyclic.walk (h : Acyclic f offset) (hk : f^[k] offset = 0) :
    ∃ visited, Pci.walk f (k + 1) offset = some visited ∧ visited.Nodup ∧
      ∀ x ∈ visited, ∃ i, f^[i] offset = x := by
  induction k generalizing offset with
  | zero => exact ⟨[], if_pos hk, .nil, nofun⟩
  | succ k ih =>
    by_cases hzero : offset = 0
    · exact ⟨[], if_pos hzero, .nil, nofun⟩
    · obtain ⟨visited, hwalk, hnodup, hmem⟩ := ih (fun n m => h (n + 1) m) hk
      refine ⟨offset :: visited, ?_, List.nodup_cons.mpr ⟨fun hin => ?_, hnodup⟩, ?_⟩
      · rw [Pci.walk, if_neg hzero, hwalk]
        rfl
      · -- the loop would have come back
        obtain ⟨i, hi⟩ := hmem offset hin
        exact hzero (h 0 (i + 1) (Nat.succ_pos i) hi)
      · intro x hx
        obtain rfl | hx := List.mem_cons.mp hx
        · exact ⟨0, rfl⟩
        · obtain ⟨i, hi⟩ := hmem x hx
          exact ⟨i + 1, hi⟩

theorem Acyclic.iterate_zero (h : Acyclic f offset) : ∃ k, f^[k] offset = 0 := by
  -- there are more rounds than offsets
  have heq : ∃ i j, i < j ∧ f^[i] offset = f^[j] offset := by
    obtain ⟨i, j, hne, heq⟩ := Finite.exists_ne_map_eq_of_infinite fun n => (f^[n] offset).toFin
    obtain hlt | hlt := Nat.lt_or_gt_of_ne hne
    · exact ⟨i, j, hlt, BitVec.eq_of_toFin_eq heq⟩
    · exact ⟨j, i, hlt, BitVec.eq_of_toFin_eq heq.symm⟩
  obtain ⟨i, j, hlt, heq⟩ := heq
  exact ⟨i, h i (j - i) (Nat.sub_pos_of_lt hlt) (by rw [Nat.sub_add_cancel hlt.le, heq])⟩

end walk

/-- **The capability walk ends**, with each offset visited once, just if no
capability that it comes to leads back to itself. -/
theorem walk_ends_iff (config : Nat → BitVec 8) (msix : BitVec 8 → Msix) (capabilities : BitVec 8) :
    (∃ fuel visited, walk (next config msix) fuel capabilities = some visited ∧ visited.Nodup) ↔
      Acyclic (next config msix) capabilities := by
  constructor
  · rintro ⟨fuel, visited, h, -⟩
    obtain ⟨k, hk⟩ := iterate_zero_of_walk h
    exact acyclic_of_iterate rfl hk
  · intro h
    obtain ⟨k, hk⟩ := h.iterate_zero
    obtain ⟨visited, hwalk, hnodup, -⟩ := h.walk hk
    exact ⟨k + 1, visited, hwalk, hnodup⟩

/-- A capability that is its own successor, and an MSI-X capability that is the last one
and whose lookup fails. -/
theorem walk_never_ends : (∀ fuel, walk (next (fun _ => 0x40) fun _ => .mapped) fuel 0x40 = none) ∧
    ∀ fuel, walk (next (fun k => if k = 0x40 then 0x11 else 0) fun _ => .bar_failed) fuel 0x40 =
      none := by
  have hstuck : ∀ {f}, f 0x40 = 0x40 → ∀ fuel, walk f fuel 0x40 = none := by
    intro f hf fuel
    induction fuel with
    | zero => rfl
    | succ fuel ih => rw [walk, if_neg (by decide), hf, ih, Option.map_none]
  exact ⟨hstuck (by decide), hstuck (by decide)⟩

end Pci
