import Dufay.Framework.Lts
import Dufay.Framework.Radix

/-! # Page tables

`arch/amd64/paging.c`: mapping, unmapping and translation of one address,
in four- and five-level mode, with and without 1 GiB pages, and the
construction of the kernel's pmap and of new ones.

A table is named by its physical address, which is what the entries hold
(`P2V` adds a constant); `none` is the null pointer. Entries, addresses and
protections have the bits of the source. `pmm_alloc` answers with any
frame that is not a table already, zeroed; the answers come with the call.
The page tables of a CPU are read by it as they are in memory, so
`invlpg` is left out.
-/

open Lts

namespace Paging

abbrev Addr := BitVec 64
abbrev Index := BitVec 16
abbrev Entry := BitVec 64

/-- Membership in lists of addresses refers to this by name. -/
instance lawfulBEq_addr : LawfulBEq Addr := instLawfulBEq

/-! ### Entries -/

def PTE_ADDR_MASK : BitVec 64 := 0x000ffffffffff000

def PTE_GET_ADDR (value : BitVec 64) : BitVec 64 := value &&& PTE_ADDR_MASK

def PTE_GET_FLAGS (value : BitVec 64) : BitVec 64 := value &&& ~~~ PTE_ADDR_MASK

def X86_FLAGS_P : BitVec 64 := 1 <<< 0
def X86_FLAGS_RW : BitVec 64 := 1 <<< 1
def X86_FLAGS_US : BitVec 64 := 1 <<< 2
def X86_FLAGS_PS : BitVec 64 := 1 <<< 7
def X86_FLAGS_G : BitVec 64 := 1 <<< 8
def X86_FLAGS_NX : BitVec 64 := 1 <<< 63

/-- `enum vm_prot`, bit by bit. -/
structure VmProt where
  present : Bool
  write : Bool
  execute : Bool
  user : Bool
  deriving DecidableEq

/-- `enum vm_flags`, bit by bit. -/
structure VmFlags where
  large_page : Bool
  huge_page : Bool
  global : Bool
  deriving DecidableEq

def VM_PROT_ALL : VmProt := ⟨true, true, true, true⟩

def VmFlags.none : VmFlags := ⟨false, false, false⟩

def flagIf (b : Bool) (flag : BitVec 64) : BitVec 64 := if b then flag else 0

def vm_prot_to_x86 (prot : VmProt) (flags : VmFlags) : BitVec 64 :=
  flagIf prot.present X86_FLAGS_P ||| flagIf prot.write X86_FLAGS_RW |||
    flagIf (!prot.execute) X86_FLAGS_NX ||| flagIf prot.user X86_FLAGS_US |||
    flagIf flags.global X86_FLAGS_G ||| flagIf (flags.large_page || flags.huge_page) X86_FLAGS_PS

def x86_to_vm_prot (x86_flags : BitVec 64) : VmProt where
  present := x86_flags &&& X86_FLAGS_P != 0
  write := x86_flags &&& X86_FLAGS_RW != 0
  execute := x86_flags &&& X86_FLAGS_NX == 0
  user := x86_flags &&& X86_FLAGS_US != 0

def present (e : Entry) : Bool := e &&& X86_FLAGS_P != 0

/-- The entry has the bit of a large page. -/
def pageSize (e : Entry) : Bool := e &&& X86_FLAGS_PS != 0

/-- What `amd64_paging_init` finds out about the CPU. -/
structure Config where
  pml5_supported : Bool
  gib_pages_supported : Bool
  deriving DecidableEq

/-- The level of a root table. -/
def Config.levels (cfg : Config) : Nat := if cfg.pml5_supported then 5 else 4

theorem levels_ge (cfg : Config) : 4 ≤ cfg.levels := by
  unfold Config.levels
  split <;> omega

structure State where
  mem : Addr → Index → Entry
  /-- What `pmm_alloc` is going to answer. -/
  pool : List Addr
  /-- History that no step reads: the pages that were allocated as tables,
      those that were accessed as tables, and the entries that were followed. -/
  tables : List Addr
  derefs : List Addr
  follows : List Entry

/-- The state with the answers of `pmm_alloc` to the next call. -/
def State.withPool (s : State) (pool : List Addr) : State := { s with pool := pool }

/-- `pmm_alloc(1, 1)` for a table. -/
def pmm_alloc (s : State) : Option (State × Addr) :=
  match s.pool with
  | page :: pool =>
    if page ∉ s.tables ∧ PTE_GET_ADDR page = page then
      some ({ s with
        mem := Function.update s.mem page (fun _ => 0)
        pool := pool
        tables := page :: s.tables }, page)
    else none
  | [] => none

/-- An access to an entry of the table `t`. -/
def access (s : State) (t : Addr) : State := { s with derefs := t :: s.derefs }

/-- `t[index] = entry` -/
def store (s : State) (t : Addr) (index : Index) (entry : Entry) : State :=
  { access s t with mem := Radix.write s.mem t index entry }

/-! ### Walking the tables -/

structure PmlIndices where
  pml5_index : Index
  pml4_index : Index
  pml3_index : Index
  pml2_index : Index
  pml1_index : Index

def compute_table_indices (vaddr : BitVec 64) : PmlIndices where
  pml5_index := ((vaddr >>> 48) &&& 0x1ff).setWidth 16
  pml4_index := ((vaddr >>> 39) &&& 0x1ff).setWidth 16
  pml3_index := ((vaddr >>> 30) &&& 0x1ff).setWidth 16
  pml2_index := ((vaddr >>> 21) &&& 0x1ff).setWidth 16
  pml1_index := ((vaddr >>> 12) &&& 0x1ff).setWidth 16

/-- The entry that `descend_table` makes for a new table. -/
def tableEntry (page : Addr) : Entry := page ||| vm_prot_to_x86 VM_PROT_ALL .none

/-- `descend_table`; its argument `prot` is not used. What the source does when
`pmm_alloc` fails is `descend_table_total`. -/
def descend_table (s : State) (table : Addr) (index : Index) (alloc : Bool) : State × Option Addr :=
  let s := access s table
  let entry := s.mem table index
  -- entry is already present
  if present entry then
    ({ s with follows := entry :: s.follows }, some (PTE_GET_ADDR entry))
  else if !alloc then (s, none)
  else
    match pmm_alloc s with
    | some (s, page) =>
      (store s table index (tableEntry page), some (PTE_GET_ADDR (tableEntry page)))
    | none => (s, none)

/-- The first lines of the walk: from `pml5` to `pml4`, which are one table in
four-level mode. -/
def descend_pml5 (cfg : Config) (s : State) (pml5 : Addr) (indices : PmlIndices) (alloc : Bool) :
    State × Option Addr :=
  if cfg.pml5_supported then descend_table s pml5 indices.pml5_index alloc else (s, some pml5)

/-- `pmap_map`, if `pmm_alloc` has enough answers. -/
def pmap_map (cfg : Config) (s : State) (pmlt : Addr) (vaddr paddr : BitVec 64) (prot : VmProt)
    (flags : VmFlags) : Option State :=
  let indices := compute_table_indices vaddr
  let leaf := paddr ||| vm_prot_to_x86 prot flags
  match descend_pml5 cfg s pmlt indices true with
  | (_, none) => none
  | (s, some pml4) =>
    match descend_table s pml4 indices.pml4_index true with
    | (_, none) => none
    | (s, some pml3) =>
      -- 1 gb page mapping
      if flags.huge_page && cfg.gib_pages_supported then
        some (store s pml3 indices.pml3_index leaf)
      else
        match descend_table s pml3 indices.pml3_index true with
        | (_, none) => none
        | (s, some pml2) =>
          -- 2 mb page mapping
          if flags.huge_page || flags.large_page then
            some (store s pml2 indices.pml2_index leaf)
          else
            match descend_table s pml2 indices.pml2_index true with
            | (_, none) => none
            | (s, some pml1) => some (store s pml1 indices.pml1_index leaf)

def pmap_unmap (cfg : Config) (s : State) (pmlt : Addr) (vaddr : BitVec 64) : State :=
  let indices := compute_table_indices vaddr
  match descend_pml5 cfg s pmlt indices false with
  | (s, none) => s
  | (s, some pml4) =>
    match descend_table s pml4 indices.pml4_index false with
    | (s, none) => s
    | (s, some pml3) =>
      let s := access s pml3
      -- 1 gb page mapping
      if pageSize (s.mem pml3 indices.pml3_index) then store s pml3 indices.pml3_index 0
      else
        match descend_table s pml3 indices.pml3_index false with
        | (s, none) => s
        | (s, some pml2) =>
          let s := access s pml2
          -- 2 mb page mapping
          if pageSize (s.mem pml2 indices.pml2_index) then store s pml2 indices.pml2_index 0
          else
            match descend_table s pml2 indices.pml2_index false with
            | (s, none) => s
            | (s, some pml1) => store s pml1 indices.pml1_index 0

/-- What `pmap_translate` writes through its pointers; it leaves `flags` alone
for a 4 KiB page. -/
structure Translation where
  outpaddr : BitVec 64
  flags : Option VmFlags
  prot : VmProt
  deriving DecidableEq

section
variable (cfg : Config) (s : State) (pmlt : Addr) (vaddr : BitVec 64)

/-- `pmap_translate`; `none` is the result -1. -/
def pmap_translate : State × Option Translation :=
  let indices := compute_table_indices vaddr
  match descend_pml5 cfg s pmlt indices false with
  | (s, none) => (s, none)
  | (s, some pml4) =>
    match descend_table s pml4 indices.pml4_index false with
    | (s, none) => (s, none)
    | (s, some pml3) =>
      let s := access s pml3
      let pml3e := s.mem pml3 indices.pml3_index
      if pageSize pml3e then
        (access s pml3, some
          { outpaddr := PTE_GET_ADDR pml3e
            flags := some ⟨false, true, false⟩
            prot := x86_to_vm_prot (PTE_GET_FLAGS pml3e) })
      else
        match descend_table s pml3 indices.pml3_index false with
        | (s, none) => (s, none)
        | (s, some pml2) =>
          let s := access s pml2
          let pml2e := s.mem pml2 indices.pml2_index
          if pageSize pml2e then
            (access s pml2, some
              { outpaddr := PTE_GET_ADDR pml2e
                flags := some ⟨true, false, false⟩
                -- of the entry above the page
                prot := x86_to_vm_prot (PTE_GET_FLAGS (s.mem pml3 indices.pml3_index)) })
          else
            match descend_table s pml2 indices.pml2_index false with
            | (s, none) => (s, none)
            | (s, some pml1) =>
              let pml1e := s.mem pml1 indices.pml1_index
              if !present pml1e then (access s pml1, none)
              else
                (access s pml1, some
                  { outpaddr := PTE_GET_ADDR pml1e
                    flags := none
                    prot := x86_to_vm_prot (PTE_GET_FLAGS pml1e) })

/-- `amd64_page_entry`: the table and the index of the entry it points to. -/
def amd64_page_entry : State × Option (Addr × Index) :=
  let indices := compute_table_indices vaddr
  match descend_pml5 cfg s pmlt indices false with
  | (s, none) => (s, none)
  | (s, some pml4) =>
    match descend_table s pml4 indices.pml4_index false with
    | (s, none) => (s, none)
    | (s, some pml3) =>
      let s := access s pml3
      if pageSize (s.mem pml3 indices.pml3_index) then (s, some (pml3, indices.pml3_index))
      else
        match descend_table s pml3 indices.pml3_index false with
        | (s, none) => (s, none)
        | (s, some pml2) =>
          let s := access s pml2
          if pageSize (s.mem pml2 indices.pml2_index) then (s, some (pml2, indices.pml2_index))
          else
            match descend_table s pml2 indices.pml2_index false with
            | (s, none) => (s, none)
            | (s, some pml1) => (s, some (pml1, indices.pml1_index))

end

/-! ### Roots -/

/-- The loop of `pmap_init_kernel` over the indices that are left. -/
def preallocate (s : State) (pmlt : Addr) : List Nat → Option State
  | [] => some s
  | i :: is =>
    match descend_table s pmlt (BitVec.ofNat 16 i) true with
    | (_, none) => none
    | (s, some _) => preallocate s pmlt is

def upperHalf : List Nat := List.range' 256 256

/-- `pmap_init_kernel`: the new state and `kernel_pmap.pmlt`. -/
def pmap_init_kernel (s : State) : Option (State × Addr) :=
  match pmm_alloc s with
  | none => none
  | some (s, pmlt) => (preallocate s pmlt upperHalf).map fun s => (s, pmlt)

/-- The loop of `pmap_new`. -/
def copyEntries (s : State) (pmlt kernel : Addr) : List Nat → State
  | [] => s
  | i :: is =>
    copyEntries (store (access s kernel) pmlt (BitVec.ofNat 16 i)
      (s.mem kernel (BitVec.ofNat 16 i))) pmlt kernel is

/-- `pmap_new`: the new state and `pmap->pmlt`. -/
def pmap_new (s : State) (kernel : Addr) : Option (State × Addr) :=
  match pmm_alloc s with
  | none => none
  | some (s, pmlt) => some (copyEntries s pmlt kernel upperHalf, pmlt)

/-! ### Lemmas about entries -/

theorem and_or_right (a b c : BitVec 64) : (a ||| b) &&& c = (a &&& c) ||| (b &&& c) := by
  ext i
  simp [Bool.and_or_distrib_right]

theorem vm_prot_to_x86_addr (prot : VmProt) (flags : VmFlags) :
    PTE_GET_ADDR (vm_prot_to_x86 prot flags) = 0 := by
  obtain ⟨p, w, x, u⟩ := prot
  obtain ⟨l, h, g⟩ := flags
  revert p w x u l h g
  decide

theorem get_addr_or_flags (h : PTE_GET_ADDR addr = addr) (prot : VmProt)
    (flags : VmFlags) : PTE_GET_ADDR (addr ||| vm_prot_to_x86 prot flags) = addr := by
  have hflags := vm_prot_to_x86_addr prot flags
  unfold PTE_GET_ADDR at *
  rw [and_or_right, h, hflags]
  simp

theorem and_flag_of_addr (h : PTE_GET_ADDR addr = addr)
    (hflag : PTE_GET_ADDR flag = 0) : addr &&& flag = 0 := by
  unfold PTE_GET_ADDR at *
  calc addr &&& flag = (addr &&& PTE_ADDR_MASK) &&& flag := by rw [h]
    _ = addr &&& (flag &&& PTE_ADDR_MASK) := by rw [BitVec.and_assoc, BitVec.and_comm flag]
    _ = 0 := by rw [hflag]; simp

theorem or_flags_and (h : PTE_GET_ADDR addr = addr)
    (hflag : PTE_GET_ADDR flag = 0) (x : BitVec 64) : (addr ||| x) &&& flag = x &&& flag := by
  rw [and_or_right, and_flag_of_addr h hflag]
  simp

@[simp] theorem get_addr_tableEntry (h : PTE_GET_ADDR page = page) :
    PTE_GET_ADDR (tableEntry page) = page := get_addr_or_flags h _ _

@[simp] theorem present_tableEntry (h : PTE_GET_ADDR page = page) :
    present (tableEntry page) = true := by
  unfold present tableEntry
  rw [or_flags_and h (by decide)]
  decide

@[simp] theorem pageSize_tableEntry (h : PTE_GET_ADDR page = page) :
    pageSize (tableEntry page) = false := by
  unfold pageSize tableEntry
  rw [or_flags_and h (by decide)]
  decide

@[simp] theorem present_zero : present 0#64 = false := by decide

@[simp] theorem pageSize_zero : pageSize 0#64 = false := by decide

theorem get_flags_and (hflag : ~~~ PTE_ADDR_MASK &&& flag = flag) : PTE_GET_FLAGS e &&& flag = e &&&
    flag := by
  unfold PTE_GET_FLAGS
  rw [BitVec.and_assoc, hflag]

theorem x86_to_vm_prot_leaf (h : PTE_GET_ADDR paddr = paddr) (prot : VmProt) (flags : VmFlags) :
    x86_to_vm_prot (PTE_GET_FLAGS (paddr ||| vm_prot_to_x86 prot flags)) = prot := by
  unfold x86_to_vm_prot
  rw [get_flags_and (by decide), get_flags_and (by decide), get_flags_and (by decide),
    get_flags_and (by decide), or_flags_and h (by decide), or_flags_and h (by decide),
    or_flags_and h (by decide), or_flags_and h (by decide)]
  obtain ⟨p, w, x, u⟩ := prot
  obtain ⟨l, h', g⟩ := flags
  revert p w x u l h' g
  decide

theorem present_leaf (h : PTE_GET_ADDR paddr = paddr) (prot : VmProt)
    (flags : VmFlags) : present (paddr ||| vm_prot_to_x86 prot flags) = prot.present := by
  unfold present
  rw [or_flags_and h (by decide)]
  obtain ⟨p, w, x, u⟩ := prot
  obtain ⟨l, h', g⟩ := flags
  revert p w x u l h' g
  decide

theorem get_addr_of_aligned (halign : paddr.toNat % 4096 = 0)
    (hlt : paddr.toNat < 4503599627370496) : PTE_GET_ADDR paddr = paddr := by
  obtain ⟨m, hm⟩ : ∃ m, paddr.toNat = m <<< 12 :=
    ⟨paddr.toNat / 4096, by rw [Nat.shiftLeft_eq]; omega⟩
  have hmlt : m < 1099511627776 := by
    rw [Nat.shiftLeft_eq] at hm
    omega
  have hmask : PTE_ADDR_MASK.toNat = 1099511627775 <<< 12 := by decide
  have hbits : m &&& 1099511627775 = m :=
    (Nat.and_two_pow_sub_one_eq_mod m 40).trans (Nat.mod_eq_of_lt hmlt)
  apply BitVec.eq_of_toNat_eq
  rw [PTE_GET_ADDR, BitVec.toNat_and, hmask, hm, ← Nat.shiftLeft_and_distrib, hbits]

theorem pageSize_leaf (paddr : BitVec 64) (prot : VmProt)
    (h : (flags.large_page || flags.huge_page) = true) :
    pageSize (paddr ||| vm_prot_to_x86 prot flags) = true := by
  have hbit : vm_prot_to_x86 prot flags &&& X86_FLAGS_PS = X86_FLAGS_PS := by
    obtain ⟨p, w, x, u⟩ := prot
    obtain ⟨l, h', g⟩ := flags
    revert p w x u l h' g
    decide
  unfold pageSize
  rw [and_or_right, hbit]
  simp only [bne_iff_ne, ne_eq]
  intro hzero
  have := congrArg (fun v : BitVec 64 => v.getLsbD 7) hzero
  simp [X86_FLAGS_PS] at this

theorem index_toNat (v : BitVec 64) (k : Nat) :
    (((v >>> k) &&& 0x1ff).setWidth 16 : Index).toNat = v.toNat >>> k % 512 := by
  have hmask : v.toNat >>> k &&& 511 = v.toNat >>> k % 512 := Nat.and_two_pow_sub_one_eq_mod _ 9
  have hbits : ((v >>> k) &&& 0x1ff).toNat = v.toNat >>> k % 512 := by
    rw [BitVec.toNat_and, BitVec.toNat_ushiftRight]
    exact hmask
  rw [BitVec.toNat_setWidth, hbits]
  omega

/-! ### What the walk does -/

def next_table (mem : Addr → Index → Entry) (t : Addr) (i : Index) : Option Addr :=
  if present (mem t i) then some (PTE_GET_ADDR (mem t i)) else none

/-- The state after a present entry was followed. -/
def follow (s : State) (t : Addr) (i : Index) : State :=
  { access s t with follows := s.mem t i :: s.follows }

/-- The state after a walk has looked at an entry. -/
def visit (s : State) (t : Addr) (i : Index) : State :=
  if present (s.mem t i) then follow s t i else access s t

@[simp] theorem access_mem (s : State) (t : Addr) : (access s t).mem = s.mem := rfl

@[simp] theorem access_tables : (access s t).tables = s.tables := rfl

@[simp] theorem visit_mem (s : State) (t : Addr) (i : Index) : (visit s t i).mem = s.mem := by
  unfold visit
  split <;> rfl

@[simp] theorem visit_tables : (visit s t i).tables = s.tables := by
  unfold visit
  split <;> rfl

theorem descend_table_false (s : State) (t : Addr) (i : Index) :
    descend_table s t i false = (visit s t i, next_table s.mem t i) := by
  unfold descend_table next_table visit
  by_cases h : present (s.mem t i) = true <;> simp [access, follow, h]

/-- The state after a new table was linked in. -/
def link (s : State) (t : Addr) (i : Index) (page : Addr) (pool : List Addr) : State :=
  store { s with
    mem := Function.update s.mem page (fun _ => 0)
    pool := pool
    tables := page :: s.tables } t i (tableEntry page)

theorem descend_table_true (h : descend_table s t i true = (s', some y)) :
    (present (s.mem t i) = true ∧ s' = follow s t i ∧ y = PTE_GET_ADDR (s.mem t i)) ∨
    (present (s.mem t i) = false ∧ ∃ pool, s.pool = y :: pool ∧ y ∉ s.tables ∧
      PTE_GET_ADDR y = y ∧ s' = link (access s t) t i y pool) := by
  unfold descend_table at h
  by_cases hp : present (s.mem t i) = true
  · left
    simp only [access, hp, if_true, Prod.mk.injEq, Option.some.injEq] at h
    exact ⟨hp, h.1.symm, h.2.symm⟩
  · right
    have hp' : present (s.mem t i) = false := by simpa using hp
    simp only [access, hp', Bool.false_eq_true, if_false, Bool.not_true] at h
    unfold pmm_alloc at h
    cases hpool : s.pool with
    | nil => simp [hpool] at h
    | cons page pool =>
      simp only [hpool] at h
      split at h
      · next s1 page1 hsome =>
        split at hsome
        · next hfresh =>
          cases hsome
          simp only [Prod.mk.injEq, Option.some.injEq] at h
          obtain ⟨hs, hy⟩ := h
          rw [get_addr_tableEntry hfresh.2] at hy
          subst hy
          exact ⟨hp', pool, rfl, hfresh.1, hfresh.2, hs.symm⟩
        · cases hsome
      · cases h

theorem pmap_map_inv (h : pmap_map cfg s pmlt vaddr paddr prot flags = some s') :
    ∃ s1 pml4 s2 pml3, descend_pml5 cfg s pmlt (compute_table_indices vaddr) true = (s1, some pml4)
      ∧
      descend_table s1 pml4 (compute_table_indices vaddr).pml4_index true = (s2, some pml3) ∧
      (((flags.huge_page && cfg.gib_pages_supported) = true ∧
          s' = store s2 pml3 (compute_table_indices vaddr).pml3_index
            (paddr ||| vm_prot_to_x86 prot flags)) ∨
        ((flags.huge_page && cfg.gib_pages_supported) = false ∧ ∃ s3 pml2,
          descend_table s2 pml3 (compute_table_indices vaddr).pml3_index true = (s3, some pml2) ∧
          (((flags.huge_page || flags.large_page) = true ∧
              s' = store s3 pml2 (compute_table_indices vaddr).pml2_index
                (paddr ||| vm_prot_to_x86 prot flags)) ∨
            ((flags.huge_page || flags.large_page) = false ∧ ∃ s4 pml1,
              descend_table s3 pml2 (compute_table_indices vaddr).pml2_index true
                = (s4, some pml1) ∧
              s' = store s4 pml1 (compute_table_indices vaddr).pml1_index
                (paddr ||| vm_prot_to_x86 prot flags))))) := by
  simp only [pmap_map] at h
  split at h
  · cases h
  · next s1 pml4 h1 =>
    split at h
    · cases h
    · next s2 pml3 h2 =>
      refine ⟨s1, pml4, s2, pml3, h1, h2, ?_⟩
      split at h
      · next hhuge =>
        cases h
        exact .inl ⟨hhuge, rfl⟩
      · next hhuge =>
        refine .inr ⟨by simpa using hhuge, ?_⟩
        split at h
        · cases h
        · next s3 pml2 h3 =>
          refine ⟨s3, pml2, h3, ?_⟩
          split at h
          · next hlarge =>
            cases h
            exact .inl ⟨hlarge, rfl⟩
          · next hlarge =>
            refine .inr ⟨by simpa using hlarge, ?_⟩
            split at h
            · cases h
            · next s4 pml1 h4 =>
              cases h
              exact ⟨s4, pml1, h4, rfl⟩

theorem amd64_page_entry_users (cfg : Config) (s : State) (pmlt : Addr) (vaddr : BitVec 64) :
    (pmap_unmap cfg s pmlt vaddr =
      match amd64_page_entry cfg s pmlt vaddr with
      | (s, none) => s
      | (s, some (t, i)) => store s t i 0) ∧
    (pmap_translate cfg s pmlt vaddr).1 =
      match amd64_page_entry cfg s pmlt vaddr with
      | (s, none) => s
      | (s, some (t, _)) => access s t := by
  simp only [pmap_unmap, pmap_translate, amd64_page_entry]
  rcases descend_pml5 cfg s pmlt (compute_table_indices vaddr) false with ⟨s1, _ | pml4⟩
  · exact ⟨rfl, rfl⟩
  · dsimp only
    rcases descend_table s1 pml4 _ false with ⟨s2, _ | pml3⟩
    · exact ⟨rfl, rfl⟩
    · dsimp only
      split
      · exact ⟨rfl, rfl⟩
      · rcases descend_table (access s2 pml3) pml3 _ false with ⟨s3, _ | pml2⟩
        · exact ⟨rfl, rfl⟩
        · dsimp only
          split
          · exact ⟨rfl, rfl⟩
          · rcases descend_table (access s3 pml2) pml2 _ false with ⟨s4, _ | pml1⟩
            · exact ⟨rfl, rfl⟩
            · refine ⟨rfl, ?_⟩
              dsimp only
              split <;> rfl

/-- The part of `pmap_translate` from the third level on, as a function of the
memory. -/
def translate_pml3 (mem : Addr → Index → Entry) (indices : PmlIndices) (pml3 : Addr) :
    Option Translation :=
  let pml3e := mem pml3 indices.pml3_index
  if pageSize pml3e then
    some ⟨PTE_GET_ADDR pml3e, some ⟨false, true, false⟩, x86_to_vm_prot (PTE_GET_FLAGS pml3e)⟩
  else
    (next_table mem pml3 indices.pml3_index).bind fun pml2 =>
      let pml2e := mem pml2 indices.pml2_index
      if pageSize pml2e then
        some ⟨PTE_GET_ADDR pml2e, some ⟨true, false, false⟩, x86_to_vm_prot (PTE_GET_FLAGS pml3e)⟩
      else
        (next_table mem pml2 indices.pml2_index).bind fun pml1 =>
          let pml1e := mem pml1 indices.pml1_index
          if present pml1e then
            some ⟨PTE_GET_ADDR pml1e, none, x86_to_vm_prot (PTE_GET_FLAGS pml1e)⟩
          else none

def pml4_of (cfg : Config) (mem : Addr → Index → Entry) (pmlt : Addr) (indices : PmlIndices) :
    Option Addr :=
  if cfg.pml5_supported then next_table mem pmlt indices.pml5_index else some pmlt

section
variable (cfg : Config) (s : State) (pmlt : Addr) (indices : PmlIndices)

/-- The state after the first lines of a walk. -/
def visit_pml5 : State :=
  if cfg.pml5_supported then visit s pmlt indices.pml5_index else s

@[simp] theorem visit_pml5_mem : (visit_pml5 cfg s pmlt indices).mem = s.mem := by
  unfold visit_pml5
  split
  · exact visit_mem ..
  · rfl

end

@[simp] theorem visit_pml5_tables : (visit_pml5 cfg s pmlt indices).tables = s.tables := by
  unfold visit_pml5
  split
  · exact visit_tables ..
  · rfl

theorem descend_pml5_false (cfg : Config) (s : State) (pmlt : Addr) (indices : PmlIndices) :
    descend_pml5 cfg s pmlt indices false =
      (visit_pml5 cfg s pmlt indices, pml4_of cfg s.mem pmlt indices) := by
  unfold descend_pml5 pml4_of visit_pml5
  split
  · exact descend_table_false ..
  · rfl

/-- The part of `amd64_page_entry` from the third level on. -/
def page_entry_pml3 (mem : Addr → Index → Entry) (indices : PmlIndices) (pml3 : Addr) :
    Option (Addr × Index) :=
  if pageSize (mem pml3 indices.pml3_index) then some (pml3, indices.pml3_index)
  else
    (next_table mem pml3 indices.pml3_index).bind fun pml2 =>
      if pageSize (mem pml2 indices.pml2_index) then some (pml2, indices.pml2_index)
      else
        (next_table mem pml2 indices.pml2_index).bind fun pml1 => some (pml1, indices.pml1_index)

section
variable (cfg : Config) (s : State) (pmlt : Addr) (vaddr : BitVec 64)

theorem amd64_page_entry_spec : (amd64_page_entry cfg s pmlt vaddr).1.mem = s.mem ∧
      (amd64_page_entry cfg s pmlt vaddr).1.tables = s.tables ∧
      (amd64_page_entry cfg s pmlt vaddr).2 =
        (pml4_of cfg s.mem pmlt (compute_table_indices vaddr)).bind fun pml4 =>
          (next_table s.mem pml4 (compute_table_indices vaddr).pml4_index).bind fun pml3 =>
            page_entry_pml3 s.mem (compute_table_indices vaddr) pml3 := by
  simp only [amd64_page_entry, descend_pml5_false]
  cases pml4_of cfg s.mem pmlt (compute_table_indices vaddr) with
  | none => simp
  | some pml4 =>
    simp only [descend_table_false, visit_pml5_mem, Option.bind_some]
    cases next_table s.mem pml4 (compute_table_indices vaddr).pml4_index with
    | none => simp
    | some pml3 =>
      simp only [page_entry_pml3, access_mem, visit_mem, visit_pml5_mem, Option.bind_some]
      split
      · simp
      · cases next_table s.mem pml3 (compute_table_indices vaddr).pml3_index with
        | none => simp
        | some pml2 =>
          simp only [access_mem, visit_mem, visit_pml5_mem, Option.bind_some]
          split
          · simp
          · cases next_table s.mem pml2 (compute_table_indices vaddr).pml2_index <;> simp

theorem pmap_translate_snd : (pmap_translate cfg s pmlt vaddr).2 =
      (pml4_of cfg s.mem pmlt (compute_table_indices vaddr)).bind fun pml4 =>
        (next_table s.mem pml4 (compute_table_indices vaddr).pml4_index).bind fun pml3 =>
          translate_pml3 s.mem (compute_table_indices vaddr) pml3 := by
  simp only [pmap_translate, descend_pml5_false]
  cases pml4_of cfg s.mem pmlt (compute_table_indices vaddr) with
  | none => rfl
  | some pml4 =>
    simp only [descend_table_false, visit_pml5_mem, Option.bind_some]
    cases next_table s.mem pml4 (compute_table_indices vaddr).pml4_index with
    | none => rfl
    | some pml3 =>
      simp only [translate_pml3, access_mem, visit_mem, visit_pml5_mem, Option.bind_some]
      split
      · rfl
      · cases next_table s.mem pml3 (compute_table_indices vaddr).pml3_index with
        | none => rfl
        | some pml2 =>
          simp only [access_mem, visit_mem, visit_pml5_mem, Option.bind_some]
          split
          · rfl
          · cases next_table s.mem pml2 (compute_table_indices vaddr).pml2_index with
            | none => rfl
            | some pml1 =>
              simp only [access_mem, visit_mem, visit_pml5_mem, Option.bind_some]
              cases present (s.mem pml1 (compute_table_indices vaddr).pml1_index) <;> rfl

end

end Paging
