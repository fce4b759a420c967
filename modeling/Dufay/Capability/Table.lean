import Dufay.Framework.Lts
import Dufay.Capability.Object

/-! # Capability tables

`capability_lookup`, `capability_create` and `capability_destroy` of
`core/capability.c`, on one table.

A table is a bitmap of the handles in use and a vector of bindings. What
`bitmap_alloc` answers is chosen by the action: failure, or a clear bit
that it sets, in a bitmap that may have grown. Behind the vector and the
bitmap is memory that the functions reach as well, since nothing stops
them.

`capability_lookup` sets the bit of a handle instead of testing it.
-/

open Lts Memory Function

namespace Capability

/-- `struct capability_binding` -/
structure Binding where
  access : UInt8
  obj : Nat
  deriving DecidableEq

/-- `struct bitmap`. The data is the memory from the pointer on, or `none`
for a null pointer. -/
structure Bitmap where
  data : Option Mem
  size : Nat
  resizable : Bool

/-- `struct capability_table`. The bindings are the memory from the pointer
of the vector on. -/
structure Table where
  values : Nat → Binding
  length : Nat
  bitmap : Bitmap

def capability_table_init (table : Table) : Table :=
  { table with
    length := 0
    bitmap := { table.bitmap with size := 64, resizable := true } }

/-! ### The bitmap and the vector -/

def Bitmap.test (b : Bitmap) (i : Nat) : Bool := decide (i < b.size) &&
    match b.data with
    | some d => bit d i
    | none => false

/-- A successful answer of `bitmap_alloc`. -/
structure Alloc where
  free_bit : Nat
  size : Nat
  data : Mem

/-- What `bitmap_alloc` may answer: a bit that was clear is set, no other bit
changes, and the bitmap grows if it may. -/
@[mk_iff] structure Alloc.Possible (b : Bitmap) (a : Alloc) : Prop where
  lt : a.free_bit < a.size
  grows : b.size ≤ a.size
  /-- The size is an `int`. -/
  int : a.size < 2 ^ 31
  resizable : b.resizable = false → a.size = b.size
  clear : b.test a.free_bit = false
  bits : ∀ i < a.size, bit a.data i = (decide (i = a.free_bit) || b.test i)

instance (b : Bitmap) (a : Alloc) : Decidable (a.Possible b) :=
  decidable_of_iff' _ (Alloc.possible_iff ..)

/-- `bitmap_free` is of a library; `capability_destroy` gives it the handle
that `bitmap_alloc` had set the bit of. -/
def bitmap_free (b : Bitmap) (i : Nat) : Bitmap :=
  { b with data := b.data.map fun d => BIT_CLEAR d 0 i }

/-- `VECTOR_INDEX(values, {}, i)`: the slots up to `i` exist, and the new ones
are empty bindings. It is of a library; `capability_create` calls it before
it stores into `values.data[i]`. -/
def VECTOR_INDEX (table : Table) (i : Nat) : Table :=
  { table with
    values := fun j => if table.length ≤ j ∧ j ≤ i then ⟨0, 0⟩ else table.values j
    length := max table.length (i + 1) }

/-- `(int)handle` -/
def toInt (handle : UInt32) : Int := handle.toBitVec.toInt

/-- The check at the top of `capability_lookup`. -/
def rejects (table : Table) (handle : UInt32) : Bool :=
  decide ((table.bitmap.size : Int) < toInt handle) || table.bitmap.data.isNone

/-- The binding, and the table after the call. `BIT_SET` evaluates to the
byte that it has updated. -/
def capability_lookup (table : Table) (handle : UInt32) : Option Binding × Table :=
  if rejects table handle then (none, table)
  else
    match table.bitmap.data with
    | none => (none, table)
    | some d =>
      let d' := BIT_SET d 0 handle.toNat
      let table' := { table with bitmap := { table.bitmap with data := some d' } }
      if d' (handle.toNat / 8) ≠ 0 then (some (table.values handle.toNat), table')
      else (none, table')

/-- The handle or an error; `none` if the answer of `bitmap_alloc` is not
possible. -/
def capability_create (table : Table) (objects : Objects) (obj : Nat) (access : UInt8)
    (answer : Option Alloc) : Option (Option Nat × Table × Objects) :=
  match answer with
  | none => some (none, table, objects)
  | some a =>
    if a.Possible table.bitmap then
      let table' := VECTOR_INDEX
        { table with bitmap := { table.bitmap with data := some a.data, size := a.size } }
        a.free_bit
      some (some a.free_bit,
        { table' with values := update table'.values a.free_bit ⟨access, obj⟩ },
        object_retain objects obj)
    else none

/-- Whether it succeeds, and what is left. -/
def capability_destroy (table : Table) (objects : Objects) (handle : UInt32) :
    Bool × Table × Objects :=
  match capability_lookup table handle with
  | (none, table') => (false, table', objects)
  | (some binding, table') =>
    (true, { table' with bitmap := bitmap_free table'.bitmap handle.toNat },
      object_release objects binding.obj)

/-! ### What the functions do -/

variable {table table' : Table} {objects objects' : Objects}

theorem toInt_of_lt (h : handle.toNat < 2 ^ 31) : toInt handle = handle.toNat := by
  have heq : handle.toBitVec.toNat = handle.toNat := rfl
  rw [toInt, BitVec.toInt_eq_toNat_of_lt (by omega), heq]

theorem BIT_SET_ne_zero : BIT_SET d 0 i (i / 8) ≠ 0 := by
  intro hzero
  have hbit : bit (BIT_SET d 0 i) i = true := by simp
  rw [bit, hzero] at hbit
  simp at hbit

theorem capability_lookup_eq (table : Table) (handle : UInt32) : capability_lookup table handle =
      if rejects table handle then (none, table)
      else (some (table.values handle.toNat),
        { table with
          bitmap := { table.bitmap with
            data := table.bitmap.data.map fun d => BIT_SET d 0 handle.toNat } }) := by
  unfold capability_lookup
  split
  · rfl
  · next hrej =>
    cases hd : table.bitmap.data with
    | none => simp [rejects, hd] at hrej
    | some d =>
      simp only [Option.map_some]
      rw [if_pos (BIT_SET_ne_zero)]

theorem capability_lookup_of_rejects (hrej : rejects table handle = true) :
    capability_lookup table handle = (none, table) := by
  rw [capability_lookup_eq, if_pos hrej]

theorem capability_lookup_of_not_rejects (hrej : ¬ rejects table handle = true) :
    ∃ table', capability_lookup table handle = (some (table.values handle.toNat), table') :=
  ⟨_, by rw [capability_lookup_eq, if_neg hrej]⟩

theorem capability_lookup_keeps (table : Table) (handle : UInt32) :
    (capability_lookup table handle).2.values = table.values ∧
      ∀ other, rejects (capability_lookup table handle).2 other = rejects table other := by
  rw [capability_lookup_eq]
  split
  · exact ⟨rfl, fun _ => rfl⟩
  · exact ⟨rfl, fun other => by simp [rejects]⟩

theorem capability_lookup_idem (table : Table) (handle : UInt32) :
    capability_lookup (capability_lookup table handle).2 handle =
      capability_lookup table handle := by
  obtain ⟨hvalues, hrej⟩ := capability_lookup_keeps table handle
  rw [capability_lookup_eq (capability_lookup table handle).2, hrej, hvalues, capability_lookup_eq]
  by_cases h : rejects table handle = true
  · simp only [h, if_true]
  · have hidem : ∀ d, BIT_SET (BIT_SET d 0 handle.toNat) 0 handle.toNat =
        BIT_SET d 0 handle.toNat := by
      intro d
      apply ext_bit
      intro n
      simp
    simp [h, Function.comp_def, hidem]

/-- The table keeps the handles in `live`: their bits are set and their
slots hold their bindings. -/
structure TableOk (table : Table) (live : Nat → Option Binding) : Prop where
  int : table.bitmap.size < 2 ^ 31
  bit : ∀ h, live h ≠ none → table.bitmap.test h = true
  value : ∀ h b, live h = some b → h < table.length ∧ table.values h = b

variable {live : Nat → Option Binding}

theorem TableOk.init (table : Table) : TableOk (capability_table_init table) fun _ => none where
  int := by
    simp only [capability_table_init]
    decide
  bit := fun _ h => absurd rfl h
  value := fun _ _ h => by cases h

theorem Bitmap.test_eq_true {b : Bitmap} :
    b.test i = true ↔ i < b.size ∧ ∃ d, b.data = some d ∧ bit d i = true := by
  unfold Bitmap.test
  cases b.data <;> simp

theorem TableOk.lookup (h : TableOk table live) (handle : UInt32) :
    TableOk (capability_lookup table handle).2 live := by
  rw [capability_lookup_eq]
  split
  · exact h
  · refine ⟨h.int, fun i hi => ?_, h.value⟩
    obtain ⟨hlt, d, hd, hbit⟩ := Bitmap.test_eq_true.mp (h.bit i hi)
    exact Bitmap.test_eq_true.mpr ⟨hlt, BIT_SET d 0 handle.toNat, by simp [hd], by simp [hbit]⟩

theorem TableOk.lookup_live (h : TableOk table live) (hlive : live handle.toNat = some b) :
    capability_lookup table handle = (some b, table) ∧ rejects table handle = false := by
  have hint := h.int
  obtain ⟨hlt, d, hd, hbit⟩ := Bitmap.test_eq_true.mp (h.bit handle.toNat (by simp [hlive]))
  have hrej : rejects table handle = false := by
    rw [rejects, toInt_of_lt (by omega), hd]
    simp only [Option.isNone_some, Bool.or_false, decide_eq_false_iff_not]
    omega
  have hsame : BIT_SET d 0 handle.toNat = d := by
    apply ext_bit
    intro n
    rw [bit_BIT_SET]
    by_cases hn : n = handle.toNat
    · subst hn
      simp [hbit]
    · simp [hn]
  refine ⟨?_, hrej⟩
  rw [capability_lookup_eq, hrej, (h.value _ b hlive).2]
  simp only [Bool.false_eq_true, if_false, hd, Option.map_some, hsame]
  rw [← hd]

theorem TableOk.create (h : TableOk table live)
    (hcreate : capability_create table objects obj access answer =
      some (some handle, table', objects')) :
    live handle = none ∧ TableOk table' (update live handle (some ⟨access, obj⟩)) ∧
      objects' = object_retain objects obj ∧
      (∀ i, i ≠ handle → table'.values i = table.values i ∨ table'.values i = ⟨0, 0⟩) ∧
      table'.values handle = ⟨access, obj⟩ := by
  unfold capability_create at hcreate
  split at hcreate
  · cases hcreate
  · next a =>
    split at hcreate
    · next hok =>
      cases hcreate
      have hdead : live a.free_bit = none := by
        by_contra hne
        have hclear := hok.clear
        rw [h.bit _ hne] at hclear
        cases hclear
      refine ⟨hdead, ⟨hok.int, ?_, ?_⟩, rfl, ?_, update_self _ _ _⟩
      · intro i hi
        have hbits := hok.bits i
        by_cases hfree : i = a.free_bit
        · subst hfree
          exact Bitmap.test_eq_true.mpr ⟨hok.lt, a.data, rfl, by simp [hbits hok.lt]⟩
        · rw [update_of_ne hfree] at hi
          have htest := h.bit i hi
          have hlt := (Bitmap.test_eq_true.mp htest).1
          have hlt' : i < a.size := hlt.trans_le hok.grows
          exact Bitmap.test_eq_true.mpr ⟨hlt', a.data, rfl, by simp [hbits hlt', htest]⟩
      · intro i b hi
        by_cases hfree : i = a.free_bit
        · subst hfree
          rw [update_self] at hi
          cases hi
          exact ⟨by simp [VECTOR_INDEX], update_self _ _ _⟩
        · rw [update_of_ne hfree] at hi
          obtain ⟨hlen, hval⟩ := h.value i b hi
          refine ⟨by simp only [VECTOR_INDEX]; omega, ?_⟩
          simp only [VECTOR_INDEX, update_of_ne hfree]
          rw [if_neg (by omega)]
          exact hval
      · intro i hi
        simp only [VECTOR_INDEX, update_of_ne hi]
        split
        · exact .inr rfl
        · exact .inl rfl
    · cases hcreate

theorem capability_create_none (hcreate : capability_create table objects obj access answer =
      some (none, table', objects')) : table' = table ∧ objects' = objects := by
  unfold capability_create at hcreate
  split at hcreate
  · cases hcreate
    exact ⟨rfl, rfl⟩
  · split at hcreate <;> cases hcreate

theorem capability_destroy_eq (table : Table) (objects : Objects) (handle : UInt32) :
    capability_destroy table objects handle =
      if rejects table handle then (false, table, objects)
      else (true,
        { (capability_lookup table handle).2 with
          bitmap := bitmap_free (capability_lookup table handle).2.bitmap handle.toNat },
        object_release objects (table.values handle.toNat).obj) := by
  rw [capability_destroy, capability_lookup_eq]
  by_cases hrej : rejects table handle = true
  · simp only [hrej, if_true]
  · simp only [hrej, if_false, Bool.false_eq_true]

theorem TableOk.destroy (h : TableOk table live) (handle : UInt32) : TableOk
      { (capability_lookup table handle).2 with
        bitmap := bitmap_free (capability_lookup table handle).2.bitmap handle.toNat }
      (update live handle.toNat none) := by
  have hlook := h.lookup handle
  refine ⟨hlook.int, ?_, ?_⟩
  · intro i hi
    by_cases heq : i = handle.toNat
    · rw [heq, update_self] at hi
      exact absurd rfl hi
    · rw [update_of_ne heq] at hi
      obtain ⟨hlt, d, hd, hbit⟩ := Bitmap.test_eq_true.mp (hlook.bit i hi)
      refine Bitmap.test_eq_true.mpr ⟨hlt, BIT_CLEAR d 0 handle.toNat, ?_, ?_⟩
      · simp [bitmap_free, hd]
      · simp [hbit, heq]
  · intro i b hi
    rw [update_apply] at hi
    split at hi
    · cases hi
    · exact hlook.value i b hi

/-! ### Runs -/

structure TableState where
  table : Table
  objects : Objects
  /-- History that no step reads: what was created last at a handle, if it
      has not been destroyed since. -/
  live : Nat → Option Binding

inductive TableAction where
  /-- The last argument is the answer of `bitmap_alloc`. -/
  | capability_create (obj : Nat) (access : UInt8) (answer : Option Alloc)
  | capability_lookup (handle : UInt32)
  | capability_destroy (handle : UInt32)

/-- A handle from `2 ^ 31` on is a negative `int` and is not rejected. Its bit is
outside of the bitmap, in bytes that are of `data` here and of nothing else. -/
def tableStep (s : TableState) : TableAction → Option TableState
  | .capability_create obj access answer =>
    match capability_create s.table s.objects obj access answer with
    | some (some handle, table, objects) =>
      some
        { table := table
          objects := objects
          live := update s.live handle (some ⟨access, obj⟩) }
    | some (none, table, objects) => some { s with table := table, objects := objects }
    | none => none
  | .capability_lookup handle => some { s with table := (capability_lookup s.table handle).2 }
  | .capability_destroy handle =>
    match capability_destroy s.table s.objects handle with
    | (true, table, objects) =>
      some
        { table := table
          objects := objects
          live := update s.live handle.toNat none }
    | (false, table, objects) => some { s with table := table, objects := objects }

/-- A table from `capability_table_init`. -/
def TableInit (s : TableState) : Prop :=
  (∃ table, s.table = capability_table_init table) ∧ s.live = fun _ => none

def tableSystem : System TableState TableAction where
  init := TableInit
  step := tableStep

def TableState.Ok (s : TableState) : Prop := TableOk s.table s.live

theorem TableState.Ok.step {s s' : TableState} {a : TableAction} (h : s.Ok)
    (hstep : tableStep s a = some s') : s'.Ok := by
  cases a with
  | capability_create obj access answer =>
    simp only [tableStep] at hstep
    split at hstep
    · next hcreate =>
      cases hstep
      exact (TableOk.create h hcreate).2.1
    · next hcreate =>
      cases hstep
      rw [(capability_create_none hcreate).1]
      exact h
    · cases hstep
  | capability_lookup handle =>
    cases hstep
    exact .lookup h handle
  | capability_destroy handle =>
    simp only [tableStep, capability_destroy_eq] at hstep
    by_cases hrej : rejects s.table handle = true
    · simp only [hrej, if_true] at hstep
      cases hstep
      exact h
    · simp only [hrej] at hstep
      cases hstep
      exact .destroy h handle

theorem TableState.Ok.of_reachable (hs : Reachable tableSystem s) : s.Ok := by
  refine ReachableBy.invariant ?_ (fun s a s' h _ hstep => h.step hstep) hs
  rintro s ⟨⟨table, htable⟩, hlive⟩
  rw [TableState.Ok, htable, hlive]
  exact TableOk.init table

/-- **A handle is found exactly while it lives**, after any run, if it lives
or is rejected by the check of the bound or of the data pointer: then the
lookup returns what was created last, or nothing, and changes nothing. -/
theorem capability_lookup_exact {s : TableState} (hs : Reachable tableSystem s) (handle : UInt32)
    (hvalid : s.live handle.toNat ≠ none ∨ rejects s.table handle = true) :
    capability_lookup s.table handle = (s.live handle.toNat, s.table) := by
  have h : TableOk s.table s.live := TableState.Ok.of_reachable hs
  cases hlive : s.live handle.toNat with
  | some b => exact (h.lookup_live hlive).1
  | none =>
    rcases hvalid with hne | hrej
    · exact absurd hlive hne
    · exact capability_lookup_of_rejects hrej

def newTable : TableState where
  table := capability_table_init ⟨fun _ => ⟨0, 0⟩, 0, ⟨none, 0, false⟩⟩
  objects := ⟨fun _ => ⟨0, none⟩, fun _ => ⟨0, 0⟩, fun _ => 0, ∅, ∅, ∅, [], []⟩
  live := fun _ => none

theorem tableInit_newTable : TableInit newTable := ⟨⟨_, rfl⟩, rfl⟩

/-- The answer of `bitmap_alloc` on a clear bitmap. -/
def firstAlloc (free_bit : Nat) : Alloc := ⟨free_bit, 64, BIT_SET (fun _ => 0) 0 free_bit⟩

/-- The binding of a handle that was created is found, and a handle beyond
the bitmap is not. -/
theorem capability_lookup_exact_created :
    ∃ s, exec tableSystem newTable [.capability_create 100 3 (some (firstAlloc 7))] = some s ∧
      capability_lookup s.table 7 = (some ⟨3, 100⟩, s.table) ∧
      capability_lookup s.table 65 = (none, s.table) := by
  refine run_imp (fun s => s.live 7 = some ⟨3, 100⟩ ∧ s.live 65 = none ∧
    rejects s.table 65 = true) (by decide +kernel) fun s hexec ⟨hlive, hdead, hrej⟩ => ?_
  have hreach : Reachable tableSystem s := Reachable.of_exec tableInit_newTable hexec
  have hseven := capability_lookup_exact hreach 7 (.inl (by
    rw [show (7 : UInt32).toNat = 7 from rfl, hlive]
    simp))
  have hbeyond := capability_lookup_exact hreach 65 (.inr hrej)
  rw [show (7 : UInt32).toNat = 7 from rfl, hlive] at hseven
  rw [show (65 : UInt32).toNat = 65 from rfl, hdead] at hbeyond
  exact ⟨hseven, hbeyond⟩

/-- **A handle that was never created is found**: one handle has been
created, handle 7. The lookup of handle 5 returns the empty slot 5 instead
of nothing, and leaves bit 5 set. -/
theorem capability_lookup_never_created :
    ∃ s, exec tableSystem newTable [.capability_create 100 3 (some (firstAlloc 7))] = some s ∧
      s.live 5 = none ∧ s.table.bitmap.test 5 = false ∧
      (capability_lookup s.table 5).1 = some ⟨0, 0⟩ ∧
      (capability_lookup s.table 5).2.bitmap.test 5 = true := by
  decide +kernel

/-- **Handles are not shared**: after any run, `capability_create` returns a
handle that does not live. It then names the new object and no other
handle changes; and destroying a handle changes no other one either. -/
theorem capability_create_fresh {s : TableState} (hs : Reachable tableSystem s)
    (hcreate : capability_create s.table s.objects obj access answer =
      some (some handle, table, objects)) :
    s.live handle = none ∧
      (∀ h : UInt32, h.toNat = handle → capability_lookup table h = (some ⟨access, obj⟩, table)) ∧
      ∀ (h : UInt32) (b : Binding), s.live h.toNat = some b →
        capability_lookup table h = (some b, table) ∧
        ∀ d : UInt32, d ≠ h →
          (capability_lookup (capability_destroy table objects d).2.1 h).1 = some b := by
  obtain ⟨hfree, hok, -⟩ := TableOk.create (TableState.Ok.of_reachable hs) hcreate
  refine ⟨hfree, fun h hh => ?_, fun h b hb => ?_⟩
  · exact (hok.lookup_live (by rw [hh, update_self])).1
  · -- the handle lived before, so it is not the new one
    have hne : h.toNat ≠ handle := by
      intro heq
      rw [heq, hfree] at hb
      cases hb
    have hlive : update s.live handle (some ⟨access, obj⟩) h.toNat = some b := by
      rwa [update_of_ne hne]
    refine ⟨(hok.lookup_live hlive).1, fun d hd => ?_⟩
    rw [capability_destroy_eq]
    by_cases hrej : rejects table d = true
    · simp only [hrej, if_true]
      rw [(hok.lookup_live hlive).1]
    · simp only [hrej]
      have hdn : h.toNat ≠ d.toNat := fun heq => hd (UInt32.toNat_inj.1 heq).symm
      exact congrArg Prod.fst ((hok.destroy d).lookup_live (by rwa [update_of_ne hdn])).1

/-- Handle 7 lives when handle 9 is created. -/
theorem capability_create_fresh_second :
    ∃ s, exec tableSystem newTable [.capability_create 100 3 (some (firstAlloc 7))] = some s ∧
      ∃ table objects, capability_create s.table s.objects 200 1
          (some ⟨9, 64, BIT_SET (firstAlloc 7).data 0 9⟩) = some (some 9, table, objects) ∧
        capability_lookup table 9 = (some ⟨1, 200⟩, table) ∧
        capability_lookup table 7 = (some ⟨3, 100⟩, table) := by
  refine run_imp (fun s => s.live 7 = some ⟨3, 100⟩ ∧
    (capability_create s.table s.objects 200 1
      (some ⟨9, 64, BIT_SET (firstAlloc 7).data 0 9⟩)).map (·.1) = some (some 9))
    (by decide +kernel) fun s hexec ⟨hlive, hcreate⟩ => ?_
  obtain ⟨⟨_, table, objects⟩, hcreate, rfl⟩ := Option.map_eq_some_iff.1 hcreate
  have h := capability_create_fresh (.of_exec tableInit_newTable hexec) hcreate
  exact ⟨table, objects, hcreate, h.2.1 9 rfl, (h.2.2 7 _ hlive).1⟩

end Capability
