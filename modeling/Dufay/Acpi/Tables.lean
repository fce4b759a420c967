import Mathlib.Algebra.Group.Nat.Defs
import Mathlib.Logic.Function.Basic

/-! # The MADT

The loop of `apic_init` over the MADT, of `arch/amd64/apic.c`.

What the loop adds to `i` in its four places is the length byte of the
entry, so that entries of all types are visited in order. Nothing tests that
byte, nor that the entry is inside of the table.
-/

open Function

namespace Acpi

/-- `acpi_hdr.length - sizeof(..)`, for a header of `size` bytes -/
def behind (length : BitVec 32) (size : Nat) : Nat := (length.toNat + 2 ^ 64 - size) % 2 ^ 64

theorem behind_eq {length : BitVec 32} (h : size ≤ length.toNat) :
    behind length size = length.toNat - size := by
  have := length.isLt
  unfold behind
  omega

/-- `struct madt_hdr`. Memory goes on behind the table. -/
structure MadtHdr where
  length : BitVec 32
  entries : Nat → UInt8

def SIZEOF_MADT_HDR : Nat := 44

/-- The size of the structure of an entry, for the types that are known. -/
def sizeofEnt (entry_type : UInt8) : Option Nat :=
  if entry_type = 0 then some 6
  else if entry_type = 1 then some 10
  else if entry_type = 2 then some 8
  else if entry_type = 4 then some 4
  else if entry_type = 5 then some 3
  else none

/-- The loop: its variable and the five vectors, by type. -/
structure Madt where
  i : Nat
  madt_ent_list : UInt8 → List (List UInt8)
  /-- History: where the entries were that have been visited. -/
  visited : List Nat
  /-- History: the bytes that were read. -/
  reads : List Nat

def start : Madt := ⟨0, fun _ => [], [], []⟩

namespace MadtHdr

variable (m : MadtHdr)

def bound : Nat := behind m.length SIZEOF_MADT_HDR

/-- The bytes of the table behind its header. -/
def payload : Nat := m.length.toNat - SIZEOF_MADT_HDR

/-- Two increments, `i += entry_size - 3` as an `int`, and the third increment. -/
def next (i : Nat) : Nat :=
  (i + 2 + ((m.entries ((i + 1) % 2 ^ 64)).toNat + 2 ^ 64 - 3) + 1) % 2 ^ 64

def body (i n : Nat) : List UInt8 := (List.range' i n).map m.entries

def visit (s : Madt) : Madt :=
  let entry_type := m.entries s.i
  let i := (s.i + 2) % 2 ^ 64
  { i := m.next s.i
    madt_ent_list := update s.madt_ent_list entry_type
      (s.madt_ent_list entry_type ++ ((sizeofEnt entry_type).map (m.body i)).toList)
    visited := s.visited ++ [s.i]
    reads := s.reads ++ s.i :: (s.i + 1) % 2 ^ 64 ::
      List.range' i ((sizeofEnt entry_type).getD 0) }

/-- The loop of `apic_init`, for `fuel` rounds. -/
def apic_init : Nat → Madt → Option Madt
  | 0, _ => none
  | fuel + 1, s => if s.i < m.bound then apic_init fuel (m.visit s) else some s

end MadtHdr

/-! ### Decoding -/

/-- An entry: its type and what is behind its length byte. -/
structure Entry where
  type : UInt8
  data : List UInt8

/-- The length fits into its byte, and the structure into the entry. -/
def Entry.WellFormed (e : Entry) : Prop :=
  e.data.length + 2 < 256 ∧ ∀ n ∈ sizeofEnt e.type, n ≤ e.data.length

def Entry.bytes (e : Entry) : List UInt8 := e.type :: UInt8.ofNat (e.data.length + 2) :: e.data

/-- From `i` to its end the table holds the entries. -/
def MadtHdr.Holds (m : MadtHdr) (i : Nat) (es : List Entry) : Prop :=
  i + (es.flatMap Entry.bytes).length = m.payload ∧
    ∀ k b, (es.flatMap Entry.bytes)[k]? = some b → m.entries (i + k) = b

/-- Where the entries are that begin at `i`. -/
def offsets : Nat → List Entry → List Nat
  | _, [] => []
  | i, e :: es => i :: offsets (i + e.bytes.length) es

/-- The structures of the entries of a type. -/
def bodies (es : List Entry) (t : UInt8) : List (List UInt8) :=
  (es.filter (·.type = t)).filterMap fun e => (sizeofEnt t).map (e.data.take ·)

section decoding

variable {m : MadtHdr}

theorem MadtHdr.next_eq (hi : i < 2 ^ 32) : m.next i = i + (m.entries (i + 1)).toNat := by
  have := (m.entries (i + 1)).toNat_lt
  unfold next
  rw [Nat.mod_eq_of_lt (a := i + 1) (by omega)]
  omega

theorem MadtHdr.Holds.visit {s : Madt} (h : m.Holds s.i (e :: es)) (he : e.WellFormed) :
    (m.visit s).i = s.i + e.bytes.length ∧ m.Holds (m.visit s).i es ∧
      ∀ t, (m.visit s).madt_ent_list t ++ bodies es t = s.madt_ent_list t ++ bodies (e :: es) t := by
  obtain ⟨hlen, hbytes⟩ := h
  rw [List.flatMap_cons] at hlen hbytes
  have hsize : e.bytes.length = e.data.length + 2 := rfl
  have hsmall : s.i + e.bytes.length < 2 ^ 32 := by
    simp only [payload, List.length_append] at hlen
    omega
  have htype : m.entries s.i = e.type := hbytes 0 _ rfl
  have hnext : (m.visit s).i = s.i + e.bytes.length := by
    show m.next s.i = _
    rw [next_eq (by omega), hbytes 1 _ rfl, UInt8.toNat_ofNat_of_lt' he.1, hsize]
  refine ⟨hnext, ⟨?_, fun k b hk => ?_⟩, fun t => ?_⟩
  · rw [hnext, ← hlen, List.length_append, Nat.add_assoc]
  · rw [hnext, Nat.add_assoc]
    apply hbytes
    rw [List.getElem?_append_right (by omega), Nat.add_sub_cancel_left, hk]
  · have hbody : (sizeofEnt e.type).map (m.body (s.i + 2)) = (sizeofEnt e.type).map (e.data.take ·) := by
      refine Option.map_congr fun n hn => List.ext_getElem (by simp [body, he.2 n hn]) fun k hk _ => ?_
      have hle := he.2 n hn
      simp only [body, List.length_map, List.length_range'] at hk
      simp only [body, List.getElem_map, List.getElem_range', List.getElem_take, Nat.add_assoc,
        Nat.one_mul]
      refine hbytes (2 + k) _ ?_
      rw [List.getElem?_append_left (by omega), Nat.add_comm]
      exact List.getElem?_eq_getElem (by omega)
    simp only [MadtHdr.visit, htype, bodies]
    rw [Nat.mod_eq_of_lt (by omega), hbody]
    by_cases ht : e.type = t
    · subst ht
      cases sizeofEnt e.type <;> simp
    · rw [update_of_ne (Ne.symm ht), List.filter_cons_of_neg (by simpa using ht)]

theorem MadtHdr.Holds.run {es : List Entry} {s : Madt} (hbound : m.bound = m.payload)
    (h : m.Holds s.i es) (hwf : ∀ e ∈ es, e.WellFormed) : ∃ s',
      (∀ fuel > es.length, m.apic_init fuel s = some s') ∧
      s'.visited = s.visited ++ offsets s.i es ∧
      ∀ t, s'.madt_ent_list t = s.madt_ent_list t ++ bodies es t := by
  induction es generalizing s with
  | nil =>
    refine ⟨s, fun fuel hfuel => ?_, by simp [offsets], fun t => by simp [bodies]⟩
    obtain ⟨fuel, rfl⟩ := Nat.exists_eq_add_of_lt hfuel
    exact if_neg (hbound ▸ Nat.not_lt.mpr (Nat.le_of_eq h.1.symm))
  | cons e es ih =>
    obtain ⟨hi, hrest, hlist⟩ := h.visit (hwf e List.mem_cons_self)
    obtain ⟨s', hrun, hvisited, hlist'⟩ := ih hrest fun e he => hwf e (List.mem_cons_of_mem _ he)
    refine ⟨s', fun fuel hfuel => ?_, ?_, fun t => ?_⟩
    · obtain ⟨fuel, rfl⟩ := Nat.exists_eq_add_of_lt hfuel
      have hlt : s.i < m.bound := by
        rw [hbound, ← h.1]
        exact Nat.lt_add_of_pos_right (Nat.succ_pos _)
      exact (if_pos hlt).trans (hrun _ (by simp only [List.length_cons]; omega))
    · rw [hvisited, hi]
      exact List.append_assoc ..
    · rw [hlist', hlist]

end decoding

/-- **MADT decoding**: of a table that is made of entries, each is visited once,
and the vectors hold the structures of the entries of their types, in the
order of the table. -/
theorem madt_decoded (m : MadtHdr) (es : List Entry) (hhdr : SIZEOF_MADT_HDR ≤ m.length.toNat)
    (h : m.Holds 0 es) (hwf : ∀ e ∈ es, e.WellFormed) : ∃ s,
      (∀ fuel > es.length, m.apic_init fuel start = some s) ∧ s.visited = offsets 0 es ∧
      ∀ t, s.madt_ent_list t = bodies es t := by
  obtain ⟨s, hrun, hvisited, hlist⟩ := MadtHdr.Holds.run (s := start) (behind_eq hhdr) h hwf
  exact ⟨s, hrun, by rw [hvisited]; rfl, fun t => by rw [hlist]; rfl⟩

def madtOf (length : BitVec 32) (bytes : List UInt8) : MadtHdr := ⟨length, fun k => bytes.getD k 0⟩

/-- One processor and one entry of a type that is not known. -/
theorem madt_decoded_two : ∃ s,
    (madtOf 54 [0, 8, 1, 2, 1, 0, 0, 0, 9, 2]).apic_init 3 start = some s ∧
      s.madt_ent_list 0 = [[1, 2, 1, 0, 0, 0]] := by
  have hbytes : ∀ k b, [0, 8, 1, 2, 1, 0, 0, 0, 9, 2][k]? = some b →
      (madtOf 54 [0, 8, 1, 2, 1, 0, 0, 0, 9, 2]).entries (0 + k) = b := by
    intro k b hk
    simp only [Nat.zero_add, madtOf, List.getD_eq_getElem?_getD, hk, Option.getD_some]
  obtain ⟨s, hrun, -, hlist⟩ := madt_decoded (madtOf 54 [0, 8, 1, 2, 1, 0, 0, 0, 9, 2])
    [⟨0, [1, 2, 1, 0, 0, 0]⟩, ⟨9, []⟩] (by decide) ⟨rfl, hbytes⟩
    (by simp [Entry.WellFormed, sizeofEnt])
  exact ⟨s, hrun 3 (by decide), hlist 0⟩

/-! ### Any table -/

/-- The loop comes to an entry at `i`. -/
inductive MadtHdr.Comes (m : MadtHdr) : Nat → Prop
  | start : 0 < m.bound → Comes m 0
  | next : Comes m i → m.next i < m.bound → Comes m (m.next i)

/-- The length byte is not zero, and it and the structure are in the table. -/
def MadtHdr.Fits (m : MadtHdr) (i : Nat) : Prop :=
  m.entries (i + 1) ≠ 0 ∧ i + 2 + (sizeofEnt (m.entries i)).getD 0 ≤ m.payload

theorem MadtHdr.run_of_fits {m : MadtHdr} {s : Madt} (h : ∀ i, m.Comes i → m.Fits i)
    (hfuel : m.bound ≤ s.i + fuel) (hs : s.i < m.bound → m.Comes s.i)
    (hreads : ∀ k ∈ s.reads, k < m.payload) :
    ∃ s', m.apic_init (fuel + 1) s = some s' ∧ ∀ k ∈ s'.reads, k < m.payload := by
  induction fuel generalizing s with
  | zero => exact ⟨s, if_neg (Nat.not_lt.mpr hfuel), hreads⟩
  | succ fuel ih =>
    by_cases hlt : s.i < m.bound
    · obtain ⟨hsize, hin⟩ := h s.i (hs hlt)
      have hsmall : s.i + 2 < 2 ^ 32 := by
        have := m.length.isLt
        simp only [payload] at hin
        omega
      have hnext := m.next_eq (i := s.i) (by omega)
      have hpos : 0 < (m.entries (s.i + 1)).toNat :=
        Nat.pos_of_ne_zero fun hzero => hsize (UInt8.toNat_inj.mp hzero)
      obtain ⟨s', hrun, hin'⟩ := ih (s := m.visit s) (by show _ ≤ m.next s.i + _; omega)
        (hs hlt).next (by
          simp only [visit, List.mem_append, List.mem_cons, List.mem_range'_1]
          rw [Nat.mod_eq_of_lt (by omega), Nat.mod_eq_of_lt (by omega)]
          rintro k (hk | rfl | rfl | hk)
          · exact hreads k hk
          all_goals omega)
      exact ⟨s', (if_pos hlt).trans hrun, hin'⟩
    · exact ⟨s, if_neg hlt, hreads⟩

namespace MadtHdr

variable {m : MadtHdr} {s s' : Madt}

theorem run_visit (hlt : s.i < m.bound) (h : m.apic_init fuel s = some s') :
    ∃ fuel, m.apic_init fuel (m.visit s) = some s' := by
  cases fuel with
  | zero => cases h
  | succ fuel => exact ⟨fuel, (if_pos hlt).symm.trans h⟩

theorem stuck (hlt : s.i < m.bound) (hnext : m.next s.i = s.i) (fuel : Nat) :
    m.apic_init fuel s = none := by
  induction fuel generalizing s with
  | zero => rfl
  | succ fuel ih =>
    have hi : (m.visit s).i = s.i := hnext
    rw [apic_init, if_pos hlt]
    apply ih
    · rwa [hi]
    · rwa [hi]

theorem reads_subset (h : m.apic_init fuel s = some s') : s.reads ⊆ s'.reads := by
  induction fuel generalizing s with
  | zero => cases h
  | succ fuel ih =>
    rw [apic_init] at h
    split at h
    · exact fun k hk => ih h (List.mem_append_left _ hk)
    · cases h
      exact fun k hk => hk

theorem Comes.run (hi : m.Comes i) (h : m.apic_init fuel Acpi.start = some s') :
    i < m.bound ∧ ∃ fuel s, s.i = i ∧ m.apic_init fuel s = some s' := by
  induction hi with
  | start hpos => exact ⟨hpos, fuel, _, rfl, h⟩
  | next _ hlt ih =>
    obtain ⟨hlt', fuel, s, rfl, hrun⟩ := ih
    obtain ⟨fuel, hrest⟩ := run_visit hlt' hrun
    exact ⟨hlt, fuel, m.visit s, rfl, hrest⟩

/-- The offset of an entry is read as well, so that nothing wraps. -/
theorem fits_of_run (hlt : s.i < m.bound) (hrun : m.apic_init fuel s = some s')
    (hreads : ∀ k ∈ s'.reads, k < m.payload) : m.Fits s.i := by
  obtain ⟨fuel', hrest⟩ := run_visit hlt hrun
  have hin : ∀ k ∈ (m.visit s).reads, k < m.payload := fun k hk => hreads k (reads_subset hrest hk)
  simp only [visit, List.mem_append, List.mem_cons, List.mem_range'_1] at hin
  have hfirst := hin s.i (.inr (.inl rfl))
  have hsecond := hin _ (.inr (.inr (.inl rfl)))
  have hsmall : m.payload < 2 ^ 32 := Nat.lt_of_le_of_lt (Nat.sub_le _ _) m.length.isLt
  constructor
  · intro hzero
    have hnext : m.next s.i = s.i := by
      rw [m.next_eq (by omega), hzero]
      rfl
    cases (stuck hlt hnext fuel).symm.trans hrun
  · cases hsize : (sizeofEnt (m.entries s.i)).getD 0 with
    | zero => omega
    | succ n =>
      have hlast := hin (s.i + 2 + n) (.inr (.inr (.inr (by omega))))
      omega

end MadtHdr

/-- **MADT parsing** ends and stays in the table just if the length byte of
every entry that the loop comes to is not zero, and that byte and the
structure are in the table. -/
theorem madt_safe (m : MadtHdr) :
    (∃ fuel s, m.apic_init fuel start = some s ∧ ∀ k ∈ s.reads, k < m.payload) ↔
      ∀ i, m.Comes i → m.Fits i := by
  constructor
  · rintro ⟨fuel, s', hrun, hreads⟩ i hi
    obtain ⟨hlt, fuel, s, rfl, hrest⟩ := hi.run hrun
    exact MadtHdr.fits_of_run hlt hrest hreads
  · exact fun h => ⟨m.bound + 1, MadtHdr.run_of_fits h (Nat.le_add_left _ _) .start nofun⟩

/-- A last entry that is too long for the table. -/
theorem madt_safe_long : (∀ i, (madtOf 46 [9, 8]).Comes i → (madtOf 46 [9, 8]).Fits i) ∧
    ∃ fuel s, (madtOf 46 [9, 8]).apic_init fuel start = some s ∧ ∀ k ∈ s.reads, k < 2 := by
  have h : ∀ i, (madtOf 46 [9, 8]).Comes i → (madtOf 46 [9, 8]).Fits i := by
    have hzero : ∀ i, (madtOf 46 [9, 8]).Comes i → i = 0 := by
      intro i hi
      induction hi with
      | start => rfl
      | next _ hlt ih =>
        rw [ih] at hlt
        exact absurd hlt (by decide)
    intro i hi
    rw [hzero i hi]
    exact ⟨by decide, by decide⟩
  exact ⟨h, (madt_safe _).mpr h⟩

/-- With a length of zero the loop does not end, and a processor that is cut off
is read from behind the table. -/
theorem madt_unsafe : (¬ ∃ fuel s, (madtOf 46 [9, 0]).apic_init fuel start = some s) ∧
    ((madtOf 46 [0, 2]).apic_init 2 start).any (7 ∈ ·.reads) = true := by
  refine ⟨?_, by decide +kernel⟩
  rintro ⟨fuel, s, h⟩
  have hbound : start.i < (madtOf 46 [9, 0]).bound := by decide +kernel
  have hnext : (madtOf 46 [9, 0]).next start.i = start.i := by decide +kernel
  cases (MadtHdr.stuck hbound hnext fuel).symm.trans h

end Acpi
