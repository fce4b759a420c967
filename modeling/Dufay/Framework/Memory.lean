import Mathlib.Data.UInt

/-! # Byte memory

A memory is a function from addresses to bytes. It is read and written
in three ways: bit by bit through an array of bytes (`BIT_TEST`,
`BIT_SET`, `BIT_CLEAR`), by ranges (`memset`) and by words in
little-endian order.

All bits of a memory form one array (`bit`): bit `i` of the array at `p`
is bit `8 * p + i` of the memory.
-/

open Function

namespace Memory

abbrev Byte := BitVec 8

abbrev Mem := Nat → Byte

variable (mem : Mem)

/-! ### Bits -/

def bit (n : Nat) : Bool := (mem (n / 8)).getLsbD (n % 8)

/-! `BIT_TEST`, `BIT_SET` and `BIT_CLEAR` are macros of a library. A bitmap of
`n` bits is allocated as `DIV_ROUNDUP(n, 8)` bytes, and what is passed to
them is a `uint8_t *`: there are eight bits to a byte. -/

def BIT_TEST (p i : Nat) : Bool := (mem (p + i / 8)).getLsbD (i % 8)

def BIT_SET (p i : Nat) : Mem := update mem (p + i / 8) (mem (p + i / 8) ||| (1#8 <<< (i % 8)))

def BIT_CLEAR (p i : Nat) : Mem := update mem (p + i / 8) (mem (p + i / 8) &&& ~~~(1#8 <<< (i % 8)))

variable {mem}

theorem BIT_TEST_eq (p i : Nat) : BIT_TEST mem p i = bit mem (8 * p + i) := by
  have hbyte : (8 * p + i) / 8 = p + i / 8 := by omega
  have hpos : (8 * p + i) % 8 = i % 8 := by omega
  rw [BIT_TEST, bit, hbyte, hpos]

theorem ext_bit (h : ∀ n, bit mem n = bit mem' n) : mem = mem' := by
  funext a
  apply BitVec.eq_of_getLsbD_eq
  intro b hb
  have hbit := h (8 * a + b)
  have hbyte : (8 * a + b) / 8 = a := by omega
  have hpos : (8 * a + b) % 8 = b := by omega
  rwa [bit, bit, hbyte, hpos] at hbit

theorem getLsbD_mask (k b : Nat) (hb : b < 8) : (1#8 <<< k).getLsbD b = decide (b = k) := by
  rw [BitVec.getLsbD_shiftLeft, BitVec.getLsbD_one]
  by_cases hbk : b = k
  · subst hbk
    simp [hb]
  · by_cases hlt : b < k
    · simp [hbk, hlt]
    · have hpos : b - k ≠ 0 := by omega
      simp [hbk, hpos]

theorem bit_update :
    bit (update mem a v) n = if n / 8 = a then v.getLsbD (n % 8) else bit mem n := by
  unfold bit
  by_cases hn : n / 8 = a
  · rw [hn, update_self, if_pos rfl]
  · rw [update_of_ne hn, if_neg hn]

@[simp] theorem bit_BIT_SET (p i n : Nat) :
    bit (BIT_SET mem p i) n = (bit mem n || decide (n = 8 * p + i)) := by
  rw [BIT_SET, bit_update]
  split
  · next hn =>
    rw [BitVec.getLsbD_or, getLsbD_mask _ _ (Nat.mod_lt n (by decide)), bit, hn]
    congr 1
    exact decide_eq_decide.mpr (by omega)
  · next hn =>
    have hne : n ≠ 8 * p + i := by omega
    simp [hne]

@[simp] theorem bit_BIT_CLEAR :
    bit (BIT_CLEAR mem p i) n = (bit mem n && !decide (n = 8 * p + i)) := by
  rw [BIT_CLEAR, bit_update]
  split
  · next hn =>
    have hb : n % 8 < 8 := Nat.mod_lt n (by decide)
    rw [BitVec.getLsbD_and, BitVec.getLsbD_not, getLsbD_mask _ _ hb, bit, hn]
    have heq : decide (n % 8 = i % 8) = decide (n = 8 * p + i) := decide_eq_decide.mpr (by omega)
    simp [hb, heq]
  · next hn =>
    have hne : n ≠ 8 * p + i := by omega
    simp [hne]

/-! ### Ranges of bits -/

/-- `for (z = 0; z < n; z++) BIT_SET(p, i + z);` -/
def setBits (mem : Mem) (p i : Nat) : Nat → Mem
  | 0 => mem
  | n + 1 => BIT_SET (setBits mem p i n) p (i + n)

/-- `for (z = 0; z < n; z++) BIT_CLEAR(p, i + z);` -/
def clearBits (mem : Mem) (p i : Nat) : Nat → Mem
  | 0 => mem
  | n + 1 => BIT_CLEAR (clearBits mem p i n) p (i + n)

/-- The bits `i` to `i + n` of the array at `p`. -/
def InBits (p i n b : Nat) : Prop := 8 * p + i ≤ b ∧ b < 8 * p + i + n

instance (p i n b : Nat) : Decidable (InBits p i n b) :=
  inferInstanceAs (Decidable (8 * p + i ≤ b ∧ b < 8 * p + i + n))

theorem not_inBits_zero : ¬ InBits p i 0 b := by
  unfold InBits
  omega

@[simp] theorem bit_setBits (p i n b : Nat) :
    bit (setBits mem p i n) b = (bit mem b || decide (InBits p i n b)) := by
  induction n with
  | zero =>
    simp [setBits, not_inBits_zero]
  | succ n ih =>
    rw [setBits, bit_BIT_SET, ih, Bool.or_assoc]
    congr 1
    rw [← Bool.decide_or]
    exact decide_eq_decide.mpr (by unfold InBits; omega)

@[simp] theorem bit_clearBits (p i n b : Nat) :
    bit (clearBits mem p i n) b = (bit mem b && !decide (InBits p i n b)) := by
  induction n with
  | zero =>
    simp [clearBits, not_inBits_zero]
  | succ n ih =>
    rw [clearBits, bit_BIT_CLEAR, ih, Bool.and_assoc, ← Bool.not_or]
    congr 2
    rw [← Bool.decide_or]
    exact decide_eq_decide.mpr (by unfold InBits; omega)

/-- The first clear bit of the `n` bits from `z` on. -/
def firstClear (mem : Mem) (p : Nat) : Nat → Nat → Option Nat
  | 0, _ => none
  | n + 1, z => if BIT_TEST mem p z then firstClear mem p n (z + 1) else some z

variable {n a : Nat}

theorem firstClear_lt (h : firstClear mem p n z = some r) : r < z + n := by
  induction n generalizing z with
  | zero => cases h
  | succ n ih =>
    rw [firstClear] at h
    split at h
    · have hlt := ih h
      omega
    · cases h
      omega

/-! ### Ranges of bytes -/

/-- `memset8(p, 0, n)` -/
def zero (mem : Mem) (p n : Nat) : Mem := fun a => if p ≤ a ∧ a < p + n then 0 else mem a

theorem zero_apply (p n a : Nat) (h : ¬ (p ≤ a ∧ a < p + n)) : zero mem p n a = mem a := by
  rw [zero, if_neg h]

/-- `memcpy(p, src, n)` -/
def copy (mem : Mem) (p : Nat) (src : Mem) (n : Nat) : Mem := fun a =>
  if p ≤ a ∧ a < p + n then src (a - p) else mem a

theorem copy_outside (h : ¬ (p ≤ a ∧ a < p + n)) : copy mem p src n a = mem a := by
  rw [copy, if_neg h]

def bytes (mem : Mem) (a n : Nat) : List Byte := (List.range n).map fun i => mem (a + i)

@[simp] theorem length_bytes (a n : Nat) : (bytes mem a n).length = n := by
  simp [bytes]

theorem bytes_eq_iff : bytes mem' a' n = bytes mem a n ↔ ∀ i < n, mem' (a' + i) = mem (a + i) := by
  simp [bytes]

/-- A memory that starts with the given bytes. -/
def ofList (t : List Byte) : Mem := fun a => t.getD a 0

@[simp] theorem bytes_ofList (t : List Byte) : bytes (ofList t) 0 t.length = t := by
  apply List.ext_getElem
  · simp
  · intro i hi hi'
    simp [bytes, ofList, hi']

theorem bytes_copy (p n : Nat) (src : Mem) : bytes (copy mem p src n) p n = bytes src 0 n := by
  rw [bytes_eq_iff]
  intro i hi
  rw [copy, if_pos (by omega), Nat.add_sub_cancel_left, Nat.zero_add]

/-! ### Words -/

/-- The number that `n` bytes from `a` on hold in little-endian order. -/
def readBytes (mem : Mem) (a : Nat) : Nat → Nat
  | 0 => 0
  | n + 1 => readBytes mem a n + 256 ^ n * (mem (a + n)).toNat

def read64 (mem : Mem) (a : Nat) : Nat := readBytes mem a 8

def write64 (mem : Mem) (a v : Nat) : Mem := fun x =>
  if a ≤ x ∧ x < a + 8 then BitVec.ofNat 8 (v / 256 ^ (x - a)) else mem x

def read32 (mem : Mem) (a : Nat) : UInt32 := UInt32.ofNat (readBytes mem a 4)

def write32 (mem : Mem) (a : Nat) (v : UInt32) : Mem := fun x =>
  if a ≤ x ∧ x < a + 4 then BitVec.ofNat 8 (v.toNat / 256 ^ (x - a)) else mem x

theorem readBytes_eq (h : ∀ i < n, mem' (a' + i) = mem (a + i)) :
    readBytes mem' a' n = readBytes mem a n := by
  induction n with
  | zero => rfl
  | succ n ih =>
    rw [readBytes, readBytes, ih (fun i hi => h i (by omega)), h n (by omega)]

theorem readBytes_digits (h : ∀ i < n, mem (a + i) = BitVec.ofNat 8 (v / 256 ^ i)) :
    readBytes mem a n = v % 256 ^ n := by
  induction n with
  | zero => rw [readBytes, Nat.pow_zero, Nat.mod_one]
  | succ n ih =>
    have hpow : 256 ^ (n + 1) = 256 ^ n * 2 ^ 8 := Nat.pow_succ 256 n
    rw [readBytes, ih (fun i hi => h i (by omega)), h n (by omega), BitVec.toNat_ofNat, hpow,
      Nat.mod_mul]

theorem read64_congr (h : ∀ x, a ≤ x → x < a + 8 → mem' x = mem x) : read64 mem' a = read64 mem a :=
  readBytes_eq fun i hi => h (a + i) (by omega) (by omega)

theorem read64_of_bytes (h : bytes mem' a' n = bytes mem a n)
    (hk : k + 8 ≤ n) : read64 mem' (a' + k) = read64 mem (a + k) := by
  rw [bytes_eq_iff] at h
  refine readBytes_eq fun i hi => ?_
  rw [Nat.add_assoc, Nat.add_assoc]
  exact h (k + i) (by omega)

theorem read64_ofList_bytes (hk : k + 8 ≤ n) :
    read64 (ofList (bytes mem a n)) k = read64 mem (a + k) := by
  have hbytes : bytes (ofList (bytes mem a n)) 0 n = bytes mem a n := by
    simpa using bytes_ofList (bytes mem a n)
  have hword := read64_of_bytes hbytes hk
  rwa [Nat.zero_add] at hword

theorem write64_outside (h : x < a ∨ a + 8 ≤ x) : write64 mem a v x = mem x := by
  rw [write64, if_neg (by omega)]

theorem read64_write64 (hv : v < 256 ^ 8) : read64 (write64 mem a v) a = v := by
  rw [read64, readBytes_digits (v := v), Nat.mod_eq_of_lt hv]
  intro i hi
  rw [write64, if_pos (by omega), Nat.add_sub_cancel_left]

theorem read64_write64_of_lt (hv : v < 18446744073709551616) : read64 (write64 mem a v) a = v :=
  read64_write64 (Nat.lt_of_lt_of_eq hv (by decide))

theorem read64_write64_of_disjoint (h : b + 8 ≤ a ∨ a + 8 ≤ b) :
    read64 (write64 mem a v) b = read64 mem b :=
  read64_congr fun _ hle hlt => write64_outside (by omega)

end Memory
