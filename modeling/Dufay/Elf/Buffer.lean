import Mathlib.Algebra.Group.Int.Defs
import Mathlib.Algebra.Group.Nat.Defs
import Mathlib.Order.Lattice

/-! # The buffer of an ELF file

`elf64_read` and `elf64_write` of `core/elf.c`. The offset is an `int` that is
added to a `size_t`, and the number of bytes becomes an `int` before `memcpy`
takes it as a `size_t`.
-/

namespace Elf

variable (length : BitVec 64) (offset : BitVec 32) (cnt : BitVec 64)

/-- What is returned, and the bytes of the file that `memcpy` is given. -/
structure Copied where
  result : Int
  start : Int
  size : Nat
  deriving DecidableEq

/-- The number of bytes, before it becomes an `int`. -/
def data_to_copy : BitVec 64 :=
  if length < offset.signExtend 64 + cnt then length - offset.signExtend 64 else cnt

/-- The body of both functions, for pointers that are not `NULL`. -/
def transfer : Copied :=
  if length < offset.signExtend 64 then ⟨0, 0, 0⟩
  else
    let data : BitVec 32 := (data_to_copy length offset cnt).setWidth 32
    ⟨data.toInt, offset.toInt, (data.signExtend 64).toNat⟩

def elf64_read : Copied := transfer length offset cnt

def elf64_write : Copied := transfer length offset cnt

/-- The copy is inside of the file, and its size is what was asked for or what is
left of the file. -/
structure Copied.Right (c : Copied) : Prop where
  inside : ∀ k < c.size, 0 ≤ c.start + k ∧ c.start + k < length.toNat
  returned : c.result = c.size
  number : length.toNat < 2 ^ 31 → c.result =
    if 0 ≤ offset.toInt ∧ offset.toInt ≤ length.toNat then
      min (cnt.toNat : Int) (length.toNat - offset.toInt)
    else 0

/-- The offset is behind the file, or nothing is copied, or the sum does not wrap
and the `int` is not negative. -/
def Fits : Prop :=
  length < offset.signExtend 64 ∨ (data_to_copy length offset cnt).toNat % 2 ^ 32 = 0 ∨
    0 ≤ offset.toInt ∧ offset.toInt + cnt.toNat < 2 ^ 64 ∧
      (data_to_copy length offset cnt).toNat % 2 ^ 32 < 2 ^ 31

theorem toNat_signExtend (x : BitVec 32) : (x.signExtend 64).toNat = (x.toInt % 2 ^ 64).toNat := by
  have hlt := x.isLt
  rw [BitVec.toNat_signExtend, BitVec.toInt_eq_toNat_cond, BitVec.msb_eq_decide,
    BitVec.toNat_setWidth]
  split <;> split <;> simp_all <;> omega

variable {length offset} in
theorem data_to_copy_cases (hle : ¬ length < offset.signExtend 64) :
    length.toNat < ((offset.signExtend 64).toNat + cnt.toNat) % 2 ^ 64 ∧
        (data_to_copy length offset cnt).toNat = length.toNat - (offset.signExtend 64).toNat ∨
      ((offset.signExtend 64).toNat + cnt.toNat) % 2 ^ 64 ≤ length.toNat ∧
        (data_to_copy length offset cnt).toNat = cnt.toNat := by
  rw [← BitVec.toNat_add]
  unfold data_to_copy
  split
  · next hlt => exact .inl ⟨hlt, BitVec.toNat_sub_of_le (BitVec.not_lt.mp hle)⟩
  · next hge => exact .inr ⟨Nat.not_lt.mp hge, rfl⟩

/-- **ELF buffer access is in bounds** just if the numbers fit. -/
theorem elf64_access_iff (length : BitVec 64) (offset : BitVec 32) (cnt : BitVec 64) :
    (elf64_read length offset cnt).Right length offset cnt ∧
      (elf64_write length offset cnt).Right length offset cnt ↔ Fits length offset cnt := by
  have hlength := length.isLt
  have hcnt := cnt.isLt
  have hoffset := offset.toInt_eq_toNat_cond
  have hunsigned := toNat_signExtend offset
  unfold elf64_read elf64_write transfer Fits
  rw [and_self]
  by_cases hlt : length < offset.signExtend 64
  · rw [if_pos hlt]
    refine iff_of_true ⟨fun k hk => absurd hk (Nat.not_lt_zero k), rfl, fun hsmall => ?_⟩ (.inl hlt)
    rw [BitVec.lt_def] at hlt
    exact (if_neg (by omega)).symm
  · rw [if_neg hlt, or_iff_right hlt]
    have hn := data_to_copy_cases cnt hlt
    rw [BitVec.lt_def] at hlt
    have hdata := BitVec.toNat_setWidth 32 (data_to_copy length offset cnt)
    have hint := BitVec.toInt_eq_toNat_cond ((data_to_copy length offset cnt).setWidth 32)
    have hsize := toNat_signExtend ((data_to_copy length offset cnt).setWidth 32)
    generalize (data_to_copy length offset cnt).setWidth 32 = data at hdata hint hsize ⊢
    constructor
    · intro h
      have hreturned : data.toInt = (data.signExtend 64).toNat := h.returned
      have hfirst : 0 < (data.signExtend 64).toNat → 0 ≤ offset.toInt + (0 : Nat) := fun hpos =>
        (h.inside 0 hpos).1
      omega
    · intro h
      refine ⟨fun k hk => ?_, ?_, fun hsmall => ?_⟩
      all_goals dsimp only at *
      · omega
      · omega
      · split <;> omega

/-- A count near the top of the range. -/
theorem elf64_read_outside : elf64_read 4096 256 (-100) = ⟨-100, 256, 2 ^ 64 - 100⟩ := by
  decide +kernel

end Elf
