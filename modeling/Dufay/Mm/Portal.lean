import Mathlib.Data.BitVec

/-! # The links of sharepoints

The header that `portal_handle_share` of `mm/portal.c` writes to a new
sharepoint.
-/

namespace Portals

def LINK_CIRCULAR : BitVec 32 := 1 <<< 0
def LINK_RAW : BitVec 32 := 1 <<< 2
def LINK_CIRCULAR_MAGIC : BitVec 32 := 0x9E810F7F
def LINK_RAW_MAGIC : BitVec 32 := 0xFF6C7D34

/-- `struct portal_link` -/
structure PortalLink where
  lock : BitVec 32
  length : BitVec 32
  header_offset : BitVec 32
  header_limit : BitVec 32
  data_offset : BitVec 32
  data_limit : BitVec 32
  magic : BitVec 32
  deriving DecidableEq

def SIZEOF_PORTAL_LINK : BitVec 64 := 32

/-- What `portal_handle_share` writes to a new sharepoint. -/
inductive Link where
  | circular (link : PortalLink) (queue_length : BitVec 32)
  | raw (link : PortalLink)
  | other
  deriving DecidableEq

section
variable (sizeofQueue length : BitVec 64)

/-- The link of a new sharepoint with `morphology.length` bytes, for a
`share.length` and a `share.type`; `none` for a division by zero. A
`struct circular_queue` has `sizeofQueue` bytes. -/
def portal_handle_share (share_length share_type : BitVec 32) : Option Link :=
  if share_type &&& LINK_CIRCULAR = LINK_CIRCULAR then
    let rest := length - SIZEOF_PORTAL_LINK - sizeofQueue
    if share_length = 0 then none
    else some (.circular
      { lock := 0
        length := length.setWidth 32
        header_offset := 0
        header_limit := SIZEOF_PORTAL_LINK.setWidth 32
        data_offset := SIZEOF_PORTAL_LINK.setWidth 32
        data_limit := rest.setWidth 32
        magic := LINK_CIRCULAR_MAGIC } ((rest / share_length.signExtend 64).setWidth 32))
  else if share_type &&& LINK_RAW = LINK_RAW then
    some (.raw
      { lock := 0
        length := length.setWidth 32
        header_offset := 0
        header_limit := 0
        data_offset := SIZEOF_PORTAL_LINK.setWidth 32
        data_limit := (length - SIZEOF_PORTAL_LINK).setWidth 32
        magic := LINK_RAW_MAGIC })
  else some .other

/-- The link describes a region of as many bytes as its field `length` says. -/
def Link.Describes (share_length : BitVec 32) : Link → Prop
  | .circular link queue_length =>
    link.data_offset.toNat + link.data_limit.toNat ≤ link.length.toNat ∧ 0 ≤ queue_length.toInt ∧
      SIZEOF_PORTAL_LINK.toNat + sizeofQueue.toNat + queue_length.toInt * share_length.toInt ≤
        link.length.toNat
  | .raw link => link.data_offset.toNat + link.data_limit.toNat ≤ link.length.toNat
  | .other => True

/-- The number of entries of a circular link, as the `int` has it. -/
def entries (share_length : BitVec 32) : Nat :=
  (length - SIZEOF_PORTAL_LINK - sizeofQueue).toNat / (share_length.signExtend 64).toNat % 4294967296

/-- The last 32 bits of the length have room for the headers, and there is an
entry size and an `int` with the number of entries. From 4 GiB on the field
`length` is less than the length, and the entries must fit into it. -/
def HasRoom (share_length share_type : BitVec 32) : Prop :=
  if share_type &&& LINK_CIRCULAR = LINK_CIRCULAR then
    share_length ≠ 0 ∧ 32 + sizeofQueue.toNat ≤ length.toNat % 4294967296 ∧
      entries sizeofQueue length share_length < 2147483648 ∧
      (length.toNat < 4294967296 ∨ 32 + sizeofQueue.toNat +
        entries sizeofQueue length share_length * share_length.toInt ≤ length.toNat % 4294967296)
  else share_type &&& LINK_RAW = LINK_RAW → 32 ≤ length.toNat % 4294967296

end

theorem toNat_signExtend_of_pos {x : BitVec 32} (h : 0 < x.toInt) :
    ((x.signExtend 64).toNat : Int) = x.toInt := by
  rw [BitVec.toInt_eq_toNat_cond] at h ⊢
  rw [BitVec.signExtend_eq_setWidth_of_msb_false, BitVec.toNat_setWidth]
  · split at h <;> omega
  · rw [BitVec.msb_eq_decide]
    simp only [decide_eq_false_iff_not]
    split at h <;> omega

theorem queue_in_region {rest : BitVec 64} {share_length : BitVec 32}
    (hq : 0 ≤ ((rest / share_length.signExtend 64).setWidth 32).toInt) :
    ((rest / share_length.signExtend 64).setWidth 32).toInt * share_length.toInt ≤ rest.toNat := by
  set q := (rest / share_length.signExtend 64).setWidth 32 with hdef
  rcases le_or_gt share_length.toInt 0 with hneg | hpos
  · exact (Int.mul_nonpos_of_nonneg_of_nonpos hq hneg).trans (Int.natCast_nonneg _)
  · have hle : q.toInt ≤ (rest.toNat / (share_length.signExtend 64).toNat : Nat) := by
      rw [BitVec.toInt_eq_toNat_cond] at hq ⊢
      have hmod : q.toNat ≤ rest.toNat / (share_length.signExtend 64).toNat := by
        rw [hdef, BitVec.toNat_setWidth, BitVec.toNat_udiv]
        exact Nat.mod_le _ _
      split at hq <;> omega
    calc q.toInt * share_length.toInt ≤ (rest.toNat / (share_length.signExtend 64).toNat : Nat) *
            ((share_length.signExtend 64).toNat : Int) := by
          rw [toNat_signExtend_of_pos hpos]
          exact Int.mul_le_mul_of_nonneg_right hle hpos.le
      _ ≤ rest.toNat := by
          rw [← Int.natCast_mul]
          exact Int.ofNat_le.mpr (Nat.div_mul_le_self _ _)

end Portals
