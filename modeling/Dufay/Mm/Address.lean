import Mathlib.Data.UInt

/-! # Address spaces

The dictionary of address spaces and `address_space_construct`,
`address_space_allocate` and `address_space_free` of `mm/address.c`.

An address space is its address. The memory that it is made in, the
success of the dictionary and the list of holes that the fresh memory
spells out come from outside.
-/

namespace Address

/-- `struct address_hole` -/
structure Hole where
  base : UInt64
  limit : UInt64
  deriving DecidableEq

/-- `struct address_space`. The holes are the list from `hole_root` on. -/
structure Space where
  current : UInt64
  base : UInt64
  limit : UInt64
  holes : List Hole
  deriving DecidableEq

/-- All address spaces. An `asid` is the pattern of the `int`. -/
structure Spaces where
  space : Nat → Space
  as_table : List (UInt32 × Nat)
  asid_bump : UInt32

/-- `dictionary_search` on `as_table` -/
def address_find_as (spaces : Spaces) (asid : UInt32) : Option Nat := spaces.as_table.lookup asid

/-- What the allocations of `address_space_construct` answer. -/
structure Fresh where
  as : Nat
  holes : List Hole
  /-- Whether `dictionary_push` succeeds. -/
  pushed : Bool
  deriving DecidableEq

/-- The `asid` or an error. Without memory for the space or for its page
table nothing happens. -/
def address_space_construct (spaces : Spaces) (answer : Option Fresh) : Option UInt32 × Spaces :=
  match answer with
  | none => (none, spaces)
  | some fresh =>
    let asid := spaces.asid_bump
    if fresh.pushed then
      (some asid,
        { space := Function.update spaces.space fresh.as
            { current := 0xa0000000
              base := 0xa0000000
              limit := 0x0000fffffffff0ff
              holes := fresh.holes }
          as_table := (asid, fresh.as) :: spaces.as_table
          asid_bump := asid + 1 })
    else (none, { spaces with asid_bump := asid + 1 })

/-- The loop of `as_address`. It advances twice in one round, so that every
other hole is left out and the last one of an odd number is followed by a
read through the null pointer. -/
def skipHoles (size : UInt64) : List Hole → UInt64 → Option UInt64
  | [], address => some address
  | [_], _ => none
  | hole :: _ :: holes, address =>
    skipHoles size holes (if address < hole.base + hole.limit ∧ hole.base < address + size then
        address + hole.limit
      else address)

/-- The address or an error; `none` where the loop faults. -/
def as_address (as : Space) (size : UInt64) : Option (Option UInt64 × Space) :=
  if size = 0 ∨ as.base + as.limit < as.current + size then some (none, as)
  else
    (skipHoles size as.holes as.current).map fun address =>
      (some address, { as with current := address + size })

/-- The pointer to the result may be null. -/
def address_space_allocate (as : Space) (address : Option UInt64) (length : UInt64) :
    Option (Option UInt64 × Space) :=
  if address = none then some (none, as)
  else if length = 0 then some (none, as)
  else as_address as length

end Address
