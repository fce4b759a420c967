import Dufay.Framework.Lts
import Dufay.Mm.Address

/-! # Virtual ranges

An address space from `address_space_construct` on: holes are added with
`as_insert_hole`, and then ranges are allocated, in any number and of any
length.

`as_address` adds the length to the current address in 64 bits and
compares with the end of the space, so a length from user space that is
large enough passes. Behind that test, the address is moved once past
every other hole, by the length of the hole, and not compared again; and
an odd number of holes ends in a null pointer. `Plain` are the calls that
reach none of this.
-/

open Lts

namespace Address

/-! ### Adding holes -/

/-- The list of holes: those from `hole_root` to `hole_tail`, and what the
`next` of the last of them spells out. -/
structure Holes where
  linked : List Hole
  stray : List Hole
  deriving DecidableEq

/-- A hole with what its `next` spells out when it is added. -/
structure NewHole where
  hole : Hole
  next : List Hole
  deriving DecidableEq

/-- `as_insert_hole`: the `next` of the first hole is left as it is. -/
def as_insert_hole (holes : Holes) (new : NewHole) : Holes :=
  if holes.linked = [] then { linked := [new.hole], stray := new.next }
  else { linked := holes.linked ++ [new.hole], stray := [] }

/-- The holes after `as_insert_hole` of each of the new ones. -/
def insertAll (news : List NewHole) : Holes := news.foldl as_insert_hole ⟨[], []⟩

theorem foldl_as_insert_hole (news : List NewHole) (holes : Holes) :
    (news.foldl as_insert_hole holes).linked = holes.linked ++ news.map (·.hole) := by
  induction news generalizing holes with
  | nil => simp
  | cons new news ih =>
    rw [List.foldl_cons, ih]
    unfold as_insert_hole
    split
    · next hempty => simp [hempty]
    · simp

structure Ranges where
  as : Space
  /-- History that no call reads: the holes that were added, and the ranges
      of the successful calls, the newest first. -/
  added : List Hole
  given : List (UInt64 × UInt64)

inductive Call where
  /-- `address_space_allocate`; the pointer to the result may be null. -/
  | allocate (address : Option UInt64) (length : UInt64)
  /-- `address_space_free`, which does nothing. -/
  | free (address length : UInt64)
  deriving DecidableEq

/-- A call of `address_space_allocate` that goes through a null pointer is no
step. -/
def Ranges.step (r : Ranges) : Call → Option Ranges
  | .allocate address length =>
    match address_space_allocate r.as address length with
    | none => none
    | some (none, as) => some { r with as := as }
    | some (some a, as) => some { r with as := as, given := (a, length) :: r.given }
  | .free _ _ => some r

/-- A space that `address_space_construct` has made in zeroed memory, with
any holes added to it. -/
def Constructed (r : Ranges) : Prop :=
  ∃ (spaces spaces' : Spaces) (fresh : Fresh) (asid : UInt32) (news : List NewHole),
    fresh.holes = [] ∧ address_space_construct spaces (some fresh) = (some asid, spaces') ∧
      r = { as := { spaces'.space fresh.as with
              holes := (insertAll news).linked ++ (insertAll news).stray }
            added := news.map (·.hole)
            given := [] }

def rangeSystem : System Ranges Call where
  init := Constructed
  step := Ranges.step

/-! ### What is promised -/

/-- Two ranges, each a base and a length, have an address in common. -/
def Overlap (a la b lb : Nat) : Prop := max a b < min (a + la) (b + lb)

instance (a la b lb : Nat) : Decidable (Overlap a la b lb) := inferInstanceAs (Decidable (_ < _))

/-- The ranges of the successful calls. -/
structure DisjointRanges (r : Ranges) : Prop where
  pairwise : r.given.Pairwise fun p q => ¬ Overlap p.1.toNat p.2.toNat q.1.toNat q.2.toNat
  no_wrap : ∀ p ∈ r.given, p.1.toNat + p.2.toNat ≤ 2 ^ 64
  no_hole : ∀ p ∈ r.given, ∀ hole ∈ r.added,
    ¬ Overlap p.1.toNat p.2.toNat hole.base.toNat hole.limit.toNat
  inside : ∀ p ∈ r.given, r.as.base.toNat ≤ p.1.toNat ∧
    p.1.toNat + p.2.toNat ≤ r.as.base.toNat + r.as.limit.toNat
  /-- A failing call changes nothing. -/
  failing : ∀ address length as, address_space_allocate r.as address length = some (none, as) →
    as = r.as

/-- The calls that reach none of the slips of `as_address`: those that are
refused, and those for which the sum of the current address and the
length fits into 64 bits, the number of holes is even, and no hole is in
the way. -/
def Plain (r : Ranges) : Call → Prop
  | .allocate address length =>
    address = none ∨ length = 0 ∨ (r.as.current.toNat + length.toNat < 2 ^ 64 ∧
        (r.as.base.toNat + r.as.limit.toNat < r.as.current.toNat + length.toNat ∨
          (r.as.holes.length % 2 = 0 ∧ ∀ hole ∈ r.as.holes,
            ¬ Overlap r.as.current.toNat length.toNat hole.base.toNat hole.limit.toNat)))
  | .free _ _ => True

instance (r : Ranges) (a : Call) : Decidable (Plain r a) := by
  cases a <;> unfold Plain <;> infer_instance

/-! ### One call -/

theorem moved_eq {hole : Hole} (hfit : address.toNat + size.toNat < 2 ^ 64) (hsize : size ≠ 0)
    (hclear : ¬ Overlap address.toNat size.toNat hole.base.toNat hole.limit.toNat) :
    (if address < hole.base + hole.limit ∧ hole.base < address + size then address + hole.limit
      else address) = address := by
  split
  · next htest =>
    have hlt := UInt64.lt_iff_toNat_lt.mp htest.1
    have hlt' := UInt64.lt_iff_toNat_lt.mp htest.2
    rw [UInt64.toNat_add] at hlt hlt'
    have hpos : 0 < size.toNat := Nat.pos_of_ne_zero fun h => hsize (UInt64.toNat_inj.mp h)
    rw [Nat.mod_eq_of_lt hfit] at hlt'
    -- the ranges meet unless one is empty
    have hempty : hole.limit.toNat = 0 := by
      unfold Overlap at hclear
      omega
    rw [show hole.limit = 0 from UInt64.toNat_inj.mp hempty, UInt64.add_zero]
  · rfl

theorem skipHoles_of_clear (hfit : address.toNat + size.toNat < 2 ^ 64)
    (hsize : size ≠ 0) : ∀ holes : List Hole, holes.length % 2 = 0 →
    (∀ hole ∈ holes, ¬ Overlap address.toNat size.toNat hole.base.toNat hole.limit.toNat) →
    skipHoles size holes address = some address
  | [], _, _ => rfl
  | [_], heven, _ => by cases heven
  | hole :: skipped :: holes, heven, hclear => by
    rw [skipHoles, moved_eq hfit hsize (hclear hole (List.mem_cons_self ..))]
    apply skipHoles_of_clear hfit hsize holes
    · rw [List.length_cons, List.length_cons] at heven
      omega
    · intro h hh
      exact hclear h (List.mem_cons_of_mem _ (List.mem_cons_of_mem _ hh))

theorem address_space_allocate_refused
    (h : address = none ∨ length = 0 ∨ as.base + as.limit < as.current + length) :
    address_space_allocate as address length = some (none, as) := by
  unfold address_space_allocate as_address
  split
  · rfl
  · split
    · rfl
    · next haddress hlength =>
      rw [if_pos]
      rcases h with h | h | h
      · exact absurd h haddress
      · exact absurd h hlength
      · exact .inr h

theorem address_space_allocate_none
    (h : address_space_allocate as address length = some (none, as')) : as' = as := by
  unfold address_space_allocate as_address at h
  split at h
  · cases h
    rfl
  · split at h
    · cases h
      rfl
    · split at h
      · cases h
        rfl
      · obtain ⟨a, -, heq⟩ := Option.map_eq_some_iff.mp h
        cases heq

/-- What a space keeps from its construction on. -/
structure SpaceOk (r : Ranges) : Prop where
  base : r.as.base = 0xa0000000
  limit : r.as.limit = 0x0000fffffffff0ff
  current_ge : r.as.base.toNat ≤ r.as.current.toNat
  current_le : r.as.current.toNat ≤ r.as.base.toNat + r.as.limit.toNat
  added : ∀ hole ∈ r.added, hole ∈ r.as.holes
  /-- The ranges lie below the current address. -/
  below : ∀ p ∈ r.given, r.as.base.toNat ≤ p.1.toNat ∧ p.1.toNat + p.2.toNat ≤ r.as.current.toNat
  pairwise : r.given.Pairwise fun p q => ¬ Overlap p.1.toNat p.2.toNat q.1.toNat q.2.toNat
  no_hole : ∀ p ∈ r.given, ∀ hole ∈ r.added,
    ¬ Overlap p.1.toNat p.2.toNat hole.base.toNat hole.limit.toNat

theorem SpaceOk.end_eq (h : SpaceOk r) :
    (r.as.base + r.as.limit).toNat = r.as.base.toNat + r.as.limit.toNat ∧
      r.as.base.toNat + r.as.limit.toNat < 2 ^ 64 := by
  rw [h.base, h.limit]
  decide

theorem SpaceOk.init {r : Ranges} (h : Constructed r) : SpaceOk r := by
  obtain ⟨spaces, spaces', fresh, asid, news, -, hconstruct, rfl⟩ := h
  have hspace : spaces'.space fresh.as =
      { current := 0xa0000000, base := 0xa0000000, limit := 0x0000fffffffff0ff,
        holes := fresh.holes } := by
    unfold address_space_construct at hconstruct
    dsimp only at hconstruct
    split at hconstruct
    · cases hconstruct
      exact Function.update_self ..
    · cases hconstruct
  constructor
  · rw [hspace]
  · rw [hspace]
  · rw [hspace]
  · rw [hspace]
    exact Nat.le_add_right _ _
  · intro hole hhole
    exact List.mem_append_left _ (foldl_as_insert_hole news ⟨[], []⟩ ▸ hhole)
  · intro p hp
    cases hp
  · exact List.Pairwise.nil
  · intro p hp
    cases hp

/-- **What a plain call does**: it is refused and changes nothing, or the
range begins at the current address, which moves behind it. -/
theorem SpaceOk.allocate (h : SpaceOk r) (hplain : Plain r (.allocate address length)) :
    address_space_allocate r.as address length = some (none, r.as) ∨
      (r.as.current.toNat + length.toNat ≤ r.as.base.toNat + r.as.limit.toNat ∧
        (∀ hole ∈ r.as.holes,
          ¬ Overlap r.as.current.toNat length.toNat hole.base.toNat hole.limit.toNat) ∧
        address_space_allocate r.as address length =
          some (some r.as.current, { r.as with current := r.as.current + length })) := by
  obtain ⟨hend, -⟩ := h.end_eq
  have hover : r.as.current.toNat + length.toNat < 2 ^ 64 →
      (r.as.base + r.as.limit < r.as.current + length ↔
        r.as.base.toNat + r.as.limit.toNat < r.as.current.toNat + length.toNat) := by
    intro hfit
    rw [UInt64.lt_iff_toNat_lt, hend, UInt64.toNat_add, Nat.mod_eq_of_lt hfit]
  by_cases hrefused : address = none ∨ length = 0 ∨ r.as.base + r.as.limit < r.as.current + length
  · exact .inl (address_space_allocate_refused hrefused)
  · rw [not_or, not_or] at hrefused
    obtain ⟨haddress, hlength, htest⟩ := hrefused
    rcases hplain with hnull | hzero | ⟨hfit, hbeyond | ⟨heven, hclear⟩⟩
    · exact absurd hnull haddress
    · exact absurd hzero hlength
    · exact absurd ((hover hfit).mpr hbeyond) htest
    · have hinside := mt (hover hfit).mpr htest
      refine .inr ⟨by omega, hclear, ?_⟩
      rw [address_space_allocate, if_neg haddress, if_neg hlength, as_address,
        if_neg (fun hcon => hcon.elim hlength htest),
        skipHoles_of_clear hfit hlength r.as.holes heven hclear, Option.map_some]

theorem SpaceOk.step {r : Ranges} (h : SpaceOk r) {a : Call} (hplain : Plain r a) :
    ∃ r', r.step a = some r' ∧ SpaceOk r' := by
  cases a with
  | free address length => exact ⟨r, rfl, h⟩
  | allocate address length =>
    rcases h.allocate hplain with hnone | ⟨hinside, hclear, hsome⟩
    · refine ⟨r, ?_, h⟩
      simp only [Ranges.step, hnone]
    · refine ⟨{ r with
        as := { r.as with current := r.as.current + length }
        given := (r.as.current, length) :: r.given }, by simp only [Ranges.step, hsome], ?_⟩
      have hfit := h.end_eq.2
      have hcurrent : (r.as.current + length).toNat = r.as.current.toNat + length.toNat := by
        rw [UInt64.toNat_add, Nat.mod_eq_of_lt (by omega)]
      have hge := h.current_ge
      refine ⟨h.base, h.limit, ?_, ?_, h.added, ?_, ?_, ?_⟩
      · show r.as.base.toNat ≤ (r.as.current + length).toNat
        omega
      · show (r.as.current + length).toNat ≤ r.as.base.toNat + r.as.limit.toNat
        omega
      · intro p hp
        show r.as.base.toNat ≤ p.1.toNat ∧ p.1.toNat + p.2.toNat ≤ (r.as.current + length).toNat
        rcases List.mem_cons.mp hp with rfl | hp
        · exact ⟨hge, by rw [hcurrent]⟩
        · have hbelow := h.below p hp
          omega
      · refine List.pairwise_cons.mpr ⟨fun p hp => ?_, h.pairwise⟩
        -- the older ranges end where the new one begins, or before
        have hbelow := (h.below p hp).2
        show ¬ Overlap r.as.current.toNat length.toNat p.1.toNat p.2.toNat
        unfold Overlap
        omega
      · intro p hp hole hhole
        rcases List.mem_cons.mp hp with rfl | hp
        · exact hclear hole (h.added hole hhole)
        · exact h.no_hole p hp hole hhole

/-- **The virtual ranges are disjoint** in every run of plain calls, from any
constructed space with any holes: the ranges of the successful calls are
pairwise disjoint, do not wrap, overlap no hole and lie inside the space,
a failing call changes nothing, and every further plain call returns. -/
theorem ranges_disjoint {r : Ranges} (hr : ReachableBy rangeSystem Plain r) :
    DisjointRanges r ∧ ∀ a, Plain r a → ∃ r', r.step a = some r' := by
  have hok : SpaceOk r := by
    refine ReachableBy.invariant ?_ ?_ hr
    · intro r hinit
      exact SpaceOk.init hinit
    intro r a r' h hplain hstep
    obtain ⟨r'', hstep', h'⟩ := h.step hplain
    rw [show r' = r'' from Option.some.inj (hstep.symm.trans hstep')]
    exact h'
  have hle := hok.current_le
  have hfit := hok.end_eq.2
  refine ⟨⟨hok.pairwise, ?_, hok.no_hole, ?_, fun _ _ _ => address_space_allocate_none⟩, ?_⟩
  · intro p hp
    have hbelow := hok.below p hp
    omega
  · intro p hp
    have hbelow := hok.below p hp
    omega
  · intro a hplain
    obtain ⟨r', hstep, -⟩ := hok.step hplain
    exact ⟨r', hstep⟩

/-- A constructed space with two holes far above its base. -/
def twoHoles : Ranges where
  as :=
    { current := 0xa0000000
      base := 0xa0000000
      limit := 0x0000fffffffff0ff
      holes := [⟨0x200000000, 0x1000⟩, ⟨0x300000000, 0x1000⟩] }
  added := [⟨0x200000000, 0x1000⟩, ⟨0x300000000, 0x1000⟩]
  given := []

theorem twoHoles_constructed : Constructed twoHoles :=
  ⟨⟨fun _ => ⟨0, 0, 0, []⟩, [], 0⟩, _, ⟨1, [], true⟩, 0,
    [⟨⟨0x200000000, 0x1000⟩, []⟩, ⟨⟨0x300000000, 0x1000⟩, []⟩], rfl, rfl, rfl⟩

/-- Two pages, a refused length and a third page. -/
theorem ranges_disjoint_twoHoles : ∃ r, execBy rangeSystem Plain twoHoles
        [.allocate (some 0) 0x1000, .allocate (some 0) 0x1000,
          .allocate (some 0) 0x1000000000000, .allocate (some 0) 0x1000] = some r ∧
      r.given = [(0xa0002000, 0x1000), (0xa0001000, 0x1000), (0xa0000000, 0x1000)] ∧
      DisjointRanges r := by
  refine run_imp (fun r =>
      r.given = [(0xa0002000, 0x1000), (0xa0001000, 0x1000), (0xa0000000, 0x1000)])
    (by decide +kernel) fun r hr hgiven => ⟨hgiven, ?_⟩
  exact (ranges_disjoint (.of_execBy (.init twoHoles_constructed) hr)).1

/-- **A range wraps**: all but one byte of the address space is allocated in
one call from user space. -/
theorem range_wraps : ¬ ∀ r, Reachable rangeSystem r → DisjointRanges r := by
  intro h
  obtain ⟨r, hr, hgiven⟩ : ∃ r, exec rangeSystem twoHoles
      [.allocate (some 0) 0xffffffffffffffff] = some r ∧
      r.given = [(0xa0000000, 0xffffffffffffffff)] := by decide +kernel
  have hranges := h r (Reachable.of_exec twoHoles_constructed hr)
  have hwrap := hranges.no_wrap (0xa0000000, 0xffffffffffffffff) (by rw [hgiven]; simp)
  exact absurd hwrap (by decide)

end Address
