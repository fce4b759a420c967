import Dufay.Framework.Lts
import Dufay.Framework.Size
import Mathlib.Algebra.Order.BigOperators.Group.List

/-! # Resource pools

`rinit`, `ralloc` and `rfree` of `core/resource.c`. A segment is the list
from its head on, and the table maps a base to the boundary that was pushed
last. The red-black tree is read by `rfree` only, for the children of a
node, which come from outside. Numbers are taken modulo `W`.

`ralloc` records the base of a resource as its length, and splits the
boundary that it finds without a comparison of the lengths. So the pool is
consistent as long as nothing is freed and no boundary is too short. If the
rest of a boundary is too long for the segments, its index is -1, and it is
moved to the word in front of the array: no segment has it from then on.
-/

open Lts Size Function

namespace Resource

def sub64 (x y : Nat) : Nat := if y ≤ x then x - y else x + W - y

structure Rboundary where
  base : Nat
  length : Nat
  allocated : Bool
  deriving DecidableEq

structure Rpool where
  base : Nat
  total : Nat
  total_depth : Nat
  free : Nat
  boundary_table : List (Nat × Rboundary)
  boundary_segments : Nat → List Rboundary
  /-- What was moved to `boundary_segments[-1]`; no call reads that word but to
      link it behind the next one. -/
  front : List Rboundary
  /-- History: the resources that live, with the lengths that were asked for. -/
  live : List (Nat × Nat)

/-- `for (; n;) { ret++; n >>= 1; }`, for `fuel` bits. -/
def bits : Nat → Nat → Nat
  | 0, _ => 0
  | fuel + 1, n => if n = 0 then 0 else bits fuel (n >>> 1) + 1

/-- The segments that `alloc` hands out are empty. -/
def rinit (base length : Nat) : Option Rpool :=
  let total_depth := bits 64 length
  if total_depth = 0 then none
  else some
    { base := base
      total := length
      total_depth := total_depth
      free := length
      boundary_table := []
      boundary_segments := update (fun _ => []) (total_depth - 1) [⟨base, length, false⟩]
      front := []
      live := [] }

namespace Rpool

def rpool_boundary_index (p : Rpool) (n : Nat) : Option Nat :=
  if n = 0 then some 0
  else if p.total_depth ≤ bits 64 n then none
  else some (bits 64 n)

/-- `rpool_boundary_move` of the first boundary of segment `i`, which has become
`boundary`; the index -1 is `none`. -/
def rpool_boundary_move (p : Rpool) (i : Nat) (j : Option Nat) (boundary : Rboundary) : Rpool :=
  let rest := update p.boundary_segments i (p.boundary_segments i).tail
  match j with
  | some j => { p with boundary_segments := update rest j (boundary :: rest j) }
  | none => { p with boundary_segments := rest, front := boundary :: p.front }

/-- The resource or an error, and the pool. -/
def ralloc (p : Rpool) (length : Nat) : Option Nat × Rpool :=
  match p.rpool_boundary_index length with
  | none => (none, p)
  | some boundary_index =>
    if sub64 p.free length = 0 then (none, p)
    else
      match (List.range' boundary_index (p.total_depth - boundary_index)).find? fun i =>
          p.boundary_segments i ≠ [] with
      | none => (none, p)
      | some i =>
        match p.boundary_segments i with
        | [] => (none, p)
        | boundary :: _ =>
          let nrboundary : Rboundary := ⟨boundary.base, boundary.base, true⟩
          let boundary : Rboundary := ⟨(boundary.base + length) % W,
            sub64 boundary.length length, false⟩
          -- a boundary whose index stays is moved to where it is
          let p := p.rpool_boundary_move i (p.rpool_boundary_index boundary.length) boundary
          (some nrboundary.base,
            { p with
              boundary_table := (nrboundary.base, nrboundary) :: p.boundary_table
              free := sub64 p.free length
              live := (nrboundary.base, length) :: p.live })

/-- The boundary that `rfree` puts back for `rboundary`, whose children in the
tree are `left` and `right`. With a child it is new memory, which is
`fresh` where it is not written. -/
def coalesce (rboundary : Rboundary) (left right : Option Rboundary) (fresh : Rboundary) : Rboundary :=
  if left = none ∧ right = none then rboundary
  else
    let coalesced :=
      match left with
      | some l =>
        if l.base + l.length = rboundary.base then ⟨l.base, l.length + rboundary.length, false⟩
        else fresh
      | none => fresh
    match right with
    | some r =>
      if rboundary.base + rboundary.length = r.base then
        { coalesced with length := coalesced.length + r.length }
      else coalesced
    | none => coalesced

def rfree (p : Rpool) (resource : Nat) (left right : Option Rboundary) (fresh : Rboundary) : Rpool :=
  match p.boundary_table.lookup resource with
  | none => p
  | some rboundary =>
    let boundary := coalesce rboundary left right fresh
    let p := { p with
      free := (p.free + rboundary.length) % W
      live := p.live.filter fun r => r.1 ≠ resource }
    match p.rpool_boundary_index boundary.length with
    | none => p
    | some i =>
      { p with
        boundary_segments := update p.boundary_segments i
          ({ boundary with allocated := false } :: p.boundary_segments i) }

end Rpool

inductive Action where
  | ralloc (length : Nat)
  | rfree (resource : Nat) (left right : Option Rboundary) (fresh : Rboundary)

/-- `rfree` is called for resources that live. -/
def step (p : Rpool) : Action → Option Rpool
  | .ralloc length => some (p.ralloc length).2
  | .rfree resource left right fresh =>
    if resource ∈ p.live.map Prod.fst then some (p.rfree resource left right fresh) else none

def system (base length : Nat) : System Rpool Action where
  init p := rinit base length = some p
  step := step

/-- Nothing is freed, and what is asked for is free. -/
def OnlyAllocates (p : Rpool) : Action → Prop
  | .ralloc length => length ≤ p.free
  | .rfree .. => False

instance (p : Rpool) (a : Action) : Decidable (OnlyAllocates p a) := by
  cases a <;> unfold OnlyAllocates <;> infer_instance

/-- All that is free is one boundary behind the resources that live, which is in
one segment or in none. -/
structure Ok (p₀ p : Rpool) : Prop where
  base : p.base = p₀.base
  total : p.total = p₀.total
  segments : p.boundary_segments = (fun _ => []) ∨ ∃ i, p.boundary_segments =
    update (fun _ => []) i [⟨p.base + (p.total - p.free), p.free, false⟩]
  sum : p.free + (p.live.map Prod.snd).sum = p.total
  within : ∀ r ∈ p.live, p.base ≤ r.1 ∧ r.1 + r.2 ≤ p.base + (p.total - p.free)
  apart : p.live.Pairwise fun r r' => r'.1 + r'.2 ≤ r.1
  fresh : p.live = [] → p = p₀

theorem Ok.init {base : Nat} (h : rinit base length = some p) : Ok p p := by
  unfold rinit at h
  dsimp only at h
  split at h
  · cases h
  · cases h
    exact ⟨rfl, rfl, .inr ⟨_, by rw [Nat.sub_self]; rfl⟩, by simp, by simp, by simp, fun _ => rfl⟩

theorem rpool_boundary_move_eq (p : Rpool) (i : Nat) (j : Option Nat) (boundary : Rboundary) :
    ∃ segments front, p.rpool_boundary_move i j boundary =
        { p with boundary_segments := segments, front := front } ∧
      (p.boundary_segments = update (fun _ => []) i [old] →
        segments = (fun _ => []) ∨ ∃ k, segments = update (fun _ => []) k [boundary]) := by
  cases j with
  | none =>
    refine ⟨_, _, rfl, fun hold => .inl ?_⟩
    rw [hold, update_idem, update_self]
    exact update_eq_self_iff.mpr rfl
  | some j =>
    refine ⟨_, p.front, rfl, fun hold => .inr ⟨j, ?_⟩⟩
    have hrest : update p.boundary_segments i (p.boundary_segments i).tail = fun _ => [] := by
      rw [hold, update_idem, update_self]
      exact update_eq_self_iff.mpr rfl
    rw [hrest]

theorem Ok.ralloc {p₀ p : Rpool} (h : Ok p₀ p) (hend : p.base + p.total ≤ W)
    (hle : length ≤ p.free) : Ok p₀ (p.ralloc length).2 := by
  unfold Rpool.ralloc
  split
  · exact h
  split
  · exact h
  next hfree =>
  split
  · exact h
  next i hi =>
  split
  · exact h
  next boundary _ hsegment =>
  -- the boundary is the one that is free
  obtain ⟨rfl, hold⟩ : boundary = ⟨p.base + (p.total - p.free), p.free, false⟩ ∧
      p.boundary_segments = update (fun _ => []) i [boundary] := by
    rcases h.segments with hnone | ⟨k, hk⟩
    · rw [hnone] at hsegment
      cases hsegment
    · have hik : i = k := by
        by_contra hne
        rw [hk, update_of_ne hne] at hsegment
        cases hsegment
      rw [hk, hik, update_self] at hsegment
      cases hsegment
      exact ⟨rfl, hik ▸ hk⟩
  have hsum := h.sum
  have hsub : sub64 p.free length = p.free - length := if_pos hle
  have hbase : (p.base + (p.total - p.free) + length) % W =
      p.base + (p.total - (p.free - length)) := by
    rw [hsub] at hfree
    rw [Nat.mod_eq_of_lt (by omega)]
    omega
  dsimp only
  rw [hsub, hbase]
  obtain ⟨segments, front, hmove, hsegments⟩ := rpool_boundary_move_eq p i
    (p.rpool_boundary_index (p.free - length))
    ⟨p.base + (p.total - (p.free - length)), p.free - length, false⟩
  rw [hmove]
  dsimp only
  rw [hsub]
  refine ⟨h.base, h.total, hsegments hold, ?_, ?_, ?_, fun hnil => nomatch hnil⟩
  · simp only [List.map_cons, List.sum_cons]
    omega
  · intro r hr
    dsimp only
    rcases List.mem_cons.mp hr with rfl | hr
    · dsimp only
      omega
    · have hw := h.within r hr
      omega
  · exact List.pairwise_cons.mpr ⟨fun r hr => (h.within r hr).2, h.apart⟩

end Resource
