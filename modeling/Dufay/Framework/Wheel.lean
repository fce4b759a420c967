import Mathlib.Logic.Function.Basic

/-! # Taking turns on a wheel

Some wait on a wheel, each at a distance from its hand, and one of the
nearest is taken. Who had the turn before goes back to the wheel, at a
distance of its own (`reach`). The hand moves on by one when the place
that it took from is left empty.

The quantity that bounds overtaking is the distance of who waits plus the
number of times it was overtaken.
-/

/-- Who waits where, whose turn it is, and the history of the turns. -/
structure Wheel (α : Type*) where
  /-- The distance from the hand, of those who wait. -/
  place : α → Option Nat
  turn : α
  /-- How often the second was taken while the first has been waiting. -/
  overtakes : α → α → Nat

namespace Wheel

open Function

variable {α : Type*} [DecidableEq α] {reach : α → Nat} {w w' : Wheel α} {N : Nat}

/-- `x` is at distance `d`, and nobody is nearer. -/
structure Nearest (w : Wheel α) (x : α) (d : Nat) : Prop where
  place : w.place x = some d
  le : ∀ y e, w.place y = some e → d ≤ e

/-- Take `next`, with the others at `place`. -/
def take (w : Wheel α) (reach : α → Nat) (place : α → Option Nat) (next : α) : Wheel α where
  place := Function.update (Function.update place next none) w.turn (some (reach w.turn))
  turn := next
  overtakes x y := if x = w.turn then 0 else w.overtakes x y + if y = next then 1 else 0

/-- The steps of a wheel on which nobody goes back to a place that was just
taken from and is not empty. -/
inductive Step (reach : α → Nat) (w : Wheel α) : Wheel α → Prop where
  /-- Someone new waits. -/
  | join {x : α} {d : Nat} (hplace : w.place x = none) (hturn : x ≠ w.turn) (hd : d ≤ reach x) :
      Step reach w ⟨Function.update w.place x (some d), w.turn,
        fun z y => if z = x then 0 else w.overtakes z y⟩
  /-- Others wait at the same place, and the hand stays. -/
  | stay {next other : α} {d : Nat} (hnear : Nearest w next d) (hne : other ≠ next)
      (hother : w.place other = some d) (hback : reach w.turn ≠ d) :
      Step reach w (w.take reach w.place next)
  /-- The place is left empty, and the hand moves on. -/
  | advance {next : α} {d : Nat} (hnear : Nearest w next d)
      (halone : ∀ x, x ≠ next → w.place x ≠ some d) :
      Step reach w (w.take reach (fun x => (w.place x).map (· - 1)) next)

/-- Before the hand moves, `y` will not be taken: someone is nearer than it
is, or will be when it goes back. -/
def Blocked (reach : α → Nat) (w : Wheel α) (y : α) : Prop :=
  ∃ z e, w.place z = some e ∧ (y = w.turn ∧ e ≤ reach y ∨ ∃ k, w.place y = some k ∧ e < k)

/-- The invariant: nobody waits beyond its reach, and the distance of who
waits has made up for the times it was overtaken, up to one for those who
are blocked now. -/
structure Fair (reach : α → Nat) (N : Nat) (w : Wheel α) : Prop where
  turn : w.place w.turn = none
  within : ∀ x d, w.place x = some d → d ≤ reach x
  blocked : ∀ x d, w.place x = some d → ∀ y, w.overtakes x y + d ≤ N + 1
  free : ∀ x d, w.place x = some d → ∀ y, ¬ Blocked reach w y → w.overtakes x y + d ≤ N

/-! ### Places after a step -/

theorem take_place_turn (w : Wheel α) (place : α → Option Nat) (next : α) :
    (w.take reach place next).place w.turn = some (reach w.turn) :=
  update_self ..

variable {next : α}

theorem take_place_next (w : Wheel α) (place : α → Option Nat) (h : next ≠ w.turn) :
    (w.take reach place next).place next = none := by
  show update (update place next none) w.turn _ next = none
  rw [update_of_ne h, update_self]

theorem take_place_of_ne (w : Wheel α) (place : α → Option Nat) (hturn : x ≠ w.turn)
    (hnext : x ≠ next) : (w.take reach place next).place x = place x := by
  show update (update place next none) w.turn _ x = place x
  rw [update_of_ne hturn, update_of_ne hnext]

theorem place_of_take {place : α → Option Nat} (hnext : next ≠ w.turn)
    (hx : (w.take reach place next).place x = some e) :
    x = w.turn ∧ e = reach w.turn ∨ x ≠ w.turn ∧ x ≠ next ∧ place x = some e := by
  by_cases hturn : x = w.turn
  · rw [hturn, take_place_turn] at hx
    exact .inl ⟨hturn, (Option.some.inj hx).symm⟩
  by_cases hne : x = next
  · rw [hne, take_place_next w place hnext] at hx
    exact absurd hx nofun
  · rw [take_place_of_ne w place hturn hne] at hx
    exact .inr ⟨hturn, hne, hx⟩

theorem take_overtakes_turn (w : Wheel α) (place : α → Option Nat) (next y : α) :
    (w.take reach place next).overtakes w.turn y = 0 :=
  if_pos rfl

theorem take_overtakes_of_ne (w : Wheel α) (place : α → Option Nat) (next y : α)
    (hx : x ≠ w.turn) : (w.take reach place next).overtakes x y =
      w.overtakes x y + if y = next then 1 else 0 :=
  if_neg hx

omit [DecidableEq α] in
theorem Nearest.not_blocked (h : Nearest w x d) (hx : x ≠ w.turn) : ¬ Blocked reach w x := by
  intro ⟨z, e, hz, hblocked⟩
  have hle := h.le z e hz
  obtain ⟨hturn, -⟩ | ⟨k, hk, hlt⟩ := hblocked
  · exact hx hturn
  · rw [h.place] at hk
    have hd := Option.some.inj hk
    omega

/-! ### The steps keep the bound -/

section

variable (h : Fair reach N w)

include h

omit [DecidableEq α] in
theorem Fair.next_ne_turn (hnext : w.place next = some d) : next ≠ w.turn := by
  intro heq
  rw [heq, h.turn] at hnext
  exact absurd hnext nofun

theorem Fair.join (hN : ∀ x, reach x ≤ N)
    (hplace : w.place x = none) (hturn : x ≠ w.turn) (hd : d ≤ reach x) :
    Fair reach N ⟨update w.place x (some d), w.turn,
      fun z y => if z = x then 0 else w.overtakes z y⟩ := by
  have hle := hN x
  -- who waited before waits where it did
  have hold : ∀ z e, w.place z = some e → z ≠ x := by
    intro z e hz heq
    rw [heq, hplace] at hz
    exact absurd hz nofun
  have hblocked : ∀ y, Blocked reach w y → Blocked reach ⟨update w.place x (some d),
      w.turn, fun z y => if z = x then 0 else w.overtakes z y⟩ y := by
    intro y ⟨z, e, hz, hy⟩
    refine ⟨z, e, (update_of_ne (hold z e hz) ..).trans hz, ?_⟩
    obtain hy | ⟨k, hk, hlt⟩ := hy
    · exact .inl hy
    · exact .inr ⟨k, (update_of_ne (hold y k hk) ..).trans hk, hlt⟩
  have hcases : ∀ z e, update w.place x (some d) z = some e →
      z = x ∧ e = d ∨ z ≠ x ∧ w.place z = some e := by
    intro z e hz
    by_cases hzx : z = x
    · rw [hzx, update_self] at hz
      exact .inl ⟨hzx, (Option.some.inj hz).symm⟩
    · rw [update_of_ne hzx] at hz
      exact .inr ⟨hzx, hz⟩
  constructor
  · exact (update_of_ne (Ne.symm hturn) ..).trans h.turn
  · intro z e hz
    obtain ⟨rfl, rfl⟩ | ⟨-, hz⟩ := hcases z e hz
    · exact hd
    · exact h.within z e hz
  · intro z e hz y
    obtain ⟨rfl, rfl⟩ | ⟨hne, hz⟩ := hcases z e hz
    · show (if z = z then 0 else w.overtakes z y) + e ≤ N + 1
      rw [if_pos rfl]
      omega
    · show (if z = x then 0 else w.overtakes z y) + e ≤ N + 1
      rw [if_neg hne]
      exact h.blocked z e hz y
  · intro z e hz y hy
    obtain ⟨rfl, rfl⟩ | ⟨hne, hz⟩ := hcases z e hz
    · show (if z = z then 0 else w.overtakes z y) + e ≤ N
      rw [if_pos rfl]
      omega
    · show (if z = x then 0 else w.overtakes z y) + e ≤ N
      rw [if_neg hne]
      exact h.free z e hz y fun hw => hy (hblocked y hw)

theorem Fair.blocked_stay (hnear : Nearest w next d)
    (hne : other ≠ next) (hother : w.place other = some d) (hback : reach w.turn ≠ d)
    (hy : y ≠ next) (hblocked : Blocked reach w y) :
    Blocked reach (w.take reach w.place next) y := by
  obtain ⟨z, e, hz, hcases⟩ := hblocked
  have hde := hnear.le z e hz
  have hother' : (w.take reach w.place next).place other = some d :=
    (take_place_of_ne w w.place (h.next_ne_turn hother) hne).trans hother
  refine ⟨other, d, hother', .inr ?_⟩
  obtain ⟨hturn, hle⟩ | ⟨k, hk, hlt⟩ := hcases
  · subst hturn
    exact ⟨_, take_place_turn w w.place next, by omega⟩
  · exact ⟨k, (take_place_of_ne w w.place (h.next_ne_turn hk) hy).trans hk, by omega⟩

theorem Fair.stay (hN : ∀ x, reach x ≤ N)
    (hnear : Nearest w next d) (hne : other ≠ next) (hother : w.place other = some d)
    (hback : reach w.turn ≠ d) : Fair reach N (w.take reach w.place next) := by
  have hle := hN w.turn
  have hnext := h.next_ne_turn hnear.place
  have hother' : (w.take reach w.place next).place other = some d :=
    (take_place_of_ne w w.place (h.next_ne_turn hother) hne).trans hother
  constructor
  · exact take_place_next w w.place hnext
  · intro x e hx
    obtain ⟨rfl, rfl⟩ | ⟨-, -, hplace⟩ := place_of_take hnext hx
    · exact Nat.le_refl _
    · exact h.within x e hplace
  · intro x e hx y
    obtain ⟨rfl, rfl⟩ | ⟨hturn, -, hplace⟩ := place_of_take hnext hx
    · rw [take_overtakes_turn]
      omega
    rw [take_overtakes_of_ne w w.place next y hturn]
    by_cases hy : y = next
    · -- who is taken was not blocked
      subst hy
      have hfree := h.free x e hplace y (hnear.not_blocked hnext)
      rw [if_pos rfl]
      omega
    · rw [if_neg hy]
      exact h.blocked x e hplace y
  · intro x e hx y hy
    obtain ⟨rfl, rfl⟩ | ⟨hturn, -, hplace⟩ := place_of_take hnext hx
    · rw [take_overtakes_turn]
      omega
    by_cases hyn : y = next
    · -- and is blocked now, by the others at its place
      subst hyn
      exact absurd ⟨other, d, hother', .inl ⟨rfl, h.within y d hnear.place⟩⟩ hy
    · rw [take_overtakes_of_ne w w.place next y hturn, if_neg hyn]
      exact h.free x e hplace y fun hw => hy (h.blocked_stay hnear hne hother hback hyn hw)

theorem Fair.advance (hN : ∀ x, reach x ≤ N)
    (hnear : Nearest w next d) (halone : ∀ x, x ≠ next → w.place x ≠ some d) :
    Fair reach N (w.take reach (fun x => (w.place x).map (· - 1)) next) := by
  have hle := hN w.turn
  have hnext := h.next_ne_turn hnear.place
  -- the others were farther away, so they are nearer by one now
  have hcloser : ∀ x e, x ≠ next → (w.place x).map (· - 1) = some e → w.place x = some (e + 1) := by
    intro x e hx hmap
    obtain ⟨e', he', rfl⟩ := Option.map_eq_some_iff.mp hmap
    have hde := hnear.le x e' he'
    have hne : e' ≠ d := fun heq => halone x hx (heq ▸ he')
    rw [he', Nat.sub_add_cancel (by omega)]
  have hbound : ∀ x e, (w.take reach (fun x => (w.place x).map (· - 1)) next).place x = some e →
      ∀ y, (w.take reach (fun x => (w.place x).map (· - 1)) next).overtakes x y + e ≤ N := by
    intro x e hx y
    obtain ⟨rfl, rfl⟩ | ⟨hturn, hne, hplace⟩ := place_of_take hnext hx
    · rw [take_overtakes_turn]
      omega
    have hbefore := hcloser x e hne hplace
    rw [take_overtakes_of_ne w _ next y hturn]
    by_cases hy : y = next
    · subst hy
      have hfree := h.free x (e + 1) hbefore y (hnear.not_blocked hnext)
      rw [if_pos rfl]
      omega
    · have hblocked := h.blocked x (e + 1) hbefore y
      rw [if_neg hy]
      omega
  constructor
  · exact take_place_next w _ hnext
  · intro x e hx
    obtain ⟨rfl, rfl⟩ | ⟨-, hne, hplace⟩ := place_of_take hnext hx
    · exact Nat.le_refl _
    · have hreach := h.within x (e + 1) (hcloser x e hne hplace)
      omega
  · intro x e hx y
    exact Nat.le_succ_of_le (hbound x e hx y)
  · intro x e hx y _
    exact hbound x e hx y

theorem Fair.step (hN : ∀ x, reach x ≤ N) (hstep : Step reach w w') : Fair reach N w' := by
  cases hstep with
  | join hplace hturn hd => exact h.join hN hplace hturn hd
  | stay hnear hne hother hback => exact h.stay hN hnear hne hother hback
  | advance hnear halone => exact h.advance hN hnear halone

omit [DecidableEq α] in
theorem Fair.overtakes_le (hx : w.place x = some d) (y : α) : w.overtakes x y ≤ N + 1 := by
  have hblocked := h.blocked x d hx y
  omega

end

end Wheel
