import Mathlib.Data.List.Basic

/-! # Items and the places they are in

A relation `At x a` (the item `x` is in the place `a`) is a `Partition`
of `dom` if every item of `dom`, and no other, is in exactly one place.
A step moves one item, adds new ones or takes those of a place away.

`Store` is the common case of places that are slots, for one item each,
and stacks.
-/

namespace Placement

open Function

universe u v w

section partition
variable {α : Type u} {π : Type v}

/-- Every item of `dom`, and no other, is in exactly one place. -/
structure Partition (dom : α → Prop) (At : α → π → Prop) : Prop where
  total : ∀ x, dom x → ∃ a, At x a
  sound : ∀ x a, At x a → dom x
  unique : ∀ x a b, At x a → At x b → a = b

variable {dom dom' : α → Prop} {At At' : α → π → Prop}

section

variable (h : Partition dom At)

include h

theorem Partition.existsUnique (hx : dom x) : ∃! a, At x a := by
  obtain ⟨a, ha⟩ := h.total x hx
  exact ⟨a, ha, fun b hb => h.unique x b a hb ha⟩

theorem Partition.congr (hdom : ∀ x, dom' x ↔ dom x)
    (hat : ∀ x a, At' x a ↔ At x a) : Partition dom' At' where
  total := fun x hx => by
    obtain ⟨a, ha⟩ := h.total x ((hdom x).mp hx)
    exact ⟨a, (hat x a).mpr ha⟩
  sound := fun x a ha => (hdom x).mpr (h.sound x a ((hat x a).mp ha))
  unique := fun x a b ha hb => h.unique x a b ((hat x a).mp ha) ((hat x b).mp hb)

theorem Partition.move (a₀ a₁ : π) (hx₀ : At x₀ a₀) (hnew : At' x₀ a₁) (hold : ¬ At' x₀ a₀)
    (hsame : ∀ x a, (x = x₀ → a ≠ a₀ ∧ a ≠ a₁) → (At' x a ↔ At x a)) : Partition dom At' := by
  have hother : ∀ x a, x ≠ x₀ → (At' x a ↔ At x a) :=
    fun x a hx => hsame x a fun heq => absurd heq hx
  have honly : ∀ a, At' x₀ a → a = a₁ := by
    intro a ha
    by_contra hne
    have ha₀ : a ≠ a₀ := fun heq => hold (heq ▸ ha)
    exact ha₀ (h.unique x₀ a a₀ ((hsame x₀ a fun _ => ⟨ha₀, hne⟩).mp ha) hx₀)
  refine ⟨fun x hx => ?_, fun x a ha => ?_, fun x a b ha hb => ?_⟩ <;> by_cases heq : x = x₀
  · exact ⟨a₁, heq ▸ hnew⟩
  · obtain ⟨a, ha⟩ := h.total x hx
    exact ⟨a, (hother x a heq).mpr ha⟩
  · exact heq ▸ h.sound x₀ a₀ hx₀
  · exact h.sound x a ((hother x a heq).mp ha)
  · subst heq
    rw [honly a ha, honly b hb]
  · exact h.unique x a b ((hother x a heq).mp ha) ((hother x b heq).mp hb)

theorem Partition.extend {new : α → Prop} (hnew : ∀ x, new x → ¬ dom x)
    (a₀ : π) : Partition (fun x => dom x ∨ new x) (fun x a => At x a ∨ (new x ∧ a = a₀)) where
  total := fun x hx => by
    rcases hx with hx | hx
    · obtain ⟨a, ha⟩ := h.total x hx
      exact ⟨a, .inl ha⟩
    · exact ⟨a₀, .inr ⟨hx, rfl⟩⟩
  sound := fun x a ha => ha.imp (h.sound x a) And.left
  unique := fun x a b ha hb => by
    rcases ha with ha | ⟨hx, rfl⟩ <;> rcases hb with hb | ⟨hx', rfl⟩
    · exact h.unique x a b ha hb
    · exact absurd (h.sound x a ha) (hnew x hx')
    · exact absurd (h.sound x b hb) (hnew x hx)
    · rfl

theorem Partition.leave (a₀ : π) (hgone : ∀ x, ¬ At' x a₀)
    (hsame : ∀ x a, a ≠ a₀ → (At' x a ↔ At x a)) : Partition (fun x => dom x ∧ ¬ At x a₀) At' := by
  have hne : ∀ x a, At' x a → a ≠ a₀ := fun x a ha heq => hgone x (heq ▸ ha)
  refine ⟨?_, ?_, ?_⟩
  · rintro x ⟨hx, hnot⟩
    obtain ⟨a, ha⟩ := h.total x hx
    exact ⟨a, (hsame x a fun heq => hnot (heq ▸ ha)).mpr ha⟩
  · intro x a ha
    have hat := (hsame x a (hne x a ha)).mp ha
    exact ⟨h.sound x a hat, fun hx => hne x a ha (h.unique x a a₀ hat hx)⟩
  · intro x a b ha hb
    exact h.unique x a b ((hsame x a (hne x a ha)).mp ha) ((hsame x b (hne x b hb)).mp hb)

end

end partition

/-! ### Slots and stacks -/

section store
variable {σ : Type v} {κ : Type w} {α : Type u}

/-- Slots, which hold at most one item each, and stacks. -/
@[ext] structure Store (σ : Type v) (κ : Type w) (α : Type u) where
  slot : σ → Option α
  stack : κ → List α

inductive StorePlace (σ : Type v) (κ : Type w) where
  | slot (s : σ)
  | stack (k : κ)

namespace Store

def Holds (st : Store σ κ α) (x : α) : StorePlace σ κ → Prop
  | .slot s => st.slot s = some x
  | .stack k => x ∈ st.stack k

/-- Every item of `dom`, and no other, is in exactly one place, once. -/
structure Ok (dom : α → Prop) (st : Store σ κ α) : Prop where
  part : Partition dom st.Holds
  nodup : ∀ k, (st.stack k).Nodup

variable {dom : α → Prop} {st : Store σ κ α} {x : α} {s s' : σ} {k : κ}

theorem Ok.not_mem_stack (h : st.Ok dom) (hs : st.slot s = some x) : x ∉ st.stack k := by
  intro hk
  cases h.part.unique x (.slot s) (.stack k) hs hk

theorem Ok.congr {st' : Store σ κ α} (h : st.Ok dom) (hslot : ∀ s, st'.slot s = st.slot s)
    (hstack : ∀ k, st'.stack k = st.stack k) : st'.Ok dom := by
  have heq : st' = st := Store.ext (funext hslot) (funext hstack)
  exact heq ▸ h

variable [DecidableEq σ] [DecidableEq κ]

/-- What is in the slot `s` goes to the slot `s'`. -/
def move (st : Store σ κ α) (s s' : σ) : Store σ κ α :=
  { st with slot := update (update st.slot s none) s' (st.slot s) }

/-- The top of the stack `k` goes to the slot `s`. -/
def pop (st : Store σ κ α) (k : κ) (s : σ) : Store σ κ α where
  slot := update st.slot s (st.stack k).head?
  stack := update st.stack k (st.stack k).tail

/-- What is in the slot `s` goes onto the stack `k`. -/
def push (st : Store σ κ α) (s : σ) (k : κ) : Store σ κ α where
  slot := update st.slot s none
  stack := update st.stack k ((st.slot s).toList ++ st.stack k)

/-- A new item goes to the slot `s`. -/
def put (st : Store σ κ α) (s : σ) (x : α) : Store σ κ α :=
  { st with slot := update st.slot s (some x) }

omit [DecidableEq κ] in
theorem Ok.move (h : st.Ok dom) (s s' : σ) (hne : s ≠ s') (hs' : st.slot s' = none) :
    (st.move s s').Ok dom := by
  refine ⟨?_, h.nodup⟩
  cases hs : st.slot s with
  | none =>
    have heq : st.move s s' = st := by
      rw [Store.move, hs, ← hs, update_eq_self, hs, ← hs', update_eq_self]
    rw [heq]
    exact h.part
  | some x₀ =>
    refine h.part.move (.slot s) (.slot s') hs ?_ ?_ fun x a hx => ?_
    · simp [Holds, Store.move, hs]
    · simp [Holds, Store.move, hne]
    · cases a with
      | slot s₁ =>
        by_cases h₁ : s₁ = s'
        · have hxx : x₀ ≠ x := fun heq => (hx heq.symm).2 (by rw [h₁])
          simp [Holds, Store.move, h₁, hs, hs', hxx]
        · by_cases h₂ : s₁ = s
          · have hxx : x₀ ≠ x := fun heq => (hx heq.symm).1 (by rw [h₂])
            simp [Holds, Store.move, h₂, hne, hs, hxx]
          · simp [Holds, Store.move, h₁, h₂]
      | stack k₁ => exact .rfl

theorem Ok.pop (h : st.Ok dom) (k : κ) (s : σ) (hs : st.slot s = none) : (st.pop k s).Ok dom := by
  cases hk : st.stack k with
  | nil =>
    have heq : st.pop k s = st := by
      rw [Store.pop, hk, List.head?_nil, List.tail_nil, ← hk, ← hs, update_eq_self, update_eq_self]
    rw [heq]
    exact h
  | cons x₀ rest =>
    have hmem : x₀ ∈ st.stack k := by simp [hk]
    have hnodup := h.nodup k
    rw [hk, List.nodup_cons] at hnodup
    constructor
    · refine h.part.move (.stack k) (.slot s) hmem ?_ ?_ fun x a hx => ?_
      · simp [Holds, Store.pop, hk]
      · simp [Holds, Store.pop, hk, hnodup.1]
      · cases a with
        | slot s₁ =>
          by_cases h₁ : s₁ = s
          · have hxx : x₀ ≠ x := fun heq => (hx heq.symm).2 (by rw [h₁])
            simp [Holds, Store.pop, h₁, hk, hs, hxx]
          · simp [Holds, Store.pop, h₁]
        | stack k₁ =>
          by_cases h₁ : k₁ = k
          · have hxx : x ≠ x₀ := fun heq => (hx heq).1 (by rw [h₁])
            simp [Holds, Store.pop, h₁, hk, hxx]
          · simp [Holds, Store.pop, h₁]
    · intro k₁
      by_cases h₁ : k₁ = k
      · simp [Store.pop, h₁, hk, hnodup.2]
      · simpa [Store.pop, h₁] using h.nodup k₁

theorem Ok.push (h : st.Ok dom) (s : σ) (k : κ) : (st.push s k).Ok dom := by
  cases hs : st.slot s with
  | none =>
    have heq : st.push s k = st := by
      rw [Store.push, hs, Option.toList_none, List.nil_append, ← hs, update_eq_self, update_eq_self]
    rw [heq]
    exact h
  | some x₀ =>
    constructor
    · refine h.part.move (.slot s) (.stack k) hs ?_ ?_ fun x a hx => ?_
      · simp [Holds, Store.push, hs]
      · simp [Holds, Store.push]
      · cases a with
        | slot s₁ =>
          by_cases h₁ : s₁ = s
          · have hxx : x₀ ≠ x := fun heq => (hx heq.symm).1 (by rw [h₁])
            simp [Holds, Store.push, h₁, hs, hxx]
          · simp [Holds, Store.push, h₁]
        | stack k₁ =>
          by_cases h₁ : k₁ = k
          · have hxx : x ≠ x₀ := fun heq => (hx heq).2 (by rw [h₁])
            simp [Holds, Store.push, h₁, hs, hxx]
          · simp [Holds, Store.push, h₁]
    · intro k₁
      by_cases h₁ : k₁ = k
      · simp [Store.push, h₁, hs, h.not_mem_stack hs, h.nodup k]
      · simpa [Store.push, h₁] using h.nodup k₁

omit [DecidableEq κ] in
theorem Ok.put (h : st.Ok dom) (s : σ) (hs : st.slot s = none) (hx : ¬ dom x) :
    (st.put s x).Ok (fun y => dom y ∨ y = x) := by
  refine ⟨?_, h.nodup⟩
  have hnew : ∀ y, y = x → ¬ dom y := by
    rintro y rfl
    exact hx
  refine (h.part.extend hnew (.slot s)).congr (fun _ => .rfl) fun y a => ?_
  cases a with
  | slot s₁ =>
    by_cases h₁ : s₁ = s
    · subst h₁
      simp [Holds, Store.put, hs, eq_comm]
    · simp [Holds, Store.put, h₁]
  | stack k₁ => simp [Holds, Store.put]

end Store

end store

end Placement
