import Dufay.Framework.Memory

/-! # Singly linked lists in byte memory

A list whose nodes are addresses, each with the address of the next node
in its first eight bytes; the address zero ends the list.

`Reach mem head p` says that a walk from `head` passes `p`, whatever the
memory holds. `Chain mem head l` says that the walk is the list `l`.
Where the nodes are records and not bytes, the same holds of the walk
along any function to the next node (`ChainOf`).
-/

namespace Memory

/-- The nodes that a walk from `head` passes. -/
inductive Reach (mem : Mem) (head : Nat) : Nat → Prop where
  | head : head ≠ 0 → Reach mem head head
  | next {p : Nat} : Reach mem head p → read64 mem p ≠ 0 → Reach mem head (read64 mem p)

/-- The walk from `head` is the list `l`. -/
def Chain (mem : Mem) : Nat → List Nat → Prop
  | head, [] => head = 0
  | head, p :: l => head = p ∧ p ≠ 0 ∧ Chain mem (read64 mem p) l

/-- The walk along `next` from `head` is the list `l`. -/
def ChainOf (next : Nat → Nat) : Nat → List Nat → Prop
  | head, [] => head = 0
  | head, p :: l => head = p ∧ p ≠ 0 ∧ ChainOf next (next p) l

/-- The nodes of a walk along `next`, if there are at most as many as allowed. -/
def walk (next : Nat → Nat) : Nat → Nat → Option (List Nat)
  | 0, head => if head = 0 then some [] else none
  | n + 1, head => if head = 0 then some [] else (walk next n (next head)).map (head :: ·)

variable {mem mem' : Mem} {next next' : Nat → Nat} {head p : Nat} {l : List Nat}

theorem chain_iff : Chain mem head l ↔ ChainOf (read64 mem) head l := by
  induction l generalizing head with
  | nil => exact .rfl
  | cons p l ih => rw [Chain, ChainOf, ih]

/-! ### Walks along a function -/

section

variable (h : ChainOf next head l)

include h

theorem ChainOf.congr (hnext : ∀ p ∈ l, next' p = next p) : ChainOf next' head l := by
  induction l generalizing head with
  | nil => exact h
  | cons p l ih =>
    obtain ⟨hhead, hne, hrest⟩ := h
    refine ⟨hhead, hne, ?_⟩
    rw [hnext p (by simp)]
    exact ih hrest fun x hx => hnext x (by simp [hx])

theorem ChainOf.eq_nil_iff : head = 0 ↔ l = [] := by
  cases l with
  | nil => exact ⟨fun _ => rfl, fun _ => h⟩
  | cons p l =>
    obtain ⟨hhead, hne, -⟩ := h
    constructor
    · intro hzero
      exact absurd (hhead.symm.trans hzero) hne
    · intro hnil
      cases hnil

theorem ChainOf.push (hp : p ≠ 0) (hnew : p ∉ l) (hhead : next' p = head)
    (hnext : ∀ x, x ≠ p → next' x = next x) : ChainOf next' p (p :: l) := by
  refine ⟨rfl, hp, ?_⟩
  rw [hhead]
  apply h.congr
  intro x hx
  apply hnext
  rintro rfl
  exact hnew hx

theorem ChainOf.walk_eq (hn : l.length ≤ n) : walk next n head = some l := by
  induction l generalizing head n with
  | nil =>
    have hzero : head = 0 := h
    cases n with
    | zero => rw [walk, if_pos hzero]
    | succ n => rw [walk, if_pos hzero]
  | cons p l ih =>
    obtain ⟨rfl, hne, hrest⟩ := h
    cases n with
    | zero => cases hn
    | succ n => rw [walk, if_neg hne, ih hrest (Nat.le_of_succ_le_succ hn), Option.map_some]

end

/-! ### Chains in memory -/

section

variable (h : Chain mem head l)

include h

theorem Chain.congr (hmem : ∀ p ∈ l, read64 mem' p = read64 mem p) : Chain mem' head l :=
  chain_iff.mpr ((chain_iff.mp h).congr hmem)

theorem Chain.head_eq : head = 0 ∨ head ∈ l := by
  cases l with
  | nil => exact .inl h
  | cons p l =>
    right
    rw [h.1]
    exact List.mem_cons_self

theorem Chain.eq_nil_iff : head = 0 ↔ l = [] := (chain_iff.mp h).eq_nil_iff

theorem Chain.pop (hne : head ≠ 0) : ∃ l', l = head :: l' ∧ Chain mem (read64 mem head) l' := by
  cases l with
  | nil => exact absurd h hne
  | cons p l =>
    obtain ⟨rfl, -, hrest⟩ := h
    exact ⟨l, rfl, hrest⟩

theorem Chain.push (hp : p ≠ 0) (hhead : head < 256 ^ 8)
    (hapart : ∀ x ∈ l, x + 8 ≤ p ∨ p + 8 ≤ x) : Chain (write64 mem p head) p (p :: l) := by
  refine ⟨rfl, hp, ?_⟩
  rw [read64_write64 hhead]
  exact h.congr fun x hx => read64_write64_of_disjoint (hapart x hx)

theorem Chain.reach_iff (p : Nat) : Reach mem head p ↔ p ∈ l := by
  constructor
  · intro hr
    -- where the walk is, the rest of the list is the chain from there
    have key : ∃ l', l' <:+ l ∧ Chain mem p l' ∧ p ≠ 0 := by
      induction hr with
      | head hne => exact ⟨l, List.suffix_refl l, h, hne⟩
      | next _ hne ih =>
        obtain ⟨l', hsuf, hchain, hp⟩ := ih
        obtain ⟨l'', rfl, hrest⟩ := hchain.pop hp
        exact ⟨l'', (List.suffix_cons _ l'').trans hsuf, hrest, hne⟩
    obtain ⟨l', hsuf, hchain, hp⟩ := key
    rcases hchain.head_eq with hzero | hmem
    · exact absurd hzero hp
    · exact hsuf.subset hmem
  · -- every node of a chain is reached if its first one is
    have key : ∀ (l : List Nat) (q : Nat), Chain mem q l → (q ≠ 0 → Reach mem head q) →
        ∀ x ∈ l, Reach mem head x := by
      intro l
      induction l with
      | nil =>
        intro q _ _ x hx
        cases hx
      | cons a l ih =>
        rintro q ⟨rfl, hne, hrest⟩ hq x hx
        rcases List.mem_cons.mp hx with rfl | hx
        · exact hq hne
        · exact ih _ hrest (fun hnext => .next (hq hne) hnext) x hx
    exact key l head h .head p

end

end Memory
