import Mathlib.Logic.Function.Basic

/-! # Radix trees in memory

A memory of tables: an entry of a table may lead to another table, and a
list of indices is walked from a root, one index for each level. The
tables carry labels: a `Scheme` says which entries lead on, given the
label of their table, and what the label of the table below is. If the
label is the list of the indices that lead to a table, then a memory that
respects the labels is a tree; if it is the height, then it is a graph of
which the levels are kept apart.

`content` is what the tree stores, independently of the tables that are
there.
-/

namespace Radix

open Function

universe u v w x

variable {ν : Type u} {ι : Type v} {ε : Type w} {L : Type x}

/-- How tables (`ν`) are linked by entries (`ε`). -/
structure Scheme (ν : Type u) (ι : Type v) (ε : Type w) (L : Type x) where
  /-- The table that an entry leads to. -/
  next : L → ε → Option ν
  /-- The label of the table below the entry at an index; there is none below
      the last level. -/
  down : L → ι → Option L
  empty : ε
  next_empty : ∀ l, next l empty = none

variable [DecidableEq ν] [DecidableEq ι]

/-! ### Memory -/

def write (m : ν → ι → ε) (t : ν) (i : ι) (e : ε) : ν → ι → ε :=
  Function.update m t (Function.update (m t) i e)

def clear (S : Scheme ν ι ε L) (m : ν → ι → ε) (t : ν) : ν → ι → ε :=
  Function.update m t (fun _ => S.empty)

theorem write_apply (m : ν → ι → ε) (t : ν) (i : ι) (e : ε) (t' : ν) (i' : ι) :
    write m t i e t' i' = if t' = t ∧ i' = i then e else m t' i' := by
  by_cases ht : t' = t
  · subst ht
    by_cases hi : i' = i <;> simp [write, hi]
  · simp [write, ht]

variable {t : ν} {i : ι} {q : List ι}

theorem write_eq_self_iff : write m t i e = m ↔ m t i = e := by
  unfold write
  rw [update_eq_self_iff, update_eq_self_iff]
  exact eq_comm

omit [DecidableEq ι] in
theorem clear_apply : clear S m t t' i = if t' = t then S.empty else m t' i := by
  by_cases ht : t' = t <;> simp [clear, ht]

/-! ### Labels -/

/-- Every entry that leads on leads to a table with the label below. -/
def Labelled (S : Scheme ν ι ε L) (m : ν → ι → ε) (lab : ν → Option L) : Prop :=
  ∀ t l i l' y, lab t = some l → S.down l i = some l' → S.next l (m t i) = some y → lab y = some l'

variable {S : Scheme ν ι ε L} {m : ν → ι → ε} {lab : ν → Option L}

theorem Labelled.write (h : Labelled S m lab)
    (hent : ∀ l l' y, lab t = some l → S.down l i = some l' → S.next l e = some y → lab y = some l')
      : Labelled S (write m t i e) lab := by
  intro t' l j l' y hl hdown hnext
  rw [write_apply] at hnext
  split at hnext
  · next heq =>
    obtain ⟨rfl, rfl⟩ := heq
    exact hent l l' y hl hdown hnext
  · exact h t' l j l' y hl hdown hnext

omit [DecidableEq ι] in
theorem Labelled.clear (h : Labelled S m lab) (hfresh : lab f = none) (l : L) :
    Labelled S (clear S m f) (update lab f (some l)) := by
  intro t k i k' y hk hdown hnext
  rw [clear_apply] at hnext
  split at hnext
  · rw [S.next_empty] at hnext
    cases hnext
  · next ht =>
    rw [update_of_ne ht] at hk
    have hy := h t k i k' y hk hdown hnext
    have hne : y ≠ f := by
      rintro rfl
      rw [hfresh] at hy
      cases hy
    rw [update_of_ne hne, hy]

/-! ### Walks -/

/-- The label at the end of a list of indices. -/
def downs (S : Scheme ν ι ε L) : L → List ι → Option L
  | l, [] => some l
  | l, i :: q => (S.down l i).bind fun l' => downs S l' q

/-- Walk a list of indices from a table with label `l`. -/
def walk (S : Scheme ν ι ε L) (m : ν → ι → ε) : L → ν → List ι → Option ν
  | _, t, [] => some t
  | l, t, i :: q =>
    (S.down l i).bind fun l' => (S.next l (m t i)).bind fun y => walk S m l' y q

omit [DecidableEq ν] [DecidableEq ι] in
theorem Labelled.walk (h : Labelled S m lab) :
    ∀ {l : L} {t y : ν}, lab t = some l → walk S m l t q = some y →
      ∃ l', downs S l q = some l' ∧ lab y = some l' := by
  induction q with
  | nil =>
    intro l t y hl hw
    cases hw
    exact ⟨l, rfl, hl⟩
  | cons i q ih =>
    intro l t y hl hw
    simp only [Radix.walk, Option.bind_eq_some_iff] at hw
    obtain ⟨l', hdown, z, hnext, hrest⟩ := hw
    obtain ⟨l'', hdowns, hy⟩ := ih (h t l i l' z hl hdown hnext) hrest
    exact ⟨l'', by simp [downs, hdown, hdowns], hy⟩

omit [DecidableEq ν] [DecidableEq ι] in
theorem walk_append_singleton (hdown : S.down l' i = some l'') :
    ∀ {l : L} {t : ν}, downs S l q = some l' →
      walk S m l t (q ++ [i]) = (walk S m l t q).bind fun y => S.next l' (m y i) := by
  induction q with
  | nil =>
    intro l t hd
    cases hd
    cases hnext : S.next l' (m t i) <;> simp [Radix.walk, hdown, hnext]
  | cons j q ih =>
    intro l t hd
    simp only [downs, Option.bind_eq_some_iff] at hd
    obtain ⟨k, hk, hd⟩ := hd
    simp only [List.cons_append, Radix.walk, hk, Option.bind_some]
    cases S.next l (m t j) with
    | none => rfl
    | some y => exact ih hd

theorem Labelled.walk_link (h : Labelled S m lab) (hfresh : lab f = none)
    (hnone : ∀ l, lab t = some l → S.next l (m t i) = none) :
    ∀ {l : L} {t' y : ν}, lab t' = some l → Radix.walk S m l t' q = some y →
      Radix.walk S (Radix.write (Radix.clear S m f) t i e) l t' q = some y := by
  induction q with
  | nil =>
    intro l t' y _ hw
    exact hw
  | cons j q ih =>
    intro l t' y hl hw
    simp only [Radix.walk, Option.bind_eq_some_iff] at hw ⊢
    obtain ⟨l', hdown, z, hnext, hrest⟩ := hw
    have hf : t' ≠ f := by
      rintro rfl
      rw [hfresh] at hl
      cases hl
    have hne : ¬ (t' = t ∧ j = i) := by
      rintro ⟨rfl, rfl⟩
      rw [hnone l hl] at hnext
      cases hnext
    have hsame : Radix.write (Radix.clear S m f) t i e t' j = m t' j := by
      rw [write_apply, if_neg hne, clear_apply, if_neg hf]
    exact ⟨l', hdown, z, by rw [hsame, hnext], ih (h t' l j l' z hl hdown hnext) hrest⟩

theorem Labelled.walk_write (h : Labelled S m lab)
    (hlast : ∀ l, lab t = some l → S.down l i = none) : ∀ {l : L} {t' : ν}, lab t' = some l →
      Radix.walk S (Radix.write m t i e) l t' q = Radix.walk S m l t' q := by
  induction q with
  | nil =>
    intro l t' _
    rfl
  | cons j q ih =>
    intro l t' hl
    simp only [Radix.walk]
    cases hdown : S.down l j with
    | none => rfl
    | some l' =>
      have hne : ¬ (t' = t ∧ j = i) := by
        rintro ⟨rfl, rfl⟩
        rw [hlast l hl] at hdown
        cases hdown
      rw [write_apply, if_neg hne]
      simp only [Option.bind_some]
      cases hnext : S.next l (m t' j) with
      | none => rfl
      | some y => exact ih (h t' l j l' y hl hdown hnext)

/-! ### Content -/

/-- The entry at index `i` of the table at the end of a walk. -/
def content (S : Scheme ν ι ε L) (m : ν → ι → ε) (l : L) (t : ν) (q : List ι) (i : ι) : ε :=
  match walk S m l t q with
  | some y => m y i
  | none => S.empty

section

omit [DecidableEq ν] [DecidableEq ι]

theorem content_of_walk (h : walk S m l t q = some y) (i : ι) : content S m l t q i = m y i := by
  simp [content, h]

theorem content_of_walk_none (h : walk S m l t q = none) (i : ι) :
    content S m l t q i = S.empty := by
  simp [content, h]

theorem content_cons (hdown : S.down l i = some l') (hnext : S.next l (m t i) = some y) (j : ι) :
    content S m l t (i :: q) j = content S m l' y q j := by
  simp [content, walk, hdown, hnext]

theorem content_cons_none (hnext : S.next l (m t i) = none) (j : ι) :
    content S m l t (i :: q) j = S.empty := by
  cases hdown : S.down l i <;> simp [content, walk, hdown, hnext]

theorem content_empty_table (h : ∀ i, m t i = S.empty) (q : List ι) (j : ι) :
    content S m l t q j = S.empty := by
  cases q with
  | nil => exact h j
  | cons i q => exact content_cons_none (by rw [h, S.next_empty]) j

end

/-- **Linking**: a new, empty table below an entry that led nowhere changes
nothing at the last level. -/
theorem Labelled.content_link (h : Labelled S m lab) (hfresh : lab f = none)
    (hnone : ∀ l, lab t = some l → S.next l (m t i) = none)
    (hinner : ∀ l, lab t = some l → S.down l i ≠ none)
    (hlink : ∀ l, lab t = some l → S.next l e = some f) :
    ∀ {l : L} {t' : ν}, lab t' = some l → (∀ l', downs S l q = some l' → S.down l' j = none) →
      content S (Radix.write (Radix.clear S m f) t i e) l t' q j = content S m l t' q j := by
  induction q with
  | nil =>
    intro l t' hl hlast
    have hdown := hlast l rfl
    have hf : t' ≠ f := by
      rintro rfl
      rw [hfresh] at hl
      cases hl
    have hne : ¬ (t' = t ∧ j = i) := by
      rintro ⟨rfl, rfl⟩
      exact hinner l hl hdown
    rw [content_of_walk rfl, content_of_walk rfl, write_apply, if_neg hne, clear_apply, if_neg hf]
  | cons k q ih =>
    intro l t' hl hlast
    have hf : t' ≠ f := by
      rintro rfl
      rw [hfresh] at hl
      cases hl
    by_cases hhere : t' = t ∧ k = i
    · -- the walk passes the new link
      obtain ⟨rfl, rfl⟩ := hhere
      rw [content_cons_none (hnone l hl)]
      cases hdown : S.down l k with
      | none => exact absurd hdown (hinner l hl)
      | some l' =>
        have hnext : S.next l (Radix.write (Radix.clear S m f) t' k e t' k) = some f := by
          rw [write_apply, if_pos ⟨rfl, rfl⟩]
          exact hlink l hl
        rw [content_cons hdown hnext]
        refine content_empty_table (fun a => ?_) q j
        rw [write_apply, if_neg (fun hc => hf hc.1.symm), clear_apply, if_pos rfl]
    · have hsame : Radix.write (Radix.clear S m f) t i e t' k = m t' k := by
        rw [write_apply, if_neg hhere, clear_apply, if_neg hf]
      cases hnext : S.next l (m t' k) with
      | none => rw [content_cons_none hnext, content_cons_none (by rw [hsame, hnext])]
      | some y =>
        cases hdown : S.down l k with
        | none => simp [content, Radix.walk, hdown]
        | some l' =>
          rw [content_cons hdown hnext, content_cons hdown (by rw [hsame, hnext])]
          refine ih (h t' l k l' y hl hdown hnext) (fun l'' hd => hlast l'' ?_)
          simp [downs, hdown, hd]

/-- **Writing**: a write to an entry of the last level changes the content
there and nowhere else, if labels tell the paths apart. -/
theorem Labelled.content_write (h : Labelled S m lab)
    (hroot : lab root = some l) (hwalk : Radix.walk S m l root q = some t)
    (hlast : ∀ l', downs S l q = some l' → S.down l' i = none)
    (hinj : ∀ q' l', downs S l q = some l' → downs S l q' = some l' → q' = q) (q' : List ι) (j : ι)
      : content S (Radix.write m t i e) l root q' j =
      if q' = q ∧ j = i then e else content S m l root q' j := by
  obtain ⟨lt, hlt, hlab⟩ := h.walk hroot hwalk
  have hsame : Radix.walk S (Radix.write m t i e) l root q' = Radix.walk S m l root q' := by
    refine h.walk_write (fun k hk => ?_) hroot
    rw [hlab] at hk
    cases hk
    exact hlast lt hlt
  cases hw : Radix.walk S m l root q' with
  | none =>
    have hq : q' ≠ q := by
      rintro rfl
      rw [hwalk] at hw
      cases hw
    rw [content_of_walk_none (hsame.trans hw), content_of_walk_none hw, if_neg (fun hc => hq hc.1)]
  | some y =>
    rw [content_of_walk (hsame.trans hw), content_of_walk hw, write_apply]
    -- the same table is reached by the same path only
    have hyq : y = t ↔ q' = q := by
      constructor
      · rintro rfl
        obtain ⟨l', hl', hlab'⟩ := h.walk hroot hw
        rw [hlab] at hlab'
        cases hlab'
        exact hinj q' lt hlt hl'
      · rintro rfl
        rw [hwalk] at hw
        cases hw
        rfl
    simp only [hyq]

/-! ### Keys -/

theorem mod_mul_eq_iff (n n' m k : Nat) :
    n % (m * k) = n' % (m * k) ↔ n % m = n' % m ∧ n / m % k = n' / m % k := by
  constructor
  · intro h
    refine ⟨?_, ?_⟩
    · rw [← Nat.mod_mul_right_mod n m k, h, Nat.mod_mul_right_mod]
    · rw [← Nat.mod_mul_right_div_self, h, Nat.mod_mul_right_div_self]
  · rintro ⟨hmod, hdiv⟩
    rw [Nat.mod_mul, hmod, hdiv, ← Nat.mod_mul]

end Radix
