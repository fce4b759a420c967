import Mathlib.Data.List.Basic

/-! # Tail queues at the level of their pointers

`TAILQ_INIT`, `TAILQ_INSERT_TAIL`, `TAILQ_INSERT_HEAD` and
`TAILQ_REMOVE` of `sys/queue.h`, over arbitrary types of heads and nodes.

A back pointer of a tail queue (`tqe_prev`, and `tqh_last` of the head)
is the address of a forward pointer (`tqh_first` of a head or `tqe_next`
of a node). `Slot` is the type of these addresses, and `Links` is the
contents of all pointers of all queues. The operations are total, as
they are in the source: removing a node that is in no queue follows
whatever its fields still hold.

`Represents L q` says that the pointers represent the lists `q`.
-/

namespace Tailq

open Function

universe u v

/-- The address of a forward pointer. -/
inductive Slot (η : Type u) (ν : Type v) where
  /-- `&head->tqh_first` -/
  | first (h : η)
  /-- `&elm->tqe_next` -/
  | next (e : ν)
  deriving DecidableEq

/-- The contents of the pointers of all heads and nodes. -/
structure Links (η : Type u) (ν : Type v) where
  /-- `tqh_first` and `tqe_next`. -/
  fwd : Slot η ν → Option ν
  /-- `tqh_last` -/
  last : η → Slot η ν
  /-- `tqe_prev` -/
  prev : ν → Slot η ν

namespace Links

variable {η : Type u} {ν : Type v} [DecidableEq η] [DecidableEq ν]

section
variable (L : Links η ν) (h : η)
include h

/-- `TAILQ_FIRST` -/
def first : Option ν := L.fwd (.first h)

/-- `TAILQ_INIT` -/
def init : Links η ν :=
  { L with
    fwd := update L.fwd (.first h) none
    last := update L.last h (.first h) }

/-- `TAILQ_INSERT_TAIL` -/
def insertTail (e : ν) : Links η ν where
  fwd := update (update L.fwd (.next e) none) (L.last h) (some e)
  last := update L.last h (.next e)
  prev := update L.prev e (L.last h)

/-- `TAILQ_INSERT_HEAD` -/
def insertHead (e : ν) : Links η ν where
  fwd := update (update L.fwd (.next e) (L.fwd (.first h))) (.first h) (some e)
  last :=
    match L.fwd (.first h) with
    | some _ => L.last
    | none => update L.last h (.next e)
  prev :=
    match L.fwd (.first h) with
    | some n => update (update L.prev n (.next e)) e (.first h)
    | none => update L.prev e (.first h)

/-- `TAILQ_REMOVE` -/
def remove (e : ν) : Links η ν where
  fwd := update L.fwd (L.prev e) (L.fwd (.next e))
  last :=
    match L.fwd (.next e) with
    | some _ => L.last
    | none => update L.last h (L.prev e)
  prev :=
    match L.fwd (.next e) with
    | some n => update L.prev n (L.prev e)
    | none => L.prev

end

end Links

variable {η : Type u} {ν : Type v}

/-! ### Which nodes a queue holds -/

/-- The nodes that a traversal from the head reaches. -/
inductive Linked (L : Links η ν) (h : η) : ν → Prop where
  | first {e : ν} : L.fwd (.first h) = some e → Linked L h e
  | next {e e' : ν} : Linked L h e → L.fwd (.next e) = some e' → Linked L h e'

variable {L : Links η ν} {h : η} {sl fin : Slot η ν} {l : List ν} {e : ν} {q : η → List ν}

theorem not_linked_of_first_none (hf : L.fwd (.first h) = none) (e : ν) : ¬ Linked L h e := by
  intro hl
  induction hl with
  | first he =>
    rw [hf] at he
    cases he
  | next _ _ ih => exact ih

/-- The pointers from the slot `sl` on spell out the list, and `fin` is the
slot behind its last node. -/
def Seg (L : Links η ν) : Slot η ν → List ν → Slot η ν → Prop
  | sl, [], fin => L.fwd sl = none ∧ fin = sl
  | sl, e :: l, fin => L.fwd sl = some e ∧ L.prev e = sl ∧ Seg L (.next e) l fin

/-- The pointers represent the lists `q`, and no node is in two places. -/
structure Represents (L : Links η ν) (q : η → List ν) : Prop where
  seg : ∀ h, Seg L (.first h) (q h) (L.last h)
  nodup : ∀ h, (q h).Nodup
  disjoint : ∀ h h' e, e ∈ q h → e ∈ q h' → h = h'

/-! ### Segments -/

theorem Seg.congr {L' : Links η ν} (h : Seg L sl l fin) (hsl : L'.fwd sl = L.fwd sl)
    (hnext : ∀ x ∈ l, L'.fwd (.next x) = L.fwd (.next x)) (hprev : ∀ x ∈ l, L'.prev x = L.prev x) :
    Seg L' sl l fin := by
  induction l generalizing sl with
  | nil => exact ⟨hsl.trans h.1, h.2⟩
  | cons e l ih =>
    obtain ⟨hfwd, hpe, htail⟩ := h
    refine ⟨hsl.trans hfwd, (hprev e (by simp)).trans hpe, ?_⟩
    apply ih htail (hnext e (by simp))
    · intro x hx
      exact hnext x (by simp [hx])
    · intro x hx
      exact hprev x (by simp [hx])

theorem Seg.fin_eq (h : Seg L sl l fin) : (l = [] ∧ fin = sl) ∨ ∃ x ∈ l, fin = .next x := by
  induction l generalizing sl with
  | nil => exact .inl ⟨rfl, h.2⟩
  | cons e l ih =>
    right
    rcases ih h.2.2 with ⟨-, hfin⟩ | ⟨x, hx, hfin⟩
    · exact ⟨e, by simp, hfin⟩
    · exact ⟨x, by simp [hx], hfin⟩

theorem Seg.prev_eq (h : Seg L sl l fin) (he : e ∈ l) :
    (l.head? = some e ∧ L.prev e = sl) ∨ ∃ x ∈ l, L.prev e = .next x := by
  induction l generalizing sl with
  | nil => cases he
  | cons a l ih =>
    obtain ⟨-, hpa, htail⟩ := h
    rcases List.mem_cons.mp he with rfl | he
    · exact .inl ⟨rfl, hpa⟩
    · right
      rcases ih htail he with ⟨-, hpe⟩ | ⟨x, hx, hpe⟩
      · exact ⟨a, by simp, hpe⟩
      · exact ⟨x, by simp [hx], hpe⟩

theorem Seg.next_mem (h : Seg L sl l fin) (he : e ∈ l) (hn : L.fwd (.next e) = some n) :
    n ∈ l.tail := by
  induction l generalizing sl with
  | nil => cases he
  | cons a l ih =>
    obtain ⟨-, -, htail⟩ := h
    -- the successor of the first node is the head of the tail
    rcases List.mem_cons.mp he with rfl | he
    · cases l with
      | nil =>
        rw [htail.1] at hn
        cases hn
      | cons b l =>
        rw [htail.1] at hn
        cases hn
        simp
    · exact List.mem_of_mem_tail (ih htail he)

theorem Seg.fwd_fin (h : Seg L sl l fin) : L.fwd fin = none := by
  induction l generalizing sl with
  | nil =>
    rw [h.2]
    exact h.1
  | cons a l ih => exact ih h.2.2

theorem Seg.fwd_prev (h : Seg L sl l fin) (he : e ∈ l) : L.fwd (L.prev e) = some e := by
  induction l generalizing sl with
  | nil => cases he
  | cons a l ih =>
    obtain ⟨hfwd, hpa, htail⟩ := h
    rcases List.mem_cons.mp he with rfl | he
    · rw [hpa]
      exact hfwd
    · exact ih htail he

theorem Seg.next_last (h : Seg L sl l fin) (he : l.getLast? = some e) : fin = .next e := by
  induction l generalizing sl with
  | nil => cases he
  | cons a l ih =>
    obtain ⟨-, -, htail⟩ := h
    cases l with
    | nil =>
      cases he
      exact htail.2
    | cons b l => exact ih htail he

theorem Seg.next_isSome (h : Seg L sl l fin) (hmem : e ∈ l) (he : l.getLast? ≠ some e) :
    ∃ x, L.fwd (.next e) = some x := by
  induction l generalizing sl with
  | nil => cases hmem
  | cons a l ih =>
    obtain ⟨-, -, htail⟩ := h
    cases l with
    | nil => exact absurd (List.mem_singleton.mp hmem ▸ rfl) he
    | cons b l =>
      rcases List.mem_cons.mp hmem with rfl | hmem
      · exact ⟨b, htail.1⟩
      · exact ih htail hmem he

theorem Represents.linked_iff (hr : Represents L q) (h : η) (e : ν) : Linked L h e ↔ e ∈ q h := by
  constructor
  · intro hl
    induction hl with
    | first he =>
      have hseg := hr.seg h
      cases hq : q h with
      | nil =>
        rw [hq] at hseg
        rw [hseg.1] at he
        cases he
      | cons a l =>
        rw [hq] at hseg
        rw [hseg.1] at he
        cases he
        simp
    | next _ hn ih => exact List.mem_of_mem_tail ((hr.seg h).next_mem ih hn)
  · -- every node of a segment is reached from the slot it starts from
    have key : ∀ (l : List ν) (sl : Slot η ν), Seg L sl l (L.last h) →
        (∀ x, L.fwd sl = some x → Linked L h x) → ∀ x ∈ l, Linked L h x := by
      intro l
      induction l with
      | nil =>
        intro sl _ _ x hx
        cases hx
      | cons a l ih =>
        intro sl hseg hsl x hx
        have ha : Linked L h a := hsl a hseg.1
        rcases List.mem_cons.mp hx with rfl | hx
        · exact ha
        · exact ih (.next a) hseg.2.2 (fun y hy => .next ha hy) x hx
    exact key (q h) (.first h) (hr.seg h) (fun x hx => .first hx) e

theorem Represents.first_eq (hr : Represents L q) (h : η) : L.first h = (q h).head? := by
  have hseg := hr.seg h
  cases hq : q h with
  | nil =>
    rw [hq] at hseg
    exact hseg.1
  | cons a l =>
    rw [hq] at hseg
    exact hseg.1

/-! ### Insertion -/

variable [DecidableEq η] [DecidableEq ν]

theorem Seg.insertTail (hseg : Seg L sl l (L.last h)) (hnd : l.Nodup) (he : e ∉ l)
    (hsle : sl ≠ .next e) (hsl : ∀ x ∈ l, sl ≠ .next x) :
    Seg (L.insertTail h e) sl (l ++ [e]) (.next e) := by
  induction l generalizing sl with
  | nil =>
    obtain ⟨-, hlast⟩ := hseg
    refine ⟨?_, ?_, ?_, rfl⟩
    · simp [Links.insertTail, hlast]
    · simp [Links.insertTail, hlast]
    · simp [Links.insertTail, hlast, hsle.symm]
  | cons a l ih =>
    obtain ⟨hfwd, hpa, htail⟩ := hseg
    rw [List.nodup_cons] at hnd
    have hae : a ≠ e := fun h => he (by simp [h])
    -- the cell that is overwritten is behind `a`, so it is not `sl`
    have hlast : L.last h ≠ sl := by
      rcases htail.fin_eq with ⟨-, hfin⟩ | ⟨x, hx, hfin⟩
      · rw [hfin]
        exact (hsl a (by simp)).symm
      · rw [hfin]
        exact (hsl x (by simp [hx])).symm
    refine ⟨?_, ?_, ?_⟩
    · simp [Links.insertTail, hlast.symm, hsle, hfwd]
    · simp [Links.insertTail, hae, hpa]
    · apply ih htail hnd.2 (fun h => he (by simp [h])) (fun h => hae (by cases h; rfl))
      intro x hx hax
      cases hax
      exact hnd.1 hx

omit [DecidableEq ν] in
theorem mem_insertTail (q : η → List ν) (h : η) (e : ν) (h' : η) (x : ν) :
    x ∈ update q h (q h ++ [e]) h' ↔ x ∈ q h' ∨ (h' = h ∧ x = e) := by
  by_cases hh : h' = h
  · subst hh
    simp
  · simp [hh]

omit [DecidableEq ν] in
theorem mem_insertHead (q : η → List ν) (h : η) (e : ν) (h' : η) (x : ν) :
    x ∈ update q h (e :: q h) h' ↔ x ∈ q h' ∨ (h' = h ∧ x = e) := by
  by_cases hh : h' = h
  · subst hh
    simp [or_comm]
  · simp [hh]

omit [DecidableEq η] [DecidableEq ν] in
theorem Represents.disjoint_insert {q' : η → List ν} (hr : Represents L q) (he : ∀ h', e ∉ q h')
    (hmem : ∀ h' x, x ∈ q' h' ↔ x ∈ q h' ∨ (h' = h ∧ x = e)) (h1 h2 : η) (x : ν) (hx1 : x ∈ q' h1)
    (hx2 : x ∈ q' h2) : h1 = h2 := by
  rw [hmem] at hx1 hx2
  rcases hx1 with hx1 | ⟨rfl, rfl⟩ <;> rcases hx2 with hx2 | ⟨rfl, hxe⟩
  · exact hr.disjoint h1 h2 x hx1 hx2
  · exact absurd (hxe ▸ hx1) (he h1)
  · exact absurd hx2 (he h2)
  · rfl

theorem Represents.insertTail (hr : Represents L q) (he : ∀ h', e ∉ q h') :
    Represents (L.insertTail h e) (update q h (q h ++ [e])) where
  seg := fun h' => by
    by_cases hh : h' = h
    · subst hh
      simp only [update_self, Links.insertTail]
      exact (hr.seg h').insertTail (hr.nodup h') (he h') (by simp) (by simp)
    · rw [update_of_ne hh]
      have hlast : (L.insertTail h e).last h' = L.last h' := by simp [Links.insertTail, hh]
      rw [hlast]
      -- the cells written belong to `e` or to the queue of `h`
      have hcell : L.last h = .first h ∨ ∃ x ∈ q h, L.last h = .next x := by
        rcases (hr.seg h).fin_eq with ⟨-, hfin⟩ | hx
        · exact .inl hfin
        · exact .inr hx
      apply (hr.seg h').congr
      · rcases hcell with hl | ⟨x, -, hl⟩ <;> simp [Links.insertTail, hl, hh]
      · intro x hx
        have hxe : x ≠ e := fun heq => he h' (heq ▸ hx)
        rcases hcell with hl | ⟨y, hy, hl⟩
        · simp [Links.insertTail, hl, hxe]
        · have hxy : x ≠ y := fun heq => hh (hr.disjoint h' h x hx (heq ▸ hy))
          simp [Links.insertTail, hl, hxe, hxy]
      · intro x hx
        have hxe : x ≠ e := fun heq => he h' (heq ▸ hx)
        simp [Links.insertTail, hxe]
  nodup := fun h' => by
    by_cases hh : h' = h
    · subst hh
      rw [update_self, List.nodup_append]
      refine ⟨hr.nodup h', by simp, ?_⟩
      intro a ha b hb hab
      rw [List.mem_singleton.mp hb] at hab
      exact he h' (hab ▸ ha)
    · rw [update_of_ne hh]
      exact hr.nodup h'
  disjoint := hr.disjoint_insert he (mem_insertTail q h e)

theorem Represents.insertHead (hr : Represents L q) (he : ∀ h', e ∉ q h') :
    Represents (L.insertHead h e) (update q h (e :: q h)) where
  seg := fun h' => by
    have hseg := hr.seg h'
    by_cases hh : h' = h
    · subst hh
      rw [update_self]
      have hfirst := hr.first_eq h'
      rw [Links.first] at hfirst
      cases hq : q h' with
      | nil =>
        rw [hq, List.head?_nil] at hfirst
        simp [Seg, Links.insertHead, hfirst]
      | cons n l =>
        rw [hq, List.head?_cons] at hfirst
        rw [hq] at hseg
        have hnd := hr.nodup h'
        rw [hq, List.nodup_cons] at hnd
        have hen : e ∉ n :: l := hq ▸ he h'
        rw [List.mem_cons, not_or] at hen
        have hlast : (L.insertHead h' e).last h' = L.last h' := by simp [Links.insertHead, hfirst]
        rw [hlast]
        refine ⟨by simp [Links.insertHead], by simp [Links.insertHead, hfirst],
          by simp [Links.insertHead, hfirst], ?_, ?_⟩
        · simp [Links.insertHead, hfirst, Ne.symm hen.1]
        · -- behind the old first node nothing is written
          apply hseg.2.2.congr
          · simp [Links.insertHead, Ne.symm hen.1]
          · intro x hx
            have hxe : x ≠ e := fun heq => hen.2 (heq ▸ hx)
            simp [Links.insertHead, hxe]
          · intro x hx
            have hxe : x ≠ e := fun heq => hen.2 (heq ▸ hx)
            have hxn : x ≠ n := fun heq => hnd.1 (heq ▸ hx)
            simp [Links.insertHead, hfirst, hxe, hxn]
    · rw [update_of_ne hh]
      have hlast : (L.insertHead h e).last h' = L.last h' := by
        cases hf : L.fwd (.first h) <;> simp [Links.insertHead, hf, hh]
      rw [hlast]
      apply hseg.congr
      · simp [Links.insertHead, hh]
      · intro x hx
        have hxe : x ≠ e := fun heq => he h' (heq ▸ hx)
        simp [Links.insertHead, hxe]
      · intro x hx
        have hxe : x ≠ e := fun heq => he h' (heq ▸ hx)
        cases hf : L.fwd (.first h) with
        | none => simp [Links.insertHead, hf, hxe]
        | some n =>
          have hn : n ∈ q h := (hr.linked_iff h n).mp (.first hf)
          have hxn : x ≠ n := fun heq => hh (hr.disjoint h' h x hx (heq ▸ hn))
          simp [Links.insertHead, hf, hxe, hxn]
  nodup := fun h' => by
    by_cases hh : h' = h
    · subst hh
      rw [update_self, List.nodup_cons]
      exact ⟨he h', hr.nodup h'⟩
    · rw [update_of_ne hh]
      exact hr.nodup h'
  disjoint := hr.disjoint_insert he (mem_insertHead q h e)

/-! ### Removal -/

theorem Seg.remove (hseg : Seg L sl l (L.last h)) (hnd : l.Nodup) (he : e ∈ l)
    (hsl : ∀ x ∈ l, sl ≠ .next x) : Seg (L.remove h e) sl (l.erase e) ((L.remove h e).last h) := by
  induction l generalizing sl with
  | nil => cases he
  | cons a l ih =>
    obtain ⟨hfwd, hpa, htail⟩ := hseg
    rw [List.nodup_cons] at hnd
    by_cases hae : a = e
    · subst hae
      rw [List.erase_cons_head]
      cases l with
      | nil =>
        obtain ⟨hnone, -⟩ := htail
        simp [Seg, Links.remove, hnone, hpa]
      | cons n l =>
        -- the successor takes over the slot of the removed node
        obtain ⟨hn, hpn, hrest⟩ := htail
        have hnl : n ∉ l := (List.nodup_cons.mp hnd.2).1
        have hlast : (L.remove h a).last h = L.last h := by simp [Links.remove, hn]
        rw [hlast]
        refine ⟨by simp [Links.remove, hpa, hn], by simp [Links.remove, hn, hpa], ?_⟩
        apply hrest.congr
        · have hne : (.next n : Slot η ν) ≠ sl := (hsl n (by simp)).symm
          simp [Links.remove, hpa, hne]
        · intro x hx
          have hne : (.next x : Slot η ν) ≠ sl := (hsl x (by simp [hx])).symm
          simp [Links.remove, hpa, hne]
        · intro x hx
          have hxn : x ≠ n := fun heq => hnl (heq ▸ hx)
          simp [Links.remove, hn, hxn]
    · have hel : e ∈ l := by
        rcases List.mem_cons.mp he with heq | hel
        · exact absurd heq.symm hae
        · exact hel
      have hsub : ∀ x ∈ l, (.next a : Slot η ν) ≠ .next x := by
        intro x hx hax
        cases hax
        exact hnd.1 hx
      rw [List.erase_cons_tail (by simpa using hae)]
      refine ⟨?_, ?_, ih htail hnd.2 hel hsub⟩
      · -- the slot that is overwritten belongs to a node
        have hne : sl ≠ L.prev e := by
          rcases htail.prev_eq hel with ⟨-, hpe⟩ | ⟨x, hx, hpe⟩
          · rw [hpe]
            exact hsl a (by simp)
          · rw [hpe]
            exact hsl x (by simp [hx])
        simp [Links.remove, hne, hfwd]
      · cases hn : L.fwd (.next e) with
        | none => simp [Links.remove, hn, hpa]
        | some n =>
          have hnl : n ∈ l := List.mem_of_mem_tail (htail.next_mem hel hn)
          have han : a ≠ n := fun heq => hnd.1 (heq ▸ hnl)
          simp [Links.remove, hn, han, hpa]

theorem Represents.remove (hr : Represents L q) (he : e ∈ q h) :
    Represents (L.remove h e) (update q h ((q h).erase e)) where
  seg := fun h' => by
    by_cases hh : h' = h
    · subst hh
      rw [update_self]
      exact (hr.seg h').remove (hr.nodup h') he (by simp)
    · rw [update_of_ne hh]
      -- the cells written belong to the queue of `h`, and this is another one
      have hcell : L.prev e = .first h ∨ ∃ x ∈ q h, L.prev e = .next x := by
        rcases (hr.seg h).prev_eq he with ⟨-, hpe⟩ | hx
        · exact .inl hpe
        · exact .inr hx
      have hlast : (L.remove h e).last h' = L.last h' := by
        cases hn : L.fwd (.next e) <;> simp [Links.remove, hn, hh]
      rw [hlast]
      apply (hr.seg h').congr
      · rcases hcell with hp | ⟨x, -, hp⟩ <;> simp [Links.remove, hp, hh]
      · intro x hx
        rcases hcell with hp | ⟨y, hy, hp⟩
        · simp [Links.remove, hp]
        · have hxy : x ≠ y := fun heq => hh (hr.disjoint h' h x hx (heq ▸ hy))
          simp [Links.remove, hp, hxy]
      · intro x hx
        cases hn : L.fwd (.next e) with
        | none => simp [Links.remove, hn]
        | some n =>
          have hnq : n ∈ q h := List.mem_of_mem_tail ((hr.seg h).next_mem he hn)
          have hxn : x ≠ n := fun heq => hh (hr.disjoint h' h x hx (heq ▸ hnq))
          simp [Links.remove, hn, hxn]
  nodup := fun h' => by
    by_cases hh : h' = h
    · subst hh
      rw [update_self]
      exact (hr.nodup h').erase e
    · rw [update_of_ne hh]
      exact hr.nodup h'
  disjoint := fun h1 h2 x hx1 hx2 => by
    -- lists only shrink
    have hsub : ∀ h', x ∈ update q h ((q h).erase e) h' → x ∈ q h' := by
      intro h' hx
      by_cases hh : h' = h
      · subst hh
        rw [update_self] at hx
        exact List.mem_of_mem_erase hx
      · rwa [update_of_ne hh] at hx
    exact hr.disjoint h1 h2 x (hsub h1 hx1) (hsub h2 hx2)

theorem Represents.mem_remove (hr : Represents L q) (he : e ∈ q h) (h' : η) (x : ν) :
    x ∈ update q h ((q h).erase e) h' ↔ x ∈ q h' ∧ x ≠ e := by
  by_cases hh : h' = h
  · subst hh
    rw [update_self, (hr.nodup h').mem_erase_iff]
    exact and_comm
  · rw [update_of_ne hh]
    constructor
    · intro hx
      refine ⟨hx, fun hxe => hh ?_⟩
      exact hr.disjoint h' h x hx (hxe ▸ he)
    · exact fun hx => hx.1

/-! ### The wrong queue -/

theorem Links.remove_through (hnext : L.fwd (.next e) = some x) (h h' : η) :
    L.remove h' e = L.remove h e := by
  simp only [Links.remove, hnext]

/-- **Removing a node through another head**, if it is not the last of its
queue. -/
theorem Represents.remove_through (hr : Represents L q) (he : e ∈ q h)
    (hlast : (q h).getLast? ≠ some e) (h' : η) :
    Represents (L.remove h' e) (update q h ((q h).erase e)) := by
  obtain ⟨x, hnext⟩ := (hr.seg h).next_isSome he hlast
  rw [Links.remove_through hnext h h']
  exact hr.remove he

/-- **Removing the last node of a queue through another head** leaves the
queue with a pointer behind its end, so nothing is represented any more. -/
theorem Represents.remove_damages (hr : Represents L q) (hlast : (q h).getLast? = some e)
    (hne : h' ≠ h) (q' : η → List ν) : ¬ Represents (L.remove h' e) q' := by
  intro hr'
  have hfin := (hr.seg h).next_last hlast
  have hnone : L.fwd (.next e) = none := hfin ▸ (hr.seg h).fwd_fin
  have hlast' : (L.remove h' e).last h = .next e := by
    simp only [Links.remove, hnone]
    rw [update_of_ne hne.symm]
    exact hfin
  have hseg := hr'.seg h
  rw [hlast'] at hseg
  rcases hseg.fin_eq with ⟨-, heq⟩ | ⟨x, hx, heq⟩
  · cases heq
  · cases heq
    -- the slot that pointed to the node was cleared
    have hfwd := hseg.fwd_prev hx
    simp only [Links.remove, update_self, hnone] at hfwd
    cases hfwd

theorem Seg.prev_insertTail (hseg : Seg L sl l fin) (hmem : e ∈ l)
    (hsl : sl ≠ .next e) (hlast : L.fwd (L.last h) = none)
    (hseg' : Seg (L.insertTail h e) sl l' fin') : (L.insertTail h e).prev e = L.prev e := by
  induction l generalizing sl l' with
  | nil => cases hmem
  | cons a l ih =>
    obtain ⟨hfwd, hpa, htail⟩ := hseg
    have hne : sl ≠ L.last h := by
      intro heq
      rw [heq, hlast] at hfwd
      cases hfwd
    have hfwd' : (L.insertTail h e).fwd sl = some a := by
      simp [Links.insertTail, hne, hsl, hfwd]
    cases l' with
    | nil =>
      rw [hseg'.1] at hfwd'
      cases hfwd'
    | cons b l' =>
      obtain ⟨hb, hpb, htail'⟩ := hseg'
      have hba : b = a := Option.some.inj (hb.symm.trans hfwd')
      subst hba
      by_cases hbe : b = e
      · subst hbe
        exact hpb.trans hpa.symm
      · have hmem' : e ∈ l := (List.mem_cons.mp hmem).resolve_left (Ne.symm hbe)
        exact ih htail hmem' (fun heq => hbe (by cases heq; rfl)) htail'

section

variable (hr : Represents L q)

include hr

/-- **Inserting a node that is in a queue** leaves two pointers to it and one
way back, so nothing is represented any more. -/
theorem Represents.insertTail_damages (he : e ∈ q h₀) (h : η) (q' : η → List ν) :
    ¬ Represents (L.insertTail h e) q' := by
  intro hr'
  have hlast : L.fwd (L.last h) = none := (hr.seg h).fwd_fin
  have hprev := (hr.seg h₀).prev_insertTail he (by intro heq; cases heq) hlast (hr'.seg h₀)
  have hprev' : (L.insertTail h e).prev e = L.last h := by simp [Links.insertTail]
  have hfwd := (hr.seg h₀).fwd_prev he
  rw [← hprev, hprev', hlast] at hfwd
  cases hfwd

/-! ### Moving a node -/

theorem Represents.not_mem_remove (he : e ∈ q h) (h' : η) : e ∉ update q h ((q h).erase e) h' := by
  rw [hr.mem_remove he]
  exact fun hmem => hmem.2 rfl

theorem Represents.moveTail (he : e ∈ q h) : ∃ q', Represents ((L.remove h e).insertTail h' e) q' ∧
      ∀ k x, x ∈ q' k ↔ if x = e then k = h' else x ∈ q k := by
  refine ⟨_, (hr.remove he).insertTail (hr.not_mem_remove he), fun k x => ?_⟩
  rw [mem_insertTail, hr.mem_remove he]
  by_cases hx : x = e <;> simp [hx]

theorem Represents.moveHead (he : e ∈ q h) : ∃ q', Represents ((L.remove h e).insertHead h' e) q' ∧
      ∀ k x, x ∈ q' k ↔ if x = e then k = h' else x ∈ q k := by
  refine ⟨_, (hr.remove he).insertHead (hr.not_mem_remove he), fun k x => ?_⟩
  rw [mem_insertHead, hr.mem_remove he]
  by_cases hx : x = e <;> simp [hx]

theorem Represents.init (hq : q h = []) : Represents (L.init h) q where
  seg := fun h' => by
    by_cases hh : h' = h
    · subst hh
      rw [hq]
      simp [Seg, Links.init]
    · have hlast : (L.init h).last h' = L.last h' := by simp [Links.init, hh]
      rw [hlast]
      apply (hr.seg h').congr
      · simp [Links.init, hh]
      · intro x _
        simp [Links.init]
      · intro x _
        rfl
  nodup := hr.nodup
  disjoint := hr.disjoint

/-! ### What the operations link -/

theorem Represents.linked_insertTail (he : ∀ h', e ∉ q h')
    (hl : Linked (L.insertTail h e) h' x) : Linked L h' x ∨ (h' = h ∧ x = e) := by
  rw [(hr.insertTail he).linked_iff, mem_insertTail, ← hr.linked_iff] at hl
  exact hl

theorem Represents.linked_remove (he : e ∈ q h)
    (hl : Linked (L.remove h e) h' x) : Linked L h' x := by
  rw [(hr.remove he).linked_iff, hr.mem_remove he, ← hr.linked_iff] at hl
  exact hl.1

theorem Represents.linked_init (hq : q h = []) (hl : Linked (L.init h) h' x) : Linked L h' x := by
  rw [(hr.init hq).linked_iff, ← hr.linked_iff] at hl
  exact hl

end

end Tailq
