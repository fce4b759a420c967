import Dufay.Framework.Tailq
import Dufay.Framework.Memory

/-! # Tail queues in byte memory

The pointers of a tail queue as words of a byte memory: `tqh_first` and
`tqh_last` are the first two words of a head, and `tqe_next` and
`tqe_prev` are the words of a node at a fixed offset (`hook`).

`Encodes` says that a memory holds the pointers `Links` at the heads `H`
and the nodes `N`, and `Holds` that it holds lists.
-/

namespace Tailq

open Links

open Memory Function

/-! ### Operations -/

/-- `TAILQ_INIT` -/
def initBytes (mem : Mem) (h : Nat) : Mem := write64 (write64 mem h 0) (h + 8) h

/-- `TAILQ_INSERT_TAIL`; `none` where a null pointer is followed. -/
def insertTailBytes (hook : Nat) (mem : Mem) (h e : Nat) : Option Mem :=
  let mem₁ := write64 mem (e + hook) 0
  let mem₂ := write64 mem₁ (e + hook + 8) (read64 mem₁ (h + 8))
  let tqh_last := read64 mem₂ (h + 8)
  if tqh_last = 0 then none
  else some (write64 (write64 mem₂ tqh_last e) (h + 8) (e + hook))

/-- `TAILQ_REMOVE`; `none` where a null pointer is followed. -/
def removeBytes (hook : Nat) (mem : Mem) (h e : Nat) : Option Mem :=
  let tqe_next := read64 mem (e + hook)
  let mem₁ :=
    if tqe_next ≠ 0 then write64 mem (tqe_next + hook + 8) (read64 mem (e + hook + 8))
    else write64 mem (h + 8) (read64 mem (e + hook + 8))
  let tqe_prev := read64 mem₁ (e + hook + 8)
  if tqe_prev = 0 then none else some (write64 mem₁ tqe_prev (read64 mem₁ (e + hook)))

/-! ### Fields -/

/-- A pointer of a head or of a node. -/
inductive Field where
  | fwd (sl : Slot Nat Nat)
  | last (h : Nat)
  | prev (e : Nat)
  deriving DecidableEq

def Field.addr (hook : Nat) : Field → Nat
  | .fwd (.first h) => h
  | .fwd (.next e) => e + hook
  | .last h => h + 8
  | .prev e => e + hook + 8

def Field.value (hook : Nat) (L : Links Nat Nat) : Field → Nat
  | .fwd sl => (L.fwd sl).getD 0
  | .last h => (Field.fwd (L.last h)).addr hook
  | .prev e => (Field.fwd (L.prev e)).addr hook

/-- The pointers of the heads `H` and the nodes `N`. -/
def Field.In (H N : Nat → Prop) : Field → Prop
  | .fwd (.first h) => H h
  | .fwd (.next e) => N e
  | .last h => H h
  | .prev e => N e

theorem Field.In.mono (hH : ∀ h, H h → H' h) (hN : ∀ e, N e → N' e)
    {f : Field} (hf : f.In H N) : f.In H' N' :=
  match f, hf with
  | .fwd (.first h), hf => hH h hf
  | .fwd (.next e), hf => hN e hf
  | .last h, hf => hH h hf
  | .prev e, hf => hN e hf

/-- No two pointers overlap, and none is at a null pointer. -/
structure Placed (hook : Nat) (H N : Nat → Prop) : Prop where
  apart : ∀ f f' : Field, f.In H N → f'.In H N → f ≠ f' →
    f.addr hook + 8 ≤ f'.addr hook ∨ f'.addr hook + 8 ≤ f.addr hook
  pos : ∀ f : Field, f.In H N → 0 < f.addr hook
  lt : ∀ f : Field, f.In H N → f.addr hook + 8 ≤ 18446744073709551616
  node_pos : ∀ e, N e → 0 < e

theorem Placed.of_apart (hsize : hook + 16 ≤ size)
    (hH : ∀ h, H h → 0 < h ∧ h + 16 ≤ 18446744073709551616)
    (hN : ∀ e, N e → 0 < e ∧ e + size ≤ 18446744073709551616)
    (hHH : ∀ h h', H h → H h' → h ≠ h' → h + 16 ≤ h' ∨ h' + 16 ≤ h)
    (hNN : ∀ e e', N e → N e' → e ≠ e' → e + size ≤ e' ∨ e' + size ≤ e)
    (hHN : ∀ h e, H h → N e → h + 16 ≤ e ∨ e + size ≤ h) : Placed hook H N := by
  have hheads : ∀ h h', H h → H h' → h = h' ∨ h + 16 ≤ h' ∨ h' + 16 ≤ h := by
    intro h h' hh hh'
    by_cases heq : h = h'
    · exact .inl heq
    · exact .inr (hHH h h' hh hh' heq)
  have hnodes : ∀ e e', N e → N e' → e = e' ∨ e + size ≤ e' ∨ e' + size ≤ e := by
    intro e e' he he'
    by_cases heq : e = e'
    · exact .inl heq
    · exact .inr (hNN e e' he he' heq)
  constructor
  · rintro ((h | e) | h | e) ((h' | e') | h' | e') hf hf' hne <;>
      simp only [ne_eq, Field.fwd.injEq, Slot.first.injEq, Slot.next.injEq, Field.last.injEq,
        Field.prev.injEq] at hne <;>
      simp only [Field.addr]
    -- two pointers of heads, of nodes, or one of each
    case fwd.first.fwd.first | fwd.first.last | last.fwd.first | last.last =>
      have := hheads h h' hf hf'
      omega
    case fwd.next.fwd.next | fwd.next.prev | prev.fwd.next | prev.prev =>
      have := hnodes e e' hf hf'
      omega
    case fwd.first.fwd.next | fwd.first.prev | last.fwd.next | last.prev =>
      have := hHN h e' hf hf'
      omega
    case fwd.next.fwd.first | fwd.next.last | prev.fwd.first | prev.last =>
      have := hHN h' e hf' hf
      omega
  · rintro ((h | e) | h | e) hf <;> simp only [Field.addr]
    case fwd.first | last =>
      have := hH h hf
      omega
    case fwd.next | prev =>
      have := hN e hf
      omega
  · rintro ((h | e) | h | e) hf <;> simp only [Field.addr]
    case fwd.first | last =>
      have := hH h hf
      omega
    case fwd.next | prev =>
      have := hN e hf
      omega
  · exact fun e he => (hN e he).1

/-- The memory holds the pointers of the heads `H` and the nodes `N`. -/
def Encodes (hook : Nat) (mem : Mem) (H N : Nat → Prop) (L : Links Nat Nat) : Prop :=
  ∀ f : Field, f.In H N → read64 mem (f.addr hook) = f.value hook L

section fields

variable {hook : Nat} {mem mem' : Mem} {H H' N N' : Nat → Prop} {L : Links Nat Nat}

theorem Encodes.mono (h : Encodes hook mem H' N' L) (hH : ∀ h, H h → H' h)
    (hN : ∀ e, N e → N' e) : Encodes hook mem H N L :=
  fun f hf => h f (hf.mono hH hN)

theorem Encodes.congr (h : Encodes hook mem H N L)
    (heq : ∀ f : Field, f.In H N → ∀ x, f.addr hook ≤ x → x < f.addr hook + 8 → mem' x = mem x) :
    Encodes hook mem' H N L := by
  intro f hf
  rw [← h f hf]
  exact read64_congr (heq f hf)

theorem Placed.read_write (hp : Placed hook H N) (mem : Mem) {f' : Field} (hf : f.In H N)
    (hf' : f'.In H N) (hv : v < 18446744073709551616) :
    read64 (write64 mem (f.addr hook) v) (f'.addr hook) =
      if f' = f then v else read64 mem (f'.addr hook) := by
  split
  · next heq =>
    subst heq
    exact read64_write64_of_lt hv
  · next hne => exact read64_write64_of_disjoint (hp.apart f' f hf' hf hne)

theorem write_field_outside {f : Field} (hf : f.In H N) (v : Nat) {x : Nat}
    (hx : ∀ f : Field, f.In H N → ¬ (f.addr hook ≤ x ∧ x < f.addr hook + 8)) :
    write64 mem (f.addr hook) v x = mem x := by
  have hout := hx f hf
  exact write64_outside (by omega)

end fields

/-! ### The operations keep the pointers -/

section operations

variable {hook : Nat} {mem : Mem} {H N : Nat → Prop} {L : Links Nat Nat}

/-- The memory is as it was outside of the pointers. -/
def SameOutside (hook : Nat) (H N : Nat → Prop) (mem mem' : Mem) : Prop :=
  ∀ x, (∀ f : Field, f.In H N → ¬ (f.addr hook ≤ x ∧ x < f.addr hook + 8)) → mem' x = mem x

theorem Encodes.insertTail (henc : Encodes hook mem H N L) {h e : Nat}
    (hp : Placed hook H (fun x => N x ∨ x = e)) (hh : H h) (he : ¬ N e)
    (hlast : (Field.fwd (L.last h)).In H N) : ∃ mem', insertTailBytes hook mem h e = some mem' ∧
      Encodes hook mem' H (fun x => N x ∨ x = e) (L.insertTail h e) ∧
      SameOutside hook H (fun x => N x ∨ x = e) mem mem' := by
  have hmono : ∀ {f : Field}, f.In H N → f.In H (fun x => N x ∨ x = e) :=
    fun hf => hf.mono (fun _ hx => hx) (fun _ hx => Or.inl hx)
  have hnext : (Field.fwd (.next e)).In H (fun x => N x ∨ x = e) := Or.inr rfl
  have hprev : (Field.prev e).In H (fun x => N x ∨ x = e) := Or.inr rfl
  have htail : (Field.last h).In H (fun x => N x ∨ x = e) := hh
  have hslot := hmono hlast
  have hlt : ∀ {f : Field}, f.In H (fun x => N x ∨ x = e) → f.addr hook < 18446744073709551616 :=
    fun hf => by
      have := hp.lt _ hf
      omega
  have helt : e < 18446744073709551616 := by
    have := hp.lt _ hnext
    simp only [Field.addr] at this
    omega
  -- the slot behind the last node, which is not the new one
  have hne : L.last h ≠ .next e := by
    intro heq
    rw [heq] at hlast
    exact he hlast
  let mem₁ := write64 mem ((Field.fwd (.next e)).addr hook) 0
  let mem₂ := write64 mem₁ ((Field.prev e).addr hook) ((Field.fwd (L.last h)).addr hook)
  let mem₃ := write64 mem₂ ((Field.fwd (L.last h)).addr hook) e
  let mem₄ := write64 mem₃ ((Field.last h).addr hook) ((Field.fwd (.next e)).addr hook)
  have hread₁ : read64 mem₁ (h + 8) = (Field.fwd (L.last h)).addr hook := by
    have := hp.read_write mem hnext htail (v := 0) (by decide)
    rw [if_neg (by simp)] at this
    exact this.trans (henc _ hh)
  have hread₂ : read64 mem₂ (h + 8) = (Field.fwd (L.last h)).addr hook := by
    have := hp.read_write mem₁ hprev htail (hlt hslot)
    rw [if_neg (by simp)] at this
    exact this.trans hread₁
  have hins : insertTailBytes hook mem h e = some mem₄ := by
    have hpos := hp.pos _ hslot
    unfold insertTailBytes
    dsimp only
    have e1 : write64 mem (e + hook) 0 = mem₁ := rfl
    rw [e1, hread₁]
    have e2 : write64 mem₁ (e + hook + 8) ((Field.fwd (L.last h)).addr hook) = mem₂ := rfl
    rw [e2, hread₂, if_neg (by omega)]
    rfl
  refine ⟨mem₄, hins, ?_, ?_⟩
  · intro f hf
    rw [hp.read_write mem₃ htail hf (hlt hnext), hp.read_write mem₂ hslot hf helt,
      hp.read_write mem₁ hprev hf (hlt hslot), hp.read_write mem hnext hf (by decide)]
    cases f with
    | fwd sl =>
      by_cases hsl : sl = L.last h
      · subst hsl
        simp [Field.value, Links.insertTail]
      · by_cases hsle : sl = .next e
        · subst hsle
          simp [Field.value, Links.insertTail, hne.symm]
        · have hold : (Field.fwd sl).In H N := by
            cases sl with
            | first h' => exact hf
            | next x =>
              rcases hf with hf | rfl
              · exact hf
              · exact absurd rfl hsle
          simp [Field.value, Links.insertTail, hsl, hsle, henc _ hold]
    | last h' =>
      by_cases hh' : h' = h
      · subst hh'
        simp [Field.value, Links.insertTail]
      · simp [Field.value, Links.insertTail, hh', henc (.last h') hf]
    | prev x =>
      by_cases hx : x = e
      · subst hx
        simp [Field.value, Links.insertTail]
      · have hold : (Field.prev x).In H N := hf.resolve_right hx
        simp [Field.value, Links.insertTail, hx, henc _ hold]
  · intro x hx
    calc mem₄ x = mem₃ x := write_field_outside htail _ hx
      _ = mem₂ x := write_field_outside hslot _ hx
      _ = mem₁ x := write_field_outside hprev _ hx
      _ = mem x := write_field_outside hnext _ hx

/-- The back pointer that takes over when a node is removed: that of its
successor, or `tqh_last`. -/
def Links.follower (L : Links Nat Nat) (h e : Nat) : Field :=
  match L.fwd (.next e) with
  | some n => .prev n
  | none => .last h

theorem value_remove_back (L : Links Nat Nat) (h e : Nat) (hf : ∀ sl, f ≠ .fwd sl) :
    f.value hook (L.remove h e) =
      if f = L.follower h e then (Field.fwd (L.prev e)).addr hook else f.value hook L := by
  cases f with
  | fwd sl => exact absurd rfl (hf sl)
  | last h' =>
    cases hn : L.fwd (.next e) with
    | none =>
      by_cases hh : h' = h <;> simp [Field.value, remove, follower, hn, hh]
    | some n => simp [Field.value, remove, follower, hn]
  | prev x =>
    cases hn : L.fwd (.next e) with
    | none => simp [Field.value, remove, follower, hn]
    | some n =>
      by_cases hx : x = n <;> simp [Field.value, remove, follower, hn, hx]

theorem Encodes.remove (henc : Encodes hook mem H N L) {e : Nat} (hp : Placed hook H N)
    (hh : H h) (he : N e) (hprev : (Field.fwd (L.prev e)).In H N)
    (hnext : ∀ n, L.fwd (.next e) = some n → N n) :
    ∃ mem', removeBytes hook mem h e = some mem' ∧ Encodes hook mem' H N (L.remove h e) ∧
      SameOutside hook H N mem mem' := by
  have hlt : ∀ {f : Field}, f.In H N → f.addr hook < 18446744073709551616 := fun hf => by
    have := hp.lt _ hf
    omega
  have hfollow : (L.follower h e).In H N := by
    unfold Links.follower
    split
    · next n hn => exact hnext n hn
    · exact hh
  have hnextlt : (L.fwd (.next e)).getD 0 < 18446744073709551616 := by
    cases hn : L.fwd (.next e) with
    | none => decide
    | some n =>
      have := hlt (f := .prev n) (hnext n hn)
      simp only [Field.addr] at this
      simp only [Option.getD_some]
      omega
  have hnextIn : (Field.fwd (.next e)).In H N := he
  have hprevIn : (Field.prev e).In H N := he
  have hread : read64 mem (e + hook + 8) = (Field.fwd (L.prev e)).addr hook := henc (.prev e) he
  let mem₁ := write64 mem ((L.follower h e).addr hook) ((Field.fwd (L.prev e)).addr hook)
  let mem₂ := write64 mem₁ ((Field.fwd (L.prev e)).addr hook) ((L.fwd (.next e)).getD 0)
  have hread₁ : read64 mem₁ (e + hook + 8) = (Field.fwd (L.prev e)).addr hook := by
    have := hp.read_write mem hfollow hprevIn (hlt hprev)
    refine this.trans ?_
    split
    · rfl
    · exact hread
  have hnext₁ : read64 mem₁ (e + hook) = (L.fwd (.next e)).getD 0 := by
    have := hp.read_write mem hfollow hnextIn (hlt hprev)
    refine this.trans ?_
    rw [if_neg]
    · exact henc (.fwd (.next e)) he
    · unfold Links.follower
      split <;> simp
  have hrem : removeBytes hook mem h e = some mem₂ := by
    have hpos := hp.pos _ hprev
    have hnext₀ : read64 mem (e + hook) = (L.fwd (.next e)).getD 0 := henc (.fwd (.next e)) he
    unfold removeBytes
    dsimp only
    have e1 : (if read64 mem (e + hook) ≠ 0 then
        write64 mem (read64 mem (e + hook) + hook + 8) (read64 mem (e + hook + 8))
        else write64 mem (h + 8) (read64 mem (e + hook + 8))) = mem₁ := by
      rw [hnext₀, hread]
      cases hn : L.fwd (.next e) with
      | none => simp [mem₁, Links.follower, hn, Field.addr]
      | some n =>
        have hn0 : n ≠ 0 := Nat.ne_of_gt (hp.node_pos n (hnext n hn))
        simp [mem₁, Links.follower, hn, Field.addr, hn0]
    rw [e1, hread₁, if_neg (by omega), hnext₁]
  refine ⟨mem₂, hrem, ?_, ?_⟩
  · intro f hf
    rw [hp.read_write mem₁ hprev hf hnextlt, hp.read_write mem hfollow hf (hlt hprev)]
    cases f with
    | fwd sl =>
      have hne : Field.fwd sl ≠ L.follower h e := by
        unfold Links.follower
        split <;> simp
      by_cases hsl : sl = L.prev e
      · subst hsl
        simp [Field.value, Links.remove]
      · rw [if_neg (by simpa using hsl), if_neg hne, henc _ hf]
        simp [Field.value, Links.remove, hsl]
    | last h' => rw [if_neg (by simp), value_remove_back L h e (by simp), henc _ hf]
    | prev x => rw [if_neg (by simp), value_remove_back L h e (by simp), henc _ hf]
  · intro x hx
    calc mem₂ x = mem₁ x := write_field_outside hprev _ hx
      _ = mem x := write_field_outside hfollow _ hx

theorem Encodes.init (henc : Encodes hook mem H N L) {h : Nat}
    (hp : Placed hook (fun x => H x ∨ x = h) N) :
    Encodes hook (initBytes mem h) (fun x => H x ∨ x = h) N (L.init h) ∧
      SameOutside hook (fun x => H x ∨ x = h) N mem (initBytes mem h) := by
  have hfirst : (Field.fwd (.first h)).In (fun x => H x ∨ x = h) N := Or.inr rfl
  have hlast : (Field.last h).In (fun x => H x ∨ x = h) N := Or.inr rfl
  have hlt : h < 18446744073709551616 := by
    have := hp.lt _ hfirst
    simp only [Field.addr] at this
    omega
  constructor
  · intro f hf
    have hread := hp.read_write (write64 mem h 0) hlast hf hlt
    refine hread.trans ?_
    have hread' := hp.read_write mem hfirst hf (v := 0) (by decide)
    cases f with
    | fwd sl =>
      rw [if_neg (by simp)]
      refine hread'.trans ?_
      by_cases hsl : sl = .first h
      · subst hsl
        simp [Field.value, Links.init]
      · have hold : (Field.fwd sl).In H N := by
          cases sl with
          | first x =>
            rcases hf with hf | rfl
            · exact hf
            · exact absurd rfl hsl
          | next x => exact hf
        rw [if_neg (by simpa using hsl), henc _ hold]
        simp [Field.value, Links.init, hsl]
    | last x =>
      by_cases hx : x = h
      · subst hx
        simp [Field.value, Links.init, Field.addr]
      · rw [if_neg (by simpa using hx)]
        refine hread'.trans ?_
        rw [if_neg (by simp), henc (.last x) (hf.resolve_right hx)]
        simp [Field.value, Links.init, hx]
    | prev x =>
      rw [if_neg (by simp)]
      refine hread'.trans ?_
      rw [if_neg (by simp), henc (.prev x) hf]
      simp [Field.value, Links.init]
  · intro x hx
    calc initBytes mem h x = write64 mem h 0 x := write_field_outside hlast _ hx
      _ = mem x := write_field_outside hfirst _ hx

end operations

/-! ### Lists in memory -/

def Queued (q : Nat → List Nat) (e : Nat) : Prop := ∃ h, e ∈ q h

/-- The queues of the heads `H` hold the lists `q`, and the other lists are
empty. -/
structure Holds (hook : Nat) (mem : Mem) (H : Nat → Prop) (q : Nat → List Nat) : Prop where
  links : ∃ L, Represents L q ∧ Encodes hook mem H (Queued q) L
  head : ∀ h, q h ≠ [] → H h

namespace Holds

variable {hook : Nat} {mem mem' : Mem} {H H' : Nat → Prop} {q : Nat → List Nat} {h e : Nat}

theorem empty (hook : Nat) (mem : Mem) : Holds hook mem (fun _ => False) fun _ => [] where
  links :=
    ⟨⟨fun _ => none, .first, .next⟩, ⟨fun _ => ⟨rfl, rfl⟩, by simp, by simp⟩, by
      rintro ((h | e) | h | e) hf <;> simp [Field.In, Queued] at hf⟩
  head := by simp

section

variable (hq : Holds hook mem H q)

include hq

theorem congr (heq : ∀ f : Field, f.In H (Queued q) → ∀ x, f.addr hook ≤ x → x < f.addr hook + 8 →
      mem' x = mem x) : Holds hook mem' H q := by
  obtain ⟨L, hrep, henc⟩ := hq.links
  exact ⟨⟨L, hrep, henc.congr heq⟩, hq.head⟩

theorem mono (hH : ∀ h, H' h → H h) (hhead : ∀ h, q h ≠ [] → H' h) : Holds hook mem H' q := by
  obtain ⟨L, hrep, henc⟩ := hq.links
  exact ⟨⟨L, hrep, henc.mono hH (fun _ h => h)⟩, hhead⟩

theorem first (hh : H h) : read64 mem h = (q h).head?.getD 0 := by
  obtain ⟨L, hrep, henc⟩ := hq.links
  rw [← hrep.first_eq h]
  exact henc (.fwd (.first h)) hh

theorem last_of_nil (hh : H h) (hnil : q h = []) : read64 mem (h + 8) = h := by
  obtain ⟨L, hrep, henc⟩ := hq.links
  have hseg := hrep.seg h
  rw [hnil] at hseg
  have hlast : L.last h = .first h := hseg.2
  have hread := henc (.last h) hh
  rw [Field.value, hlast] at hread
  exact hread

theorem not_queued_erase (he : e ∈ q h) :
    ∀ x, Queued (update q h ((q h).erase e)) x ↔ Queued q x ∧ x ≠ e := by
  obtain ⟨L, hrep, _⟩ := hq.links
  intro x
  simp only [Queued, hrep.mem_remove he, exists_and_right]

end

theorem queued_append (q : Nat → List Nat) (h e x : Nat) :
    Queued (update q h (q h ++ [e])) x ↔ Queued q x ∨ x = e := by
  simp only [Queued, mem_insertTail]
  constructor
  · rintro ⟨h', hx | ⟨_, rfl⟩⟩
    · exact .inl ⟨h', hx⟩
    · exact .inr rfl
  · rintro (⟨h', hx⟩ | rfl)
    · exact ⟨h', .inl hx⟩
    · exact ⟨h, .inr ⟨rfl, rfl⟩⟩

theorem insertTail (hq : Holds hook mem H q)
    (hp : Placed hook H (fun x => Queued q x ∨ x = e)) (hh : H h) (he : ¬ Queued q e) :
    ∃ mem', insertTailBytes hook mem h e = some mem' ∧ Holds hook mem' H (update q h (q h ++ [e])) ∧
      SameOutside hook H (fun x => Queued q x ∨ x = e) mem mem' := by
  obtain ⟨L, hrep, henc⟩ := hq.links
  have hlast : (Field.fwd (L.last h)).In H (Queued q) := by
    rcases (hrep.seg h).fin_eq with ⟨_, hfin⟩ | ⟨x, hx, hfin⟩
    · rw [hfin]
      exact hh
    · rw [hfin]
      exact ⟨h, hx⟩
  obtain ⟨mem', hins, henc', hsame⟩ := henc.insertTail hp hh he hlast
  refine ⟨mem', hins, ⟨⟨_, hrep.insertTail (fun h' hx => he ⟨h', hx⟩), ?_⟩, ?_⟩, hsame⟩
  · exact henc'.mono (fun _ h => h) fun x hx => (queued_append q h e x).mp hx
  · intro h' hne
    by_cases heq : h' = h
    · exact heq ▸ hh
    · rw [update_of_ne heq] at hne
      exact hq.head h' hne

theorem remove (hq : Holds hook mem H q) (hp : Placed hook H (Queued q)) (he : e ∈ q h) :
    ∃ mem', removeBytes hook mem h e = some mem' ∧ Holds hook mem' H (update q h ((q h).erase e)) ∧
      SameOutside hook H (Queued q) mem mem' := by
  obtain ⟨L, hrep, henc⟩ := hq.links
  have hh : H h := hq.head h (List.ne_nil_of_mem he)
  have hprev : (Field.fwd (L.prev e)).In H (Queued q) := by
    rcases (hrep.seg h).prev_eq he with ⟨_, hpe⟩ | ⟨x, hx, hpe⟩
    · rw [hpe]
      exact hh
    · rw [hpe]
      exact ⟨h, hx⟩
  have hnext : ∀ n, L.fwd (.next e) = some n → Queued q n := fun n hn =>
    ⟨h, List.mem_of_mem_tail ((hrep.seg h).next_mem he hn)⟩
  obtain ⟨mem', hrem, henc', hsame⟩ := henc.remove hp hh ⟨h, he⟩ hprev hnext
  refine ⟨mem', hrem, ⟨⟨_, hrep.remove he, ?_⟩, ?_⟩, hsame⟩
  · exact henc'.mono (fun _ h => h) fun x hx => ((hq.not_queued_erase he x).mp hx).1
  · intro h' hne
    by_cases heq : h' = h
    · exact heq ▸ hh
    · rw [update_of_ne heq] at hne
      exact hq.head h' hne

theorem init (hq : Holds hook mem H q) (hp : Placed hook (fun x => H x ∨ x = h) (Queued q))
    (hnil : q h = []) : Holds hook (initBytes mem h) (fun x => H x ∨ x = h) q ∧
      SameOutside hook (fun x => H x ∨ x = h) (Queued q) mem (initBytes mem h) := by
  obtain ⟨L, hrep, henc⟩ := hq.links
  obtain ⟨henc', hsame⟩ := henc.init hp
  exact ⟨⟨⟨_, hrep.init hnil, henc'⟩, fun h' hne => Or.inl (hq.head h' hne)⟩, hsame⟩

end Holds

end Tailq
