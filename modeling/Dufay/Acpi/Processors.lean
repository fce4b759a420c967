import Dufay.Framework.Lts
import Mathlib.Data.BitVec
import Mathlib.Data.List.Perm.Subperm

/-! # Starting the processors

`boot_aps`, `chain_aps` and `core_bootstrap` of `arch/amd64/smp.c`. A
processor that is started counts itself twice, in `cpus_up` and then in
`logical_processor_cnt`, and starts the next one, so one is at work at a
time; `boot_aps` waits for the first of the two counters meanwhile. A boot
processor that is not the first one of the table is started by another one
like the rest, wherever it is then.
-/

open Lts Function

namespace Apic

/-- Where the processor at work is. -/
inductive Phase where
  | chain
  /-- In `core_bootstrap`, with `core_init_lock` held for it. -/
  | bootstrap
  /-- Before `atomic_fetch_add`. -/
  | unlocked
  /-- Between `atomic_fetch_add` and `logical_processor_cnt++`. -/
  | counted
  /-- All have been started. -/
  | finished
  deriving DecidableEq

/-- Where `boot_aps` is. -/
inductive Boot where
  | chain
  /-- Before the second `spinlock` of `chain_aps`. -/
  | starting
  | waiting
  | returned
  /-- An INIT has come from another processor. -/
  | reset
  deriving DecidableEq

structure State where
  logical_processor_cnt : Nat
  cpus_up : Nat
  /-- `core_id` of the slots of `logical_processor_locales` -/
  core_id : Nat → Nat
  /-- The slot that `MSR_GS_BASE` of a processor points to, by its APIC id. -/
  gs_base : BitVec 8 → Option Nat
  /-- The processor at work -/
  self : BitVec 8
  /-- The argument of its `core_bootstrap` -/
  cpu_local : Nat
  phase : Phase
  boot : Boot

inductive Action where
  | work
  | boot

/-- A step of the processor at work; `ids` are the entries of the MADT. -/
def work (ids : List (BitVec 8)) (bsp : BitVec 8) (s : State) : Option State :=
  let slot := s.logical_processor_cnt
  match s.phase with
  | .chain =>
    match ids[slot]? with
    | none =>
      some { s with phase := .finished, boot := if s.boot = .chain then .waiting else s.boot }
    | some apic_id =>
      let s := { s with core_id := update s.core_id slot apic_id.toNat }
      if apic_id = s.self then
        some { s with
          gs_base := update s.gs_base s.self (some slot)
          logical_processor_cnt := slot + 1 }
      else
        some { s with
          self := apic_id
          cpu_local := slot
          phase := .bootstrap
          boot :=
            if apic_id = bsp then .reset else if s.boot = .chain then .starting else s.boot }
  | .bootstrap => some { s with phase := .unlocked }
  | .unlocked =>
    some { s with
      gs_base := update s.gs_base s.self (some s.cpu_local)
      cpus_up := s.cpus_up + 1
      phase := .counted }
  | .counted => some { s with logical_processor_cnt := slot + 1, phase := .chain }
  | .finished => none

def step (ids : List (BitVec 8)) (bsp : BitVec 8) (s : State) : Action → Option State
  | .work => work ids bsp s
  | .boot =>
    match s.boot with
    | .starting => if s.phase ≠ .bootstrap then some { s with boot := .waiting } else none
    | .waiting => if s.cpus_up = ids.length then some { s with boot := .returned } else none
    | _ => none

/-- `boot_aps` calls `chain_aps`. -/
def boot_aps (bsp : BitVec 8) : State where
  logical_processor_cnt := 0
  cpus_up := 1
  core_id := fun _ => 0
  gs_base := fun _ => none
  self := bsp
  cpu_local := 0
  phase := .chain
  boot := .chain

def system (ids : List (BitVec 8)) (bsp : BitVec 8) : System State Action where
  init s := s = boot_aps bsp
  step := step ids bsp

/-- Every processor has a slot that no other one has, and the `core_id` in it is
an index into the arrays that `kmem_init` allocates. -/
def InRange (ids : List (BitVec 8)) (s : State) : Prop :=
  ∀ id ∈ ids, ∃ slot, s.gs_base id = some slot ∧
    (∀ id' ∈ ids, s.gs_base id' = some slot → id' = id) ∧ s.core_id slot < s.logical_processor_cnt

/-- The `i`-th processor has been started, or has started itself. -/
def Started (s : State) (i : Nat) : Prop :=
  i < s.logical_processor_cnt ∨ i = s.logical_processor_cnt ∧ s.phase ≠ .chain

/-- It has taken its slot. -/
def Placed (s : State) (i : Nat) : Prop :=
  i < s.logical_processor_cnt ∨ i = s.logical_processor_cnt ∧ s.phase = .counted

/-- The processors come up in the order of the table; `b` is the place of the
boot processor in it. -/
structure Chained (ids : List (BitVec 8)) (bsp : BitVec 8) (b : Nat) (s : State) : Prop where
  chain : s.phase = .chain → ids[s.logical_processor_cnt - 1]? = some s.self ∧
    0 < s.logical_processor_cnt ∨
      s.logical_processor_cnt = 0 ∧ s.self = bsp ∧ s.cpus_up = 1 ∧ s.boot = .chain
  started : s.phase ≠ .chain → s.phase ≠ .finished → ids[s.logical_processor_cnt]? = some s.self
  cpu_local : s.phase = .bootstrap ∨ s.phase = .unlocked → s.cpu_local = s.logical_processor_cnt
  finished : s.phase = .finished → s.logical_processor_cnt = ids.length
  slots : ∀ i id, ids[i]? = some id → Placed s i → s.gs_base id = some i
  cores : ∀ i id, ids[i]? = some id → Started s i → s.core_id i = id.toNat
  /-- A boot processor that is not the first one of the table is counted twice. -/
  up : b = 0 → 0 < s.logical_processor_cnt → s.phase ≠ .counted →
    s.cpus_up = s.logical_processor_cnt
  counted : b = 0 → s.phase = .counted → s.cpus_up = s.logical_processor_cnt + 1
  first : b = 0 → s.phase ≠ .chain → 0 < s.logical_processor_cnt
  boot : 0 < b → s.boot ≠ .reset → ¬Started s b ∧ s.gs_base bsp = none
  returned : b = 0 → s.boot = .returned → s.cpus_up = ids.length

variable {ids : List (BitVec 8)} {bsp id : BitVec 8} {s s' : State} {b i j n : Nat}

theorem index_unique (hnodup : ids.Nodup) (hi : ids[i]? = some id) (hj : ids[j]? = some id) :
    i = j :=
  (List.getElem?_inj (List.getElem?_eq_some_iff.mp hi).1 hnodup).mp (hi.trans hj.symm)

theorem chained_boot_aps : Chained ids bsp b (boot_aps bsp) := by
  constructor <;> simp [boot_aps, Started, Placed]

theorem Chained.unlock (h : Chained ids bsp b s) (hphase : s.phase = .bootstrap) :
    Chained ids bsp b { s with phase := .unlocked } := by
  cases h
  constructor <;> grind [Started, Placed]

theorem Chained.next (h : Chained ids bsp b s) (hphase : s.phase = .counted) :
    Chained ids bsp b { s with
      logical_processor_cnt := s.logical_processor_cnt + 1
      phase := .chain } := by
  cases h
  constructor <;> grind [Started, Placed]

section

variable (hnodup : ids.Nodup) (hb : ids[b]? = some bsp)
include hnodup hb

theorem Chained.count (h : Chained ids bsp b s) (hphase : s.phase = .unlocked) :
    Chained ids bsp b { s with
      gs_base := update s.gs_base s.self (some s.cpu_local)
      cpus_up := s.cpus_up + 1
      phase := .counted } := by
  have hat := h.started (by simp [hphase]) (by simp [hphase])
  have hlt : s.logical_processor_cnt < ids.length := (List.getElem?_eq_some_iff.mp hat).1
  have hcpu := h.cpu_local (.inr hphase)
  have huniq : ∀ i id, ids[i]? = some id → id = s.self → i = s.logical_processor_cnt :=
    fun i id hi heq => index_unique hnodup hi (heq ▸ hat)
  cases h
  constructor <;> grind [Started, Placed]

/-- Only the boot processor finds its own entry, and only as the first one. -/
theorem Chained.own (h : Chained ids bsp b s)
    (hphase : s.phase = .chain) (hat : ids[s.logical_processor_cnt]? = some s.self) :
    s.logical_processor_cnt = 0 ∧ b = 0 ∧ s.self = bsp ∧ s.cpus_up = 1 := by
  rcases h.chain hphase with ⟨hprev, hpos⟩ | ⟨h0, hself, hup, -⟩
  · have := index_unique hnodup hprev hat
    omega
  · rw [h0, hself] at hat
    exact ⟨h0, index_unique hnodup hb hat, hself, hup⟩

theorem Chained.take (h : Chained ids bsp b s)
    (hphase : s.phase = .chain) (hat : ids[s.logical_processor_cnt]? = some s.self) :
    Chained ids bsp b { s with
      core_id := update s.core_id s.logical_processor_cnt s.self.toNat
      gs_base := update s.gs_base s.self (some s.logical_processor_cnt)
      logical_processor_cnt := s.logical_processor_cnt + 1 } := by
  obtain ⟨h0, rfl, hself, hup⟩ := h.own hnodup hb hphase hat
  cases h
  constructor <;> grind [Started, Placed]

theorem Chained.start (h : Chained ids bsp b s)
    (hphase : s.phase = .chain) (hat : ids[s.logical_processor_cnt]? = some id)
    (hne : id ≠ s.self) :
    Chained ids bsp b { s with
      core_id := update s.core_id s.logical_processor_cnt id.toNat
      self := id
      cpu_local := s.logical_processor_cnt
      phase := .bootstrap
      boot := if id = bsp then .reset else if s.boot = .chain then .starting else s.boot } := by
  have hplace : b = s.logical_processor_cnt ↔ id = bsp :=
    ⟨fun heq => Option.some.inj (hat.symm.trans (heq ▸ hb)),
      fun heq => index_unique hnodup hb (heq ▸ hat)⟩
  cases h
  constructor <;> grind [Started, Placed]

omit hnodup in
theorem Chained.finish (h : Chained ids bsp b s) (hphase : s.phase = .chain)
    (hend : ids[s.logical_processor_cnt]? = none) :
    Chained ids bsp b
      { s with phase := .finished, boot := if s.boot = .chain then .waiting else s.boot } := by
  have hlt : b < ids.length := (List.getElem?_eq_some_iff.mp hb).1
  have hle : ids.length ≤ s.logical_processor_cnt := List.getElem?_eq_none_iff.mp hend
  have hcnt : s.logical_processor_cnt = ids.length := by
    rcases h.chain hphase with ⟨hprev, hpos⟩ | ⟨h0, -⟩
    · have := (List.getElem?_eq_some_iff.mp hprev).1
      omega
    · omega
  cases h
  constructor <;> grind [Started, Placed]

theorem Chained.work (h : Chained ids bsp b s) (hst : work ids bsp s = some s') :
    Chained ids bsp b s' := by
  unfold Apic.work at hst
  dsimp only at hst
  split at hst
  case h_1 hphase =>
    cases hat : ids[s.logical_processor_cnt]? with
    | none =>
      simp only [hat] at hst
      cases hst
      exact h.finish hb hphase hat
    | some apic_id =>
      simp only [hat] at hst
      by_cases hself : apic_id = s.self
      · subst hself
        rw [if_pos rfl] at hst
        cases hst
        exact h.take hnodup hb hphase hat
      · rw [if_neg hself] at hst
        cases hst
        exact h.start hnodup hb hphase hat hself
  case h_2 hphase =>
    cases hst
    exact h.unlock hphase
  case h_3 hphase =>
    cases hst
    exact h.count hnodup hb hphase
  case h_4 hphase =>
    cases hst
    exact h.next hphase
  case h_5 => cases hst

theorem Chained.step (h : Chained ids bsp b s) (hst : step ids bsp s a = some s') :
    Chained ids bsp b s' := by
  cases a with
  | work => exact h.work hnodup hb hst
  | boot =>
    cases hboot : s.boot <;> simp only [Apic.step, hboot] at hst
    case starting =>
      obtain ⟨-, rfl⟩ := of_guard hst
      exact { h with
        chain := fun hphase => .inl ((h.chain hphase).resolve_right (by simp [hboot]))
        boot := fun hpos _ => h.boot hpos (by simp [hboot])
        returned := by simp }
    case waiting =>
      obtain ⟨hup, rfl⟩ := of_guard hst
      exact { h with
        chain := fun hphase => .inl ((h.chain hphase).resolve_right (by simp [hboot]))
        boot := fun hpos _ => h.boot hpos (by simp [hboot])
        returned := fun _ _ => hup }
    all_goals cases hst

theorem chained_of_reachable (hs : Reachable (system ids bsp) s) : Chained ids bsp b s := by
  refine ReachableBy.invariant (fun s hs => ?_) (fun s a s' h _ hst => h.step hnodup hb hst) hs
  cases hs
  exact chained_boot_aps

end

/-- Distinct APIC ids reach up to their number. -/
theorem not_all_below (hnodup : ids.Nodup) (hlt : n < ids.length) :
    ¬∀ id ∈ ids, id.toNat < n := by
  intro h
  have hmap : (ids.map BitVec.toNat).Nodup :=
    hnodup.map fun _ _ heq => BitVec.eq_of_toNat_eq heq
  have hsub : ids.map BitVec.toNat ⊆ List.range n := by
    simpa [List.subset_def] using h
  have hle := (List.subperm_of_subset hmap hsub).length_le
  simp at hle
  omega

theorem inRange_iff
    (hall : ∀ i id, ids[i]? = some id → s.gs_base id = some i ∧ s.core_id i = id.toNat) :
    InRange ids s ↔ ∀ id ∈ ids, id.toNat < s.logical_processor_cnt := by
  refine forall₂_congr fun id hid => ?_
  obtain ⟨i, hi⟩ := List.mem_iff_getElem?.mp hid
  obtain ⟨hgs, hcore⟩ := hall i id hi
  constructor
  · rintro ⟨slot, hslot, -, hlt⟩
    cases hgs.symm.trans hslot
    rwa [hcore] at hlt
  · intro hlt
    refine ⟨i, hgs, fun id' hid' hslot => ?_, hcore ▸ hlt⟩
    obtain ⟨j, hj⟩ := List.mem_iff_getElem?.mp hid'
    cases hslot.symm.trans (hall j id' hj).1
    exact Option.some.inj (hj.symm.trans hi)

/-- When `boot_aps` has returned the last processor has a slot, whether it has counted
itself in `logical_processor_cnt` or not. -/
theorem Chained.all_placed (h : Chained ids bsp 0 s) (hret : s.boot = .returned) :
    s.logical_processor_cnt ≤ ids.length ∧
      ∀ i id, ids[i]? = some id → s.gs_base id = some i ∧ s.core_id i = id.toNat := by
  have hup := h.returned rfl hret
  have hpos : 0 < s.logical_processor_cnt := by
    by_cases hphase : s.phase = .chain
    · exact ((h.chain hphase).resolve_right (by simp [hret])).2
    · exact h.first rfl hphase
  by_cases hphase : s.phase = .counted
  · have hcnt := h.counted rfl hphase
    refine ⟨by omega, fun i id hi => ?_⟩
    have hlt := (List.getElem?_eq_some_iff.mp hi).1
    have hle : i < s.logical_processor_cnt ∨ i = s.logical_processor_cnt := by omega
    exact ⟨h.slots i id hi (hle.imp_right fun heq => ⟨heq, hphase⟩),
      h.cores i id hi (hle.imp_right fun heq => ⟨heq, by simp [hphase]⟩)⟩
  · have hcnt := h.up rfl hpos hphase
    refine ⟨by omega, fun i id hi => ?_⟩
    have hlt : i < s.logical_processor_cnt := by
      rw [← hcnt, hup]
      exact (List.getElem?_eq_some_iff.mp hi).1
    exact ⟨h.slots i id hi (.inl hlt), h.cores i id hi (.inl hlt)⟩

end Apic
