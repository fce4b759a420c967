import Dufay.Framework.Placement
import Dufay.Slab.Cache

/-! # The magazine layer

Every magazine is in exactly one place: loaded on a CPU, the previous
one of a CPU, on a list of the depot, or with a thread that has taken it
off the depot or has just allocated it. The count that is kept for its
place is the number of rounds in it (`MagOk`), although no count is kept
in the magazine itself.
-/

open Lts Placement Size Function

namespace Slab

open Magazines

open Store

/-! ### Places of magazines -/

section places
variable {ι τ : Type*}

/-- The magazine that a thread has in its hands. -/
def Pc.mag : Pc ι → Option Nat
  | .allocSwap _ mag | .freeSwap _ _ mag | .freePush _ _ mag => some mag
  | .freeRelock _ _ new_mag => new_mag
  | .idle | .allocLock _ | .allocLoop _ | .allocSlab | .allocCreate | .allocInsert _
  | .freeLock _ _ | .freeLoop _ _ | .freeAlloc _ _ | .freeSlab _ => none

def Pc.magRounds (M : Nat) : Pc ι → Nat
  | .allocSwap _ _ => M
  | _ => 0

/-- How many rounds the magazines on a list of the depot have. -/
def Maglist.rounds (M : Nat) : Maglist → Nat
  | .empty_magazines => 0
  | .full_magazines => M

/-- The places with one magazine. -/
inductive MagSlot (ι τ : Type*) where
  | loaded (cpu : ι)
  | previous (cpu : ι)
  | flight (t : τ)
  deriving DecidableEq

section
variable (mg : Magazines ι) (pc : τ → Pc ι)

/-- Where the magazines are. -/
def shelf : Store (MagSlot ι τ) Maglist Nat where
  slot
    | .loaded c => (mg.cpu c).loaded
    | .previous c => (mg.cpu c).previous
    | .flight t => (pc t).mag
  stack := mg.depot

@[simp] theorem shelf_loaded (c : ι) :
    (shelf mg pc).slot (.loaded c) = (mg.cpu c).loaded := rfl

@[simp] theorem shelf_previous (c : ι) :
    (shelf mg pc).slot (.previous c) = (mg.cpu c).previous := rfl

@[simp] theorem shelf_flight (t : τ) :
    (shelf mg pc).slot (.flight t) = (pc t).mag := rfl

@[simp] theorem shelf_stack (list : Maglist) :
    (shelf mg pc).stack list = mg.depot list := rfl

end

/-- The counters of a CPU are those of its magazines. `M` is the size of a
magazine. -/
structure CpuOk (M : Nat) (filled : Nat → Nat) (cpu : KmemCpu) : Prop where
  loaded : ∀ mag, cpu.loaded = some mag → cpu.rounds = filled mag ∧ filled mag ≤ M
  previous : ∀ mag, cpu.previous = some mag →
    cpu.rounds_previous = filled mag ∧ (filled mag = 0 ∨ filled mag = M)
  loaded_none : cpu.loaded = none → cpu.rounds = -1 ∧ cpu.previous = none
  previous_none : cpu.previous = none → cpu.rounds_previous = -1

/-- Every magazine is in one place, and has as many rounds as are counted
for it there. -/
structure MagOk (M : Nat) (mg : Magazines ι) (pc : τ → Pc ι) : Prop where
  shelf : (shelf mg pc).Ok (· ∈ mg.known)
  cpu : ∀ c, CpuOk M mg.filled (mg.cpu c)
  flight : ∀ t mag, (pc t).mag = some mag → mg.filled mag = (pc t).magRounds M
  depot : ∀ list, ∀ mag ∈ mg.depot list, mg.filled mag = list.rounds M
  unknown : ∀ mag, mag ∉ mg.known → mg.filled mag = 0

end places

/-! ### Counts -/

theorem toSize_natCast (hn : n < W) : toSize n = n := by
  rw [toSize, Int.emod_eq_of_lt (by omega) (by omega), Int.toNat_natCast]

theorem toSize_neg_one : toSize (-1) = W - 1 := by
  have hpos := W_pos
  have heq : (-1 : Int) = (W - 1) + W * (-1) := by omega
  rw [toSize, heq, Int.add_mul_emod_self_left, Int.emod_eq_of_lt (by omega) (by omega)]
  omega

section counts
variable {M : Nat} {filled : Nat → Nat} {cpu : KmemCpu}

theorem CpuOk.previous_of_nonneg (h : CpuOk M filled cpu) (hr : 0 ≤ cpu.rounds_previous) :
    ∃ mag, cpu.previous = some mag := by
  cases hp : cpu.previous with
  | some mag => exact ⟨mag, rfl⟩
  | none =>
    have hneg := h.previous_none hp
    omega

theorem CpuOk.toSize_lt_iff (h : CpuOk M filled cpu) (hM : M < W) :
    toSize cpu.rounds < M ↔ ∃ mag, cpu.loaded = some mag ∧ filled mag < M := by
  cases hl : cpu.loaded with
  | none =>
    rw [(h.loaded_none hl).1, toSize_neg_one]
    constructor
    · intro hlt
      omega
    · rintro ⟨mag, hmag, -⟩
      cases hmag
  | some mag =>
    obtain ⟨hr, hle⟩ := h.loaded mag hl
    rw [hr, toSize_natCast (by omega)]
    constructor
    · exact fun hlt => ⟨mag, rfl, hlt⟩
    · rintro ⟨mag', hmag, hlt⟩
      cases hmag
      exact hlt

theorem CpuOk.reload (h : CpuOk M filled cpu) {rounds : Int}
    (hr : rounds = filled mag) (hle : filled mag ≤ M)
    (hl : ∀ mag', cpu.loaded = some mag' → filled mag' = 0 ∨ filled mag' = M) :
    CpuOk M filled (cpu_reload cpu (some mag) rounds) where
  loaded := fun mag' hmag => by
    cases hmag
    exact ⟨hr, hle⟩
  previous := fun mag' hmag => ⟨(h.loaded mag' hmag).1, hl mag' hmag⟩
  loaded_none := fun hnone => by cases hnone
  previous_none := fun hnone => (h.loaded_none hnone).1

end counts

/-! ### Moves -/

variable {ι τ : Type*} [DecidableEq τ] {M : Nat} {mg mg' : Magazines ι} {pc : τ → Pc ι}

theorem MagOk.goto (h : MagOk M mg pc) (hmag : pc'.mag = (pc t).mag)
    (hrounds : pc'.magRounds M = (pc t).magRounds M) : MagOk M mg (update pc t pc') := by
  have hsame : ∀ t', (update pc t pc' t').mag = (pc t').mag ∧
      (update pc t pc' t').magRounds M = (pc t').magRounds M := by
    intro t'
    by_cases ht : t' = t
    · subst ht
      rw [update_self]
      exact ⟨hmag, hrounds⟩
    · rw [update_of_ne ht]
      exact ⟨rfl, rfl⟩
  refine ⟨?_, h.cpu, ?_, h.depot, h.unknown⟩
  · apply h.shelf.congr
    · intro s
      cases s with
      | loaded c => rfl
      | previous c => rfl
      | flight t' => exact (hsame t').1
    · intro list
      rfl
  · intro t' mag hm
    rw [(hsame t').1] at hm
    rw [(hsame t').2]
    exact h.flight t' mag hm

variable [DecidableEq ι]

section

variable (h : MagOk M mg pc)

include h

omit [DecidableEq τ] in
theorem MagOk.cpu_update {cpu : KmemCpu} (hcpu : CpuOk M mg.filled cpu) (c' : ι) :
    CpuOk M mg.filled (update mg.cpu c cpu c') := by
  rw [update_apply]
  split
  · exact hcpu
  · exact h.cpu c'

omit [DecidableEq ι] in
theorem MagOk.flight_update (hmag : pc'.mag = none)
    (t' : τ) (m : Nat) (hm : (update pc t pc' t').mag = some m) :
    mg.filled m = (update pc t pc' t').magRounds M := by
  by_cases hc : t' = t
  · subst hc
    rw [update_self, hmag] at hm
    cases hm
  · rw [update_of_ne hc] at hm ⊢
    exact h.flight t' m hm

theorem MagOk.exchange {t : τ} (ht : (pc t).mag = none) (hp : (mg.cpu c).previous = some mag)
    (hl : ∀ mag', (mg.cpu c).loaded = some mag' → mg.filled mag' = 0 ∨ mg.filled mag' = M) :
    MagOk M (mg.reload c (mg.cpu c).previous (mg.cpu c).rounds_previous) pc := by
  obtain ⟨hr, hfull⟩ := (h.cpu c).previous mag hp
  have hcpu : CpuOk M mg.filled (cpu_reload (mg.cpu c) (mg.cpu c).previous
      (mg.cpu c).rounds_previous) := by
    rw [hp]
    exact (h.cpu c).reload hr (by omega) hl
  refine ⟨?_, h.cpu_update hcpu, h.flight, h.depot, h.unknown⟩
  -- through the hands of a thread that has them free
  have hmoves := ((h.shelf.move (.previous c) (.flight t) (by simp) ht).move (.loaded c)
    (.previous c) (by simp) (by simp [move])).move (.flight t) (.loaded c) (by simp)
    (by simp [move])
  apply hmoves.congr
  · intro s
    cases s with
    | loaded c' =>
      by_cases hc : c' = c
      · subst hc
        simp [reload, cpu_reload, move]
      · simp [reload, move, hc]
    | previous c' =>
      by_cases hc : c' = c
      · subst hc
        simp [reload, cpu_reload, move]
      · simp [reload, move, hc]
    | flight t' =>
      by_cases hc : t' = t
      · subst hc
        simp [move, ht]
      · simp [move, hc]
  · intro list
    rfl

theorem MagOk.alloc_from_depot (pc' : Pc ι)
    (ht : (pc t).mag = none) (halloc : mg.alloc_from_depot list = some (mag, mg'))
    (hmag : pc'.mag = some mag) (hrounds : pc'.magRounds M = list.rounds M) :
    MagOk M mg' (update pc t pc') := by
  unfold Magazines.alloc_from_depot at halloc
  split at halloc
  · next rest hdepot =>
    cases halloc
    have hmem : mag ∈ mg.depot list := by simp [hdepot]
    refine ⟨?_, h.cpu, ?_, ?_, h.unknown⟩
    · apply (h.shelf.pop list (.flight t) ht).congr
      · intro s
        cases s with
        | loaded c => simp [pop]
        | previous c => simp [pop]
        | flight t' =>
          by_cases hc : t' = t
          · subst hc
            simp [pop, hdepot, hmag]
          · simp [pop, hc]
      · intro list'
        by_cases hc : list' = list
        · subst hc
          simp [pop, hdepot]
        · simp [pop, hc]
    · intro t' m hm
      by_cases hc : t' = t
      · subst hc
        rw [update_self] at hm ⊢
        rw [hmag] at hm
        cases hm
        rw [hrounds]
        exact h.depot list mag hmem
      · rw [update_of_ne hc] at hm ⊢
        exact h.flight t' m hm
    · intro list' m hm
      apply h.depot list' m
      by_cases hc : list' = list
      · subst hc
        rw [hdepot]
        simp only [update_self] at hm
        exact List.mem_cons_of_mem _ hm
      · simpa [hc] using hm
  · cases halloc

theorem MagOk.new_mag (ht : (pc t).mag = none) (hnew : mag ∉ mg.known) (hmag : pc'.mag = some mag)
    (hrounds : pc'.magRounds M = 0) :
    MagOk M { mg with known := insert mag mg.known } (update pc t pc') := by
  refine ⟨?_, h.cpu, ?_, h.depot, ?_⟩
  · have hput := h.shelf.put (.flight t) ht hnew
    have hknown : ∀ m, m ∈ insert mag mg.known ↔ m ∈ mg.known ∨ m = mag :=
      fun m => Finset.mem_insert.trans or_comm
    refine Ok.congr ⟨hput.part.congr hknown fun _ _ => .rfl, hput.nodup⟩ ?_ ?_
    · intro s
      cases s with
      | loaded c => simp [put]
      | previous c => simp [put]
      | flight t' =>
        by_cases hc : t' = t
        · subst hc
          simp [put, hmag]
        · simp [put, hc]
    · intro list
      rfl
  · intro t' m hm
    by_cases hc : t' = t
    · subst hc
      rw [update_self] at hm ⊢
      rw [hmag] at hm
      cases hm
      rw [hrounds]
      exact h.unknown mag hnew
    · rw [update_of_ne hc] at hm ⊢
      exact h.flight t' m hm
  · intro m hm
    exact h.unknown m fun hmem => hm (Finset.mem_insert_of_mem hmem)

theorem MagOk.free_to_depot
    (ht : (pc t).mag = some mag) (hfilled : mg.filled mag = list.rounds M) (hmag : pc'.mag = none) :
    MagOk M (mg.free_to_depot mag list) (update pc t pc') := by
  refine ⟨?_, h.cpu, ?_, ?_, h.unknown⟩
  · apply (h.shelf.push (.flight t) list).congr
    · intro s
      cases s with
      | loaded c => simp [push, Magazines.free_to_depot]
      | previous c => simp [push, Magazines.free_to_depot]
      | flight t' =>
        by_cases hc : t' = t
        · subst hc
          simp [push, hmag]
        · simp [push, hc]
    · intro list'
      by_cases hc : list' = list
      · subst hc
        simp [push, Magazines.free_to_depot, ht]
      · simp [push, Magazines.free_to_depot, hc]
  · intro t' m hm
    exact h.flight_update hmag t' m hm
  · intro list' m hm
    by_cases hc : list' = list
    · subst hc
      simp only [Magazines.free_to_depot, update_self] at hm
      rcases List.mem_cons.mp hm with rfl | hm
      · exact hfilled
      · exact h.depot list' m hm
    · simp only [Magazines.free_to_depot, update_of_ne hc] at hm
      exact h.depot list' m hm

end

section
variable (mg : Magazines ι) (c : ι) (list : Maglist)

omit [DecidableEq τ] [DecidableEq ι] in
theorem Magazines.freePrevious_eq :
    (mg.freePrevious c list).cpu = mg.cpu ∧ (mg.freePrevious c list).filled = mg.filled ∧
      (mg.freePrevious c list).known = mg.known ∧
      (mg.freePrevious c list).depot =
        update mg.depot list ((mg.cpu c).previous.toList ++ mg.depot list) := by
  unfold freePrevious
  split
  · next heq => simp [free_to_depot, heq]
  · next heq => simp [heq]

omit [DecidableEq τ] [DecidableEq ι] in
theorem Magazines.freePrevious_rounds : (mg.freePrevious c list).rounds = mg.rounds := by
  unfold freePrevious
  split <;> rfl

omit [DecidableEq τ] in
theorem Magazines.swap_cpu (mag : Option Nat)
    (rounds : Int) : ((mg.freePrevious c list).reload c mag rounds).cpu =
      update mg.cpu c (cpu_reload (mg.cpu c) mag rounds) := by
  rw [reload, (mg.freePrevious_eq c list).1]

end

theorem MagOk.swap (h : MagOk M mg pc) {t : τ} (pc' : Pc ι) (list : Maglist)
    (rounds : Int) (ht : (pc t).mag = some mag) (hr : rounds = mg.filled mag)
    (hle : mg.filled mag ≤ M)
    (hp : ∀ mag', (mg.cpu c).previous = some mag' → mg.filled mag' = list.rounds M)
    (hl : ∀ mag', (mg.cpu c).loaded = some mag' → mg.filled mag' = 0 ∨ mg.filled mag' = M)
    (hmag : pc'.mag = none) :
    MagOk M ((mg.freePrevious c list).reload c (some mag) rounds) (update pc t pc') := by
  have hcpu := (h.cpu c).reload hr hle hl
  obtain ⟨hcpus, hfilled, hknown, hdepot⟩ := mg.freePrevious_eq c list
  have hreload := mg.swap_cpu c list (some mag) rounds
  refine ⟨?_, ?_, ?_, ?_, ?_⟩
  · have hmoves := ((h.shelf.push (.previous c) list).move (.loaded c) (.previous c) (by simp)
      (by simp [push])).move (.flight t) (.loaded c) (by simp)
      (by simp [move, push])
    refine Ok.congr ⟨hmoves.part.congr (fun m => ?_) fun _ _ => .rfl, hmoves.nodup⟩ ?_ ?_
    · rw [reload, hknown]
    · intro s
      cases s with
      | loaded c' =>
        rw [shelf_loaded, hreload]
        by_cases hc : c' = c
        · subst hc
          simp [cpu_reload, move, push, ht]
        · simp [move, push, hc]
      | previous c' =>
        rw [shelf_previous, hreload]
        by_cases hc : c' = c
        · subst hc
          simp [cpu_reload, move, push]
        · simp [move, push, hc]
      | flight t' =>
        by_cases hc : t' = t
        · subst hc
          simp [move, hmag]
        · simp [move, push, hc]
    · intro list'
      rw [shelf_stack, reload, hdepot]
      rfl
  · intro c'
    rw [hreload, reload, hfilled]
    exact h.cpu_update hcpu c'
  · intro t' m hm
    rw [reload, hfilled]
    exact h.flight_update hmag t' m hm
  · intro list' m hm
    simp only [reload, hfilled, hdepot] at hm ⊢
    by_cases hc : list' = list
    · subst hc
      rw [update_self, List.mem_append, Option.mem_toList] at hm
      rcases hm with hm | hm
      · exact hp m hm
      · exact h.depot list' m hm
    · rw [update_of_ne hc] at hm
      exact h.depot list' m hm
  · intro m hm
    rw [reload, hknown] at hm
    rw [reload, hfilled]
    exact h.unknown m hm

omit [DecidableEq τ] in
theorem MagOk.setRounds (h : MagOk M mg pc) (hl : (mg.cpu c).loaded = some mag) (hn : n ≤ M)
    (hcpus : mg'.cpu = update mg.cpu c { mg.cpu c with rounds := n })
    (hfilled : mg'.filled = update mg.filled mag n)
    (hdepot : mg'.depot = mg.depot) (hknown : mg'.known = mg.known) : MagOk M mg' pc := by
  -- no other place has this magazine
  have hother : ∀ {a m}, (Slab.shelf mg pc).Holds m a → a ≠ .slot (.loaded c) →
      mg'.filled m = mg.filled m := by
    intro a m ha hne
    rw [hfilled]
    apply update_of_ne
    rintro rfl
    exact hne (h.shelf.part.unique m a (.slot (.loaded c)) ha hl)
  have hself : mg'.cpu c = { mg.cpu c with rounds := n } := by rw [hcpus, update_self]
  have hcpu : ∀ {c'}, c' ≠ c → mg'.cpu c' = mg.cpu c' := by
    intro c' hc
    rw [hcpus, update_of_ne hc]
  refine ⟨?_, ?_, ?_, ?_, ?_⟩
  · rw [hknown]
    apply h.shelf.congr
    · intro s
      cases s with
      | loaded c' =>
        by_cases hc : c' = c
        · subst hc
          simp [hself]
        · simp [hcpu hc]
      | previous c' =>
        by_cases hc : c' = c
        · subst hc
          simp [hself]
        · simp [hcpu hc]
      | flight t => rfl
    · intro list
      simp [hdepot]
  · intro c'
    have hprev : ∀ m, (mg.cpu c').previous = some m → mg'.filled m = mg.filled m :=
      fun m hm => hother (a := .slot (.previous c')) hm (by simp)
    by_cases hc : c' = c
    · subst hc
      rw [hself]
      refine ⟨?_, ?_, ?_, (h.cpu c').previous_none⟩
      · intro m hm
        rw [hl] at hm
        cases hm
        rw [hfilled, update_self]
        exact ⟨rfl, hn⟩
      · intro m hm
        rw [hprev m hm]
        exact (h.cpu c').previous m hm
      · intro hnone
        rw [hl] at hnone
        cases hnone
    · rw [hcpu hc]
      refine ⟨?_, ?_, (h.cpu c').loaded_none, (h.cpu c').previous_none⟩
      · intro m hm
        rw [hother (a := .slot (.loaded c')) hm (by simpa using hc)]
        exact (h.cpu c').loaded m hm
      · intro m hm
        rw [hprev m hm]
        exact (h.cpu c').previous m hm
  · intro t m hm
    rw [hother (a := .slot (.flight t)) hm (by simp)]
    exact h.flight t m hm
  · intro list m hm
    rw [hdepot] at hm
    rw [hother (a := .stack list) hm (by simp)]
    exact h.depot list m hm
  · intro m hm
    rw [hknown] at hm
    have hne : m ≠ mag := by
      rintro rfl
      exact hm (h.shelf.part.sound m (.slot (.loaded c)) hl)
    rw [hfilled, update_of_ne hne]
    exact h.unknown m hm

end Slab
