import Dufay.Slab.Construct
import Dufay.Slab.Magazines

/-! # No buffer is lost or handed out twice

Every buffer that a slab was cut into is in exactly one place: with its
user, in a call that frees it, in one round of one magazine, or on the
freelist of its slab. Each step moves at most one buffer, and
`kmem_cache_alloc` takes what it returns from a magazine or a freelist.
-/

open Lts Tailq Memory Placement Size Function
open Pmm (PAGE_SIZE)

namespace Slab

/-! ### Places of buffers -/

section places
variable {ι τ : Type*}

/-- The buffer that a call is about to free. -/
def Pc.buf : Pc ι → Option Nat
  | .freeLock _ ptr | .freeLoop _ ptr | .freeSwap _ ptr _ | .freeAlloc _ ptr
  | .freeRelock _ ptr _ | .freePush _ ptr _ | .freeSlab ptr => some ptr
  | .idle | .allocLock _ | .allocLoop _ | .allocSwap _ _ | .allocSlab | .allocCreate
  | .allocInsert _ => none

/-- The slab that a call has created and not inserted yet. -/
def Pc.slab : Pc ι → Option Nat
  | .allocInsert slab => some slab
  | _ => none

/-- What a thread has in its hands: a magazine with its rounds, a buffer, a
slab. -/
def Pc.hands (M : Nat) (pc : Pc ι) : (Option Nat × Nat) × Option Nat × Option Nat :=
  ((pc.mag, pc.magRounds M), pc.buf, pc.slab)

/-- The CPU whose lock a thread holds. -/
def Pc.holding : Pc ι → Option ι
  | .allocLoop c | .allocSwap c _ | .freeLoop c _ | .freeSwap c _ _ | .freePush c _ _ => some c
  | .idle | .allocLock _ | .allocSlab | .allocCreate | .allocInsert _ | .freeLock _ _
  | .freeAlloc _ _ | .freeRelock _ _ _ | .freeSlab _ => none

inductive Place (τ : Type*) where
  /-- With its user. -/
  | held
  /-- In a call of `kmem_cache_free`. -/
  | freeing (t : τ)
  /-- In a round of a magazine. -/
  | round (mag i : Nat)
  /-- On the freelist of a slab. -/
  | freelist (slab : Nat)

/-- `b` is in a place, read off the state. -/
def BufferAt (cp : Cache) (s : State ι τ) (b : Nat) : Place τ → Prop
  | .held => b ∈ s.held
  | .freeing t => (s.pc t).buf = some b
  | .round mag i => i < s.magazines.filled mag ∧ s.magazines.rounds mag i = b
  | .freelist slab =>
    slab ∈ s.slabs.pages ∧ Reach s.slabs.mem (s.slabs.buflist slab) (b + cp.offset)

/-- Returned by `kmem_cache_alloc`, and not yet freed. -/
def Outstanding (s : State ι τ) (b : Nat) : Prop := b ∈ s.held ∨ ∃ t, (s.pc t).buf = some b

/-- The same with the lists of free buffers. -/
def At (s : State ι τ) (fl : Nat → List Nat) (b : Nat) : Place τ → Prop
  | .held => b ∈ s.held
  | .freeing t => (s.pc t).buf = some b
  | .round mag i => i < s.magazines.filled mag ∧ s.magazines.rounds mag i = b
  | .freelist slab => slab ∈ s.slabs.pages ∧ b ∈ fl slab

/-! ### The invariant -/

/-- A thread that holds the lock of a CPU is its holder. -/
def LockOk (lock : ι → Option τ) (pc : τ → Pc ι) : Prop :=
  ∀ t c, (pc t).holding = some c → lock c = some t

/-- What a thread has found out about its CPU when it visited the depot. -/
def SwapOk (M : Nat) (cpu : ι → KmemCpu) : Pc ι → Prop
  | .allocSwap c _ => (cpu c).rounds ≤ 0 ∧ (cpu c).rounds_previous ≤ 0
  | .freeSwap c _ _ => ¬ toSize (cpu c).rounds < M ∧ (cpu c).rounds_previous ≠ 0
  | _ => True

/-- A slab that is being created is in no list, and with one thread. -/
structure InsertOk (pages : Finset Nat) (q : SlabList → List Nat) (pc : τ → Pc ι) : Prop where
  detached : ∀ t slab, (pc t).slab = some slab → slab ∈ pages ∧ Detached q slab
  unique : ∀ t t' slab, (pc t).slab = some slab → (pc t').slab = some slab → t = t'

/-- What does not depend on how the slabs are kept in memory: the buffers of
`dom`, and no others, are in exactly one place. -/
structure Core (M : Nat) (s : State ι τ) (fl : Nat → List Nat) (q : SlabList → List Nat)
    (dom : Nat → Prop) : Prop where
  lock : LockOk s.lock s.pc
  mag : MagOk M s.magazines s.pc
  swap : ∀ t, SwapOk M s.magazines.cpu (s.pc t)
  inserting : InsertOk s.slabs.pages q s.pc
  part : Partition dom (At s fl)

structure Ok (cp : Cache) (s : State ι τ) (fl : Nat → List Nat) (q : SlabList → List Nat) :
    Prop where
  lock : LockOk s.lock s.pc
  mag : MagOk cp.magtype.rounds s.magazines s.pc
  swap : ∀ t, SwapOk cp.magtype.rounds s.magazines.cpu (s.pc t)
  slabs : s.slabs.Ok cp fl q
  inserting : InsertOk s.slabs.pages q s.pc
  part : Partition (s.slabs.Carved cp) (At s fl)

theorem Ok.core (h : Ok cp s fl q) : Core cp.magtype.rounds s fl q (s.slabs.Carved cp) :=
  ⟨h.lock, h.mag, h.swap, h.inserting, h.part⟩

theorem Core.ok
    (h : Core cp.magtype.rounds s fl q (s.slabs.Carved cp)) (hslabs : s.slabs.Ok cp fl q) :
    Ok cp s fl q :=
  ⟨h.lock, h.mag, h.swap, hslabs, h.inserting, h.part⟩

end places

variable {ι τ : Type*} [DecidableEq τ]
variable {cp : Cache} {s s' : State ι τ} {fl : Nat → List Nat} {q : SlabList → List Nat}
variable {lock : ι → Option τ} {pc : τ → Pc ι} {M : Nat} {dom : Nat → Prop}

/-! ### Locks -/

section locks

variable {t : τ} {pc' : Pc ι}

theorem LockOk.goto (h : LockOk lock pc) (hpc : pc'.holding = none ∨ pc'.holding = (pc t).holding) :
    LockOk lock (update pc t pc') := by
  intro t' c hc
  by_cases ht : t' = t
  · subst ht
    rw [update_self] at hc
    rcases hpc with hnone | hsame
    · rw [hnone] at hc
      cases hc
    · exact h t' c (hsame ▸ hc)
  · rw [update_of_ne ht] at hc
    exact h t' c hc

theorem LockOk.acquire [DecidableEq ι] (h : LockOk lock pc) (hfree : lock c = none)
    (hpc : pc'.holding = some c) : LockOk (update lock c (some t)) (update pc t pc') := by
  intro t' c' hc
  by_cases ht : t' = t
  · subst ht
    rw [update_self, hpc] at hc
    cases hc
    exact update_self _ _ _
  · rw [update_of_ne ht] at hc
    have hlock := h t' c' hc
    have hne : c' ≠ c := by
      rintro rfl
      rw [hfree] at hlock
      cases hlock
    rw [update_of_ne hne]
    exact hlock

theorem LockOk.release [DecidableEq ι] (h : LockOk lock pc) {c : ι} (ht : (pc t).holding = some c)
    (hpc : pc'.holding = none) : LockOk (update lock c none) (update pc t pc') := by
  intro t' c' hc
  by_cases htt : t' = t
  · subst htt
    rw [update_self, hpc] at hc
    cases hc
  · rw [update_of_ne htt] at hc
    have hlock := h t' c' hc
    have hne : c' ≠ c := by
      rintro rfl
      rw [h t c' ht] at hlock
      cases hlock
      exact htt rfl
    rw [update_of_ne hne]
    exact hlock

omit [DecidableEq τ] in
theorem SwapOk.congr {cpu : ι → KmemCpu} {pc : Pc ι} (h : SwapOk M cpu pc)
    (hcpu : ∀ c, pc.holding = some c → cpu' c = cpu c) : SwapOk M cpu' pc := by
  cases pc with
  | allocSwap c mag =>
    simp only [SwapOk, hcpu c rfl]
    exact h
  | freeSwap c ptr mag =>
    simp only [SwapOk, hcpu c rfl]
    exact h
  | _ => trivial

theorem LockOk.swap (hlock : LockOk lock pc) {M : Nat} {cpu : ι → KmemCpu}
    (h : ∀ t, SwapOk M cpu (pc t)) (ht : (pc t).holding = some c)
    (hcpu : ∀ c', c' ≠ c → cpu' c' = cpu c') (hpc : SwapOk M cpu' pc') (t' : τ) :
    SwapOk M cpu' (update pc t pc' t') := by
  by_cases htt : t' = t
  · subst htt
    rw [update_self]
    exact hpc
  · rw [update_of_ne htt]
    apply (h t').congr
    intro c' hc'
    apply hcpu
    rintro rfl
    have hsame := (hlock t' c' hc').symm.trans (hlock t c' ht)
    cases hsame
    exact htt rfl

theorem swap_goto (h : ∀ t, SwapOk M cpu (pc t))
    (hpc : SwapOk M cpu pc') (t' : τ) : SwapOk M cpu (update pc t pc' t') := by
  rw [update_apply]
  split
  · exact hpc
  · exact h t'

end locks

/-! ### Steps that move no buffer -/

section still

theorem update_keeps {β : Type*} (f : Pc ι → β) (h : f pc' = f (pc t))
    (t' : τ) : f (update pc t pc' t') = f (pc t') := by
  by_cases htt : t' = t
  · subst htt
    rw [update_self]
    exact h
  · rw [update_of_ne htt]

omit [DecidableEq τ] in
theorem InsertOk.congr {pc' : τ → Pc ι} (h : InsertOk pages q pc)
    (hslab : ∀ t, (pc' t).slab = (pc t).slab) : InsertOk pages q pc' where
  detached := fun t slab ht => h.detached t slab (hslab t ▸ ht)
  unique := fun t t' slab ht ht' => h.unique t t' slab (hslab t ▸ ht) (hslab t' ▸ ht')

omit [DecidableEq τ] in
theorem Core.still (h : Core M s fl q dom) (hslabs : s'.slabs = s.slabs) (hheld : s'.held = s.held)
    (hfilled : s'.magazines.filled = s.magazines.filled)
    (hrounds : s'.magazines.rounds = s.magazines.rounds)
    (hbuf : ∀ t, (s'.pc t).buf = (s.pc t).buf) (hslab : ∀ t, (s'.pc t).slab = (s.pc t).slab)
    (hlock : LockOk s'.lock s'.pc) (hmag : MagOk M s'.magazines s'.pc)
    (hswap : ∀ t, SwapOk M s'.magazines.cpu (s'.pc t)) : Core M s' fl q dom where
  lock := hlock
  mag := hmag
  swap := hswap
  inserting := hslabs ▸ h.inserting.congr hslab
  part := by
    refine h.part.congr (fun b => .rfl) fun b a => ?_
    cases a with
    | held => simp only [At, hheld]
    | freeing t => simp only [At, hbuf]
    | round mag i => simp only [At, hfilled, hrounds]
    | freelist slab => simp only [At, hslabs]

/-- What the magazine layer leaves alone: the slabs, and who creates one. -/
structure SameSlabs (s s' : State ι τ) : Prop where
  slabs : s'.slabs = s.slabs
  slab : ∀ t, (s'.pc t).slab = (s.pc t).slab

theorem SameSlabs.goto {t : τ} {pc' : Pc ι} (hpc : s'.pc = update s.pc t pc')
    (hslab : pc'.slab = (s.pc t).slab) (hslabs : s'.slabs = s.slabs) : SameSlabs s s' := by
  refine ⟨hslabs, ?_⟩
  rw [hpc]
  exact update_keeps Pc.slab hslab

section

variable (h : Core M s fl q dom) {t : τ} {pc' : Pc ι} {lock' : ι → Option τ}
  (hhands : pc'.hands M = (s.pc t).hands M) (hlock : LockOk lock' (update s.pc t pc'))
  (hswap : SwapOk M s.magazines.cpu pc')

include h hhands hlock hswap

theorem Core.goto : Core M { s with lock := lock', pc := update s.pc t pc' } fl q dom := by
  obtain ⟨hmags, hrest⟩ := Prod.mk.inj hhands
  obtain ⟨hmag, hrounds⟩ := Prod.mk.inj hmags
  obtain ⟨hbuf, hslab⟩ := Prod.mk.inj hrest
  exact h.still rfl rfl rfl rfl (update_keeps Pc.buf hbuf) (update_keeps Pc.slab hslab) hlock
    (h.mag.goto hmag hrounds) (swap_goto h.swap hswap)

theorem Core.advance : Core M { s with lock := lock', pc := update s.pc t pc' } fl q dom ∧
      SameSlabs s { s with lock := lock', pc := update s.pc t pc' } :=
  ⟨h.goto hhands hlock hswap, .goto rfl (congrArg (fun hands => hands.2.2) hhands) rfl⟩

end

end still

/-! ### The loops -/

theorem Magazines.alloc_from_depot_eq {mg mg' : Magazines ι}
    (h : mg.alloc_from_depot list = some (mag, mg')) :
    mg'.cpu = mg.cpu ∧ mg'.filled = mg.filled ∧ mg'.rounds = mg.rounds := by
  unfold Magazines.alloc_from_depot at h
  split at h
  · cases h
    exact ⟨rfl, rfl, rfl⟩
  · cases h

section loops
variable [DecidableEq ι] {t : τ} {c : ι}

section

variable (h : Core M s fl q dom)

include h

theorem Core.takeRound (ht : s.pc t = .allocLoop c) {mag : Nat}
    (hl : (s.magazines.cpu c).loaded = some mag) (hr : 0 < (s.magazines.cpu c).rounds) :
    At s fl (s.magazines.lastRound c mag) (.round mag (s.magazines.filled mag - 1)) ∧
      Core M (((s.setMagazines (s.magazines.takeRound c mag)).spinrelease c).give t
        (s.magazines.lastRound c mag)) fl q dom := by
  obtain ⟨hrounds, hle⟩ := (h.mag.cpu c).loaded mag hl
  have hlast : s.magazines.lastRound c mag =
      s.magazines.rounds mag (s.magazines.filled mag - 1) := by
    rw [Magazines.lastRound, hrounds]
    congr 1
    omega
  have hat : At s fl (s.magazines.lastRound c mag) (.round mag (s.magazines.filled mag - 1)) :=
    ⟨by omega, hlast.symm⟩
  have hcount : (s.magazines.cpu c).rounds - 1 = ((s.magazines.filled mag - 1 : Nat) : Int) := by
    omega
  have hhold : (s.pc t).holding = some c := by rw [ht]; rfl
  have hslab : (Pc.idle : Pc ι).slab = (s.pc t).slab := by rw [ht]; rfl
  have hbuf : (Pc.idle : Pc ι).buf = (s.pc t).buf := by rw [ht]; rfl
  refine ⟨hat, ?_⟩
  have hmag : MagOk M (s.magazines.takeRound c mag) s.pc :=
    h.mag.setRounds hl (n := s.magazines.filled mag - 1) (by omega)
      (by rw [Magazines.takeRound, hcount]) rfl rfl rfl
  refine
    { lock := h.lock.release hhold rfl
      mag := hmag.goto (by rw [ht]; rfl) (by rw [ht]; rfl)
      swap := h.lock.swap h.swap hhold (fun c' hc => update_of_ne hc _ _) trivial
      inserting := h.inserting.congr (update_keeps Pc.slab hslab)
      part := ?_ }
  refine h.part.move (.round mag (s.magazines.filled mag - 1)) .held hat
    (Finset.mem_insert_self _ _) ?_ fun x a hx => ?_
  · show ¬ (_ < update s.magazines.filled mag _ mag ∧ _)
    rw [update_self]
    omega
  · cases a with
    | held =>
      have hne : x ≠ s.magazines.lastRound c mag := fun heq => (hx heq).2 rfl
      exact Finset.mem_insert.trans (or_iff_right hne)
    | freeing t' => exact iff_of_eq (congrArg (· = some x) (update_keeps Pc.buf hbuf t'))
    | round m i =>
      show i < update s.magazines.filled mag (s.magazines.filled mag - 1) m ∧ _ ↔
        i < s.magazines.filled m ∧ s.magazines.rounds m i = x
      by_cases hm : m = mag
      · subst hm
        rw [update_self]
        refine ⟨fun hi => ⟨by omega, hi.2⟩, fun hi => ⟨?_, hi.2⟩⟩
        have hlt : i ≠ s.magazines.filled m - 1 := by
          rintro rfl
          exact (hx (hi.2.symm.trans hlast.symm)).1 rfl
        omega
      · rw [update_of_ne hm]
        exact .rfl
    | freelist slab => exact .rfl

theorem Core.putRound (ht : s.pc t = .freeLoop c ptr) {mag : Nat}
    (hl : (s.magazines.cpu c).loaded = some mag) (hroom : s.magazines.filled mag < M) :
    Core M (((s.setMagazines (s.magazines.putRound c mag ptr)).spinrelease c).goto t .idle)
      fl q dom := by
  obtain ⟨hrounds, -⟩ := (h.mag.cpu c).loaded mag hl
  have hindex : (s.magazines.cpu c).rounds.toNat = s.magazines.filled mag := by omega
  have hcount : (s.magazines.cpu c).rounds + 1 = ((s.magazines.filled mag + 1 : Nat) : Int) := by
    omega
  have hhold : (s.pc t).holding = some c := by rw [ht]; rfl
  have hslab : (Pc.idle : Pc ι).slab = (s.pc t).slab := by rw [ht]; rfl
  have hbuf : (s.pc t).buf = some ptr := by rw [ht]; rfl
  have hat : At s fl ptr (.freeing t) := hbuf
  have hmag : MagOk M (s.magazines.putRound c mag ptr) s.pc :=
    h.mag.setRounds hl (n := s.magazines.filled mag + 1) hroom
      (by rw [Magazines.putRound, hcount]) rfl rfl rfl
  refine
    { lock := h.lock.release hhold rfl
      mag := hmag.goto (by rw [ht]; rfl) (by rw [ht]; rfl)
      swap := h.lock.swap h.swap hhold (fun c' hc => update_of_ne hc _ _) trivial
      inserting := h.inserting.congr (update_keeps Pc.slab hslab)
      part := ?_ }
  refine h.part.move (.freeing t) (.round mag (s.magazines.filled mag)) hat ?_ ?_
    fun x a hx => ?_
  · simp [At, State.goto, State.spinrelease, State.setMagazines, Magazines.putRound, hindex]
  · simp [At, State.goto, Pc.buf]
  · cases a with
    | held | freelist slab => exact .rfl
    | freeing t' =>
      by_cases htt : t' = t
      · have hne : ptr ≠ x := fun heq => (hx heq.symm).1 (by rw [htt])
        simp [At, State.goto, Pc.buf, htt, ht, hne]
      · simp [At, State.goto, State.spinrelease, State.setMagazines, htt]
    | round m i =>
      simp only [At, State.goto, State.spinrelease, State.setMagazines, Magazines.putRound, hindex]
      by_cases hm : m = mag
      · subst hm
        rw [update_self, update_self]
        by_cases hi : i = s.magazines.filled m
        · have hne : ptr ≠ x := fun heq => (hx heq.symm).2 (by rw [hi])
          simp [hi, hne]
        · rw [update_of_ne hi]
          exact and_congr_left fun _ => by omega
      · simp [hm]

omit [DecidableEq ι] in
theorem Core.magazines {mg' : Magazines ι} {pc' : Pc ι}
    (hhold : (s.pc t).holding = some c) (hfilled : mg'.filled = s.magazines.filled)
    (hrounds : mg'.rounds = s.magazines.rounds)
    (hcpu : ∀ c', c' ≠ c → mg'.cpu c' = s.magazines.cpu c')
    (hbuf : pc'.buf = (s.pc t).buf) (hslab : pc'.slab = (s.pc t).slab) (hpc : pc'.holding = some c)
    (hmag : MagOk M mg' (update s.pc t pc')) (hswap : SwapOk M mg'.cpu pc') :
    Core M ((s.setMagazines mg').goto t pc') fl q dom :=
  h.still rfl rfl hfilled hrounds (update_keeps Pc.buf hbuf) (update_keeps Pc.slab hslab)
    (h.lock.goto (.inr (hpc.trans hhold.symm))) hmag (h.lock.swap h.swap hhold hcpu hswap)

theorem Core.exchange (hhold : (s.pc t).holding = some c)
    (hmag : (s.pc t).mag = none) (hpc : ∀ cpu, SwapOk M cpu (s.pc t))
    (hprev : 0 ≤ (s.magazines.cpu c).rounds_previous)
    (hl : ∀ mag, (s.magazines.cpu c).loaded = some mag →
      s.magazines.filled mag = 0 ∨ s.magazines.filled mag = M) :
    Core M (s.setMagazines (s.magazines.reload c (s.magazines.cpu c).previous
      (s.magazines.cpu c).rounds_previous)) fl q dom := by
  obtain ⟨mag, hp⟩ := (h.mag.cpu c).previous_of_nonneg hprev
  refine h.still rfl rfl rfl rfl (fun _ => rfl) (fun _ => rfl) h.lock
    (h.mag.exchange hmag hp hl) fun t' => ?_
  have hcpu : ∀ c', c' ≠ c → (s.magazines.reload c (s.magazines.cpu c).previous
      (s.magazines.cpu c).rounds_previous).cpu c' = s.magazines.cpu c' :=
    fun c' hc => update_of_ne hc _ _
  have hswap := h.lock.swap h.swap hhold hcpu (hpc _) t'
  rw [update_eq_self] at hswap
  exact hswap

theorem Core.allocLoop (ht : s.pc t = .allocLoop c)
    (hstep : allocLoop s t c = some s') : Core M s' fl q dom ∧ SameSlabs s s' := by
  have hhold : (s.pc t).holding = some c := by rw [ht]; rfl
  have hmag : (s.pc t).mag = none := by rw [ht]; rfl
  have hslab : (s.pc t).slab = none := by rw [ht]; rfl
  simp only [Slab.allocLoop] at hstep
  split at hstep
  · next hr =>
    split at hstep
    · next mag hl =>
      cases hstep
      exact ⟨(h.takeRound ht hl hr).2, .goto rfl hslab.symm rfl⟩
    · cases hstep
  · next hr =>
    split at hstep
    · next hprev =>
      cases hstep
      refine ⟨h.exchange hhold hmag (fun _ => by rw [ht]; trivial) hprev.le fun mag hl => ?_,
        rfl, fun _ => rfl⟩
      -- the loaded magazine is empty
      have hcount := ((h.mag.cpu c).loaded mag hl).1
      omega
    · next hprev =>
      split at hstep
      · next mag mg' halloc =>
        cases hstep
        have hok := h.mag.alloc_from_depot (.allocSwap c mag) hmag halloc rfl rfl
        obtain ⟨hcpu, hfilled, hrounds⟩ := Magazines.alloc_from_depot_eq halloc
        refine ⟨h.magazines hhold hfilled hrounds (fun c' _ => by rw [hcpu])
          (by rw [ht]; rfl) (by rw [ht]; rfl) rfl hok ?_, .goto rfl hslab.symm rfl⟩
        simp only [SwapOk, hcpu]
        omega
      · cases hstep
        exact h.advance (by rw [ht]; rfl) (h.lock.release hhold rfl) trivial

end

theorem Core.freeLoop (h : Core cp.magtype.rounds s fl q dom) (hM : cp.magtype.rounds < W)
    {ptr : Nat} (ht : s.pc t = .freeLoop c ptr) (hstep : freeLoop cp s t c ptr = some s') :
    Core cp.magtype.rounds s' fl q dom ∧ SameSlabs s s' := by
  have hhold : (s.pc t).holding = some c := by rw [ht]; rfl
  have hmag : (s.pc t).mag = none := by rw [ht]; rfl
  have hslab : (s.pc t).slab = none := by rw [ht]; rfl
  have hsize := (h.mag.cpu c).toSize_lt_iff hM
  simp only [Slab.freeLoop] at hstep
  split at hstep
  · next hr =>
    obtain ⟨mag, hl, hroom⟩ := hsize.mp hr
    rw [hl] at hstep
    cases hstep
    exact ⟨h.putRound ht hl hroom, .goto rfl hslab.symm rfl⟩
  · next hr =>
    split at hstep
    · next hprev =>
      cases hstep
      have hok := h.exchange hhold hmag (fun _ => by rw [ht]; trivial) hprev.ge fun mag hl => by
        -- the loaded magazine is full
        have hle := ((h.mag.cpu c).loaded mag hl).2
        have hnot : ¬ s.magazines.filled mag < cp.magtype.rounds :=
          fun hlt => hr (hsize.mpr ⟨mag, hl, hlt⟩)
        omega
      rw [hprev] at hok
      exact ⟨hok, rfl, fun _ => rfl⟩
    · next hprev =>
      split at hstep
      · next mag mg' halloc =>
        cases hstep
        have hok := h.mag.alloc_from_depot (.freeSwap c ptr mag) hmag halloc rfl rfl
        obtain ⟨hcpu, hfilled, hrounds⟩ := Magazines.alloc_from_depot_eq halloc
        refine ⟨h.magazines hhold hfilled hrounds (fun c' _ => by rw [hcpu])
          (by rw [ht]; rfl) (by rw [ht]; rfl) rfl hok ?_, .goto rfl hslab.symm rfl⟩
        simp only [SwapOk, hcpu]
        exact ⟨hr, hprev⟩
      · cases hstep
        exact h.advance (by rw [ht]; rfl) (h.lock.release hhold rfl) trivial

section

variable (h : Core M s fl q dom)

include h

theorem Core.reload {pc' : Pc ι} {list : Maglist} {mag : Nat}
    (hhold : (s.pc t).holding = some c) (hbuf : pc'.buf = (s.pc t).buf)
    (hslab : pc'.slab = (s.pc t).slab) (hhold' : pc'.holding = some c)
    (hok : MagOk M ((s.magazines.freePrevious c list).reload c (some mag) rounds)
      (update s.pc t pc')) (hswap : SwapOk M
      ((s.magazines.freePrevious c list).reload c (some mag) rounds).cpu pc') :
    Core M ((s.setMagazines ((s.magazines.freePrevious c list).reload c (some mag) rounds)).goto t
      pc') fl q dom := by
  have hfills := (s.magazines.freePrevious_eq c list).2.1
  refine h.magazines hhold hfills (s.magazines.freePrevious_rounds c _) (fun c' hc => ?_) hbuf
    hslab hhold' hok hswap
  rw [Magazines.swap_cpu]
  exact update_of_ne hc _ _

theorem Core.allocSwap {mag : Nat} (ht : s.pc t = .allocSwap c mag) :
    Core M ((s.setMagazines ((s.magazines.freePrevious c .empty_magazines).reload c (some mag)
      M)).goto t (.allocLoop c)) fl q dom := by
  have hmag : (s.pc t).mag = some mag := by rw [ht]; rfl
  have hswap := h.swap t
  have hfilled := h.mag.flight t mag hmag
  rw [ht] at hswap hfilled
  simp only [SwapOk, Pc.magRounds] at hswap hfilled
  apply h.reload (by rw [ht]; rfl) (by rw [ht]; rfl) (by rw [ht]; rfl) rfl
  · apply h.mag.swap (.allocLoop c) .empty_magazines M hmag (by rw [hfilled]) hfilled.le
    · intro mag' hp
      have hcount := ((h.mag.cpu c).previous mag' hp).1
      simp only [Maglist.rounds]
      omega
    · intro mag' hl
      have hcount := ((h.mag.cpu c).loaded mag' hl).1
      omega
    · rfl
  · trivial

theorem Core.freeSwap (hM : M < W) {mag : Nat} (ht : s.pc t = .freeSwap c ptr mag) :
    Core M ((s.setMagazines ((s.magazines.freePrevious c .full_magazines).reload c (some mag)
      0)).goto t (.freeLoop c ptr)) fl q dom := by
  have hmag : (s.pc t).mag = some mag := by rw [ht]; rfl
  have hswap := h.swap t
  have hfilled := h.mag.flight t mag hmag
  rw [ht] at hswap hfilled
  simp only [SwapOk, Pc.magRounds] at hswap hfilled
  apply h.reload (by rw [ht]; rfl) (by rw [ht]; rfl) (by rw [ht]; rfl) rfl
  · apply h.mag.swap (.freeLoop c ptr) .full_magazines 0 hmag (by rw [hfilled]; rfl) (by omega)
    · intro mag' hp
      have hcount := (h.mag.cpu c).previous mag' hp
      simp only [Maglist.rounds]
      omega
    · intro mag' hl
      have hle := ((h.mag.cpu c).loaded mag' hl).2
      have hnot : ¬ s.magazines.filled mag' < M := fun hlt =>
        hswap.1 (((h.mag.cpu c).toSize_lt_iff hM).mpr ⟨mag', hl, hlt⟩)
      omega
    · rfl
  · trivial

theorem Core.freePush {mag : Nat} (ht : s.pc t = .freePush c ptr mag) :
    Core M ((s.setMagazines (s.magazines.free_to_depot mag .empty_magazines)).goto t
      (.freeLoop c ptr)) fl q dom := by
  have hhold : (s.pc t).holding = some c := by rw [ht]; rfl
  have hmag : (s.pc t).mag = some mag := by rw [ht]; rfl
  have hfilled := h.mag.flight t mag hmag
  rw [ht] at hfilled
  exact h.magazines hhold rfl rfl (fun _ _ => rfl) (by rw [ht]; rfl) (by rw [ht]; rfl) rfl
    (h.mag.free_to_depot hmag hfilled rfl) trivial

theorem Core.newMag (ht : s.pc t = .freeAlloc c ptr) (hstep : newMag s t c ptr new_mag = some s') :
    Core M s' fl q dom ∧ SameSlabs s s' := by
  have hmag : (s.pc t).mag = none := by rw [ht]; rfl
  have hbuf : (s.pc t).buf = some ptr := by rw [ht]; rfl
  have hslab : (s.pc t).slab = none := by rw [ht]; rfl
  cases new_mag with
  | none =>
    cases hstep
    exact h.advance (by rw [ht]; rfl) (h.lock.goto (.inl rfl)) trivial
  | some mag =>
    simp only [Slab.newMag] at hstep
    split at hstep
    · cases hstep
    · next hnew =>
      cases hstep
      exact ⟨h.still rfl rfl rfl rfl (update_keeps Pc.buf hbuf.symm)
        (update_keeps Pc.slab hslab.symm) (h.lock.goto (.inl rfl))
        (h.mag.new_mag hmag hnew rfl rfl) (swap_goto h.swap trivial), .goto rfl hslab.symm rfl⟩

end

end loops

/-! ### Moves of the slab layer -/

section moves
variable {t : τ} (sl' : Slabs) {slab b : Nat}

theorem InsertOk.leave (h : InsertOk pages q pc) (hpc : pc'.slab = none)
    (hdet : ∀ t' slab, t' ≠ t → (pc t').slab = some slab → Detached q slab → Detached q' slab) :
    InsertOk pages q' (update pc t pc') := by
  have hother : ∀ t' slab, (update pc t pc' t').slab = some slab →
      t' ≠ t ∧ (pc t').slab = some slab := by
    intro t' slab hslab
    by_cases ht : t' = t
    · subst ht
      rw [update_self, hpc] at hslab
      cases hslab
    · rw [update_of_ne ht] at hslab
      exact ⟨ht, hslab⟩
  constructor
  · intro t' slab hslab
    obtain ⟨ht, hold⟩ := hother t' slab hslab
    obtain ⟨hmem, hd⟩ := h.detached t' slab hold
    exact ⟨hmem, hdet t' slab ht hold hd⟩
  · intro t₁ t₂ slab h₁ h₂
    exact h.unique t₁ t₂ slab (hother t₁ slab h₁).2 (hother t₂ slab h₂).2

theorem InsertOk.insert (h : InsertOk pages q pc)
    (hslab : (pc t).slab = some slab) : InsertOk pages (update q .slabs (q .slabs ++ [slab]))
      (update pc t .idle) := by
  apply h.leave rfl
  intro t' p htt hp hd k hk
  rcases (mem_insertTail q _ _ k p).mp hk with hk | ⟨-, rfl⟩
  · exact hd k hk
  · exact htt (h.unique t' t p hp hslab)

theorem InsertOk.create (h : InsertOk pages q pc) (hnew : slab ∉ pages) (hdet : Detached q slab) :
    InsertOk (Insert.insert slab pages) q (update pc t (.allocInsert slab)) := by
  constructor
  · intro t' p hp
    rw [update_apply] at hp
    split at hp
    · cases hp
      exact ⟨Finset.mem_insert_self _ _, hdet⟩
    · obtain ⟨hmem, hd⟩ := h.detached t' p hp
      exact ⟨Finset.mem_insert_of_mem hmem, hd⟩
  · -- no other thread has the new slab
    have hnone : ∀ t', (pc t').slab ≠ some slab := fun t' hp => hnew (h.detached t' slab hp).1
    intro t₁ t₂ p h₁ h₂
    by_cases ht₁ : t₁ = t <;> by_cases ht₂ : t₂ = t
    · rw [ht₁, ht₂]
    · subst ht₁
      rw [update_self] at h₁
      rw [update_of_ne ht₂] at h₂
      cases h₁
      exact absurd h₂ (hnone t₂)
    · subst ht₂
      rw [update_of_ne ht₁] at h₁
      rw [update_self] at h₂
      cases h₂
      exact absurd h₁ (hnone t₁)
    · rw [update_of_ne ht₁] at h₁
      rw [update_of_ne ht₂] at h₂
      exact h.unique t₁ t₂ p h₁ h₂

section

variable (h : Core M s fl q dom)

include h

section

omit [DecidableEq τ]

theorem Core.congr (hdom : ∀ x, dom' x ↔ dom x) : Core M s fl q dom' :=
  ⟨h.lock, h.mag, h.swap, h.inserting, h.part.congr hdom fun _ _ => .rfl⟩

theorem Core.freelists (hfl : ∀ p ∈ s.slabs.pages, fl' p = fl p) : Core M s fl' q dom := by
  refine ⟨h.lock, h.mag, h.swap, h.inserting, h.part.congr (fun _ => .rfl) fun x a => ?_⟩
  cases a with
  | freelist p => exact and_congr_right fun hp => by rw [hfl p hp]
  | _ => exact .rfl

theorem Core.setSlabs (hpages : sl'.pages = s.slabs.pages) : Core M (s.setSlabs sl') fl q dom where
  lock := h.lock
  mag := h.mag
  swap := h.swap
  inserting := by
    show InsertOk sl'.pages q s.pc
    rw [hpages]
    exact h.inserting
  part := by
    refine h.part.congr (fun _ => .rfl) fun x a => ?_
    cases a with
    | freelist p => simp only [At, State.setSlabs, hpages]
    | _ => exact .rfl

end

theorem Core.giveBuf
    (hpages : sl'.pages = s.slabs.pages) (hmem : slab ∈ s.slabs.pages) (hfl : fl slab = b :: rest)
    (hnodup : (b :: rest).Nodup) (hmag : (s.pc t).mag = none)
    (hrounds : (s.pc t).magRounds M = 0) (hbuf : (s.pc t).buf = none)
    (hins : InsertOk s.slabs.pages q₀ (update s.pc t .idle))
    (hdet : ∀ x, Detached q' x ↔ Detached q₀ x) :
    Core M ((s.setSlabs sl').give t b) (update fl slab rest) q' dom := by
  have hat : At s fl b (.freelist slab) := ⟨hmem, by simp [hfl]⟩
  have hidle : (Pc.idle : Pc ι).buf = (s.pc t).buf := hbuf.symm
  rw [List.nodup_cons] at hnodup
  refine
    { lock := h.lock.goto (.inl rfl)
      mag := h.mag.goto hmag.symm hrounds.symm
      swap := swap_goto h.swap trivial
      inserting := ?_
      part := ?_ }
  · show InsertOk sl'.pages q' (update s.pc t .idle)
    rw [hpages]
    constructor
    · intro t' p hp
      obtain ⟨hpmem, hd⟩ := hins.detached t' p hp
      exact ⟨hpmem, (hdet p).mpr hd⟩
    · exact hins.unique
  · refine h.part.move (.freelist slab) .held hat (Finset.mem_insert_self _ _) ?_ fun x a hx => ?_
    · simp [At, State.give, State.setSlabs, hnodup.1]
    · cases a with
      | held =>
        have hne : x ≠ b := fun heq => (hx heq).2 rfl
        exact Finset.mem_insert.trans (or_iff_right hne)
      | freeing t' => exact iff_of_eq (congrArg (· = some x) (update_keeps Pc.buf hidle t'))
      | round m i => exact .rfl
      | freelist p =>
        simp only [At, State.give, State.setSlabs, hpages]
        by_cases hp : p = slab
        · have hne : x ≠ b := fun heq => (hx heq).1 (by rw [hp])
          simp [hp, hfl, hne]
        · rw [update_of_ne hp]

theorem Core.putBuf (hpages : sl'.pages = s.slabs.pages) (hmem : slab ∈ s.slabs.pages)
    (ht : s.pc t = .freeSlab b) (hdet : ∀ x, Detached q' x ↔ Detached q x) :
    Core M ((s.setSlabs sl').goto t .idle) (update fl slab (b :: fl slab)) q' dom := by
  have hbuf : (s.pc t).buf = some b := by rw [ht]; rfl
  refine
    { lock := h.lock.goto (.inl rfl)
      mag := h.mag.goto (by rw [ht]; rfl) (by rw [ht]; rfl)
      swap := swap_goto h.swap trivial
      inserting := ?_
      part := ?_ }
  · show InsertOk sl'.pages q' (update s.pc t .idle)
    rw [hpages]
    exact h.inserting.leave rfl fun _ p _ _ hd => (hdet p).mpr hd
  · refine h.part.move (.freeing t) (.freelist slab) hbuf ?_ ?_ fun x a hx => ?_
    · simp [At, State.goto, State.setSlabs, hpages, hmem]
    · simp [At, State.goto, Pc.buf]
    · cases a with
      | held | round m i => exact .rfl
      | freeing t' =>
        by_cases htt : t' = t
        · have hne : b ≠ x := fun heq => (hx heq.symm).1 (by rw [htt])
          simp [At, State.goto, Pc.buf, htt, ht, hne]
        · simp [At, State.goto, State.setSlabs, htt]
      | freelist p =>
        simp only [At, State.goto, State.setSlabs, hpages]
        by_cases hp : p = slab
        · have hne : x ≠ b := fun heq => (hx heq).2 (by rw [hp])
          simp [hp, hne]
        · rw [update_of_ne hp]

omit [DecidableEq τ] in
theorem Core.destroy (hpages : sl'.pages = s.slabs.pages.erase slab) (hmem : slab ∈ s.slabs.pages)
    (hslab : ¬ Detached q slab) (hdet : ∀ x, Detached q x → Detached q' x) :
    Core M (s.setSlabs sl') fl q' (fun x => dom x ∧ x ∉ fl slab) where
  lock := h.lock
  mag := h.mag
  swap := h.swap
  inserting := by
    show InsertOk sl'.pages q' s.pc
    rw [hpages]
    constructor
    · intro t p hp
      obtain ⟨hpmem, hd⟩ := h.inserting.detached t p hp
      have hne : p ≠ slab := by
        rintro rfl
        exact hslab hd
      exact ⟨Finset.mem_erase.mpr ⟨hne, hpmem⟩, hdet p hd⟩
    · exact h.inserting.unique
  part := by
    refine (h.part.leave (.freelist slab) ?_ ?_).congr
      (fun x => and_congr_right fun _ => not_congr (and_iff_right hmem).symm) fun _ _ => .rfl
    · intro x
      simp [At, State.setSlabs, hpages]
    · intro x a ha
      cases a with
      | freelist p =>
        have hp : p ≠ slab := fun heq => ha (by rw [heq])
        simp [At, State.setSlabs, hpages, hp]
      | _ => exact .rfl

theorem Core.vanish (hpages : sl'.pages = s.slabs.pages) (ht : s.pc t = .freeSlab b)
    (hdet : ∀ x, Detached q' x ↔ Detached q x) :
    Core M ((s.setSlabs sl').goto t .idle) fl q' (fun x => dom x ∧ x ≠ b) where
  lock := h.lock.goto (.inl rfl)
  mag := h.mag.goto (by rw [ht]; rfl) (by rw [ht]; rfl)
  swap := swap_goto h.swap trivial
  inserting := by
    show InsertOk sl'.pages q' (update s.pc t .idle)
    rw [hpages]
    exact h.inserting.leave rfl fun _ p _ _ hd => (hdet p).mpr hd
  part := by
    refine (h.part.leave (.freeing t) ?_ ?_).congr
      (fun x => by simp [At, ht, Pc.buf, eq_comm]) fun _ _ => .rfl
    · intro x
      simp [At, State.goto, Pc.buf]
    · intro x a ha
      cases a with
      | freeing t' =>
        have htt : t' ≠ t := fun heq => ha (by rw [heq])
        simp [At, State.goto, State.setSlabs, htt]
      | freelist p => simp [At, State.goto, State.setSlabs, hpages]
      | _ => exact .rfl

theorem Core.create
    (hpages : sl'.pages = insert slab s.slabs.pages) (hunused : slab ∉ s.slabs.pages)
    (hdet : Detached q slab) (ht : s.pc t = .allocCreate) (hnew : ∀ x, x ∈ new → ¬ dom x) :
    Core M ((s.setSlabs sl').goto t (.allocInsert slab)) (update fl slab new) q
      (fun x => dom x ∨ x ∈ new) where
  lock := h.lock.goto (.inl rfl)
  mag := h.mag.goto (by rw [ht]; rfl) (by rw [ht]; rfl)
  swap := swap_goto h.swap trivial
  inserting := by
    show InsertOk sl'.pages q (update s.pc t (.allocInsert slab))
    rw [hpages]
    exact h.inserting.create hunused hdet
  part := by
    have hbuf : (Pc.allocInsert slab : Pc ι).buf = (s.pc t).buf := by rw [ht]; rfl
    refine (h.part.extend hnew (.freelist slab)).congr (fun _ => .rfl) fun x a => ?_
    cases a with
    | held => simp [At, State.goto, State.setSlabs]
    | freeing t' => simp [At, State.goto, State.setSlabs, update_keeps Pc.buf hbuf]
    | round m i => simp [At, State.goto, State.setSlabs]
    | freelist p =>
      by_cases hp : p = slab
      · subst hp
        simp [At, State.goto, State.setSlabs, hpages, hunused]
      · simp [At, State.goto, State.setSlabs, hpages, hp]

theorem Core.freeCall (ht : s.pc t = .idle)
    (hheld : ptr ∈ s.held) (pc' : Pc ι) (hbuf : pc'.buf = some ptr) (hslab : pc'.slab = none)
    (hmag : pc'.mag = none) (hrounds : pc'.magRounds M = 0) (hhold : pc'.holding = none)
    (hswap : SwapOk M s.magazines.cpu pc') :
    Core M ({ s with held := s.held.erase ptr }.goto t pc') fl q dom := by
  have hat : At s fl ptr .held := hheld
  have hidle : (s.pc t).buf = none := by rw [ht]; rfl
  refine
    { lock := h.lock.goto (.inl hhold)
      mag := h.mag.goto (by rw [ht, hmag]; rfl) (by rw [ht, hrounds]; rfl)
      swap := swap_goto h.swap hswap
      inserting := h.inserting.congr (update_keeps Pc.slab (by rw [ht, hslab]; rfl))
      part := ?_ }
  refine h.part.move .held (.freeing t) hat ?_ ?_ fun x a hx => ?_
  · simp [At, State.goto, hbuf]
  · simp [At, State.goto]
  · cases a with
    | held =>
      have hne : x ≠ ptr := fun heq => (hx heq).1 rfl
      simp [At, State.goto, hne]
    | freeing t' =>
      by_cases htt : t' = t
      · have hne : ptr ≠ x := fun heq => (hx heq.symm).2 (by rw [htt])
        simp [At, State.goto, htt, hbuf, hidle, hne]
      · simp [At, State.goto, htt]
    | round m i | freelist p => exact .rfl

omit [DecidableEq τ] in
theorem Core.not_outstanding
    (hat : (∃ mag i, At s fl b (.round mag i)) ∨ ∃ slab, At s fl b (.freelist slab)) :
    dom b ∧ ¬ Outstanding s b := by
  obtain ⟨a, ha, hheld, hfreeing⟩ : ∃ a, At s fl b a ∧ a ≠ .held ∧ ∀ t, a ≠ .freeing t := by
    rcases hat with ⟨mag, i, ha⟩ | ⟨slab, ha⟩
    all_goals exact ⟨_, ha, by simp, by simp⟩
  refine ⟨h.part.sound b a ha, ?_⟩
  rintro (hout | ⟨t, hout⟩)
  · exact hheld (h.part.unique b a .held ha hout)
  · exact hfreeing t (h.part.unique b a (.freeing t) ha hout)

end

end moves

/-! ### Steps of the magazine layer -/

/-- The steps of a call in the slab layer. -/
def Pc.inSlabLayer : Pc ι → Bool
  | .allocSlab | .allocCreate | .allocInsert _ | .freeSlab _ => true
  | .idle | .allocLock _ | .allocLoop _ | .allocSwap _ _ | .freeLock _ _ | .freeLoop _ _
  | .freeSwap _ _ _ | .freeAlloc _ _ | .freeRelock _ _ _ | .freePush _ _ _ => false

theorem Core.run [DecidableEq ι] (h : Core cp.magtype.rounds s fl q dom)
    (hM : cp.magtype.rounds < W) (hlayer : (s.pc t).inSlabLayer = false) (hstep : run cp s t =
      some s') : Core cp.magtype.rounds s' fl q dom ∧ SameSlabs s s' := by
  unfold Slab.run at hstep
  cases hpc : s.pc t with
  | idle | allocCreate | freeAlloc c ptr =>
    simp only [hpc] at hstep
    cases hstep
  | allocSlab | allocInsert slab | freeSlab ptr =>
    rw [hpc] at hlayer
    cases hlayer
  | allocLock c =>
    simp only [hpc] at hstep
    obtain ⟨hfree, rfl⟩ := of_guard hstep
    exact h.advance (by rw [hpc]; rfl) (h.lock.acquire hfree rfl) trivial
  | allocLoop c =>
    simp only [hpc] at hstep
    exact h.allocLoop hpc hstep
  | allocSwap c mag =>
    simp only [hpc] at hstep
    cases hstep
    exact ⟨h.allocSwap hpc, .goto rfl (by rw [hpc]; rfl) rfl⟩
  | freeLock c ptr =>
    simp only [hpc] at hstep
    obtain ⟨hfree, rfl⟩ := of_guard hstep
    exact h.advance (by rw [hpc]; rfl) (h.lock.acquire hfree rfl) trivial
  | freeLoop c ptr =>
    simp only [hpc] at hstep
    exact h.freeLoop hM hpc hstep
  | freeSwap c ptr mag =>
    simp only [hpc] at hstep
    cases hstep
    exact ⟨h.freeSwap hM hpc, .goto rfl (by rw [hpc]; rfl) rfl⟩
  | freeRelock c ptr new_mag =>
    cases new_mag with
    | none =>
      simp only [hpc] at hstep
      split at hstep
      · cases hstep
        exact h.advance (by rw [hpc]; rfl) (h.lock.goto (.inl rfl)) trivial
      · cases hstep
    | some mag =>
      simp only [hpc] at hstep
      obtain ⟨hfree, rfl⟩ := of_guard hstep
      exact h.advance (by rw [hpc]; rfl) (h.lock.acquire hfree rfl) trivial
  | freePush c ptr mag =>
    simp only [hpc] at hstep
    cases hstep
    exact ⟨h.freePush hpc, .goto rfl (by rw [hpc]; rfl) rfl⟩

/-- The steps that the slab layer takes, and the stores of users. -/
def Action.inSlabLayer (s : State ι τ) : Action ι τ → Bool
  | .run t => (s.pc t).inSlabLayer
  | .slab_create _ _ | .store _ _ _ => true
  | .kmem_init | .kmem_cache_alloc _ _ | .kmem_cache_free _ _ _ | .new_mag _ _ => false

theorem Core.step [DecidableEq ι] (h : Core cp.magtype.rounds s fl q dom)
    (hM : cp.magtype.rounds < W) {a : Action ι τ} (hlayer : a.inSlabLayer s = false)
      (hstep : step cp s a = some s') : Core cp.magtype.rounds s' fl q dom ∧ SameSlabs s s' := by
  cases a with
  | slab_create t page | store ptr i v => cases hlayer
  | run t => exact h.run hM hlayer hstep
  | kmem_init =>
    simp only [Slab.step] at hstep
    split at hstep
    · cases hstep
    · cases hstep
      exact ⟨h.still rfl rfl rfl rfl (fun _ => rfl) (fun _ => rfl) h.lock h.mag h.swap,
        rfl, fun _ => rfl⟩
  | kmem_cache_alloc t c =>
    simp only [Slab.step] at hstep
    split at hstep
    · next hpc =>
      split at hstep
      all_goals
        cases hstep
        exact h.advance (by rw [hpc]; rfl) (h.lock.goto (.inl rfl)) trivial
    · cases hstep
  | kmem_cache_free t c ptr =>
    simp only [Slab.step] at hstep
    split at hstep
    · next hpc =>
      split at hstep
      · next hheld =>
        split at hstep
        · cases hstep
          exact ⟨h.freeCall hpc hheld (.freeLock c ptr) rfl rfl rfl rfl rfl trivial,
            .goto rfl (by rw [hpc]; rfl) rfl⟩
        · cases hstep
          exact ⟨h.freeCall hpc hheld (.freeSlab ptr) rfl rfl rfl rfl rfl trivial,
            .goto rfl (by rw [hpc]; rfl) rfl⟩
      · cases hstep
    · cases hstep
  | new_mag t mag =>
    simp only [Slab.step] at hstep
    split at hstep
    · next c ptr hpc =>
      exact h.newMag hpc hstep
    · cases hstep

/-! ### The slab layer of small caches -/

section slabs
variable {t : τ}

section

variable (h : Ok cp s fl q)

include h

section

variable (hfit : cp.Fits)

include hfit

theorem Ok.giveBuf (hsl : sl.Ok cp fl q₀) (hslab : slab ∈ q₀ .slabs)
    (hpages : sl.pages = s.slabs.pages) (hcolor : sl.colorOf = s.slabs.colorOf)
    (hmag : (s.pc t).mag = none)
    (hrounds : (s.pc t).magRounds cp.magtype.rounds = 0) (hbuf : (s.pc t).buf = none)
    (hins : InsertOk s.slabs.pages q₀ (update s.pc t .idle))
    (hstep : allocBuf cp s t sl slab = some s') :
    At s fl (sl.firstBuf cp slab) (.freelist slab) ∧ ∃ fl' q', Ok cp s' fl' q' := by
  obtain ⟨sl', rest, q', htake, hfl, hok, hdet, hpages', hcolor'⟩ := hsl.takeBuf hfit hslab
  have hmem : slab ∈ s.slabs.pages := hpages ▸ hsl.listed _ slab hslab
  have hnodup := (hsl.page slab (hsl.listed _ slab hslab)).nodup
  rw [hfl] at hnodup
  rw [allocBuf, htake] at hstep
  cases hstep
  refine ⟨⟨hmem, by simp [hfl]⟩, update fl slab rest, q', ?_⟩
  have hcore := h.core.giveBuf sl' (hpages'.trans hpages) hmem hfl hnodup hmag hrounds hbuf hins hdet
  exact (hcore.congr (Slabs.carved_congr (hpages'.trans hpages) (hcolor'.trans hcolor))).ok hok

theorem Ok.allocSlab (ht : s.pc t = .allocSlab) (hfirst : s.slabs.links.first .slabs = some slab)
    (hstep : allocBuf cp s t s.slabs slab = some s') :
    At s fl (s.slabs.firstBuf cp slab) (.freelist slab) ∧ ∃ fl' q', Ok cp s' fl' q' := by
  rw [h.slabs.links.first_eq] at hfirst
  exact h.giveBuf hfit h.slabs (List.mem_of_mem_head? hfirst) rfl rfl (by rw [ht]; rfl)
    (by rw [ht]; rfl) (by rw [ht]; rfl) (h.inserting.leave rfl fun _ _ _ _ hd => hd) hstep

theorem Ok.allocInsert (ht : s.pc t = .allocInsert slab)
    (hstep : allocBuf cp s t { s.slabs with links := s.slabs.links.insertTail .slabs slab } slab =
      some s') :
    At s fl (s.slabs.firstBuf cp slab) (.freelist slab) ∧ ∃ fl' q', Ok cp s' fl' q' := by
  have hslab : (s.pc t).slab = some slab := by rw [ht]; rfl
  obtain ⟨hmem, hdet⟩ := h.inserting.detached t slab hslab
  have hfl : fl slab ≠ [] := by
    intro hnil
    have hzero : s.slabs.buflist slab = 0 := by
      rw [(h.slabs.page slab hmem).chain.eq_nil_iff, hnil, List.map_nil]
    rw [allocBuf, Slabs.takeBuf, if_pos hzero] at hstep
    cases hstep
  have hlist : slab ∈ update q .slabs (q .slabs ++ [slab]) .slabs := by
    rw [mem_insertTail]
    exact .inr ⟨rfl, rfl⟩
  have hgive := h.giveBuf hfit (h.slabs.insert hmem hdet hfl) hlist rfl rfl (by rw [ht]; rfl)
    (by rw [ht]; rfl) (by rw [ht]; rfl) (h.inserting.insert hslab) hstep
  exact hgive

omit [DecidableEq τ] in
theorem Ok.destroy (hslab : slab ∈ q .slabs) (hzero : s.slabs.refcount slab = 0) :
    Ok cp (s.setSlabs (s.slabs.slab_destroy slab)) fl
      (update q .slabs ((q .slabs).erase slab)) := by
  have hmem := h.slabs.listed _ slab hslab
  have hpage := h.slabs.page slab hmem
  have hdet : ∀ x, Detached q x → Detached (update q .slabs ((q .slabs).erase slab)) x :=
    fun x hd k hk => hd k ((h.slabs.links.mem_remove hslab k x).mp hk).1
  have hcore := h.core.destroy (s.slabs.slab_destroy slab) rfl hmem (fun hd => hd _ hslab) hdet
  refine (hcore.congr fun x => ?_).ok (h.slabs.slab_destroy hslab)
  -- everything that the slab was cut into is on its freelist
  constructor
  · rintro ⟨p, hp, hx⟩
    obtain ⟨hne, hp⟩ := Finset.mem_erase.mp hp
    exact ⟨⟨p, hp, hx⟩, fun hin => hne (h.slabs.page_unique hfit hp hmem hx (hpage.free x hin))⟩
  · rintro ⟨⟨p, hp, hx⟩, hnot⟩
    refine ⟨p, Finset.mem_erase.mpr ⟨?_, hp⟩, hx⟩
    rintro rfl
    exact hnot (hpage.all_free hzero hx)

theorem Ok.freeSlab (ht : s.pc t = .freeSlab ptr) :
    ∃ fl' q', Ok cp ((s.setSlabs (s.slabs.freeBuf cp ptr)).goto t .idle) fl' q' := by
  have hat : At s fl ptr (.freeing t) := by rw [At, ht]; rfl
  obtain ⟨slab, hmem, hb⟩ := h.part.sound ptr _ hat
  have halign := (h.slabs.page slab hmem).align_down hfit hb
  have hnot : ptr ∉ fl slab := by
    intro hin
    have hsame := h.part.unique ptr (.freelist slab) _ ⟨hmem, hin⟩ hat
    cases hsame
  obtain ⟨q', hok, hlist, hdet⟩ := h.slabs.putBuf hfit hmem hb hnot
  have hcore := h.core.putBuf (s.slabs.putBuf cp slab ptr) rfl hmem ht hdet
  have hput : Ok cp ((s.setSlabs (s.slabs.putBuf cp slab ptr)).goto t .idle)
      (update fl slab (ptr :: fl slab)) q' :=
    (hcore.congr (Slabs.carved_congr rfl rfl)).ok hok
  rw [Slabs.freeBuf, halign]
  split
  · next hzero => exact ⟨_, _, hput.destroy hfit hlist hzero⟩
  · exact ⟨_, _, hput⟩

theorem Ok.withSlab (ht : s.pc t = .allocCreate) (hfresh : Fresh s.slabs page)
    (hok : (s.slabs.withSlab cp page carved).Ok cp
      (update fl page (buffers cp (s.slabs.withSlab cp page carved) page)) q) :
    Ok cp ((s.setSlabs (s.slabs.withSlab cp page carved)).goto t (.allocInsert page))
      (update fl page (buffers cp (s.slabs.withSlab cp page carved) page)) q := by
  have hold : ∀ p ∈ s.slabs.pages, p ≠ page := fun p hp heq => hfresh.unused (heq ▸ hp)
  have hsame : ∀ p, p ≠ page →
      buffers cp (s.slabs.withSlab cp page carved) p = buffers cp s.slabs p := by
    intro p hp
    simp [buffers, Slabs.withSlab, hp]
  have hdet : Detached q page := fun k hk => hfresh.unused (h.slabs.listed k page hk)
  have hnew : ∀ x, x ∈ buffers cp (s.slabs.withSlab cp page carved) page →
      ¬ s.slabs.Carved cp x := by
    rintro x hx ⟨p, hp, hxp⟩
    rw [← hsame p (hold p hp)] at hxp
    exact hold p hp (hok.page_unique hfit (Finset.mem_insert_of_mem hp)
      (Finset.mem_insert_self _ _) hxp hx)
  have hcore := h.core.create (s.slabs.withSlab cp page carved) rfl hfresh.unused hdet ht hnew
  refine (hcore.congr fun x => ?_).ok hok
  constructor
  · rintro ⟨p, hp, hx⟩
    rcases Finset.mem_insert.mp hp with rfl | hp
    · exact .inr hx
    · exact .inl ⟨p, hp, hsame p (hold p hp) ▸ hx⟩
  · rintro (⟨p, hp, hx⟩ | hx)
    · exact ⟨p, Finset.mem_insert_of_mem hp, (hsame p (hold p hp)).symm ▸ hx⟩
    · exact ⟨page, Finset.mem_insert_self _ _, hx⟩

theorem Ok.create (ht : s.pc t = .allocCreate) (hfresh : Fresh s.slabs page) :
    Ok cp ((s.setSlabs (s.slabs.slab_create_small cp page)).goto t (.allocInsert page))
      (update fl page (buffers cp (s.slabs.slab_create_small cp page) page)) q :=
  h.withSlab hfit ht hfresh (h.slabs.slab_create_small hfit hfresh)

omit [DecidableEq τ] in
theorem Ok.write (hout : Outstanding s ptr)
    (hmem : ∀ x, x < ptr ∨ ptr + cp.object_size ≤ x → mem' x = s.slabs.mem x) :
    Ok cp (s.setSlabs { s.slabs with mem := mem' }) fl q := by
  obtain ⟨a, hat, hfree⟩ : ∃ a, At s fl ptr a ∧ ∀ slab, a ≠ .freelist slab := by
    rcases hout with hheld | ⟨t, ht⟩
    · exact ⟨.held, hheld, by simp⟩
    · exact ⟨.freeing t, ht, by simp⟩
  obtain ⟨slab, hslab, hb⟩ := h.part.sound ptr _ hat
  have hnot : ptr ∉ fl slab := fun hin =>
    hfree slab (h.part.unique ptr a (.freelist slab) hat ⟨hslab, hin⟩)
  have hcore := h.core.setSlabs { s.slabs with mem := mem' } rfl
  exact (hcore.congr (Slabs.carved_congr rfl rfl)).ok (h.slabs.write hfit hslab hb hnot hmem)

end

end

end slabs

end Slab
