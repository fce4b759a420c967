import Mathlib.Tactic.IntervalCases
import Dufay.Slab.Buffers

/-! # The slab allocator over whole runs

In every state that any interleaving of calls reaches, every buffer is in
exactly one place, and the magazines have as many rounds as their places
promise. This needs chunks of at least eight bytes: with smaller ones the
freelists overlap.
-/

open Lts Tailq Memory Placement Size
open Pmm (PAGE_SIZE)

namespace Slab

variable {ι τ : Type*} [DecidableEq ι] [DecidableEq τ]
variable {cp : Cache} {s s' : State ι τ} {fl : Nat → List Nat} {q : SlabList → List Nat}

omit [DecidableEq ι] [DecidableEq τ] in
theorem Ok.of_core (h : Ok cp s fl q) (hcore : Core cp.magtype.rounds s' fl q (s.slabs.Carved cp))
    (hslabs : s'.slabs = s.slabs) : Ok cp s' fl q := by
  apply Core.ok
  · rw [hslabs]
    exact hcore
  · rw [hslabs]
    exact h.slabs

theorem Ok.run (h : Ok cp s fl q) (hfit : cp.Fits) (hstep : run cp s t = some s') :
    ∃ fl' q', Ok cp s' fl' q' := by
  cases hlayer : (s.pc t).inSlabLayer with
  | false =>
    obtain ⟨hcore, hsame⟩ := h.core.run hfit.rounds hlayer hstep
    exact ⟨fl, q, h.of_core hcore hsame.slabs⟩
  | true =>
    unfold Slab.run at hstep
    split at hstep
    all_goals try (next hpc => rw [hpc] at hlayer; cases hlayer)
    · cases hstep
    · next hpc =>
      split at hstep
      · next slab hfirst => exact (h.allocSlab hfit hpc hfirst hstep).2
      · cases hstep
        have hcore : Core cp.magtype.rounds (s.goto t .allocCreate) fl q (s.slabs.Carved cp) :=
          h.core.goto (by rw [hpc]; rfl) (h.lock.goto (.inl rfl)) trivial
        exact ⟨fl, q, hcore.ok h.slabs⟩
    · next slab hpc => exact (h.allocInsert hfit hpc hstep).2
    · next ptr hpc =>
      cases hstep
      exact h.freeSlab hfit hpc

theorem Ok.step (h : Ok cp s fl q) (hfit : cp.Fits) {a : Action ι τ}
    (hstep : step cp s a = some s') : ∃ fl' q', Ok cp s' fl' q' := by
  cases hlayer : a.inSlabLayer s with
  | false =>
    obtain ⟨hcore, hsame⟩ := h.core.step hfit.rounds hlayer hstep
    exact ⟨fl, q, h.of_core hcore hsame.slabs⟩
  | true =>
    cases a with
    | run t => exact h.run hfit hstep
    | slab_create t page =>
      simp only [Slab.step] at hstep
      split at hstep
      · next hpc =>
        obtain ⟨hfresh, rfl⟩ := of_guard hstep
        exact ⟨_, q, h.create hfit hpc hfresh.2⟩
      · cases hstep
    | store ptr i v =>
      simp only [Slab.step] at hstep
      obtain ⟨hheld, rfl⟩ := of_guard hstep
      refine ⟨fl, q, h.write hfit (.inl hheld.1) fun x hx => ?_⟩
      exact Function.update_of_ne (by omega) _ _
    | _ => cases hlayer

omit [DecidableEq ι] [DecidableEq τ] in
theorem Ok.init (h : Init s) : Ok cp s (fun _ => []) fun _ => [] := by
  have hpc : ∀ t, (s.pc t).mag = none ∧ (s.pc t).buf = none ∧ (s.pc t).slab = none ∧
      (s.pc t).holding = none := by
    intro t
    rw [h.pc t]
    exact ⟨rfl, rfl, rfl, rfl⟩
  have hcpu : ∀ c, s.magazines.cpu c = .reset := h.cpu
  have hpages : ∀ p, p ∉ s.slabs.pages := by simp [h.pages]
  refine
    { lock := fun t c hc => by rw [(hpc t).2.2.2] at hc; cases hc
      mag := ?_
      swap := fun t => by rw [h.pc t]; trivial
      slabs := ?_
      inserting := ?_
      part := ?_ }
  · have hnone : ∀ m a, ¬ (shelf s.magazines s.pc).Holds m a := by
      rintro m (sl | list) hm
      · cases sl with
        | loaded c => rw [Store.Holds, shelf_loaded, hcpu] at hm; cases hm
        | previous c => rw [Store.Holds, shelf_previous, hcpu] at hm; cases hm
        | flight t => rw [Store.Holds, shelf_flight, (hpc t).1] at hm; cases hm
      · rw [Store.Holds, shelf_stack, h.depot] at hm
        cases hm
    refine ⟨⟨⟨?_, ?_, ?_⟩, ?_⟩, ?_, ?_, ?_, fun m _ => h.filled m⟩
    · intro m hm
      rw [h.known] at hm
      cases hm
    · exact fun m a hm => absurd hm (hnone m a)
    · exact fun m a _ hm => absurd hm (hnone m a)
    · intro list
      rw [shelf_stack, h.depot]
      exact List.nodup_nil
    · intro c
      rw [hcpu]
      refine ⟨?_, ?_, fun _ => ⟨rfl, rfl⟩, fun _ => rfl⟩
      all_goals
        intro m hm
        cases hm
    · intro t m hm
      rw [(hpc t).1] at hm
      cases hm
    · intro list m hm
      rw [h.depot] at hm
      cases hm
  · exact ⟨h.links, by simp, by simp, fun p hp => absurd hp (hpages p),
      fun p hp => absurd hp (hpages p)⟩
  · constructor
    · intro t slab hslab
      rw [(hpc t).2.2.1] at hslab
      cases hslab
    · intro t t' slab hslab
      rw [(hpc t).2.2.1] at hslab
      cases hslab
  · have hnone : ∀ b a, ¬ At s (fun _ => []) b a := by
      intro b a hb
      cases a with
      | held => simp [At, h.held] at hb
      | freeing t => simp [At, (hpc t).2.1] at hb
      | round m i => simp [At, h.filled] at hb
      | freelist p => simp [At] at hb
    refine ⟨?_, fun b a hb => absurd hb (hnone b a), fun b a _ hb => absurd hb (hnone b a)⟩
    rintro b ⟨p, hp, -⟩
    exact absurd hp (hpages p)

/-- The state represents some lists of free buffers and of slabs. -/
def Inv (cp : Cache) (s : State ι τ) : Prop := ∃ fl q, Ok cp s fl q

theorem inv_of_reachable (hfit : cp.Fits) (hs : Reachable (system cp) s) : Inv cp s := by
  refine ReachableBy.invariant ?_ ?_ hs
  · intro s hinit
    exact ⟨_, _, Ok.init hinit⟩
  · rintro s a s' ⟨fl, q, h⟩ - hstep
    exact h.step hfit hstep

/-! ### What the invariant says -/

omit [DecidableEq ι] [DecidableEq τ] in
theorem Ok.bufferAt_iff (h : Ok cp s fl q) : BufferAt cp s b a ↔ At s fl b a := by
  cases a with
  | held => exact .rfl
  | freeing t => exact .rfl
  | round m i => exact .rfl
  | freelist p =>
    refine and_congr_right fun hp => ?_
    rw [(h.slabs.page p hp).chain.reach_iff, List.mem_map]
    constructor
    · rintro ⟨b', hb', heq⟩
      have hsame : b' = b := Nat.add_right_cancel heq
      exact hsame ▸ hb'
    · exact fun hb => ⟨b, hb, rfl⟩

theorem Ok.returned_at (h : Ok cp s fl q) (hfit : cp.Fits)
    (hstep : Slab.step cp s a = some s') (hret : returned cp s a = some b) :
    (∃ mag i, At s fl b (.round mag i)) ∨ ∃ slab, At s fl b (.freelist slab) := by
  cases a with
  | run t =>
    simp only [returned] at hret
    change Slab.run cp s t = some s' at hstep
    unfold Slab.run at hstep
    split at hret
    · next c hpc =>
      split at hret
      · next hr =>
        obtain ⟨mag, hl, rfl⟩ := Option.map_eq_some_iff.mp hret
        exact .inl ⟨mag, _, (h.core.takeRound hpc hl hr).1⟩
      · cases hret
    · next hpc =>
      obtain ⟨slab, hfirst, rfl⟩ := Option.map_eq_some_iff.mp hret
      simp only [hpc, hfirst] at hstep
      exact .inr ⟨slab, (h.allocSlab hfit hpc hfirst hstep).1⟩
    · next slab hpc =>
      cases hret
      simp only [hpc] at hstep
      exact .inr ⟨slab, (h.allocInsert hfit hpc hstep).1⟩
    · cases hret
  | _ => cases hret

/-- **No buffer is lost or handed out twice**, by any interleaving of calls
on any number of CPUs, if the chunks of the cache hold a pointer. Every
carved buffer is in exactly one place, and nothing else is in one; what
`kmem_cache_alloc` returns was not outstanding; a previous magazine has
none or all of its rounds, and the magazines of the depot have all
(none). -/
theorem slab_no_buffer_lost {size align : UInt64} (hcreate : kmem_cache_create size align = some cp)
    (hsize : size.toNat ≤ SMALL_SLAB_SIZE) (hchunk : 8 ≤ cp.chunk_size)
    (hs : Reachable (system cp) s) : (∀ b, s.slabs.Carved cp b → ∃! a, BufferAt cp s b a) ∧
      (∀ b a, BufferAt cp s b a → s.slabs.Carved cp b) ∧
      (∀ a s' b, step cp s a = some s' → returned cp s a = some b → ¬ Outstanding s b) ∧
      (∀ c mag, (s.magazines.cpu c).previous = some mag →
        s.magazines.filled mag = 0 ∨ s.magazines.filled mag = cp.magtype.rounds) ∧
      (∀ mag ∈ s.magazines.depot .full_magazines, s.magazines.filled mag = cp.magtype.rounds) ∧
      ∀ mag ∈ s.magazines.depot .empty_magazines, s.magazines.filled mag = 0 := by
  have hfit := kmem_cache_create_fits hcreate hsize hchunk
  obtain ⟨fl, q, h⟩ := inv_of_reachable hfit hs
  refine ⟨?_, ?_, ?_, ?_, h.mag.depot .full_magazines, h.mag.depot .empty_magazines⟩
  · intro b hb
    simp only [h.bufferAt_iff]
    exact h.part.existsUnique hb
  · intro b a hb
    exact h.part.sound b a ((h.bufferAt_iff).mp hb)
  · intro a s' b hstep hret
    exact (h.core.not_outstanding (h.returned_at hfit hstep hret)).2
  · intro c mag hp
    exact ((h.mag.cpu c).previous mag hp).2

/-- A cache that has not been used, with magazines enabled. -/
def initial : State Unit Unit where
  magazines_enabled := true
  lock := fun _ => none
  magazines :=
    { cpu := fun _ => .reset
      depot := fun _ => []
      rounds := fun _ _ => 0
      filled := fun _ => 0
      known := ∅ }
  slabs :=
    { mem := fun _ => 0
      links := { fwd := fun _ => none, last := .first, prev := fun _ => .first .slabs }
      refcount := fun _ => 0
      buflist := fun _ => 0
      color := 0
      pages := ∅
      colorOf := fun _ => 0 }
  pc := fun _ => .idle
  held := ∅

theorem init_initial : Init initial where
  lock := fun _ => rfl
  cpu := fun _ => rfl
  depot := fun _ => rfl
  filled := fun _ => rfl
  known := rfl
  links := ⟨fun _ => ⟨rfl, rfl⟩, fun _ => List.nodup_nil, fun _ _ _ h => by cases h⟩
  color := rfl
  pages := rfl
  pc := fun _ => rfl
  held := rfl

/-- The cache `generic-512`. -/
def generic512 : Cache where
  object_size := 512
  chunk_size := 512
  slab_size := 4096
  offset := 504
  object_align := 8
  maxcolor := 480
  magtype := ⟨3, 256⟩

/-- A buffer is allocated from a new slab, and freed into a new magazine. -/
def allocFree : List (Action Unit Unit) :=
  [.kmem_cache_alloc () (), .run (), .run (), .run (), .slab_create () 4096, .run (),
    .kmem_cache_free () () 7176, .run (), .run (), .new_mag () (some 1), .run (), .run (), .run (),
    .run (), .run ()]

theorem slab_no_buffer_lost_allocFree :
    ∃ s : State Unit Unit, Reachable (system generic512) s ∧ s.slabs.Carved generic512 7176 ∧
      BufferAt generic512 s 7176 (.round 1 0) ∧ ∃! a, BufferAt generic512 s 7176 a := by
  obtain ⟨s, hexec, hpages, hbuf, hfilled, hround⟩ : ∃ s : State Unit Unit,
      exec (system generic512) initial allocFree = some s ∧ s.slabs.pages = {4096} ∧
      7176 ∈ buffers generic512 s.slabs 4096 ∧ s.magazines.filled 1 = 1 ∧
      s.magazines.rounds 1 0 = 7176 := by decide +kernel
  have hreach : Reachable (system generic512) s := .of_exec init_initial hexec
  have hcarved : s.slabs.Carved generic512 7176 := ⟨4096, by simp [hpages], hbuf⟩
  have hcreate : kmem_cache_create 512 0 = some generic512 := by decide +kernel
  exact ⟨s, hreach, hcarved, ⟨by rw [hfilled]; exact Nat.one_pos, hround⟩,
    (slab_no_buffer_lost hcreate (by decide) (by decide) hreach).1 7176 hcarved⟩

/-! ### Chunks that do not hold a pointer -/

/-- `kmem_cache_create("x", 4, 4, NULL, NULL)` -/
def tiny : Cache where
  object_size := 4
  chunk_size := 4
  slab_size := 4096
  offset := 0
  object_align := 4
  maxcolor := 0
  magtype := ⟨15, 0⟩

theorem tiny_created : ∃ s : State Unit Unit, Reachable (system tiny) s ∧
    s.slabs = initial.slabs.slab_create_small tiny 65536 ∧ s.pc () = .allocInsert 65536 ∧
    s.held = ∅ ∧ s.magazines.filled = (fun _ => 0) ∧ s.magazines_enabled = true := by
  obtain ⟨s, hexec, hslabs, hpc, hrest⟩ : ∃ s : State Unit Unit,
      exec (system tiny) initial [.kmem_cache_alloc () (), .run (), .run (), .run ()] = some s ∧
        s.slabs = initial.slabs ∧ s.pc () = .allocCreate ∧ s.held = ∅ ∧
        s.magazines.filled = (fun _ => 0) ∧ s.magazines_enabled = true :=
    ⟨_, rfl, rfl, rfl, rfl, rfl, rfl⟩
  have hW := W_eq
  have hfresh : Fresh s.slabs 65536 := by
    rw [hslabs]
    exact ⟨by decide, by decide, by rw [hW]; decide, by simp [initial]⟩
  have hstep : step tiny s (.slab_create () 65536) =
      some ((s.setSlabs (s.slabs.slab_create_small tiny 65536)).goto () (.allocInsert 65536)) := by
    simp only [step, hpc]
    exact if_pos ⟨by decide, hfresh⟩
  refine ⟨_, .step (.slab_create () 65536) (Reachable.of_exec init_initial hexec) trivial hstep, ?_,
    rfl, hrest⟩
  rw [hslabs]
  rfl

/-- The memory in front of the last two rounds of the loop. -/
def tinyMem : Mem := (carve tiny (zero (fun _ => 0) 65536 PAGE_SIZE) 65536 1014).1

theorem tiny_mem : (initial.slabs.slab_create_small tiny 65536).mem =
    write64 (write64 tinyMem 69592 69588) 69596 69592 := by
  have hcolor : nextColor tiny 0 = 0 := by decide +kernel
  have hcap : capacity tiny 0 = 1016 := by decide
  simp only [Slabs.slab_create_small, initial, hcolor, hcap]
  rfl

theorem tiny_buflist : (initial.slabs.slab_create_small tiny 65536).buflist 65536 = 69596 := by
  have hcolor : nextColor tiny 0 = 0 := by decide +kernel
  have hcap : capacity tiny 0 = 1016 := by decide
  simp only [Slabs.slab_create_small, initial, hcolor, hcap, Function.update_self]
  rfl

theorem tinyMem_above (hx : 70000 ≤ x) : tinyMem x = 0 := by
  refine (carve_outside _ fun i hi => Or.inr ?_).trans ?_
  · simp only [tiny]
    omega
  · simp [zero]

/-- Where the freelist goes behind its second `bufctl`. -/
def strayPointer : Nat := 69588 + 2 ^ 32 * 69592

theorem tiny_first : read64 (initial.slabs.slab_create_small tiny 65536).mem 69596 = 69592 := by
  rw [tiny_mem]
  exact read64_write64 (by decide)

theorem tiny_second :
    read64 (initial.slabs.slab_create_small tiny 65536).mem 69592 = strayPointer := by
  have hdigits : ∀ i < 8, write64 (write64 tinyMem 69592 69588) 69596 69592 (69592 + i) =
      BitVec.ofNat 8 (strayPointer / 256 ^ i) := by
    intro i hi
    interval_cases i <;> rfl
  rw [tiny_mem, read64, readBytes_digits hdigits]
  decide

theorem tiny_stray : read64 (initial.slabs.slab_create_small tiny 65536).mem strayPointer = 0 := by
  have hdigits : ∀ i < 8, write64 (write64 tinyMem 69592 69588) 69596 69592 (strayPointer + i) =
      BitVec.ofNat 8 (0 / 256 ^ i) := by
    intro i hi
    have hfar : 70000 ≤ strayPointer + i := by
      simp only [strayPointer]
      omega
    rw [write64_outside (by omega), write64_outside (by omega), tinyMem_above hfar, Nat.zero_div]
    rfl
  rw [tiny_mem, read64, readBytes_digits hdigits, Nat.zero_mod]

theorem tiny_reach (h : Reach (initial.slabs.slab_create_small tiny 65536).mem 69596 p) :
    p = 69596 ∨ p = 69592 ∨ p = strayPointer := by
  induction h with
  | head _ => exact .inl rfl
  | next _ hne ih =>
    rcases ih with rfl | rfl | rfl
    · rw [tiny_first]
      exact .inr (.inl rfl)
    · rw [tiny_second]
      exact .inr (.inr rfl)
    · exact absurd tiny_stray hne

/-- A cache with chunks of four bytes: once the first slab is created, its
first buffer is neither outstanding nor in a magazine nor on a freelist. -/
theorem slab_buffers_lost_small_chunks : kmem_cache_create 4 4 = some tiny ∧
    ∃ s : State Unit Unit, Reachable (system tiny) s ∧ s.magazines_enabled = true ∧
      s.slabs.Carved tiny 65536 ∧ ∀ a, ¬ BufferAt tiny s 65536 a := by
  refine ⟨by decide +kernel, ?_⟩
  obtain ⟨s, hreach, hslabs, hpc, hheld, hfilled, henabled⟩ := tiny_created
  have hpages : s.slabs.pages = {65536} := by rw [hslabs]; rfl
  refine ⟨s, hreach, henabled, ⟨65536, by simp [hpages], ?_⟩, fun a hat => ?_⟩
  · rw [hslabs, buffers, mem_bufs]
    exact ⟨0, by decide +kernel, by decide +kernel⟩
  · cases a with
    | held => simp [BufferAt, hheld] at hat
    | freeing t => simp [BufferAt, hpc, Pc.buf] at hat
    | round mag i => simp [BufferAt, hfilled] at hat
    | freelist slab =>
      obtain ⟨hslab, hr⟩ := hat
      rw [hpages, Finset.mem_singleton] at hslab
      rw [hslab, hslabs, tiny_buflist] at hr
      have hp := tiny_reach hr
      simp only [tiny, strayPointer] at hp
      omega

end Slab
