import Mathlib.Data.List.GetD
import Mathlib.Data.List.Intervals
import Dufay.Wait.Steps

/-! # Waiting without waiting

`wait_any` with a timeout of `0`, by a thread that nobody interferes with:
for any objects, in any state of their counts and of the waits on them.
`semaphore_acquire` is such a call, on one object.
-/

open Lts Tailq Function

namespace Wait

open Waitblock

open Ule (WaitStatus)

variable {cfg : Config} {s s₀ s' : State} {q : Oid → List Waitblock} {t : Nat} {objects : List Nat}

/-! ### The call -/

/-- `wait_any(count, objects, 0)` -/
def poll (s : State) (t : Nat) (objects : List Nat) : Call := ⟨objects, 0, .wait_any, s.calls t⟩

def Steps (cfg : Config) (t : Nat) (s s' : State) : Prop := step cfg s (.run t) = some s'

/-- From `s` the call of the thread has got to `s'`, and nobody else has done
anything. -/
def Calls (cfg : Config) (t : Nat) (objects : List Nat) (s s' : State) : Prop :=
  ∃ s₁, step cfg s (.wait_any t objects 0) = some s₁ ∧ Relation.ReflTransGen (Steps cfg t) s₁ s'

/-- The lists of the objects are `q`, no waitblock of the thread is in one,
and nobody is about to signal one of `objects`. -/
structure Ready (s : State) (q : Oid → List Waitblock) (t : Nat) (objects : List Nat) : Prop where
  pc : s.pc t = .idle
  panic : s.panic = none
  represents : Represents s.links q
  unlinked : ∀ o i, internal t i ∉ q o
  lock : ∀ k ∈ objects, s.lock (.obj k) = none
  -- the counts are 32 bits wide
  range : ∀ k ∈ objects, s.signaled_count (.obj k) < 2 ^ 31

/-- The first object that is signaled. -/
def first_signaled (s : State) (objects : List Nat) : Option Nat :=
  objects.findIdx? fun k => 0 < s.signaled_count (.obj k)

/-- The counts, with one unit taken from the object if it is a
synchronization object. -/
def taken (cfg : Config) (count : Oid → Int) (k : Nat) : Oid → Int :=
  match cfg.type (.obj k) with
  | .notification => count
  | .synchronization => Function.update count (.obj k) (count (.obj k) - 1)

/-- The counts after a poll with this result. -/
def counts (cfg : Config) (s : State) (objects : List Nat) : Option Nat → Oid → Int
  | some n => taken cfg s.signaled_count (objects.getD n 0)
  | none => s.signaled_count

/-- From `s₀` to `s` the objects are unchanged, up to their lists and the
counts. -/
structure Same (count : Oid → Int) (s₀ s : State) : Prop where
  panic : s.panic = none
  signaled_count : s.signaled_count = count
  lock : s.lock = s₀.lock
  owner : s.owner = s₀.owner
  timer_state : s.timer_state = s₀.timer_state

/-- **A poll returns**: without a panic, the first object that is signaled
and `-1` if there is none; one unit of that object is taken and nothing
else is changed, in particular no waitblock is left in a list. -/
def Polls (cfg : Config) (s : State) (q : Oid → List Waitblock) (t : Nat) (objects : List Nat) :
    Prop :=
  ∃ s', Calls cfg t objects s s' ∧
    s'.pc t = .returned (poll s t objects) (first_signaled s objects) ∧
    Same (counts cfg s objects (first_signaled s objects)) s s' ∧ Represents s'.links q

/-! ### What is linked -/

/-- The waitblocks that the thread has installed, from `lo` to `hi`. -/
def installed (t : Nat) (objects : List Nat) (lo hi : Nat) (o : Oid) : List Waitblock :=
  ((List.Ico lo hi).filter fun j => .obj (objects.getD j 0) = o).map (.internal t)

/-- The lists with these waitblocks. -/
def linked (q : Oid → List Waitblock) (t : Nat) (objects : List Nat) (lo hi : Nat) (o : Oid) :
    List Waitblock :=
  q o ++ installed t objects lo hi o

theorem linked_self : linked q t objects i i = q := by
  funext o
  unfold linked installed
  rw [List.Ico.self_empty]
  exact List.append_nil _

theorem installed_succ : installed t objects 0 (i + 1) o =
      installed t objects 0 i o ++ if Oid.obj (objects.getD i 0) = o then [.internal t i] else
        [] := by
  unfold installed
  rw [List.Ico.succ_top (Nat.zero_le i), List.filter_append, List.map_append]
  congr 1
  by_cases ho : Oid.obj (objects.getD i 0) = o
  · rw [if_pos ho, List.filter_cons, if_pos (decide_eq_true ho)]
    rfl
  · rw [if_neg ho, List.filter_cons, if_neg fun h => ho (of_decide_eq_true h)]
    rfl

theorem installed_cons (h : lo < hi) : installed t objects lo hi o =
      (if Oid.obj (objects.getD lo 0) = o then [.internal t lo] else []) ++
        installed t objects (lo + 1) hi o := by
  unfold installed
  rw [List.Ico.eq_cons h]
  by_cases ho : Oid.obj (objects.getD lo 0) = o
  · rw [if_pos ho, List.filter_cons, if_pos (decide_eq_true ho)]
    rfl
  · rw [if_neg ho, List.filter_cons, if_neg fun h => ho (of_decide_eq_true h)]
    rfl

theorem linked_succ (i : Nat) : update (linked q t objects 0 i) (.obj (objects.getD i 0))
        (linked q t objects 0 i (.obj (objects.getD i 0)) ++ [.internal t i]) =
      linked q t objects 0 (i + 1) := by
  funext o
  by_cases ho : o = .obj (objects.getD i 0)
  · subst ho
    rw [update_self]
    unfold linked
    rw [installed_succ, if_pos rfl, List.append_assoc]
  · rw [update_of_ne ho]
    unfold linked
    rw [installed_succ, if_neg (Ne.symm ho), List.append_nil]

theorem linked_cons (hq : ∀ o i, internal t i ∉ q o) (h : lo < hi) :
    update (linked q t objects lo hi) (.obj (objects.getD lo 0))
        ((linked q t objects lo hi (.obj (objects.getD lo 0))).erase (.internal t lo)) =
      linked q t objects (lo + 1) hi := by
  funext o
  by_cases ho : o = .obj (objects.getD lo 0)
  · subst ho
    rw [update_self]
    unfold linked
    rw [List.erase_append_right _ (hq _ lo), installed_cons h, if_pos rfl]
    rw [List.singleton_append, List.erase_cons_head]
  · rw [update_of_ne ho]
    unfold linked
    rw [installed_cons h, if_neg (Ne.symm ho), List.nil_append]

theorem mem_linked_lo (h : lo < hi) :
    internal t lo ∈ linked q t objects lo hi (.obj (objects.getD lo 0)) := by
  unfold linked
  rw [installed_cons h, if_pos rfl]
  exact List.mem_append_right _ (List.mem_cons_self ..)

theorem not_mem_linked_hi (hq : ∀ o i, internal t i ∉ q o) (lo hi : Nat) (o : Oid) :
    internal t hi ∉ linked q t objects lo hi o := by
  unfold linked installed
  rw [List.mem_append, not_or]
  refine ⟨hq o hi, fun h => ?_⟩
  obtain ⟨j, hj, heq⟩ := List.mem_map.mp h
  obtain rfl : j = hi := (internal.inj heq).2
  exact absurd (List.Ico.mem.mp (List.mem_filter.mp hj).1).2 (Nat.lt_irrefl j)

/-! ### The first loop -/

section Poll

variable {c : Call}

structure Call.Poll (c : Call) (objects : List Nat) : Prop where
  objects : c.objects = objects
  timeout : c.timeout = 0

theorem Call.Poll.timed (h : c.Poll objects) : c.timed = false := by
  unfold Call.timed
  rw [h.timeout]
  rfl

theorem Call.Poll.count (h : c.Poll objects) : c.count = objects.length := by
  unfold Call.count
  rw [h.timed, h.objects]
  rfl

theorem Call.Poll.object (h : c.Poll objects) (i : Nat) :
    c.object t i = .obj (objects.getD i 0) := by
  unfold Call.object Call.timer_i
  rw [h.timed, h.objects]
  rfl

theorem Call.Poll.waitblock (h : c.Poll objects) (i : Nat) : c.waitblock t i = .internal t i := by
  unfold Call.waitblock Call.timer_i
  rw [h.timed]
  rfl

/-- The call is about to look at object `i`. -/
structure Scanning (s₀ s : State) (q : Oid → List Waitblock) (t : Nat) (c : Call) (i : Nat) :
    Prop where
  pc : s.pc t = .scan c i
  status : s.status t = .inProgress
  represents : Represents s.links (linked q t c.objects 0 i)
  same : Same s₀.signaled_count s₀ s

theorem step_run (hpanic : s.panic = none) : step cfg s (.run t) = run cfg s t := by
  unfold step
  rw [hpanic]
  rfl

theorem Ready.begin (cfg : Config) (h : Ready s q t objects)
    (hlen : 0 < objects.length ∧ objects.length ≤ 4) :
    ∃ s', step cfg s (.wait_any t objects 0) = some s' ∧
      Scanning s s' q t (poll s t objects) 0 := by
  have htimed : (poll s t objects).timed = false := rfl
  refine ⟨begin_wait s t (poll s t objects), ?_, ?_⟩
  · unfold step
    rw [h.panic]
    exact if_pos ⟨h.pc, hlen⟩
  · unfold begin_wait
    rw [htimed]
    exact {
      pc := update_self ..
      status := update_self ..
      represents := by
        rw [linked_self]
        exact h.represents
      same := ⟨h.panic, rfl, rfl, rfl, rfl⟩ }

theorem getD_mem (hi : i < objects.length) : objects.getD i 0 ∈ objects := by
  rw [List.getD_eq_getElem _ _ hi]
  exact List.getElem_mem hi

variable (hc : c.Poll objects)
include hc

theorem Scanning.next (cfg : Config) (h : Scanning s₀ s q t c i) (hi : i < objects.length)
    (hq : ∀ o i, internal t i ∉ q o) (hlock : s₀.lock (.obj (objects.getD i 0)) = none)
    (hcount : ¬ 0 < s₀.signaled_count (.obj (objects.getD i 0))) :
    ∃ s', Steps cfg t s s' ∧ Scanning s₀ s' q t c (i + 1) := by
  let o := Oid.obj (objects.getD i 0)
  let wb := internal t i
  let s' := { s with
    links := s.links.insertTail o wb
    wb_status := update s.wb_status wb .active }.setPc t (.scan c (i + 1))
  rw [← h.same.lock] at hlock
  rw [← h.same.signaled_count] at hcount
  refine ⟨s', ?_, ?_⟩
  · unfold Steps
    rw [step_run h.same.panic, run, h.pc]
    dsimp only
    rw [scan, if_pos (hc.count.symm ▸ hi), hc.object, hc.waitblock]
    rw [if_neg (not_not_intro hlock), if_neg hcount]
  · exact {
      pc := update_self ..
      status := h.status
      represents := by
        have hins := h.represents.insertTail (h := o) (not_mem_linked_hi hq 0 i)
        rw [hc.objects, linked_succ] at hins
        rw [hc.objects]
        exact hins
      same := ⟨h.same.panic, h.same.signaled_count, h.same.lock, h.same.owner,
        h.same.timer_state⟩ }

theorem Scanning.upTo (cfg : Config) (h : Scanning s₀ s q t c 0) (hn : n ≤ objects.length)
    (hq : ∀ o i, internal t i ∉ q o) (hlock : ∀ k ∈ objects, s₀.lock (.obj k) = none)
    (hcount : ∀ i < n, ¬ 0 < s₀.signaled_count (.obj (objects.getD i 0))) :
    ∃ s', Relation.ReflTransGen (Steps cfg t) s s' ∧ Scanning s₀ s' q t c n := by
  induction n with
  | zero => exact ⟨s, .refl, h⟩
  | succ n ih =>
    obtain ⟨s₁, hsteps, h₁⟩ := ih (Nat.le_of_succ_le hn) fun i hi => hcount i (Nat.lt_succ_of_lt hi)
    have hmem := getD_mem hn
    obtain ⟨s', hstep, h'⟩ := h₁.next hc cfg hn hq (hlock _ hmem) (hcount n n.lt_succ_self)
    exact ⟨s', hsteps.tail hstep, h'⟩

/-! ### An object is signaled -/

/-- The call has taken object `n` and is about to remove waitblock `i`. -/
structure Backing (count : Oid → Int) (s₀ s : State) (q : Oid → List Waitblock) (t : Nat) (c : Call)
    (n i : Nat) : Prop where
  pc : s.pc t = .backout c n i
  represents : Represents s.links (linked q t c.objects i n)
  same : Same count s₀ s

omit hc in
theorem signaled_count_consume (hpos : 0 < s.signaled_count (.obj k))
    (hrange : s.signaled_count (.obj k) < 2 ^ 31) :
    (dispatch_object_consume cfg s (.obj k) t).signaled_count = taken cfg s.signaled_count k := by
  have hint : toInt32 (s.signaled_count (.obj k) - 1) = s.signaled_count (.obj k) - 1 := by
    unfold toInt32
    exact Int.bmod_eq_of_le (by omega) (by omega)
  unfold dispatch_object_consume taken
  cases cfg.type (.obj k) with
  | notification => rfl
  | synchronization =>
    exact congrArg (update s.signaled_count (.obj k)) hint

theorem Scanning.take (cfg : Config) (h : Scanning s₀ s q t c n) (hn : n < objects.length)
    (hlock : s₀.lock (.obj (objects.getD n 0)) = none)
    (hcount : 0 < s₀.signaled_count (.obj (objects.getD n 0)))
    (hrange : s₀.signaled_count (.obj (objects.getD n 0)) < 2 ^ 31) :
    ∃ s', Relation.ReflTransGen (Steps cfg t) s s' ∧
      Backing (taken cfg s₀.signaled_count (objects.getD n 0)) s₀ s' q t c n 0 := by
  rw [← h.same.lock] at hlock
  rw [← h.same.signaled_count] at hcount hrange ⊢
  let o := Oid.obj (objects.getD n 0)
  let s₁ := dispatch_object_consume cfg (satisfy s t o none) o t
  have hpanic : s₁.panic = s.panic := consume_panic ..
  have hlock₁ : s₁.lock = s.lock := consume_lock ..
  have howner : s₁.owner = s.owner := consume_owner ..
  have htimer : s₁.timer_state = s.timer_state := consume_timer_state ..
  have hlinks : s₁.links = s.links := consume_links ..
  have hstatus : s₁.status = (satisfy s t o none).status := consume_status ..
  have hsatisfied : (s₁.setPc t (.check c (some n))).status t = .satisfied := by
    show s₁.status t = .satisfied
    rw [hstatus]
    exact update_self ..
  have hscan : Steps cfg t s (s₁.setPc t (.check c (some n))) := by
    unfold Steps
    rw [step_run h.same.panic, run, h.pc]
    dsimp only
    rw [scan, if_pos (hc.count.symm ▸ hn), hc.object]
    rw [if_neg (not_not_intro hlock), if_pos hcount, if_pos h.status]
  have hcheck : Steps cfg t (s₁.setPc t (.check c (some n)))
      ((s₁.setPc t (.check c (some n))).setPc t (.backout c n 0)) := by
    unfold Steps
    rw [step_run (s := s₁.setPc t (.check c (some n))) (hpanic.trans h.same.panic), run]
    rw [show (s₁.setPc t (.check c (some n))).pc t = .check c (some n) from update_self ..]
    dsimp only
    rw [check, if_pos (.inl (Option.some_ne_none n)), if_neg (not_not_intro hsatisfied)]
  refine ⟨_, .tail (.single hscan) hcheck, ?_⟩
  exact {
    pc := update_self ..
    represents := by
      show Represents s₁.links _
      rw [hlinks]
      exact h.represents
    same :=
      { panic := hpanic.trans h.same.panic
        signaled_count := signaled_count_consume hcount hrange
        lock := hlock₁.trans h.same.lock
        owner := howner.trans h.same.owner
        timer_state := htimer.trans h.same.timer_state } }

theorem Backing.next (cfg : Config)
    (h : Backing count s₀ s q t c n i) (hi : i < n) (hq : ∀ o i, internal t i ∉ q o)
    (hlock : s₀.lock (.obj (objects.getD i 0)) = none) :
    ∃ s', Steps cfg t s s' ∧ Backing count s₀ s' q t c n (i + 1) := by
  let o := Oid.obj (objects.getD i 0)
  let wb := internal t i
  let s' := { s with
    wb_status := update s.wb_status wb .inactive
    links := s.links.remove o wb }.setPc t (.backout c n (i + 1))
  rw [← h.same.lock] at hlock
  refine ⟨s', ?_, ?_⟩
  · unfold Steps
    rw [step_run h.same.panic, run, h.pc]
    dsimp only
    rw [backout, if_pos hi, hc.objects]
    rw [if_neg (not_not_intro hlock)]
  · exact {
      pc := update_self ..
      represents := by
        have hrep := h.represents
        rw [hc.objects] at hrep ⊢
        have hrem := hrep.remove (mem_linked_lo hi)
        rw [linked_cons hq hi] at hrem
        exact hrem
      same := ⟨h.same.panic, h.same.signaled_count, h.same.lock, h.same.owner,
        h.same.timer_state⟩ }

theorem Backing.upTo (cfg : Config) (h : Backing count s₀ s q t c n 0)
    (hn : n ≤ objects.length) (hq : ∀ o i, internal t i ∉ q o)
    (hlock : ∀ k ∈ objects, s₀.lock (.obj k) = none) (hi : i ≤ n) :
    ∃ s', Relation.ReflTransGen (Steps cfg t) s s' ∧ Backing count s₀ s' q t c n i := by
  induction i with
  | zero => exact ⟨s, .refl, h⟩
  | succ i ih =>
    obtain ⟨s₁, hsteps, h₁⟩ := ih (Nat.le_of_succ_le hi)
    have hmem := getD_mem (Nat.lt_of_lt_of_le hi hn)
    obtain ⟨s', hstep, h'⟩ := h₁.next hc cfg hi hq (hlock _ hmem)
    exact ⟨s', hsteps.tail hstep, h'⟩

theorem poll_returns (cfg : Config) (h : Scanning s₀ s q t c 0) (hready : Ready s₀ q t objects)
    (hn : n < objects.length) (hcount : 0 < s₀.signaled_count (.obj (objects.getD n 0)))
    (hfirst : ∀ i < n, ¬ 0 < s₀.signaled_count (.obj (objects.getD i 0))) :
    ∃ s', Relation.ReflTransGen (Steps cfg t) s s' ∧ s'.pc t = .returned c (some n) ∧
      Same (taken cfg s₀.signaled_count (objects.getD n 0)) s₀ s' ∧ Represents s'.links q := by
  have hmem := getD_mem hn
  obtain ⟨s₁, hscan, h₁⟩ := h.upTo hc cfg hn.le hready.unlinked hready.lock hfirst
  obtain ⟨s₂, htake, h₂⟩ := h₁.take hc cfg hn (hready.lock _ hmem) hcount (hready.range _ hmem)
  obtain ⟨s₃, hback, h₃⟩ := h₂.upTo hc cfg hn.le hready.unlinked hready.lock le_rfl
  have hreturn : Steps cfg t s₃ (s₃.setPc t (.returned c (some n))) := by
    unfold Steps
    rw [step_run h₃.same.panic, run, h₃.pc]
    dsimp only
    rw [backout, if_neg (Nat.lt_irrefl n)]
  refine ⟨_, ((hscan.trans htake).trans hback).tail hreturn, update_self .., ?_, ?_⟩
  · exact ⟨h₃.same.panic, h₃.same.signaled_count, h₃.same.lock, h₃.same.owner, h₃.same.timer_state⟩
  · have hrep := h₃.represents
    rw [linked_self] at hrep
    exact hrep

/-! ### No object is signaled -/

/-- Nothing is signaled, and the call is in the first loop or behind it. -/
structure Stuck (s : State) (t : Nat) (c : Call) : Prop where
  pc : (∃ i, s.pc t = .scan c i) ∨ s.pc t = .check c none
  status : s.status t = .inProgress
  count : ∀ k ∈ c.objects, ¬ 0 < s.signaled_count (.obj k)

theorem Scanning.stuck (h : Scanning s₀ s q t c i)
    (hcount : ∀ k ∈ objects, ¬ 0 < s₀.signaled_count (.obj k)) : Stuck s t c where
  pc := .inl ⟨i, h.pc⟩
  status := h.status
  count := by
    rw [h.same.signaled_count, hc.objects]
    exact hcount

theorem Stuck.scan (h : Stuck s t c) {i : Nat} (hscan : Wait.scan cfg s t c i = some s') :
    Stuck s' t c := by
  unfold Wait.scan at hscan
  split at hscan
  · next hi =>
    rw [hc.count] at hi
    have hcount := h.count (objects.getD i 0) (hc.objects.symm ▸ getD_mem hi)
    rw [hc.object, hc.waitblock] at hscan
    dsimp only at hscan
    rw [if_neg hcount] at hscan
    split at hscan
    · exact absurd hscan nofun
    · obtain rfl := Option.some.inj hscan
      exact ⟨.inl ⟨i + 1, update_self ..⟩, h.status, h.count⟩
  · obtain rfl := Option.some.inj hscan
    exact ⟨.inr (update_self ..), h.status, h.count⟩

theorem check_panics (hstatus : s.status t = .inProgress) :
    check s t c none = { s with panic := some .notSatisfied } := by
  unfold check
  rw [if_pos (.inr hc.timeout), if_pos (by rw [hstatus]; exact nofun)]

theorem Stuck.step (h : Stuck s t c) (hstep : Steps cfg t s s') : Stuck s' t c := by
  unfold Steps Wait.step at hstep
  split at hstep
  · exact absurd hstep nofun
  · change run cfg s t = some s' at hstep
    unfold run at hstep
    obtain ⟨i, hpc⟩ | hpc := h.pc
    · rw [hpc] at hstep
      exact h.scan hc hstep
    · rw [hpc] at hstep
      dsimp only at hstep
      rw [check_panics hc h.status] at hstep
      obtain rfl := Option.some.inj hstep
      exact ⟨.inr hpc, h.status, h.count⟩

theorem Stuck.steps (h : Stuck s t c) (hsteps : Relation.ReflTransGen (Steps cfg t) s s') :
    Stuck s' t c := by
  induction hsteps with
  | refl => exact h
  | tail _ hstep ih => exact ih.step hc hstep

omit hc in
theorem Stuck.not_returned (h : Stuck s t c) (r : Option Nat) : s.pc t ≠ .returned c r := by
  obtain ⟨i, hpc⟩ | hpc := h.pc
  all_goals
    rw [hpc]
    exact nofun

/-- **With no object that is signaled** the call panics, and the waitblocks
that it installed are still in the lists. -/
theorem poll_panics (cfg : Config) (h : Scanning s₀ s q t c 0) (hready : Ready s₀ q t objects)
    (hcount : ∀ k ∈ objects, ¬ 0 < s₀.signaled_count (.obj k)) :
    ∃ s', Relation.ReflTransGen (Steps cfg t) s s' ∧ s'.panic = some .notSatisfied ∧
      Represents s'.links (linked q t objects 0 objects.length) := by
  have hnone : ∀ i < objects.length, ¬ 0 < s₀.signaled_count (.obj (objects.getD i 0)) :=
    fun i hi => hcount _ (getD_mem hi)
  obtain ⟨s₁, hscan, h₁⟩ := h.upTo hc cfg le_rfl hready.unlinked hready.lock hnone
  have hend : Steps cfg t s₁ (s₁.setPc t (.check c none)) := by
    unfold Steps
    rw [step_run h₁.same.panic, run, h₁.pc]
    dsimp only
    rw [Wait.scan, if_neg (by rw [hc.count]; exact Nat.lt_irrefl _)]
  have hcheck : Steps cfg t (s₁.setPc t (.check c none))
      { s₁.setPc t (.check c none) with panic := some .notSatisfied } := by
    unfold Steps
    rw [step_run (s := s₁.setPc t (.check c none)) h₁.same.panic, run]
    rw [show (s₁.setPc t (.check c none)).pc t = .check c none from update_self ..]
    dsimp only
    rw [check_panics (s := s₁.setPc t (.check c none)) hc h₁.status]
  refine ⟨_, (hscan.tail hend).tail hcheck, rfl, ?_⟩
  have hrep := h₁.represents
  rw [hc.objects] at hrep
  exact hrep

end Poll

/-! ### Polls that return -/

theorem poll_poll (s : State) (t : Nat) (objects : List Nat) : (poll s t objects).Poll objects :=
  ⟨rfl, rfl⟩

/-- **A poll returns if there is something to take**: `wait_any` with a
timeout of `0` returns what it should exactly if one of the objects is
signaled. Otherwise it panics. -/
theorem wait_any_polls_iff (cfg : Config) (s : State) (q : Oid → List Waitblock) (t : Nat)
    (objects : List Nat) (hready : Ready s q t objects)
    (hlen : 0 < objects.length ∧ objects.length ≤ 4) :
    Polls cfg s q t objects ↔ ∃ k ∈ objects, 0 < s.signaled_count (.obj k) := by
  have hc := poll_poll s t objects
  obtain ⟨s₁, hcall, hscanning⟩ := hready.begin cfg hlen
  constructor
  · intro ⟨s', ⟨s₂, hcall', hsteps⟩, hpc, _⟩
    obtain rfl : s₂ = s₁ := Option.some.inj (hcall'.symm.trans hcall)
    by_contra hnone
    have hstuck := hscanning.stuck hc fun k hk hpos => hnone ⟨k, hk, hpos⟩
    exact (hstuck.steps hc hsteps).not_returned _ hpc
  · intro ⟨k, hk, hpos⟩
    have hsome : (first_signaled s objects).isSome := by
      unfold first_signaled
      rw [List.findIdx?_isSome, List.any_eq_true]
      exact ⟨k, hk, decide_eq_true hpos⟩
    obtain ⟨n, hfirst⟩ := Option.isSome_iff_exists.mp hsome
    obtain ⟨hn, hcount, hbefore⟩ := List.findIdx?_eq_some_iff_getElem.mp hfirst
    obtain ⟨s', hsteps, hpc, hsame, hrep⟩ := poll_returns (n := n) hc cfg hscanning hready hn
      (by rw [List.getD_eq_getElem _ _ hn]; exact of_decide_eq_true hcount)
      (by
        intro i hi
        rw [List.getD_eq_getElem _ _ (hi.trans hn)]
        exact fun h => hbefore i hi (decide_eq_true h))
    refine ⟨s', ⟨s₁, hcall, hsteps⟩, ?_, ?_, hrep⟩
    · rw [hfirst]
      exact hpc
    · rw [hfirst]
      exact hsame

theorem boot_ready (cfg : Config) (t : Nat) (objects : List Nat) :
    Ready (boot cfg) (fun _ => []) t objects where
  pc := rfl
  panic := rfl
  represents :=
    { seg := fun _ => ⟨rfl, rfl⟩
      nodup := fun _ => List.nodup_nil
      disjoint := fun _ _ _ h => absurd h List.not_mem_nil }
  unlinked _ _ := List.not_mem_nil
  lock _ _ := rfl
  range k _ := by
    show cfg.initial_count (.obj k) < 2 ^ 31
    unfold Config.initial_count
    dsimp only
    cases cfg.kind k with
    | mutex => exact (by decide : (1 : Int) < 2 ^ 31)
    | semaphore => exact (cfg.initial_range k).2
    | timer => exact (by decide : (0 : Int) < 2 ^ 31)

/-- Semaphore 1 has two units, and the others have none. -/
def twoUnits : Config where
  kind _ := .semaphore
  initial k := if k = 1 then 2 else 0
  initial_range k := by
    by_cases hk : k = 1
    · rw [if_pos hk]
      decide
    · rw [if_neg hk]
      decide

theorem wait_any_polls_iff_twoUnits : Ready (boot twoUnits) (fun _ => []) 0 [0, 1] ∧
      (Polls twoUnits (boot twoUnits) (fun _ => []) 0 [0, 1] ↔
        ∃ k ∈ [0, 1], 0 < (boot twoUnits).signaled_count (.obj k)) :=
  ⟨boot_ready twoUnits 0 [0, 1], wait_any_polls_iff twoUnits (boot twoUnits) (fun _ => []) 0 [0, 1]
      (boot_ready twoUnits 0 [0, 1]) (by decide)⟩

/-- `semaphore_acquire` of a semaphore without a unit does not return: it
panics, and its waitblock stays in the list of the semaphore. -/
theorem semaphore_acquire_panics : Ready (boot twoUnits) (fun _ => []) 0 [0] ∧
      ¬ Polls twoUnits (boot twoUnits) (fun _ => []) 0 [0] ∧
      ∃ s', Calls twoUnits 0 [0] (boot twoUnits) s' ∧ s'.panic = some .notSatisfied ∧
        s'.links.first (.obj 0) = some (.internal 0 0) := by
  have hready := boot_ready twoUnits 0 [0]
  have hc := poll_poll (boot twoUnits) 0 [0]
  have hcount : ∀ k ∈ [0], ¬ 0 < (boot twoUnits).signaled_count (.obj k) := by
    intro k hk
    rw [List.mem_singleton.mp hk]
    decide
  obtain ⟨s₁, hcall, hscanning⟩ := hready.begin twoUnits (by decide)
  refine ⟨hready, ?_, ?_⟩
  · intro ⟨s', ⟨s₂, hcall', hsteps⟩, hpc, _⟩
    obtain rfl : s₂ = s₁ := Option.some.inj (hcall'.symm.trans hcall)
    exact ((hscanning.stuck hc hcount).steps hc hsteps).not_returned _ hpc
  · obtain ⟨s', hsteps, hpanic, hrep⟩ := poll_panics hc twoUnits hscanning hready hcount
    exact ⟨s', ⟨s₁, hcall, hsteps⟩, hpanic, hrep.first_eq (.obj 0)⟩

end Wait
