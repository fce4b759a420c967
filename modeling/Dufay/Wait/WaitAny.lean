import Dufay.Wait.Kept

/-! # What `wait_any` guarantees

Three results about every clean run, each with a run that is not clean and
violates it.

All three runs go wrong in the back-out of the scan, which removes a
waitblock that a signaller has popped a second time.
-/

open Lts Tailq

namespace Wait

open Ule (WaitStatus)

variable {cfg : Config} {s s' : State} {t : Nat}

/-! ### Runs over semaphores -/

/-- All objects are semaphores; number 1 starts with the given count, the
others with 0. -/
def semaphores (count : Fin 2) : Config where
  kind := fun _ => .semaphore
  initial := fun k => if k = 1 then count.val else 0
  initial_range := fun k => by
    have := count.isLt
    split <;> omega

/-- Thread `t` releases semaphore `k`, which takes `n` steps behind the
entry. -/
def releaseRun (t k n : Nat) : List Action :=
  .semaphore_release t k :: List.replicate n (.signal (.obj k))

/-- Thread 0 waits for semaphores 0 and 1. Semaphore 1 is signaled, and the
call backs out of semaphore 0. -/
def backoutRun : List Action := [.wait_any 0 [0, 1] (-1), .run 0, .run 0, .run 0]

/-- Thread 0 waits for semaphores 0 and 1. While it scans, semaphore 0 is
released and satisfies the wait, and then semaphore 1 is released. The
scan finds semaphore 1 signaled and backs out. -/
def overtakenRun : List Action :=
  [.wait_any 0 [0, 1] (-1), .run 0] ++ releaseRun 1 0 3 ++ releaseRun 1 1 2 ++ [.run 0, .run 0]

/-- Thread 0 waits for semaphores 0 and 1, thread 1 for 2 and 0. Thread 0
takes semaphore 1; the release of semaphore 0 pops the waitblock of
thread 0, which is satisfied already, and then that of thread 1. When
thread 0 backs out, it links the waitblock of thread 1 again. Thread 1
returns and waits for semaphore 2 alone; the next release of semaphore 0
wakes it. -/
def relinkedRun : List Action :=
  [.wait_any 0 [0, 1] (-1), .run 0, .wait_any 1 [2, 0] (-1), .run 1, .run 1, .run 0] ++
    releaseRun 2 0 7 ++ [.run 0, .run 0] ++ List.replicate 7 (.run 1) ++
    [.wait_any 1 [2] (-1), .run 1, .run 1, .run 1, .run 1] ++ releaseRun 2 0 4

/-! ### The object that is reported -/

/-- **`wait_any` reports the object it consumed**, in every clean run: when
a call returns index `i`, exactly one signal was delivered to it, from
object `i`, and no other object was decremented for it. -/
theorem wait_any_reports_consumed (hs : ReachableBy (system cfg) Clean s) {c : Call} {i : Nat}
    (hpc : s.pc t = .returned c (some i)) : (∃ via, s.delivered t = [(c.object t i, via)]) ∧
      ∀ o ∈ s.decremented t, o = c.object t i := by
  obtain ⟨q, hok⟩ := ok_of_reachable hs
  have hsig := (hok.thread t).signals
  rw [hpc] at hsig
  obtain ⟨via, hdl⟩ := hsig.2 i rfl
  refine ⟨⟨via, hdl⟩, ?_⟩
  intro o ho
  obtain ⟨via', hmem⟩ := (hok.thread t).decremented o ho
  rw [hdl, List.mem_singleton, Prod.mk.injEq] at hmem
  exact hmem.1

/-- In `backoutRun` the call returns index 1 and has consumed semaphore 1. -/
theorem wait_any_reports_backout : ∃ s c, execBy (system (semaphores 1)) Clean (boot (semaphores 1))
        (backoutRun ++ [.run 0, .run 0]) = some s ∧ s.pc 0 = .returned c (some 1) ∧
      (∃ via, s.delivered 0 = [(.obj 1, via)]) ∧ ∀ o ∈ s.decremented 0, o = .obj 1 := by
  have hrun : ∃ s c, execBy (system (semaphores 1)) Clean (boot (semaphores 1))
      (backoutRun ++ [.run 0, .run 0]) = some s ∧ s.pc 0 = .returned c (some 1) ∧
      c.object 0 1 = .obj 1 := ⟨_, _, rfl, rfl, rfl⟩
  obtain ⟨s, c, hs, hpc, hobj⟩ := hrun
  have hall := wait_any_reports_consumed (.of_execBy (.init (boot_init _)) hs) hpc
  rw [hobj] at hall
  exact ⟨s, c, hs, hpc, hall⟩

/-- **`wait_any` may report the wrong object**: in `overtakenRun` the call
returns index 1, but its signal came from semaphore 0. -/
theorem wait_any_reports_wrong : ¬ ∀ (cfg : Config) (s : State), ReachableBy (system cfg)
        (fun _ a => Starts (fun objects timeout => 2 ≤ objects.length ∧ timeout = -1) a) s →
      ∀ t c i, s.pc t = .returned c (some i) → (∃ via, s.delivered t = [(c.object t i, via)]) ∧
          ∀ o ∈ s.decremented t, o = c.object t i := by
  intro h
  obtain ⟨s, c, hs, hpc, hdec, hobj⟩ : ∃ s c, execBy (system (semaphores 0))
      (fun _ a => Starts (fun objects timeout => 2 ≤ objects.length ∧ timeout = -1) a)
      (boot (semaphores 0)) (overtakenRun ++ [.run 0, .run 0]) = some s ∧
      s.pc 0 = .returned c (some 1) ∧ s.decremented 0 = [.obj 0] ∧ c.object 0 1 = .obj 1 :=
    ⟨_, _, rfl, rfl, rfl, rfl⟩
  have hall := (h _ s (.of_execBy (.init (boot_init _)) hs) 0 c 1 hpc).2 (.obj 0)
    (by rw [hdec]; simp)
  rw [hobj] at hall
  cases hall

/-! ### Linkage -/

/-- The waitblock to which a step applies `TAILQ_REMOVE`, with the object
from whose list it is to be removed. -/
def removes (s : State) : Action → Option (Oid × Waitblock)
  | .signal o =>
    match s.lock o with
    | some (.signal _ .loop) =>
      if 0 < s.signaled_count o then (s.links.first o).map (fun wb => (o, wb)) else none
    | _ => none
  | .run t =>
    match s.pc t with
    | .backout c n i =>
      if i < n ∧ s.lock (.obj (c.objects.getD i 0)) = none then
        some (.obj (c.objects.getD i 0), .internal t i)
      else none
    | .final c i _ =>
      if i < c.count ∧ s.lock (c.object t i) = none ∧ s.wb_status (c.waitblock t i) = .active then
        some (c.object t i, c.waitblock t i)
      else none
    | _ => none
  | _ => none

theorem Ok.mem_of_removes (h : Ok s q)
    (hclean : Clean s a) (hr : removes s a = some (o, wb)) : wb ∈ q o := by
  cases a with
  | signal o' =>
    simp only [removes] at hr
    split at hr
    · split at hr
      · rw [Option.map_eq_some_iff] at hr
        obtain ⟨wb', hfirst, heq⟩ := hr
        cases heq
        rw [h.represents.first_eq] at hfirst
        exact List.mem_of_head? hfirst
      · cases hr
    · cases hr
  | run t =>
    have ht := h.thread t
    simp only [removes] at hr
    split at hr
    · -- the back-out: the waitblock is active, so it has not been popped
      next c n i hpc =>
      split at hr
      · next hi =>
        cases hr
        have hstat := ht.status
        rw [hpc] at hstat
        have hclean' : (s.pc t).Clean s t := hclean
        rw [hpc] at hclean'
        obtain ⟨hwb, hobj⟩ := index_of_lt t (show i + 1 < c.count by
          have := hstat.2.1
          omega)
        apply ht.mem_of_live rfl _ (hclean' hi.1) hi.2
        rw [hpc]
        exact ⟨i, le_refl i, hi.1, hwb.symm, hobj.symm⟩
      · cases hr
    · next c i sat hpc =>
      split at hr
      · next hi =>
        cases hr
        apply ht.mem_of_live (waitblock_thread c t i) _ hi.2.2 hi.2.1
        rw [hpc]
        exact ⟨i, le_refl i, hi.1, rfl, rfl⟩
      · cases hr
    · cases hr
  | _ => cases hr

/-- **Waitblock linkage**, in every clean run: `TAILQ_REMOVE` is applied only
to a waitblock that is linked in that object's list, and when a call
returns, no waitblock of its thread is linked anywhere. -/
theorem waitblock_linkage (hs : ReachableBy (system cfg) Clean s) :
    (∀ a o wb, Clean s a → removes s a = some (o, wb) → Linked s.links o wb) ∧
    ∀ t c result, s.pc t = .returned c result → ∀ o wb, wb.thread = t → ¬ Linked s.links o wb := by
  obtain ⟨q, hok⟩ := ok_of_reachable hs
  constructor
  · intro a o wb hclean hr
    rw [hok.represents.linked_iff]
    exact hok.mem_of_removes hclean hr
  · intro t c result hpc o wb hwb
    rw [hok.represents.linked_iff, (hok.thread t).linked o wb hwb, hpc]
    exact fun h => h.1

/-- The back-out of `backoutRun` finds its waitblock linked. -/
theorem waitblock_linkage_backout :
    ∃ s, execBy (system (semaphores 1)) Clean (boot (semaphores 1)) backoutRun = some s ∧
      removes s (.run 0) = some (.obj 0, .internal 0 0) ∧
      Linked s.links (.obj 0) (.internal 0 0) := by
  refine run_imp (fun s => Clean s (.run 0) ∧ removes s (.run 0) = some (.obj 0, .internal 0 0))
    (by decide +kernel) fun s hs ⟨hclean, hr⟩ => ⟨hr, ?_⟩
  exact (waitblock_linkage (.of_execBy (.init (boot_init _)) hs)).1 _ _ _ hclean hr

/-- **A waitblock is removed twice**: in `overtakenRun` the back-out applies
`TAILQ_REMOVE` to a waitblock that the signaller has popped. -/
theorem waitblock_removed_twice : ¬ ∀ (cfg : Config) (s : State), Reachable (system cfg) s →
      (∀ a s' o wb, step cfg s a = some s' → removes s a = some (o, wb) → Linked s.links o wb) ∧
      ∀ t c result, s.pc t = .returned c result →
        ∀ o wb, wb.thread = t → ¬ Linked s.links o wb := by
  intro h
  obtain ⟨s, hs, hstep, hr, hfirst⟩ : ∃ s, exec (system (semaphores 0)) (boot (semaphores 0))
      overtakenRun = some s ∧ (step (semaphores 0) s (.run 0)).isSome ∧
      removes s (.run 0) = some (.obj 0, .internal 0 0) ∧
      s.links.fwd (.first (.obj 0)) = none := by decide +kernel
  obtain ⟨s', hstep⟩ := Option.isSome_iff_exists.mp hstep
  have hlinked := (h _ s (.of_exec (boot_init _) hs)).1 _ _ _ _ hstep hr
  exact not_linked_of_first_none hfirst _ hlinked

/-! ### One satisfier -/

theorem panic_of_move (hmove : Moves cfg s a s') : s'.panic = s.panic ∨
    (∃ t c satisfier, s.pc t = .check c satisfier ∧ (satisfier ≠ none ∨ c.timeout = 0) ∧
      s.status t ≠ .satisfied) ∨ ∃ t c i j, s.pc t = .final c i (some j) ∧ i < c.count ∧
      s.wb_status (c.waitblock t i) = .signaled := by
  cases hmove with
  | wait_any _ _ _ | mutex_lock _ _ =>
    left
    unfold begin_wait
    split <;> rfl
  | timer_start _ =>
    rw [timer_start_eq]
    exact .inl rfl
  | case1 _ _ => exact .inl (by simp [satisfy_waitblock, satisfy])
  | case2 _ _ =>
    left
    unfold sched_wake
    split <;> simp [satisfy_waitblock, satisfy]
  | @release o who ret _ => exact .inl (by cases who <;> rfl)
  | scan_take _ _ _ _ _ => exact .inl (by simp [satisfy])
  | check_panic hpc hback hst => exact .inr (.inl ⟨_, _, _, hpc, hback, hst⟩)
  | final_panic hpc hi _ hwb => exact .inr (.inr ⟨_, _, _, _, hpc, hi, hwb⟩)
  | start _ _ =>
    rw [timer_start_eq]
    exact .inl rfl
  | @return_to t c _ _ => exact .inl (by cases hc : c.caller <;> rfl)
  | _ => exact .inl rfl

theorem Ok.one_signaled (h : Ok s q) (hpc : s.pc t = .final c i satisfier) :
    ∃ j < c.count, OneSignaled c t c.count j (s.delivered t) s.wb_status := by
  have hstat := (h.thread t).status
  have hsig := (h.thread t).signals
  rw [hpc] at hstat hsig
  exact hsig.1.2 hstat.2

/-- The waits of a run have a timeout other than 0, and its steps are
clean. -/
def Waits (s : State) (a : Action) : Prop := Starts (fun _ timeout => timeout ≠ 0) a ∧ Clean s a

instance (s : State) (a : Action) : Decidable (Waits s a) := inferInstanceAs (Decidable (_ ∧ _))

theorem panic_eq_none (hs : ReachableBy (system cfg) Waits s) : s.panic = none := by
  induction hs with
  | init h => exact h.panic
  | @step s s' a hr hok hstep ih =>
    obtain ⟨q, hinv⟩ := ok_of_reachable (hr.mono (fun _ _ h => h.2))
    rcases panic_of_move (moves_of_step hstep).2 with hsame | ⟨t, c, sat, hpc, hback, hst⟩ |
      ⟨t, c, i, j, hpc, hi, hwb⟩
    · rw [hsame]
      exact ih
    · exfalso
      cases sat with
      -- a scan that found a signaled object has a satisfied wait
      | some n =>
        have hstat := (hinv.thread t).status
        rw [hpc] at hstat
        exact hst hstat.2
      | none =>
        -- without one it panics for timeout 0 only, which no call of the run has
        have htimeout : c.timeout ≠ 0 :=
          call_of_reachable (P := fun _ timeout => timeout ≠ 0) (fun _ _ h => h.1) hr t c
            (by rw [hpc]; rfl)
        simp [htimeout] at hback
    · -- a second signaled waitblock would have to be the first one
      exfalso
      have hsig := (hinv.thread t).signals
      rw [hpc] at hsig
      obtain ⟨hj, hjc, hjs⟩ := (hsig.2 j).mp rfl
      obtain ⟨k, -, -, hone⟩ := hinv.one_signaled hpc
      have hik := (hone i hi).mp hwb
      have hjk := (hone j hjc).mp hjs
      omega

/-- The waitblocks that became `WAITBLOCK_SIGNALED` in the latest execution
of `wait_any` by thread `t`. -/
def signaled_waitblocks (s : State) (t : Nat) : List Waitblock := (s.delivered t).filterMap Prod.snd

/-- **One satisfier per wait**, in every clean run whose waits have a timeout
other than 0: neither panic is reached, at most one waitblock of an
execution becomes signaled, and at the final scan exactly one is, which
is one of the execution's own. -/
theorem satisfied_once (hs : ReachableBy (system cfg) Waits s) :
    s.panic = none ∧ (∀ t, (signaled_waitblocks s t).length ≤ 1) ∧
    ∀ t c i satisfier, s.pc t = .final c i satisfier →
      ∃ j < c.count, signaled_waitblocks s t = [c.waitblock t j] ∧
        ∀ k < c.count, s.wb_status (c.waitblock t k) = .signaled ↔ k = j := by
  refine ⟨panic_eq_none hs, ?_, ?_⟩
  · intro t
    exact le_trans (List.length_filterMap_le _ _) (signalOnce_of_reachable hs t).one
  · intro t c i satisfier hpc
    obtain ⟨q, hok⟩ := ok_of_reachable (hs.mono (fun _ _ h => h.2))
    obtain ⟨j, hj, hdl, hone⟩ := hok.one_signaled hpc
    refine ⟨j, hj, ?_, hone⟩
    simp [signaled_waitblocks, hdl]

/-- Thread 0 waits for semaphore 0, blocks, and is woken by a release. -/
def wokenRun : List Action :=
  [.wait_any 0 [0] (-1), .run 0, .run 0, .run 0, .run 0] ++ releaseRun 1 0 3

theorem satisfied_once_woken :
    ∃ s c, execBy (system (semaphores 0)) Waits (boot (semaphores 0)) wokenRun = some s ∧
      s.pc 0 = .final c 0 none ∧ s.panic = none ∧
      ∃ j < c.count, signaled_waitblocks s 0 = [c.waitblock 0 j] := by
  have hrun : ∃ s c, execBy (system (semaphores 0)) Waits (boot (semaphores 0)) wokenRun =
      some s ∧ s.pc 0 = .final c 0 none := ⟨_, _, rfl, rfl⟩
  obtain ⟨s, c, hs, hpc⟩ := hrun
  obtain ⟨hpanic, -, hfinal⟩ := satisfied_once (.of_execBy (.init (boot_init _)) hs)
  obtain ⟨j, hj, hone, -⟩ := hfinal 0 c 0 none hpc
  exact ⟨s, c, hs, hpc, hpanic, j, hj, hone⟩

/-- **A wait is satisfied by a waitblock that is not its own**: in
`relinkedRun` the second call of thread 1 reaches its final scan, and no
waitblock of the call is signaled. -/
theorem satisfied_by_none : ¬ ∀ (cfg : Config) (s : State),
      ReachableBy (system cfg) (fun _ a => Starts (fun _ timeout => timeout ≠ 0) a) s →
      s.panic = none ∧ (∀ t, (signaled_waitblocks s t).length ≤ 1) ∧
      ∀ t c i satisfier, s.pc t = .final c i satisfier →
        ∃ j < c.count, signaled_waitblocks s t = [c.waitblock t j] ∧
          ∀ k < c.count, s.wb_status (c.waitblock t k) = .signaled ↔ k = j := by
  intro h
  obtain ⟨s, c, hs, hpc, hcount, hwb⟩ : ∃ s c, execBy (system (semaphores 1))
      (fun _ a => Starts (fun _ timeout => timeout ≠ 0) a) (boot (semaphores 1)) relinkedRun =
        some s ∧ s.pc 1 = .final c 0 none ∧ c.count = 1 ∧
      s.wb_status (c.waitblock 1 0) = .active :=
    ⟨_, _, rfl, rfl, by decide +kernel, by decide +kernel⟩
  obtain ⟨-, -, hfinal⟩ := h _ s (.of_execBy (.init (boot_init _)) hs)
  obtain ⟨j, hj, -, hone⟩ := hfinal 1 c 0 none hpc
  -- the one waitblock of the call would have to be signaled
  have hj0 : j = 0 := by omega
  have hsig := (hone j hj).mpr rfl
  rw [hj0, hwb] at hsig
  cases hsig

end Wait
