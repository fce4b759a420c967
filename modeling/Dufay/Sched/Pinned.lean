import Dufay.Sched.CpuPlaces

/-! # Pinned threads

A thread that is pinned, was last on CPU `c` and has no place on another
CPU stays on `c` in every run (`StaysOn.run`): `pick_cpu` returns the last
CPU of a pinned thread, and what takes threads from another CPU leaves
pinned threads alone.
-/

open Lts

namespace Ule

open CpuLocal

open SchedPercpu

variable {n : Nat}

/-! ### Affinity -/

/-- What `pick_cpu` reads of a pinned thread. -/
def Thread.affinity (t : Thread n) : Bool × Option (Fin (n + 1)) := (t.pinned, t.last_cpu)

theorem setThread_affinity (h : t.affinity = (s.threads x).affinity) :
    ((setThread s x t).threads td).affinity = (s.threads td).affinity :=
  setThread_congr s (·.affinity) h td

theorem sched_insert_in_queue_affinity :
    ((sched_insert_in_queue s c x).threads td).affinity = (s.threads td).affinity := by
  unfold sched_insert_in_queue
  exact setThread_affinity rfl

theorem sched_try_preempt_affinity (s : State n) (c : Fin (n + 1)) (x td : Tid n) :
    ((sched_try_preempt s c x).threads td).affinity = (s.threads td).affinity := by
  unfold sched_try_preempt
  dsimp only
  split
  · split
    · exact sched_insert_in_queue_affinity
    · rfl
  · exact sched_insert_in_queue_affinity

theorem sched_switch_affinity (s : State n) (c : Fin (n + 1)) (cur next td : Tid n) :
    ((sched_switch s c cur next).threads td).affinity =
      if td = next then ((s.threads td).pinned, some c) else (s.threads td).affinity := by
  have hback : ((put_back s c cur).threads td).affinity = (s.threads td).affinity := by
    unfold put_back
    split
    · exact sched_insert_in_queue_affinity
    · rfl
  unfold sched_switch
  rw [switch_to_threads]
  by_cases htd : td = next
  · subst htd
    rw [Function.update_self, if_pos rfl]
    have hpinned : ((put_back s c cur).threads td).pinned = (s.threads td).pinned :=
      congrArg Prod.fst hback
    rw [← hpinned]
    rfl
  · rw [Function.update_of_ne htd, if_neg htd]
    exact hback

theorem Thread.Rated.affinity {t : Thread n} (h : t.Rated t') : t'.affinity = t.affinity := by
  obtain ⟨_, _, _, _, _, rfl⟩ := h
  rfl

theorem sched_reschedule_affinity (s : State n) (c : Fin (n + 1)) (td : Tid n) :
    ((sched_reschedule s c).threads td).affinity = (s.threads td).affinity := by
  rw [sched_reschedule_threads]
  by_cases htd : td = (s.cpus c).current_thread
  · rw [htd, Function.update_self]
    exact (charge_tick_rated _ _).affinity
  · rw [Function.update_of_ne htd]

/-! ### Staying on a CPU -/

/-- Thread `k` is pinned to `c` and has no place on another CPU. -/
structure StaysOn (s : State n) (k : Nat) (c : Fin (n + 1)) : Prop where
  affinity : (s.threads (.thread k)).affinity = (true, some c)
  elsewhere : ∀ d, d ≠ c → (s.cpus d).holds (.thread k) = 0

variable {s s' : State n} {k : Nat} {c d : Fin (n + 1)}

section

variable (h : StaysOn s k c)

include h

theorem StaysOn.not_queued (hd : d ≠ c) : (s.cpus d).sched_data.count (.thread k) = 0 := by
  have h0 := h.elsewhere d hd
  unfold holds off at h0
  omega

theorem StaysOn.of_cpu
    (haffinity : (s'.threads (.thread k)).affinity = (s.threads (.thread k)).affinity)
    (hne : ∀ e, e ≠ d → s'.cpus e = s.cpus e)
    (hd : d ≠ c → (s'.cpus d).holds (.thread k) ≤ (s.cpus d).holds (.thread k)) :
    StaysOn s' k c := by
  refine ⟨haffinity.trans h.affinity, fun e he => ?_⟩
  by_cases hed : e = d
  · subst hed
    have hle := hd he
    rw [h.elsewhere e he] at hle
    omega
  · rw [hne e hed]
    exact h.elsewhere e he

theorem StaysOn.sched_try_preempt
    (hx : x = .thread k → d = c) : StaysOn (sched_try_preempt s d x) k c := by
  refine h.of_cpu (sched_try_preempt_affinity s d x _)
    (fun e he => sched_try_preempt_cpus_ne s d x he) fun hd => ?_
  have hmoves := (sched_try_preempt_moves s d x).holds k
  rw [if_neg fun heq => hd (hx heq.symm)] at hmoves
  omega

theorem StaysOn.sched_ready (x : Tid n) : StaysOn (sched_ready s x) k c := by
  apply h.sched_try_preempt
  intro hx
  have hpinned : (s.threads x).pinned = true := by
    rw [hx]
    exact congrArg Prod.fst h.affinity
  have hlast : (s.threads x).last_cpu = some c := by
    rw [hx]
    exact congrArg Prod.snd h.affinity
  unfold pick_cpu
  rw [hlast, hpinned]
  simp

theorem StaysOn.sched_switch {x : Tid n} (hx : x = .thread k → d = c) :
    StaysOn (sched_switch s d (s.cpus d).current_thread x) k c := by
  refine h.of_cpu ?_ (fun e he => sched_switch_cpus_ne s _ x he) fun hd => ?_
  · rw [sched_switch_affinity]
    split
    · next heq =>
      rw [hx heq.symm, h.affinity]
      exact congrArg (·, some c) (congrArg Prod.fst h.affinity)
    · rfl
  · have hmoves := (sched_switch_moves s d x).holds k
    rw [if_neg fun heq => hd (hx heq.symm)] at hmoves
    omega

theorem StaysOn.setQueues (htakes : Takes (s.cpus d).sched_data x sd) :
    StaysOn (setCpu s d ((s.cpus d).setQueues sd)) k c := by
  refine h.of_cpu rfl (fun e he => setCpu_ne _ _ he) fun _ => ?_
  have hcount := htakes.count (.thread k)
  rw [setCpu_self]
  unfold holds
  rw [on_setQueues, off_setQueues, off]
  omega

theorem StaysOn.taken (htakes : Takes (s.cpus d).sched_data x sd) : x = .thread k → d = c := by
  intro hx
  by_contra hd
  have hcount := htakes.count (.thread k)
  rw [h.not_queued hd, if_pos hx.symm] at hcount
  omega

theorem StaysOn.sched_yield (d : Fin (n + 1)) : StaysOn (sched_yield s d) k c := by
  match hsel : (s.cpus d).sched_data.sched_select_thread s.pinned
      (some (s.threads (s.cpus d).current_thread).filter) false with
  | some (next, sd) =>
    have htakes := sched_select_thread_takes hsel
    rw [sched_yield_some hsel]
    have hsw := @StaysOn.sched_switch n _ k c d (h.setQueues htakes) next (h.taken htakes)
    rw [setCpu_self] at hsw
    exact hsw
  | none =>
    rw [sched_yield_none hsel]
    apply h.sched_switch
    intro heq
    cases heq

theorem StaysOn.sched_reschedule (d : Fin (n + 1)) : StaysOn (sched_reschedule s d) k c := by
  have hre := sched_reschedule_reschedules s d
  refine h.of_cpu (sched_reschedule_affinity s d _) hre.ne fun _ => ?_
  have hmoves := hre.moves.holds k
  omega

end

theorem sched_select_thread_not_pinned {sd : SchedPercpu (Tid n)}
    (h : sd.sched_select_thread pinned cur true = some (td, sd')) : pinned td = false := by
  have helig : Runqueue.eligible pinned true td = true := by
    obtain ⟨sd₁, ⟨_, hp⟩ | hp | hp, -⟩ := sched_select_thread_some h
    · obtain ⟨i, hcand, -⟩ := pick_realtime_thread_some hp
      exact Runqueue.eligible_of_candidate hcand
    · obtain ⟨i, hscan, -⟩ := pick_batch_thread_some hp
      exact Runqueue.eligible_of_candidate (Runqueue.candidate_of_scan hscan)
    · exact (pick_idle_thread_some hp).2.1
  simpa [Runqueue.eligible] using helig

section

variable (h : StaysOn s k c)

include h

theorem StaysOn.migrate_thread (hm : migrate_thread s most dest = some s') : StaysOn s' k c := by
  unfold Ule.migrate_thread at hm
  dsimp only at hm
  split at hm
  · next td sd hsel =>
    cases hm
    have hpinned := sched_select_thread_not_pinned hsel
    apply (h.setQueues (sched_select_thread_takes hsel)).sched_try_preempt
    intro htd
    rw [htd] at hpinned
    have htrue : s.pinned (.thread k) = true := congrArg Prod.fst h.affinity
    rw [htrue] at hpinned
    cases hpinned
  · cases hm

/-! ### Every run -/

theorem StaysOn.setThread
    (ht : t.affinity = (s.threads x).affinity) : StaysOn (setThread s x t) k c :=
  ⟨(setThread_affinity ht).trans h.affinity, h.elsewhere⟩

theorem StaysOn.setCpu (hholds : cpu.holds (.thread k) = (s.cpus d).holds (.thread k)) :
    StaysOn (setCpu s d cpu) k c := by
  refine h.of_cpu rfl (fun e he => setCpu_ne _ _ he) fun _ => ?_
  rw [setCpu_self, hholds]

theorem StaysOn.switch (hnext : (s.cpus d).next_thread = some x) :
    StaysOn (Ule.sched_switch s d (s.cpus d).current_thread x) k c := by
  apply h.sched_switch
  intro hx
  by_contra hd
  exact next_ne_of_holds (h.elsewhere _ hd) (hx ▸ hnext)

theorem StaysOn.step {a : Action n} (hstep : step s a = some s') : StaysOn s' k c := by
  cases steps_of_step hstep with
  | sched_ready _ =>
    apply StaysOn.sched_ready
    exact h.setThread rfl
  | commit_wait _ _ => exact h.setThread rfl
  | sched_wait _ => exact h.setThread rfl
  | sched_yield => exact h.sched_yield _
  | sched_wake _ =>
    apply StaysOn.sched_ready
    exact h.setThread (recompute_rated _ _).affinity
  | hardclock => exact h.setCpu rfl
  | dispatch_enter => exact h.setCpu rfl
  | reschedule _ _ => exact (h.sched_reschedule _).setCpu rfl
  | no_reschedule => exact h.setCpu rfl
  | switch hnext => exact (h.switch hnext).setCpu rfl
  | no_switch => exact h.setCpu rfl
  | balance_load => exact balance_load_loop_keeps (fun h hm => StaysOn.migrate_thread h hm) h _
  | idle_steal => exact idle_steal_keeps (fun h hm => StaysOn.migrate_thread h hm) h _

end

theorem StaysOn.run (h : StaysOn s₀ k c)
    (hs : Reachable ((system n).startedIn s₀) s) : StaysOn s k c := by
  induction hs with
  | init hs =>
    rw [show _ = s₀ from hs]
    exact h
  | step a _ _ hstep ih => exact ih.step hstep

end Ule
