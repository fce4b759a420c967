import Dufay.Sched.Pinned
import Dufay.Sched.PickCpu

/-! # Load balancing

`balance_load` of `core/sched/ule.c`, for any number of CPUs. Each round
takes a thread from the queues of the most loaded CPU and offers it to
the least loaded one, where it is queued or becomes the next thread.
`Conserves` is what a number of rounds does.
-/

namespace Ule

variable {n : Nat}

/-! ### The run-queue invariant -/

/-- The bitmaps agree with the queues of a CPU, and its load is the number of
threads in them. -/
structure QueuesOk (sd : SchedPercpu (Tid n)) : Prop where
  wf : sd.Wf
  load : sd.load.toNat = sd.size

theorem QueuesOk.insert (h : QueuesOk sd)
    (hlt : sd.load.toNat + 1 < 2 ^ 64) (td : Tid n) (cl : PriorityClass) (interactive : Bool)
    (priority : Fin 64) : QueuesOk (sd.insert td cl interactive priority) ∧
      (sd.insert td cl interactive priority).load.toNat = sd.load.toNat + 1 := by
  obtain ⟨hsize, hload⟩ := sd.size_insert td cl interactive priority
  have hadd : (sd.insert td cl interactive priority).load.toNat = sd.load.toNat + 1 := by
    rw [hload, UInt64.toNat_add]
    exact Nat.mod_eq_of_lt hlt
  refine ⟨⟨h.wf.insert _ _ _ _, ?_⟩, hadd⟩
  rw [hadd, hsize, h.load]

theorem QueuesOk.select (h : QueuesOk sd)
    (hsel : sd.sched_select_thread pinned cur migrate = some (td, sd')) :
    QueuesOk sd' ∧ sd'.load.toNat + 1 = sd.load.toNat := by
  obtain ⟨hwf, hsize, hload⟩ := sched_select_thread_shrinks hsel
  have hpos : 1 ≤ sd.load.toNat := by
    rw [h.load]
    omega
  have hsub : sd'.load.toNat = sd.load.toNat - 1 := by
    rw [hload]
    exact UInt64.toNat_sub_of_le _ _ (UInt64.le_iff_toNat_le.mpr hpos)
  have hload' := h.load
  exact ⟨⟨hwf h.wf, by omega⟩, by omega⟩

/-! ### The most and the least loaded CPU -/

section
variable (s : State n) (acc : Fin (n + 1) × Fin (n + 1)) (c : Fin (n + 1))

/-- One CPU of the search for both. -/
def keepBoth : Fin (n + 1) × Fin (n + 1) :=
  let load := fun c => (s.cpus c).sched_data.load
  (if load acc.1 < load c then c else acc.1, if load c < load acc.2 then c else acc.2)

theorem keepBoth_spec :
    s.load acc.1 ≤ s.load (keepBoth s acc c).1 ∧ s.load c ≤ s.load (keepBoth s acc c).1 ∧
      s.load (keepBoth s acc c).2 ≤ s.load acc.2 ∧ s.load (keepBoth s acc c).2 ≤ s.load c := by
  simp only [keepBoth, UInt64.lt_iff_toNat_lt]
  unfold State.load
  split <;> split <;> omega

end

theorem foldl_keepBoth (s : State n) : ∀ (l : List (Fin (n + 1))) (acc : Fin (n + 1) × Fin (n + 1)),
      (s.load acc.1 ≤ s.load (l.foldl (keepBoth s) acc).1 ∧
        s.load (l.foldl (keepBoth s) acc).2 ≤ s.load acc.2) ∧
      ∀ c ∈ l, s.load c ≤ s.load (l.foldl (keepBoth s) acc).1 ∧
        s.load (l.foldl (keepBoth s) acc).2 ≤ s.load c := by
  intro l
  induction l with
  | nil =>
    intro acc
    refine ⟨⟨Nat.le_refl _, Nat.le_refl _⟩, ?_⟩
    intro c hc
    cases hc
  | cons d rest ih =>
    intro acc
    obtain ⟨hmost, hd, hleast, hd'⟩ := keepBoth_spec s acc d
    obtain ⟨hacc, hrest⟩ := ih (keepBoth s acc d)
    rw [List.foldl_cons]
    refine ⟨⟨by omega, by omega⟩, ?_⟩
    intro c hc
    rcases List.mem_cons.mp hc with rfl | hc
    · exact ⟨by omega, by omega⟩
    · exact hrest c hc

/-! ### One round -/

/-- From `s` to `s'`, the threads of `moved` have moved to other CPUs. -/
structure Conserves (s s' : State n) (moved : List (Tid n)) : Prop where
  pinned : s'.pinned = s.pinned
  unpinned : ∀ td ∈ moved, s.pinned td = false
  stays : ∀ td, td ∉ moved → ∀ c, (s'.cpus c).off td = (s.cpus c).off td
  within : ∀ lo hi, (∀ d, lo ≤ s.load d ∧ s.load d ≤ hi) → ∀ c, lo ≤ s'.load c ∧ s'.load c ≤ hi
  ok : ∀ c, QueuesOk (s'.cpus c).sched_data

theorem Conserves.refl {s : State n} (hok : ∀ c, QueuesOk (s.cpus c).sched_data) :
    Conserves s s [] where
  pinned := rfl
  unpinned := fun td htd => by cases htd
  stays := fun _ _ _ => rfl
  within := fun _ _ h => h
  ok := hok

theorem Conserves.trans {s₁ : State n} (h₁ : Conserves s₁ s₂ moved) (h₂ : Conserves s₂ s₃ moved') :
    Conserves s₁ s₃ (moved ++ moved') where
  pinned := h₂.pinned.trans h₁.pinned
  unpinned := by
    intro td htd
    rcases List.mem_append.mp htd with htd | htd
    · exact h₁.unpinned td htd
    · rw [← h₁.pinned]
      exact h₂.unpinned td htd
  stays := by
    intro td htd c
    rw [List.mem_append, not_or] at htd
    exact (h₂.stays td htd.2 c).trans (h₁.stays td htd.1 c)
  within := fun lo hi h => h₂.within lo hi (h₁.within lo hi h)
  ok := h₂.ok

section Round

variable {s s' : State n} {most least : Fin (n + 1)}

/-- A round: `td` leaves the queues of `most`, which are `sd` then, for a
place on `least`. -/
structure Round (s s' : State n) (most least : Fin (n + 1)) (td : Tid n)
    (sd : SchedPercpu (Tid n)) : Prop where
  select : (s.cpus most).sched_data.sched_select_thread s.pinned none true = some (td, sd)
  pinned : s'.pinned = s.pinned
  source : s'.cpus most = (s.cpus most).setQueues sd
  dest : ∀ x, (s'.cpus least).off x = (s.cpus least).off x + if x = td then 1 else 0
  queues : (s'.cpus least).sched_data = (s.cpus least).sched_data ∨
    ∃ x cl interactive priority, (s'.cpus least).sched_data =
      (s.cpus least).sched_data.insert x cl interactive priority
  other : ∀ c, c ≠ most → c ≠ least → s'.cpus c = s.cpus c

theorem exists_round (hne : most ≠ least) (h : migrate_thread s most least = some s') :
    ∃ td sd, Round s s' most least td sd := by
  unfold migrate_thread at h
  dsimp only at h
  split at h
  · next td sd hsel =>
    cases h
    -- the CPUs between the two halves of the round
    have hmid : ∀ c, c ≠ most → (setCpu s most ((s.cpus most).setQueues sd)).cpus c = s.cpus c :=
      fun c hc => setCpu_ne s _ hc
    refine ⟨td, sd, hsel, ?_, ?_, ?_, ?_, ?_⟩
    · funext x
      exact congrArg Prod.fst (sched_try_preempt_affinity _ least td x)
    · rw [sched_try_preempt_cpus_ne _ least td hne, setCpu_self]
    · intro x
      rw [sched_try_preempt_off, hmid least hne.symm]
    · have hqueues := sched_try_preempt_sched_data
        (setCpu s most ((s.cpus most).setQueues sd)) least td
      rw [hmid least hne.symm] at hqueues
      exact hqueues
    · intro c hcm hcl
      rw [sched_try_preempt_cpus_ne _ least td hcl, hmid c hcm]
  · cases h

variable {td : Tid n} {sd : SchedPercpu (Tid n)}

section

variable (h : Round s s' most least td sd)

include h

theorem Round.load_least
    (hok : QueuesOk (s.cpus least).sched_data) (hlt : s.load least + 1 < 2 ^ 64) :
    QueuesOk (s'.cpus least).sched_data ∧ s.load least ≤ s'.load least ∧
      s'.load least ≤ s.load least + 1 := by
  unfold State.load at *
  rcases h.queues with heq | ⟨x, cl, interactive, priority, heq⟩
  · rw [heq]
    exact ⟨hok, Nat.le_refl _, Nat.le_succ _⟩
  · rw [heq]
    obtain ⟨hins, hload⟩ := hok.insert hlt x cl interactive priority
    exact ⟨hins, by omega, by omega⟩

theorem Round.load_most (hok : QueuesOk (s.cpus most).sched_data) :
    QueuesOk (s'.cpus most).sched_data ∧ s'.load most + 1 = s.load most := by
  unfold State.load
  rw [h.source]
  exact hok.select h.select

theorem Round.stays {x : Tid n} (hx : x ≠ td)
    (c : Fin (n + 1)) : (s'.cpus c).off x = (s.cpus c).off x := by
  by_cases hcm : c = most
  · have hcount := (SchedPercpu.sched_select_thread_takes h.select).count x
    rw [if_neg hx, Nat.add_zero] at hcount
    rw [hcm, h.source, CpuLocal.off_setQueues, hcount, CpuLocal.off]
  · by_cases hcl : c = least
    · rw [hcl, h.dest, if_neg hx, Nat.add_zero]
    · rw [h.other c hcm hcl]

/-- **One round of `balance_load`** moves one thread, which is not pinned,
and keeps the loads within their range. -/
theorem Round.conserves
    (hok : ∀ c, QueuesOk (s.cpus c).sched_data) (hlt : s.load least < s.load most) :
    Conserves s s' [td] := by
  have hroom : s.load least + 1 < 2 ^ 64 := by
    have hbound : s.load most < 2 ^ 64 := (s.cpus most).sched_data.load.toNat_lt
    omega
  obtain ⟨hokMost, hloadMost⟩ := h.load_most (hok most)
  obtain ⟨hokLeast, hge, hle⟩ := h.load_least (hok least) hroom
  constructor
  · exact h.pinned
  · intro x hx
    rw [List.mem_singleton.mp hx]
    exact sched_select_thread_not_pinned h.select
  · intro x hx c
    exact h.stays (fun heq => hx (List.mem_singleton.mpr heq)) c
  · intro lo hi hrange c
    have hlo := hrange least
    have hhi := hrange most
    by_cases hcm : c = most
    · rw [hcm]
      omega
    · by_cases hcl : c = least
      · rw [hcl]
        omega
      · rw [State.load, h.other c hcm hcl]
        exact hrange c
  · intro c
    by_cases hcm : c = most
    · rw [hcm]
      exact hokMost
    · by_cases hcl : c = least
      · rw [hcl]
        exact hokLeast
      · rw [h.other c hcm hcl]
        exact hok c

end

end Round

/-! ### The loop -/

theorem lt_of_one_le_diff {a : UInt64} (hle : b.toNat ≤ a.toNat)
    (h : ¬ (a - b).toInt64 < 1) : b.toNat < a.toNat := by
  by_contra hnot
  apply h
  have heq : a = b := UInt64.toNat_inj.mp (by omega)
  rw [heq, UInt64.sub_self]
  decide

theorem balance_load_loop_conserves (cnt : Nat) :
    ∀ (s : State n), (∀ c, QueuesOk (s.cpus c).sched_data) →
      ∃ moved : List (Tid n), moved.length ≤ cnt ∧ Conserves s (balance_load_loop cnt s) moved := by
  induction cnt with
  | zero =>
    intro s hok
    exact ⟨[], Nat.le_refl 0, .refl hok⟩
  | succ cnt ih =>
    intro s hok
    have hmost : ∀ c, s.load c ≤ s.load (find_most_and_least_loaded_cpu s).1 := fun c =>
      ((foldl_keepBoth s (List.finRange (n + 1)) (0, 0)).2 c (List.mem_finRange c)).1
    rw [balance_load_loop]
    split
    · exact ⟨[], Nat.zero_le _, .refl hok⟩
    · next hdiff =>
      have hlt := lt_of_one_le_diff (hmost (find_most_and_least_loaded_cpu s).2) hdiff
      have hne : (find_most_and_least_loaded_cpu s).1 ≠ (find_most_and_least_loaded_cpu s).2 := by
        intro heq
        rw [heq] at hlt
        exact Nat.lt_irrefl _ hlt
      cases hmigrate : migrate_thread s (find_most_and_least_loaded_cpu s).1
          (find_most_and_least_loaded_cpu s).2 with
      | none => exact ⟨[], Nat.zero_le _, .refl hok⟩
      | some s' =>
        obtain ⟨td, sd, h⟩ := exists_round hne hmigrate
        have hround := h.conserves hok hlt
        dsimp only
        split
        · exact ⟨[td], by simp, hround⟩
        · obtain ⟨moved, hlen, hrest⟩ := ih s' hround.ok
          refine ⟨[td] ++ moved, ?_, hround.trans hrest⟩
          rw [List.length_append, List.length_singleton]
          omega

/-- **Load balancing is conservative**, for any number of CPUs, any contents
of the queues with the run-queue invariant and any pinned flags: at most
16 threads move, none of them pinned, and every other thread stays on the
CPU where it was. Every thread is in as many places as before, the loads
stay between the least and the largest load, and the invariant holds
again. -/
theorem balance_load_conservative (s : State n) (hok : ∀ c, QueuesOk (s.cpus c).sched_data) :
    (∃ moved : List (Tid n), moved.length ≤ 16 ∧ (∀ td ∈ moved, s.pinned td = false) ∧
      ∀ td, td ∉ moved → ∀ c, ((balance_load s).cpus c).off td = (s.cpus c).off td) ∧
    (∀ td, offCpu (balance_load s) td = offCpu s td) ∧
    (∀ lo hi, (∀ d, lo ≤ s.load d ∧ s.load d ≤ hi) →
      ∀ c, lo ≤ (balance_load s).load c ∧ (balance_load s).load c ≤ hi) ∧
    ∀ c, QueuesOk ((balance_load s).cpus c).sched_data := by
  obtain ⟨moved, hlen, h⟩ := balance_load_loop_conserves LOAD_BALANCE_LIMIT s hok
  exact ⟨⟨moved, hlen, h.unpinned, h.stays⟩, (balance_load_migrates s).off, h.within, h.ok⟩

/-- Threads 0 and 1 are queued on CPU `c`, and every CPU is idle. -/
def crowded (c : Fin (n + 1)) : State n :=
  sched_insert_in_queue (sched_insert_in_queue bootAll c (.thread 0)) c (.thread 1)

/-- The idle CPU 1 gets a thread, and no load is above 2 afterwards. -/
theorem balance_load_conservative_crowded :
    (∀ c, QueuesOk ((crowded (n := 1) 0).cpus c).sched_data) ∧
      ((balance_load (crowded (n := 1) 0)).cpus 1).next_thread ≠ none ∧
      ∀ c, 0 ≤ (balance_load (crowded (n := 1) 0)).load c ∧
        (balance_load (crowded (n := 1) 0)).load c ≤ 2 := by
  have hok : ∀ c, QueuesOk ((crowded (n := 1) 0).cpus c).sched_data := by
    intro c
    match c with
    | 0 => exact ⟨(emptyQueues_wf.insert _ _ _ _).insert _ _ _ _, by decide +kernel⟩
    | 1 => exact ⟨emptyQueues_wf, by decide +kernel⟩
  refine ⟨hok, by decide +kernel, ?_⟩
  exact (balance_load_conservative (crowded 0) hok).2.2.1 0 2 (by decide +kernel)

end Ule
