import Mathlib.Algebra.Order.Floor.Div
import Dufay.Sched.Thread

/-! # Interactivity and the priority of timeshared threads

What `interactive_score` and `sched_recompute_priority` of
`core/sched/ule.c` compute, over the integers.

The priority of a thread above the threshold is meant to be a clamped
quotient (`batch_formula`). The quotient minus the niceness is stored in
eight bits before it is clamped.
-/

namespace Ule

variable {n : Nat}

/-! ### The score over the integers -/

/-- A division of `uint64_t`, which traps on zero. -/
def checked_div (a b : UInt64) : Option UInt64 := if b = 0 then none else some (a / b)

/-- `interactive_score` with every division checked: `none` where the code
divides by zero. -/
def interactive_score_checked (td : Thread n) : Option Int :=
  if td.sleeptime = 0 then some 100
  else if td.runtime = 0 then some 0
  else
    let penalty :=
      if td.runtime < td.sleeptime then
        (checked_div td.sleeptime td.runtime).bind fun q => checked_div SCALING_FACTOR q
      else
        ((checked_div td.runtime td.sleeptime).bind fun q => checked_div SCALING_FACTOR q).map
          (· + SCALING_FACTOR)
    penalty.map fun penalty => (penalty.toNat : Int) + td.nice.toInt

variable {td td' : Thread n}

theorem div_ne_zero_of_le {b : UInt64} (hb : b ≠ 0) (hab : b ≤ a) : a / b ≠ 0 := by
  intro h
  have hdiv : a.toNat / b.toNat = 0 := by
    rw [← UInt64.toNat_div, h]
    rfl
  have hpos : 0 < b.toNat := Nat.pos_of_ne_zero fun h0 => hb (UInt64.toNat_inj.mp h0)
  have hle : b.toNat ≤ a.toNat := UInt64.le_iff_toNat_le.mp hab
  exact absurd hdiv (Nat.div_pos hle hpos).ne'

theorem interactive_score_checked_eq :
    interactive_score_checked td = some (interactive_score td) := by
  unfold interactive_score_checked interactive_score
  by_cases hs : td.sleeptime = 0
  · rw [if_pos hs, if_pos hs]
  rw [if_neg hs, if_neg hs]
  by_cases hr : td.runtime = 0
  · rw [if_pos hr, if_pos hr]
  rw [if_neg hr, if_neg hr]
  by_cases hlt : td.runtime < td.sleeptime
  · have hq := div_ne_zero_of_le hr (UInt64.le_of_lt hlt)
    simp only [if_pos hlt, checked_div, if_neg hr, Option.bind_some, if_neg hq, Option.map_some]
  · have hq := div_ne_zero_of_le hs (UInt64.not_lt.mp hlt)
    simp only [if_neg hlt, checked_div, if_neg hs, Option.bind_some, if_neg hq, Option.map_some]

theorem interactive_score_of_lt (hr : td.runtime ≠ 0) (hlt : td.runtime < td.sleeptime) :
    interactive_score td =
      (50 / (td.sleeptime.toNat / td.runtime.toNat) : Nat) + td.nice.toInt := by
  have hs : td.sleeptime ≠ 0 := by
    intro h
    rw [h] at hlt
    exact absurd hlt (UInt64.not_lt.mpr (UInt64.zero_le))
  rw [interactive_score, if_neg hs, if_neg hr]
  simp only [if_pos hlt, UInt64.toNat_div]
  rfl

theorem interactive_score_of_le (hs : td.sleeptime ≠ 0) (hle : td.sleeptime ≤ td.runtime) :
    interactive_score td =
      (50 / (td.runtime.toNat / td.sleeptime.toNat) + 50 : Nat) + td.nice.toInt := by
  have hr : td.runtime ≠ 0 := by
    intro h
    rw [h] at hle
    exact hs (UInt64.le_zero_iff.mp hle)
  have hsmall : 50 / (td.runtime.toNat / td.sleeptime.toNat) ≤ 50 := Nat.div_le_self _ _
  rw [interactive_score, if_neg hs, if_neg hr]
  simp only [if_neg (UInt64.not_lt.mpr hle), UInt64.toNat_add, UInt64.toNat_div]
  rw [show SCALING_FACTOR.toNat = 50 from rfl, Nat.mod_eq_of_lt (by omega)]

theorem sleeps_of_score_lt (hnice : -20 ≤ td.nice.toInt)
    (hscore : interactive_score td < INTERACTIVITY_THRESHOLD) :
    td.sleeptime ≠ 0 ∧ td.runtime < td.sleeptime := by
  have hs : td.sleeptime ≠ 0 := by
    intro h
    rw [interactive_score, if_pos h] at hscore
    exact absurd hscore (by decide)
  refine ⟨hs, ?_⟩
  by_contra hlt
  rw [interactive_score_of_le hs (UInt64.not_lt.mp hlt), INTERACTIVITY_THRESHOLD] at hscore
  generalize 50 / (td.runtime.toNat / td.sleeptime.toNat) = penalty at hscore
  omega

/-- **Interactivity is monotone and well defined**: no division of
`interactive_score` is by zero, and a thread that scores below the
threshold still does so with more sleep and less run time. -/
theorem interactive_score_mono (td : Thread n) (hnice : -20 ≤ td.nice.toInt ∧ td.nice.toInt ≤ 19) :
    interactive_score_checked td = some (interactive_score td) ∧
      ∀ td' : Thread n, td'.nice = td.nice → td.sleeptime ≤ td'.sleeptime →
        td'.runtime ≤ td.runtime → interactive_score td < INTERACTIVITY_THRESHOLD →
        interactive_score td' < INTERACTIVITY_THRESHOLD := by
  refine ⟨interactive_score_checked_eq, ?_⟩
  intro td' hnice' hsle hrle hscore
  obtain ⟨hs, hlt⟩ := sleeps_of_score_lt hnice.1 hscore
  have hlt' : td'.runtime < td'.sleeptime :=
    UInt64.lt_of_le_of_lt hrle (UInt64.lt_of_lt_of_le hlt hsle)
  have hs' : td'.sleeptime ≠ 0 := by
    intro h
    rw [h] at hlt'
    exact absurd hlt' (UInt64.not_lt.mpr UInt64.zero_le)
  by_cases hr' : td'.runtime = 0
  · rw [interactive_score, if_neg hs', if_pos hr']
    decide
  have hr : td.runtime ≠ 0 := by
    intro h
    rw [h] at hrle
    exact hr' (UInt64.le_zero_iff.mp hrle)
  rw [interactive_score_of_lt hr hlt] at hscore
  rw [interactive_score_of_lt hr' hlt', hnice']
  -- the quotient of the times grows, so the penalty shrinks
  have hquot : td.sleeptime.toNat / td.runtime.toNat ≤ td'.sleeptime.toNat / td'.runtime.toNat :=
    Nat.div_le_div (UInt64.le_iff_toNat_le.mp hsle) (UInt64.le_iff_toNat_le.mp hrle)
      (fun h => hr' (UInt64.toNat_inj.mp h))
  have hone : 0 < td.sleeptime.toNat / td.runtime.toNat := by
    apply Nat.div_pos
    · exact (UInt64.lt_iff_toNat_lt.mp hlt).le
    · exact Nat.pos_of_ne_zero fun h => hr (UInt64.toNat_inj.mp h)
  have hpenalty := @Nat.div_le_div_left _ _ 50 hquot hone
  omega

/-- A timeshared thread that has slept ten ticks and run four. -/
def sleeper : Thread 0 where
  nice := 0
  priority := 16
  priority_class := .batch
  sleep_start := 0
  sleeptime := 10
  runtime := 4
  ticks := 1
  interactive := false
  pinned := false
  state := .ready
  runq := none
  last_cpu := none
  wait_status := .inProgress
  committing := false
  readied := false

/-- Its score is 25, and 12 after two more ticks of sleep and one less of
run time. -/
theorem interactive_score_mono_sleeper : interactive_score_checked sleeper = some 25 ∧
      interactive_score { sleeper with sleeptime := 12, runtime := 3 } < 30 := by
  obtain ⟨hchecked, hmono⟩ := interactive_score_mono sleeper (by decide)
  refine ⟨hchecked.trans (by decide), ?_⟩
  exact hmono { sleeper with sleeptime := 12, runtime := 3 } rfl (by decide) (by decide) (by decide)

/-! ### The priority of a thread above the threshold -/

/-- The clamp to the timeshared priorities, over the integers. -/
def clamp_formula (z : Int) : Int := max PRIO_LOW_BATCH (min z PRIO_HIGH_BATCH)

/-- What the ticks of a thread count for in the quotient. -/
def batch_divisor (ticks : Nat) : Nat := max ticks 1 * 16

section
variable (cpu_ticks ticks : Nat) (nice : Int)

/-- The quotient, rounded up, minus the niceness. -/
def batch_difference : Int := (cpu_ticks ⌈/⌉ batch_divisor ticks : Nat) - nice

/-- The priority that the comment in `sched_recompute_priority` describes. -/
def batch_formula : Int := clamp_formula (batch_difference cpu_ticks ticks nice)

/-- The inputs on which `sched_recompute_priority` meets the formula. If the
sum in `DIV_ROUND_UP` fits into 64 bits, the difference is one that eight
bits hold, or one whose last eight bits are above the clamp too. If the
sum does not fit, the quotient is zero, and the clamp hides that only for
the niceness and the differences given here. -/
def BatchExact : Prop :=
  let z := batch_difference cpu_ticks ticks nice
  if cpu_ticks + batch_divisor ticks ≤ 2 ^ 64 then 0 ≤ z ∧ (z < 256 ∨ 32 ≤ z % 256)
  else nice = 0 ∧ cpu_ticks ≤ batch_divisor ticks ∨ 0 < nice ∧ 32 ≤ z

end

theorem toNat_DIV_ROUND_UP (hd : 0 < d.toNat) : (DIV_ROUND_UP a d).toNat =
      if a.toNat + d.toNat ≤ 2 ^ 64 then a.toNat ⌈/⌉ d.toNat else 0 := by
  have ha := a.toNat_lt
  have hd' := d.toNat_lt
  have hsum : (a + d - 1).toNat = (a.toNat + d.toNat - 1) % 2 ^ 64 := by
    rw [UInt64.toNat_sub, UInt64.toNat_add, show (1 : UInt64).toNat = 1 from rfl]
    omega
  rw [DIV_ROUND_UP, UInt64.toNat_div, hsum]
  split
  · next hfit => rw [Nat.mod_eq_of_lt (by omega), Nat.ceilDiv_eq_add_pred_div]
  · -- the sum wraps to less than the divisor
    next hover =>
    rw [Nat.mod_eq_sub_mod (by omega), Nat.mod_eq_of_lt (by omega)]
    exact Nat.div_eq_of_lt (by omega)

theorem toNat_sub_toUInt8 (q : UInt64) (nice : Int8) :
    ((q - nice.toInt64.toUInt64).toUInt8.toNat : Int) = ((q.toNat : Int) - nice.toInt) % 256 := by
  have hq := q.toNat_lt
  have hext : nice.toInt =
      if 2 * nice.toInt64.toUInt64.toNat < 2 ^ 64 then (nice.toInt64.toUInt64.toNat : Int)
      else nice.toInt64.toUInt64.toNat - 2 ^ 64 := by
    rw [← Int8.toInt_toInt64]
    exact_mod_cast BitVec.toInt_eq_toNat_cond nice.toInt64.toBitVec
  have hlt := nice.toInt64.toUInt64.toNat_lt
  rw [UInt64.toNat_toUInt8, UInt64.toNat_sub, hext]
  generalize nice.toInt64.toUInt64.toNat = w at hlt ⊢
  generalize q.toNat = x at hq ⊢
  split <;> omega

theorem clamp_batch_eq : ((clamp_batch p : Fin 64) : Int) = clamp_formula p.toNat := by
  have hlow : (PRIO_LOW_BATCH : Int) = 1 := rfl
  have hhigh : (PRIO_HIGH_BATCH : Int) = 32 := rfl
  rw [clamp_batch, clamp_formula, hlow, hhigh]
  by_cases hlt : p.toNat < PRIO_LOW_BATCH
  · rw [if_pos hlt]
    show (1 : Int) = _
    omega
  rw [if_neg hlt]
  by_cases hgt : PRIO_HIGH_BATCH < p.toNat
  · rw [dif_pos hgt]
    show (32 : Int) = _
    omega
  · rw [dif_neg hgt]
    show (p.toNat : Int) = _
    omega

theorem toNat_batch_divisor (hticks : batch_divisor td.ticks.toNat < 2 ^ 64) :
    ((if td.ticks = 0 then 1 else td.ticks) * UInt64.ofNat (PRIO_BATCH_RANGE / 2)).toNat =
      batch_divisor td.ticks.toNat := by
  have hmax : (if td.ticks = 0 then 1 else td.ticks).toNat = max td.ticks.toNat 1 := by
    split
    · next h0 =>
      rw [h0]
      rfl
    · next h0 =>
      have hpos : 0 < td.ticks.toNat := Nat.pos_of_ne_zero fun h => h0 (UInt64.toNat_inj.mp h)
      omega
  rw [UInt64.toNat_mul, hmax, show (UInt64.ofNat (PRIO_BATCH_RANGE / 2)).toNat = 16 from rfl]
  exact Nat.mod_eq_of_lt hticks

/-- The priority that a thread above the threshold gets: the clamp of the
last eight bits of the difference, with a quotient of zero where the sum
overflows. -/
theorem recompute_priority_eq (cpu_ticks : UInt64) (hticks : batch_divisor td.ticks.toNat < 2 ^ 64)
    (hscore : ¬ interactive_score td < INTERACTIVITY_THRESHOLD) :
    ((sched_recompute_priority cpu_ticks td).priority : Int) = clamp_formula
        ((if cpu_ticks.toNat + batch_divisor td.ticks.toNat ≤ 2 ^ 64 then
            batch_difference cpu_ticks.toNat td.ticks.toNat td.nice.toInt
          else -td.nice.toInt) % 256) := by
  have hdiv : 0 < batch_divisor td.ticks.toNat := by
    unfold batch_divisor
    omega
  rw [sched_recompute_priority, if_neg hscore]
  show ((clamp_batch (batch_priority cpu_ticks td) : Fin 64) : Int) = _
  rw [clamp_batch_eq]
  unfold batch_priority
  rw [toNat_sub_toUInt8, toNat_DIV_ROUND_UP (by rw [toNat_batch_divisor hticks]; exact hdiv),
    toNat_batch_divisor hticks]
  split
  · rfl
  · rw [Nat.cast_zero, Int.zero_sub]

theorem ceilDiv_pos_of_overflow (ha : a < 2 ^ 64) (hd : d < 2 ^ 64)
    (hover : ¬ a + d ≤ 2 ^ 64) : 1 ≤ a ⌈/⌉ d ∧ (a ⌈/⌉ d ≤ 1 ↔ a ≤ d) := by
  have hdpos : 0 < d := by omega
  have hle : ∀ c, a ⌈/⌉ d ≤ c ↔ a ≤ d * c := fun c => ceilDiv_le_iff_le_mul hdpos
  refine ⟨?_, by rw [hle, Nat.mul_one]⟩
  by_contra h
  have h0 := (hle 0).mp (by omega)
  omega

theorem batch_formula_anti {cpu_ticks ticks ticks' : Nat} (nice : Int) (h : ticks ≤ ticks') :
    batch_formula cpu_ticks ticks' nice ≤ batch_formula cpu_ticks ticks nice := by
  have hdiv : batch_divisor ticks ≤ batch_divisor ticks' := by
    unfold batch_divisor
    omega
  have hpos : 0 < batch_divisor ticks := by
    unfold batch_divisor
    omega
  have hquot : cpu_ticks ⌈/⌉ batch_divisor ticks' ≤ cpu_ticks ⌈/⌉ batch_divisor ticks := by
    rw [ceilDiv_le_iff_le_mul (by omega)]
    calc cpu_ticks ≤ batch_divisor ticks * (cpu_ticks ⌈/⌉ batch_divisor ticks) :=
        (ceilDiv_le_iff_le_mul hpos).mp le_rfl
      _ ≤ batch_divisor ticks' * (cpu_ticks ⌈/⌉ batch_divisor ticks) := Nat.mul_le_mul_right _ hdiv
  unfold batch_formula clamp_formula batch_difference
  omega

theorem clamp_truncated_eq_iff (hcpu : cpu_ticks < 2 ^ 64) (hnice : -20 ≤ nice ∧ nice ≤ 19)
    (hticks : batch_divisor ticks < 2 ^ 64) : clamp_formula
        ((if cpu_ticks + batch_divisor ticks ≤ 2 ^ 64 then batch_difference cpu_ticks ticks nice
          else -nice) % 256) = batch_formula cpu_ticks ticks nice ↔
      BatchExact cpu_ticks ticks nice := by
  have hlow : (PRIO_LOW_BATCH : Int) = 1 := rfl
  have hhigh : (PRIO_HIGH_BATCH : Int) = 32 := rfl
  by_cases hfit : cpu_ticks + batch_divisor ticks ≤ 2 ^ 64
  · have hge : -19 ≤ batch_difference cpu_ticks ticks nice := by
      unfold batch_difference
      omega
    simp only [BatchExact, if_pos hfit, batch_formula, clamp_formula, hlow, hhigh]
    generalize batch_difference cpu_ticks ticks nice = z at hge ⊢
    omega
  · obtain ⟨hone, hle⟩ := ceilDiv_pos_of_overflow hcpu hticks hfit
    simp only [BatchExact, if_neg hfit, batch_formula, clamp_formula, hlow, hhigh, ← hle,
      batch_difference]
    generalize cpu_ticks ⌈/⌉ batch_divisor ticks = q at hone ⊢
    omega

/-- **The batch priority formula** holds of `sched_recompute_priority` on the
inputs of `BatchExact` and on no others, for every thread above the
threshold with a niceness from -20 to 19, as long as the product with its
ticks fits into 64 bits. On these inputs the priority does not increase
with the ticks of the thread. -/
theorem recompute_priority_eq_iff (cpu_ticks : UInt64) (td : Thread n)
    (hnice : -20 ≤ td.nice.toInt ∧ td.nice.toInt ≤ 19)
    (hticks : batch_divisor td.ticks.toNat < 2 ^ 64)
    (hscore : ¬ interactive_score td < INTERACTIVITY_THRESHOLD) :
    (((sched_recompute_priority cpu_ticks td).priority : Int) =
        batch_formula cpu_ticks.toNat td.ticks.toNat td.nice.toInt ↔
      BatchExact cpu_ticks.toNat td.ticks.toNat td.nice.toInt) ∧
    ∀ ticks' : UInt64, td.ticks ≤ ticks' → batch_divisor ticks'.toNat < 2 ^ 64 →
      BatchExact cpu_ticks.toNat td.ticks.toNat td.nice.toInt →
      BatchExact cpu_ticks.toNat ticks'.toNat td.nice.toInt →
      (sched_recompute_priority cpu_ticks { td with ticks := ticks' }).priority ≤
        (sched_recompute_priority cpu_ticks td).priority := by
  have hformula := clamp_truncated_eq_iff cpu_ticks.toNat_lt hnice hticks
  rw [recompute_priority_eq cpu_ticks hticks hscore]
  refine ⟨hformula, ?_⟩
  intro ticks' hle hticks' hexact hexact'
  -- both priorities are the formula, which is antitone in the ticks
  have heq := recompute_priority_eq cpu_ticks hticks hscore
  have heq' := @recompute_priority_eq n { td with ticks := ticks' } cpu_ticks hticks' hscore
  have hformula' := clamp_truncated_eq_iff cpu_ticks.toNat_lt hnice hticks'
  have hanti := @batch_formula_anti cpu_ticks.toNat _ _ td.nice.toInt
    (UInt64.le_iff_toNat_le.mp hle)
  rw [hformula.mpr hexact] at heq
  rw [hformula'.mpr hexact'] at heq'
  rw [Fin.le_def]
  omega

/-- A thread that never sleeps, with 17 ticks of 4096: the quotient is 16. -/
theorem recompute_priority_eq_iff_sixteen :
    ¬ interactive_score { sleeper with sleeptime := 0, ticks := 17 } < INTERACTIVITY_THRESHOLD ∧
      BatchExact 4096 17 0 ∧
      ((sched_recompute_priority 4096 { sleeper with sleeptime := 0, ticks := 17 }).priority : Int)
        = batch_formula 4096 17 0 := by
  have hscore : ¬ interactive_score { sleeper with sleeptime := 0, ticks := 17 } <
      INTERACTIVITY_THRESHOLD := by decide
  have hexact : BatchExact 4096 17 0 := by
    unfold BatchExact
    decide
  have hiff := (recompute_priority_eq_iff 4096 { sleeper with sleeptime := 0, ticks := 17 }
    (by decide) (by decide) hscore).1
  exact ⟨hscore, hexact, hiff.mpr hexact⟩

/-- **A quotient of 256 is taken for zero**: a thread with one tick of 4096
gets the lowest timeshared priority instead of the highest. -/
theorem recompute_priority_truncates :
    ¬ ∀ (cpu_ticks : UInt64) (td : Thread 0), -20 ≤ td.nice.toInt ∧ td.nice.toInt ≤ 19 →
      batch_divisor td.ticks.toNat < 2 ^ 64 →
      ¬ interactive_score td < INTERACTIVITY_THRESHOLD →
      ((sched_recompute_priority cpu_ticks td).priority : Int) =
        batch_formula cpu_ticks.toNat td.ticks.toNat td.nice.toInt := by
  intro h
  have heq := h 4096 { sleeper with sleeptime := 0 } (by decide) (by decide) (by decide)
  exact absurd heq (by decide)

end Ule
