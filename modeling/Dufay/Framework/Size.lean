import Mathlib.Algebra.Order.Ring.Nat
import Mathlib.Data.Nat.ModEq

/-! # Rounding in 64-bit arithmetic

`DIV_ROUNDUP` and `ALIGN_UP` on unsigned 64-bit numbers, which are
natural numbers below `W` here. Every sum is taken modulo `W`, as the
machine does.

By zero, `DIV_ROUNDUP` is zero: the form with a division would trap, and
the form with a mask gives zero.
-/

namespace Size

/-- The number of 64-bit words. It is not unfolded by unification, which
would count it down. -/
@[irreducible] def W : Nat := 2 ^ 64

theorem W_eq : W = 2 ^ 64 := by
  unfold W
  rfl

theorem W_pos : 0 < W := by
  rw [W_eq]
  exact Nat.two_pow_pos 64

/-- `DIV_ROUNDUP(x, a)`: `(x + (a - 1)) / a`. A macro of a library, as
`ALIGN_UP`: a length takes `DIV_ROUNDUP(length, PAGE_SIZE)` pages, the
last one in part, which are `ALIGN_UP(length, PAGE_SIZE) / PAGE_SIZE`. -/
def DIV_ROUNDUP (x a : Nat) : Nat := (x + (a + W - 1) % W) % W / a

/-- `ALIGN_UP(x, a)`. The product is at most the dividend, so it does not
wrap. -/
def ALIGN_UP (x a : Nat) : Nat := DIV_ROUNDUP x a * a

theorem ALIGN_UP_lt (x a : Nat) : ALIGN_UP x a < W := calc
    ALIGN_UP x a ≤ (x + (a + W - 1) % W) % W := Nat.div_mul_le_self _ _
    _ < W := Nat.mod_lt _ W_pos

theorem dvd_ALIGN_UP (x a : Nat) : a ∣ ALIGN_UP x a := Nat.dvd_mul_left a _

@[simp] theorem ALIGN_UP_zero (x : Nat) : ALIGN_UP x 0 = 0 := Nat.mul_zero _

variable {a : Nat}

theorem DIV_ROUNDUP_eq (ha : 0 < a) (hx : x + a ≤ W) : DIV_ROUNDUP x a = (x + (a - 1)) / a := by
  have hw : (a + W - 1) % W = a - 1 := by
    have heq : a + W - 1 = (a - 1) + W := by omega
    rw [heq, Nat.add_mod_right]
    exact Nat.mod_eq_of_lt (by omega)
  rw [DIV_ROUNDUP, hw, Nat.mod_eq_of_lt (by omega)]

theorem DIV_ROUNDUP_mul (ha : 0 < a) (hx : q * a + a ≤ W) : DIV_ROUNDUP (q * a) a = q := by
  rw [DIV_ROUNDUP_eq ha hx, Nat.add_comm, Nat.add_mul_div_right _ _ ha,
    Nat.div_eq_of_lt (by omega), Nat.zero_add]

theorem le_ALIGN_UP (ha : 0 < a) (hx : x + a ≤ W) : x ≤ ALIGN_UP x a ∧ ALIGN_UP x a < x + a := by
  rw [ALIGN_UP, DIV_ROUNDUP_eq ha hx]
  have hdiv := Nat.div_add_mod (x + (a - 1)) a
  have hmod := Nat.mod_lt (x + (a - 1)) ha
  rw [Nat.mul_comm] at hdiv
  omega

theorem le_ALIGN_UP_of_ne_zero (hx : x < W) (ha : a < W) (hne : ALIGN_UP x a ≠ 0) :
    x ≤ ALIGN_UP x a := by
  have hapos : 0 < a := by
    rcases Nat.eq_zero_or_pos a with rfl | hpos
    · exact absurd (ALIGN_UP_zero x) hne
    · exact hpos
  by_cases hover : x + a ≤ W
  · exact (le_ALIGN_UP hapos hover).1
  · -- the sum wraps to less than `a`
    have hmod : (a + W - 1) % W = a - 1 := by
      have heq : a + W - 1 = (a - 1) + W := by omega
      rw [heq, Nat.add_mod_right]
      exact Nat.mod_eq_of_lt (by omega)
    have hsum : (x + (a - 1)) % W = x + (a - 1) - W := by
      rw [Nat.mod_eq_sub_mod (by omega)]
      exact Nat.mod_eq_of_lt (by omega)
    refine absurd ?_ hne
    rw [ALIGN_UP, DIV_ROUNDUP, hmod, hsum, Nat.div_eq_of_lt (by omega), Nat.zero_mul]

theorem zero_ALIGN_UP (ha : a ≤ W) : ALIGN_UP 0 a = 0 := by
  rcases Nat.eq_zero_or_pos a with rfl | hpos
  · exact ALIGN_UP_zero 0
  · have hlt := (le_ALIGN_UP (x := 0) hpos (by omega)).2
    exact Nat.eq_zero_of_dvd_of_lt (dvd_ALIGN_UP 0 a) (by omega)

theorem le_ALIGN_UP_ALIGN_UP (ha : a < W) (hne : ALIGN_UP (ALIGN_UP x b) a ≠ 0) :
    b ≤ ALIGN_UP x b ∧ ALIGN_UP x b ≤ ALIGN_UP (ALIGN_UP x b) a := by
  have hpos : ALIGN_UP x b ≠ 0 := fun hzero => hne (by rw [hzero, zero_ALIGN_UP ha.le])
  exact ⟨Nat.le_of_dvd (Nat.pos_of_ne_zero hpos) (dvd_ALIGN_UP x b),
    le_ALIGN_UP_of_ne_zero (ALIGN_UP_lt x b) ha hne⟩

/-! ### Rounding up without overflow -/

/-- The next multiple of `a`. -/
def roundUp (a x : Nat) : Nat := (x + (a - 1)) / a * a

theorem dvd_roundUp : a ∣ roundUp a x := Nat.dvd_mul_left a _

theorem le_roundUp (ha : 0 < a) (x : Nat) : x ≤ roundUp a x ∧ roundUp a x < x + a := by
  have hdiv := Nat.div_add_mod (x + (a - 1)) a
  have hmod := Nat.mod_lt (x + (a - 1)) ha
  rw [Nat.mul_comm] at hdiv
  unfold roundUp
  omega

theorem eq_of_dvd_of_lt (hx : a ∣ x) (hy : a ∣ y) (hle : x ≤ y) (hlt : y < x + a) : x = y := by
  have h0 : y - x = 0 := Nat.eq_zero_of_dvd_of_lt (Nat.dvd_sub hy hx) (by omega)
  omega

theorem add_le_of_dvd (hx : a ∣ x) (hy : a ∣ y) (hlt : x < y) : x + a ≤ y := by
  have hle := Nat.le_of_dvd (by omega) (Nat.dvd_sub hy hx)
  omega

theorem roundUp_add (ha : 0 < a) (hk : a ∣ k) : roundUp a (k + x) = k + roundUp a x := by
  obtain ⟨q, rfl⟩ := hk
  rw [roundUp, roundUp, Nat.add_assoc, Nat.mul_add_div ha, Nat.add_mul, Nat.mul_comm q a]

theorem ALIGN_UP_mod (ha : 0 < a) (haW : a ∣ W) (hlt : a < W) (x : Nat) :
    ALIGN_UP (x % W) a = roundUp a x % W := by
  have hsplit : roundUp a x = W * (x / W) + roundUp a (x % W) := by
    conv_lhs => rw [← Nat.div_add_mod x W]
    exact roundUp_add ha (haW.mul_right _)
  have hr : x % W < W := Nat.mod_lt x W_pos
  rw [hsplit, Nat.mul_add_mod]
  generalize x % W = r at hr
  obtain ⟨hle, hup⟩ := le_roundUp ha r
  by_cases hfit : r + a ≤ W
  · rw [ALIGN_UP, DIV_ROUNDUP_eq ha hfit, ← roundUp, Nat.mod_eq_of_lt (by omega)]
  · -- the next multiple is the number of words itself
    have hW : roundUp a r = W := by
      rcases Nat.le_total (roundUp a r) W with h | h
      · exact eq_of_dvd_of_lt (dvd_roundUp) haW h (by omega)
      · exact (eq_of_dvd_of_lt haW (dvd_roundUp) h (by omega)).symm
    rw [hW, Nat.mod_self]
    by_contra hne
    have hbig := le_ALIGN_UP_of_ne_zero hr hlt hne
    have hltW := ALIGN_UP_lt r a
    have heq := eq_of_dvd_of_lt (dvd_ALIGN_UP r a) haW (by omega) (by omega)
    omega

end Size
