import Mathlib.Data.Nat.Basic
import Mathlib.Logic.Function.Basic

/-! # The data pointers of a transfer

`nvme_lba_rw` of `io/nvme/controller/nvme.c`, up to the command.
-/

open Function

namespace Nvme

/-- What `nvme_lba_rw` writes: the pointers of the command, and `prp_list`. -/
structure Prps where
  prp1 : Nat
  prp2 : Nat
  prp_list : Nat → Nat

/-- `nvme_lba_rw` up to the command, for `cnt` blocks of `lba_size` bytes. The
products are those of the source below `2 ^ 31`. As `max_prp` is an `int`
power of two over 4096, it is at most `2 ^ 18`, so a transfer of up to
`max_prp + 1` pages is below that. -/
def nvme_lba_rw (prp_list : Nat → Nat) (max_prp cid lba_size cnt buffer : Nat) : Option Prps :=
  if 4096 < cnt * lba_size then
    if 4096 * 2 < cnt * lba_size then
      let prp_cnt := (cnt - 1) * lba_size / 4096
      if max_prp < prp_cnt then none
      else
        let prp_list := (List.range prp_cnt).foldl
          (fun l i => update l (i + cid * max_prp) (buffer + 4096 + i * 4096)) prp_list
        some ⟨buffer, prp_list (cid * max_prp), prp_list⟩
    else some ⟨buffer, buffer + 4096, prp_list⟩
  else some ⟨buffer, 0, prp_list⟩

def pageCnt (lba_size cnt : Nat) : Nat := (cnt * lba_size + 4095) / 4096

/-- The rules of the device: the second pointer is not used, or is the second
page, or the address of a list of the pages from the second one on. The list
of the identifier is at the address `list`. -/
def Prps.Describes (p : Prps) (max_prp cid lba_size cnt buffer list : Nat) : Prop :=
  p.prp1 = buffer ∧ (pageCnt lba_size cnt = 2 → p.prp2 = buffer + 4096) ∧
    (2 < pageCnt lba_size cnt → p.prp2 = list ∧
      ∀ i < pageCnt lba_size cnt - 1, p.prp_list (i + cid * max_prp) = buffer + 4096 + i * 4096)

theorem foldl_update (l : Nat → Nat) (f : Nat → Nat) (k n j : Nat) :
    (List.range n).foldl (fun l i => update l (i + k) (f i)) l j =
      if k ≤ j ∧ j < n + k then f (j - k) else l j := by
  induction n with
  | zero => exact (if_neg (by omega)).symm
  | succ n ih =>
    rw [List.range_succ, List.foldl_append, List.foldl_cons, List.foldl_nil]
    by_cases hj : j = n + k
    · subst hj
      simp
    · rw [update_of_ne hj, ih]
      congr 1
      simp only [eq_iff_iff]
      omega

theorem pageCnt_eq (hdvd : lba_size ∣ 4096) (hcnt : 0 < cnt) :
    pageCnt lba_size cnt = (cnt - 1) * lba_size / 4096 + 1 := by
  obtain ⟨m, hm⟩ := hdvd
  obtain ⟨n, rfl⟩ := Nat.exists_eq_add_of_lt hcnt
  have hpos : 0 < lba_size := Nat.pos_of_ne_zero fun h0 => by simp [h0] at hm
  have hround : ((n + 1) * lba_size + 4095) / lba_size = n + m := by
    rw [show (n + 1) * lba_size + 4095 = lba_size * (n + m) + (lba_size - 1) by
      rw [Nat.succ_mul, Nat.mul_add, Nat.mul_comm n, ← hm]
      omega, Nat.mul_add_div hpos, Nat.div_eq_of_lt (by omega), Nat.add_zero]
  have hmpos : 0 < m := Nat.pos_of_ne_zero fun h0 => by simp [h0] at hm
  rw [pageCnt, hm, ← Nat.div_div_eq_div_mul, ← Nat.div_div_eq_div_mul]
  simp only [Nat.zero_add, Nat.add_sub_cancel]
  rw [hround, Nat.mul_div_cancel _ hpos, Nat.add_div_right _ hmpos]

/-- **Data pointers cover the transfer** just if it has at most two pages. For
more, the list is right, and no entries of another identifier are written,
but the second pointer is the first entry of the list and not its address. -/
theorem nvme_lba_rw_describes_iff (prp_list : Nat → Nat)
    (max_prp cid lba_size cnt buffer list : Nat)
    (hdvd : lba_size ∣ 4096) (hcnt : 0 < cnt) (hmax : pageCnt lba_size cnt - 1 ≤ max_prp)
    (hlist : list ≠ buffer + 4096) : ∃ p,
      nvme_lba_rw prp_list max_prp cid lba_size cnt buffer = some p ∧
      (p.Describes max_prp cid lba_size cnt buffer list ↔ pageCnt lba_size cnt ≤ 2) ∧
      (2 < pageCnt lba_size cnt → ∀ i < pageCnt lba_size cnt - 1,
        p.prp_list (i + cid * max_prp) = buffer + 4096 + i * 4096) ∧
      ∀ j, p.prp_list j ≠ prp_list j → j / max_prp = cid := by
  have hpages := pageCnt_eq hdvd hcnt
  have hcnt' : pageCnt lba_size cnt = (cnt * lba_size + 4095) / 4096 := rfl
  unfold nvme_lba_rw
  split_ifs with hone htwo
  · simp only [if_neg (show ¬ max_prp < (cnt - 1) * lba_size / 4096 by omega)]
    have hupdate := foldl_update prp_list (fun i => buffer + 4096 + i * 4096) (cid * max_prp)
      ((cnt - 1) * lba_size / 4096)
    refine ⟨_, rfl, iff_of_false (fun h => ?_) (by omega), fun _ i hi => ?_, fun j hj => ?_⟩
    · have hfirst := (h.2.2 (by omega)).1
      simp only [hupdate, if_pos (show cid * max_prp ≤ cid * max_prp ∧
        cid * max_prp < (cnt - 1) * lba_size / 4096 + cid * max_prp by omega), Nat.sub_self] at hfirst
      omega
    · simp only [hupdate]
      rw [if_pos (by omega), Nat.add_sub_cancel]
    · simp only [hupdate, ne_eq, ite_eq_right_iff, Classical.not_imp] at hj
      exact Nat.div_eq_of_lt_le hj.1.1 (by rw [Nat.succ_mul]; omega)
  · refine ⟨_, rfl, iff_of_true ⟨rfl, fun _ => rfl, ?_⟩ ?_, ?_, fun j hj => absurd rfl hj⟩
    all_goals omega
  · refine ⟨_, rfl, iff_of_true ⟨rfl, ?_, ?_⟩ ?_, ?_, fun j hj => absurd rfl hj⟩
    all_goals omega

/-- Eight blocks of a page. -/
theorem nvme_lba_rw_describes_iff_page : ∃ p, nvme_lba_rw (fun _ => 0) 16 0 512 8 0x4000 = some p ∧
    p.Describes 16 0 512 8 0x4000 0x9000 := by
  obtain ⟨p, h, hiff, -⟩ := nvme_lba_rw_describes_iff (fun _ => 0) 16 0 512 8 0x4000 0x9000
    (by decide) (by decide) (by decide) (by decide)
  exact ⟨p, h, hiff.mpr (by decide)⟩

theorem prp2_not_list : ∃ p, nvme_lba_rw (fun _ => 0) 16 0 512 24 0x4000 = some p ∧
    p.prp2 = 0x5000 ∧ ¬ p.Describes 16 0 512 24 0x4000 0x9000 := by
  refine ⟨_, rfl, by decide, fun h => ?_⟩
  exact absurd (h.2.2 (by decide)).1 (by decide)

end Nvme
