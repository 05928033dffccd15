import Mathlib.Algebra.Order.Field.Power
import Mathlib.Data.Int.Log
import Mathlib.Data.Rat.Floor
import Mathlib.Tactic.FieldSimp
import Mathlib.Tactic.Positivity
import Mathlib.Tactic.Ring
import BlockScript.Single.Decimal

namespace BlockScript

theorem log_eq {b : Nat} (hb : 1 < b) {v : ℚ} (hv : 0 < v) {e : Int} (hl : (b : ℚ) ^ e ≤ v)
    (hu : v < (b : ℚ) ^ (e + 1)) : Int.log b v = e := by
  have h1 := (Int.zpow_le_iff_le_log hb hv).1 hl
  have h2 := (Int.lt_zpow_iff_log_lt hb hv).1 hu
  omega

namespace Single

section

variable {num den : Nat}

theorem shifted_pos (hd : 0 < den) (e : Int) : 0 < (shifted num den e).2 := by
  unfold shifted
  split
  · exact Nat.mul_pos hd (Nat.pow_pos (by decide))
  · exact hd

theorem shifted_div (hd : 0 < den) (e : Int) :
    ((shifted num den e).1 : ℚ) / (shifted num den e).2 = num / den / 2 ^ e := by
  have hd' : (den : ℚ) ≠ 0 := by positivity
  unfold shifted
  split
  · rename_i he
    obtain ⟨k, rfl⟩ := Int.eq_ofNat_of_zero_le he
    simp only [Int.toNat_natCast, Nat.pow_eq, zpow_natCast, Nat.cast_mul, Nat.cast_pow,
      Nat.cast_ofNat]
    field_simp
  · rename_i he
    obtain ⟨k, hk⟩ : ∃ k : Nat, e = -k := ⟨(-e).toNat, by omega⟩
    subst hk
    simp only [neg_neg, Int.toNat_natCast, Nat.pow_eq, zpow_neg, zpow_natCast, Nat.cast_mul,
      Nat.cast_pow, Nat.cast_ofNat]
    field_simp

/-- A scaled fraction is at least one when the fraction is at least the scale. -/
theorem shifted_le_iff (hd : 0 < den) (e : Int) :
    (shifted num den e).2 ≤ (shifted num den e).1 ↔ (2 : ℚ) ^ e ≤ num / den := by
  have hs : (0 : ℚ) < (shifted num den e).2 := by exact_mod_cast shifted_pos hd e
  have he : (0 : ℚ) < 2 ^ e := by positivity
  have h : ((shifted num den e).1 : ℚ) / (shifted num den e).2 = num / den / 2 ^ e :=
    shifted_div hd e
  rw [← one_le_div₀ he, ← h, one_le_div₀ hs]
  exact Nat.cast_le.symm

theorem floorLog2_eq (hn : 0 < num) (hd : 0 < den) :
    floorLog2 num den = Int.log 2 ((num : ℚ) / den) := by
  have hv : (0 : ℚ) < num / den := by positivity
  have hd' : (0 : ℚ) < den := by exact_mod_cast hd
  have hnl : (2 : ℚ) ^ num.log2 ≤ num := by exact_mod_cast Nat.log2_self_le hn.ne'
  have hnu : (num : ℚ) < 2 ^ (num.log2 + 1) := by exact_mod_cast Nat.lt_log2_self
  have hdl : (2 : ℚ) ^ den.log2 ≤ den := by exact_mod_cast Nat.log2_self_le hd.ne'
  have hdu : (den : ℚ) < 2 ^ (den.log2 + 1) := by exact_mod_cast Nat.lt_log2_self
  have two : (2 : ℚ) ≠ 0 := by decide
  unfold floorLog2
  simp only [shifted_le_iff hd]
  generalize he : (num.log2 : Int) - den.log2 = e
  have upper : (num : ℚ) / den < 2 ^ (e + 1) := by
    rw [div_lt_iff₀ hd']
    calc (num : ℚ) < 2 ^ (num.log2 + 1) := hnu
      _ = 2 ^ (e + 1) * 2 ^ den.log2 := by
        rw [← zpow_natCast, ← zpow_natCast, ← zpow_add₀ two]
        congr 1
        omega
      _ ≤ 2 ^ (e + 1) * den := by gcongr
  have lower : (2 : ℚ) ^ (e - 1) ≤ num / den := by
    rw [le_div_iff₀ hd']
    calc (2 : ℚ) ^ (e - 1) * den ≤ 2 ^ (e - 1) * 2 ^ (den.log2 + 1) := by gcongr
      _ = 2 ^ num.log2 := by
        rw [← zpow_natCast, ← zpow_natCast, ← zpow_add₀ two]
        congr 1
        omega
      _ ≤ num := hnl
  split
  · rename_i h
    exact (log_eq (by decide) hv h upper).symm
  · rename_i h
    refine (log_eq (by decide) hv lower ?_).symm
    rw [sub_add_cancel]
    exact not_le.1 h

theorem roundDiv_mul {k : Nat} (hk : 0 < k) (num den : Nat) :
    roundDiv (k * num) (k * den) = roundDiv num den := by
  unfold roundDiv
  rw [Nat.mul_mod_mul_left, Nat.mul_div_mul_left _ _ hk]
  have hlt : 2 * (k * (num % den)) < k * den ↔ 2 * (num % den) < den := by
    rw [Nat.mul_left_comm]
    exact Nat.mul_lt_mul_left hk
  have heq : 2 * (k * (num % den)) = k * den ↔ 2 * (num % den) = den := by
    rw [Nat.mul_left_comm]
    exact Nat.mul_right_inj hk.ne'
  simp only [hlt, heq]

/-- Rounding does not see how a fraction is written. -/
theorem roundDiv_congr {num' den' : Nat} (hd : 0 < den) (hd' : 0 < den')
    (h : (num : ℚ) / den = num' / den') : roundDiv num den = roundDiv num' den' := by
  have hcross : num * den' = num' * den := by
    rw [div_eq_div_iff (by positivity) (by positivity)] at h
    exact_mod_cast h
  rw [← roundDiv_mul hd', Nat.mul_comm, hcross, ← roundDiv_mul hd num' den', Nat.mul_comm,
    Nat.mul_comm den']

theorem nearest_congr {num' den' : Nat} (hd : 0 < den) (hd' : 0 < den')
    (h : (num : ℚ) / den = num' / den') : nearest num den = nearest num' den' := by
  have hz : num = 0 ↔ num' = 0 := by
    rw [div_eq_div_iff (by positivity) (by positivity)] at h
    have hcross : num * den' = num' * den := by exact_mod_cast h
    constructor <;> intro hn <;> simpa [hn, hd.ne', hd'.ne'] using hcross
  unfold nearest
  by_cases hn : num = 0
  · rw [if_pos hn, if_pos (hz.1 hn)]
  · have hn' := fun h => hn (hz.2 h)
    rw [if_neg hn, if_neg hn', floorLog2_eq (Nat.pos_of_ne_zero hn) hd,
      floorLog2_eq (Nat.pos_of_ne_zero hn') hd', h]
    have hr : ∀ e, roundDiv (shifted num den e).1 (shifted num den e).2 =
        roundDiv (shifted num' den' e).1 (shifted num' den' e).2 := fun e =>
      roundDiv_congr (shifted_pos hd e) (shifted_pos hd' e)
        (by rw [shifted_div hd, shifted_div hd', h])
    simp only [hr]

/-- A number of at most 24 binary digits is met, if it has all of them or begins where the numbers
begin. -/
theorem nearest_exact {digits : Nat} {q : Int} (hd : 0 < den)
    (h : (num : ℚ) / den = digits * 2 ^ q) (hpos : 0 < digits) (hlt : digits < 2 ^ 24)
    (hq : -149 ≤ q) (hfull : 2 ^ 23 ≤ digits ∨ q = -149) :
    nearest num den = min ((q + 149).toNat * 0x800000 + digits) infinite := by
  have two : (2 : ℚ) ≠ 0 := by decide
  have hv : (0 : ℚ) < digits * 2 ^ q := by positivity
  have hn : num ≠ 0 := by
    rintro rfl
    rw [Nat.cast_zero, zero_div] at h
    exact hv.ne h
  have hlow : (2 : ℚ) ^ digits.log2 ≤ digits := by exact_mod_cast Nat.log2_self_le hpos.ne'
  have hhigh : (digits : ℚ) < 2 ^ (digits.log2 + 1) := by exact_mod_cast Nat.lt_log2_self
  have hlog : floorLog2 num den = digits.log2 + q := by
    rw [floorLog2_eq (Nat.pos_of_ne_zero hn) hd, h]
    refine log_eq (by decide) hv ?_ ?_
    · rw [Nat.cast_ofNat, zpow_add₀ two, zpow_natCast]
      gcongr
    · rw [Nat.cast_ofNat, add_right_comm, zpow_add₀ two]
      gcongr
      exact_mod_cast hhigh
  have hplace : max (floorLog2 num den - 23) (-149) = q := by
    have hle : digits.log2 < 24 := (Nat.log2_lt hpos.ne').2 hlt
    rw [hlog]
    rcases hfull with hfull | hfull
    · have hge : 23 ≤ digits.log2 := (Nat.le_log2 hpos.ne').2 hfull
      omega
    · omega
  have hround : roundDiv (shifted num den q).1 (shifted num den q).2 = digits := by
    have hs : ((shifted num den q).1 : ℚ) / (shifted num den q).2 = digits / (1 : Nat) := by
      rw [shifted_div hd, h, Nat.cast_one, div_one]
      field_simp
    rw [roundDiv_congr (shifted_pos hd q) Nat.one_pos hs]
    simp [roundDiv, Nat.mod_one]
  unfold nearest
  simp only [if_neg hn, hplace, hround]

end
end Single
end BlockScript
