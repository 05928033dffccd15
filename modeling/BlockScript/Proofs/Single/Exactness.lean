import BlockScript.Proofs.Single.Nearest
import BlockScript.Single.Shortest

namespace BlockScript

namespace Decimal

def value (d : Decimal) : ℚ := d.digits * 10 ^ d.exponent

theorem value_eq_zero_iff (d : Decimal) : d.value = 0 ↔ d.digits = 0 := by
  have h : (10 : ℚ) ^ d.exponent ≠ 0 := by positivity
  simp [value, h]

theorem value_pos {d : Decimal} (h : d.digits ≠ 0) : 0 < d.value := by
  have hd : 0 < d.digits := Nat.pos_of_ne_zero h
  unfold value
  positivity

theorem point_eq {d : Decimal} (h : d.digits ≠ 0) : d.point = Int.log 10 d.value + 1 := by
  have ten : (10 : ℚ) ≠ 0 := by decide
  obtain ⟨len, hl⟩ : ∃ len, (Nat.toDigits 10 d.digits).length = len + 1 :=
    ⟨_, (Nat.sub_one_add_one Nat.length_toDigits_pos.ne').symm⟩
  have hu : d.digits < 10 ^ (len + 1) :=
    (Nat.length_toDigits_le_iff (by decide) len.succ_pos).1 (Nat.le_of_eq hl)
  have hb : 10 ^ len ≤ d.digits := by
    rcases Nat.eq_zero_or_pos len with h0 | hpos
    · rw [h0]
      exact Nat.pos_of_ne_zero h
    · refine Nat.le_of_not_lt fun hlt => ?_
      have hle := (Nat.length_toDigits_le_iff (b := 10) (by decide) hpos).2 hlt
      omega
  have hlog : Int.log 10 d.value = len + d.exponent := by
    refine log_eq (by decide) (value_pos h) ?_ ?_
    · rw [Nat.cast_ofNat, zpow_add₀ ten, zpow_natCast, value]
      gcongr
      exact_mod_cast hb
    · rw [Nat.cast_ofNat, add_right_comm, zpow_add₀ ten, value]
      gcongr
      exact_mod_cast hu
  rw [point, hl, hlog]
  push_cast
  ring

end Decimal

namespace Single

/-- The nearest magnitude is found through a fraction of the same value. -/
theorem nearestDecimal_fraction (d : Decimal) : ∃ num den : Nat, 0 < den ∧
    (num : ℚ) / den = d.value ∧ nearestDecimal d =
      if d.digits = 0 ∨ d.point < -45 then 0
      else if 40 < d.point then infinite
      else nearest num den := by
  unfold nearestDecimal Decimal.value
  by_cases he : 0 ≤ d.exponent
  · refine ⟨d.digits * Nat.pow 10 d.exponent.toNat, 1, Nat.one_pos, ?_, by simp only [if_pos he]⟩
    obtain ⟨k, hk⟩ := Int.eq_ofNat_of_zero_le he
    rw [hk]
    simp
  · have hden : 0 < Nat.pow 10 (-d.exponent).toNat := Nat.pow_pos (by decide)
    refine ⟨d.digits, _, hden, ?_, by simp only [if_neg he]⟩
    obtain ⟨k, hk⟩ : ∃ k : Nat, d.exponent = -k := ⟨(-d.exponent).toNat, by omega⟩
    rw [hk]
    simp [div_eq_mul_inv]

/-- How a decimal is written does not matter. -/
theorem nearestDecimal_congr {d e : Decimal} (h : d.value = e.value) :
    nearestDecimal d = nearestDecimal e := by
  obtain ⟨n, m, hm, hv, hd⟩ := nearestDecimal_fraction d
  obtain ⟨n', m', hm', hv', he⟩ := nearestDecimal_fraction e
  have hz : d.digits = 0 ↔ e.digits = 0 := by
    rw [← d.value_eq_zero_iff, ← e.value_eq_zero_iff, h]
  rw [hd, he, nearest_congr hm hm' (by rw [hv, hv', h])]
  by_cases hn : d.digits = 0
  · rw [if_pos (.inl hn), if_pos (.inl (hz.1 hn))]
  · have hp : d.point = e.point := by
      rw [Decimal.point_eq hn, Decimal.point_eq fun h => hn (hz.2 h), h]
    simp only [hz, hp]

/-- The binary digits of a finite magnitude. -/
def mantissa (magnitude : Nat) : Nat :=
  if magnitude / 0x800000 = 0 then magnitude % 0x800000 else 0x800000 + magnitude % 0x800000

/-- The position of the last of these digits. -/
def scale (magnitude : Nat) : Int :=
  if magnitude / 0x800000 = 0 then -149 else (magnitude / 0x800000 : Nat) - 150

section

variable {m : Nat}

theorem mantissa_pos (h : 0 < m) : 0 < mantissa m := by
  unfold mantissa
  split <;> omega

theorem mantissa_lt (m : Nat) : mantissa m < 2 ^ 24 := by
  unfold mantissa
  split <;> omega

theorem scale_ge (m : Nat) : -149 ≤ scale m := by
  unfold scale
  split <;> omega

theorem scale_le (h : m < infinite) : scale m ≤ 104 := by
  unfold scale
  simp only [infinite] at h
  split <;> omega

theorem mantissa_full (m : Nat) : 2 ^ 23 ≤ mantissa m ∨ scale m = -149 := by
  unfold mantissa scale
  split <;> omega

theorem scale_mantissa (m : Nat) : (scale m + 149).toNat * 0x800000 + mantissa m = m := by
  unfold mantissa scale
  split <;> omega

theorem value_exactDecimal (m : Nat) : (exactDecimal m).value = mantissa m * 2 ^ scale m := by
  change Decimal.value (if 0 ≤ scale m then ⟨mantissa m * Nat.pow 2 (scale m).toNat, 0⟩
    else ⟨mantissa m * Nat.pow 5 (-scale m).toNat, scale m⟩) = _
  by_cases h : 0 ≤ scale m
  · obtain ⟨k, hk⟩ := Int.eq_ofNat_of_zero_le h
    rw [if_pos h, hk]
    simp [Decimal.value]
  · obtain ⟨k, hk⟩ : ∃ k : Nat, scale m = -k := ⟨(-scale m).toNat, by omega⟩
    have ten : (10 : ℚ) ^ k = 5 ^ k * 2 ^ k := by rw [← mul_pow]; norm_num
    rw [if_neg h, hk, Decimal.value]
    simp only [neg_neg, Int.toNat_natCast, Nat.pow_eq, zpow_neg, zpow_natCast, Nat.cast_mul,
      Nat.cast_pow, Nat.cast_ofNat, ten]
    field_simp

theorem digits_exactDecimal (h : 0 < m) : (exactDecimal m).digits ≠ 0 := by
  intro hd
  have hv := (Decimal.value_eq_zero_iff _).2 hd
  have hpos := mantissa_pos h
  rw [value_exactDecimal] at hv
  exact absurd hv (by positivity)

theorem point_exactDecimal (h : 0 < m) (hm : m < infinite) :
    -45 ≤ (exactDecimal m).point ∧ (exactDecimal m).point ≤ 40 := by
  have hpos : (1 : ℚ) ≤ mantissa m := by exact_mod_cast mantissa_pos h
  have hlt : (mantissa m : ℚ) < 2 ^ 24 := by exact_mod_cast mantissa_lt m
  have hv : (0 : ℚ) < mantissa m * 2 ^ scale m := by positivity
  have lower : (10 : ℚ) ^ (-46 : Int) ≤ mantissa m * 2 ^ scale m :=
    calc (10 : ℚ) ^ (-46 : Int) ≤ 1 * 2 ^ (-149 : Int) := by norm_num
      _ ≤ mantissa m * 2 ^ scale m := by
        gcongr
        · norm_num
        · exact scale_ge m
  have upper : mantissa m * 2 ^ scale m < (10 : ℚ) ^ (40 : Int) :=
    calc (mantissa m : ℚ) * 2 ^ scale m < 2 ^ 24 * 2 ^ (105 : Int) := by
          gcongr
          · norm_num
          · exact Int.lt_of_le_of_lt (scale_le hm) (by decide)
      _ ≤ 10 ^ (40 : Int) := by norm_num
  rw [Decimal.point_eq (digits_exactDecimal h), value_exactDecimal]
  have h1 := (Int.zpow_le_iff_le_log (b := 10) (by decide) hv).1 lower
  have h2 := (Int.lt_zpow_iff_log_lt (b := 10) (by decide) hv).1 upper
  omega

/-- The exact value of a number is nearest to the number itself. -/
theorem nearestDecimal_exactDecimal (h : 0 < m) (hm : m < infinite) :
    nearestDecimal (exactDecimal m) = m := by
  obtain ⟨num, den, hden, hv, hn⟩ := nearestDecimal_fraction (exactDecimal m)
  obtain ⟨hlow, hhigh⟩ := point_exactDecimal h hm
  rw [value_exactDecimal] at hv
  have hd := digits_exactDecimal h
  rw [hn, if_neg (by omega), if_neg (by omega),
    nearest_exact hden hv (mantissa_pos h) (mantissa_lt m) (scale_ge m) (mantissa_full m),
    scale_mantissa, Nat.min_eq_left (Nat.le_of_lt hm)]

theorem nearestDecimal_shortest (h : 0 < m) (hm : m < infinite) :
    nearestDecimal (shortest m) = m :=
  nearestDecimal_shorten _ (nearestDecimal_exactDecimal h hm)

end
end Single
end BlockScript
