import Mathlib.Data.List.TakeWhile
import BlockScript.Proofs.Single.Exactness
import BlockScript.Single.Reading

namespace BlockScript

theorem Numeral.ofDigits?_eq {ds : List Char} (hne : ds ≠ []) (h : ∀ c ∈ ds, c.isDigit) :
    ofDigits? ds = some (Nat.ofDigitChars 10 ds 0) :=
  if_pos ⟨hne, List.all_eq_true.2 h⟩

namespace Single

theorem span_digits {ds r : List Char} (h : ∀ c ∈ ds, c.isDigit)
    (hr : ∀ c, r.head? = some c → c.isDigit = false) :
    (ds ++ r).span Char.isDigit = (ds, r) := by
  rw [List.span_eq_takeWhile_dropWhile, List.takeWhile_append_of_pos h,
    List.dropWhile_append_of_pos h]
  cases r with
  | nil => simp
  | cons c cs =>
    have hc := hr c rfl
    simp [hc]

theorem decimal?_whole {ds : List Char} (hne : ds ≠ []) (h : ∀ c ∈ ds, c.isDigit) :
    decimal? ds = some ⟨Nat.ofDigitChars 10 ds 0, 0⟩ := by
  have hs := span_digits (r := []) h nofun
  rw [List.append_nil] at hs
  unfold decimal?
  simp only [hs, fraction, List.append_nil, Numeral.ofDigits?_eq hne h]
  rfl

theorem decimal?_point {ws fs : List Char} (hne : ws ++ fs ≠ []) (hw : ∀ c ∈ ws, c.isDigit)
    (hf : ∀ c ∈ fs, c.isDigit) :
    decimal? (ws ++ '.' :: fs) = some ⟨Nat.ofDigitChars 10 (ws ++ fs) 0, -fs.length⟩ := by
  have hs := span_digits (r := '.' :: fs) hw (by rintro c ⟨⟩; rfl)
  have hfs := span_digits (r := []) hf nofun
  rw [List.append_nil] at hfs
  have hall : ∀ c ∈ ws ++ fs, c.isDigit := fun c hc => (List.mem_append.1 hc).elim (hw c) (hf c)
  unfold decimal?
  simp only [hs, hfs, fraction, Numeral.ofDigits?_eq hne hall]
  simp [exponent?]

/-- Only zeros at the end are no significant digits. -/
theorem significant_append (d : Decimal) :
    ∃ k, Nat.toDigits 10 d.digits = significant d ++ List.replicate k '0' := by
  let reversed := (Nat.toDigits 10 d.digits).reverse
  have hz : reversed.takeWhile (· = '0') =
      List.replicate (reversed.takeWhile (· = '0')).length '0' :=
    List.eq_replicate_of_mem fun c hc => by simpa using List.mem_takeWhile_imp hc
  refine ⟨(reversed.takeWhile (· = '0')).length, ?_⟩
  calc Nat.toDigits 10 d.digits = reversed.reverse := (List.reverse_reverse _).symm
    _ = (reversed.takeWhile (· = '0') ++ reversed.dropWhile (· = '0')).reverse := by
      rw [List.takeWhile_append_dropWhile]
    _ = significant d ++ (reversed.takeWhile (· = '0')).reverse := List.reverse_append
    _ = _ := by
      conv_lhs => rw [hz, List.reverse_replicate]

theorem isDigit_significant {d : Decimal} {c : Char} (h : c ∈ significant d) : c.isDigit := by
  obtain ⟨k, hk⟩ := significant_append d
  refine Nat.isDigit_of_mem_toDigits (b := 10) (n := d.digits) (by decide) (by decide) ?_
  rw [hk]
  exact List.mem_append_left _ h

/-- The significant digits spell a decimal's value up to a power of ten. -/
theorem value_significant (d : Decimal) :
    d.value = Nat.ofDigitChars 10 (significant d) 0 * 10 ^ (d.point - (significant d).length) := by
  obtain ⟨k, hk⟩ := significant_append d
  have hdigits : d.digits = 10 ^ k * Nat.ofDigitChars 10 (significant d) 0 := by
    rw [← Nat.ofDigitChars_replicate_zero, ← Nat.ofDigitChars_append, ← hk,
      Nat.ofDigitChars_ten_toDigits]
  have hpoint : d.point - (significant d).length = k + d.exponent := by
    rw [Decimal.point, hk, List.length_append, List.length_replicate]
    omega
  rw [hpoint, zpow_add₀ (by decide), zpow_natCast, Decimal.value, hdigits]
  push_cast
  ring

/-- Characters that read as a decimal of this value. -/
def Spell (cs : List Char) (v : ℚ) : Prop := ∃ d, decimal? cs = some d ∧ d.value = v

section

variable {ds : List Char} {point : Int}

theorem isDigit_zeros (k : Nat) : ∀ c ∈ List.replicate k '0', c.isDigit := by
  intro c hc
  rw [List.eq_of_mem_replicate hc]
  rfl

/-- The point may stand in front of all digits. -/
theorem spell_behind (hs : ∀ c ∈ ds, c.isDigit) (hp : point ≤ 0) :
    Spell (['0', '.'] ++ List.replicate (-point).toNat '0' ++ ds)
      (Nat.ofDigitChars 10 ds 0 * 10 ^ (point - ds.length)) := by
  have hall : ∀ c ∈ List.replicate (-point).toNat '0' ++ ds, c.isDigit := fun c hc =>
    (List.mem_append.1 hc).elim (isDigit_zeros _ c) (hs c)
  have hn : Nat.ofDigitChars 10 (['0'] ++ (List.replicate (-point).toNat '0' ++ ds)) 0 =
      Nat.ofDigitChars 10 ds 0 := by
    rw [Nat.ofDigitChars_append, Nat.ofDigitChars_append, Nat.ofDigitChars_replicate_zero]
    rfl
  have hzero : ∀ c ∈ ['0'], c.isDigit := List.forall_mem_singleton.2 rfl
  have hd := decimal?_point (List.cons_ne_nil _ _) hzero hall
  rw [List.append_assoc]
  refine ⟨_, hd, ?_⟩
  rw [Decimal.value, hn]
  congr 2
  simp only [List.length_append, List.length_replicate]
  omega

/-- It may stand behind all digits, where it is left out. -/
theorem spell_whole (hs : ∀ c ∈ ds, c.isDigit) (hp : ¬point ≤ 0) (hl : ds.length ≤ point.toNat) :
    Spell (ds ++ List.replicate (point.toNat - ds.length) '0')
      (Nat.ofDigitChars 10 ds 0 * 10 ^ (point - ds.length)) := by
  have hall : ∀ c ∈ ds ++ List.replicate (point.toNat - ds.length) '0', c.isDigit :=
    fun c hc => (List.mem_append.1 hc).elim (hs c) (isDigit_zeros _ c)
  have hne : ds ++ List.replicate (point.toNat - ds.length) '0' ≠ [] := by
    intro h
    have hlen := congrArg List.length h
    simp only [List.length_append, List.length_replicate, List.length_nil] at hlen
    omega
  refine ⟨_, decimal?_whole hne hall, ?_⟩
  have he : point - ds.length = (point.toNat - ds.length : Nat) := by omega
  rw [Decimal.value, Nat.ofDigitChars_append, Nat.ofDigitChars_replicate_zero, he, zpow_zero,
    zpow_natCast]
  push_cast
  ring

theorem spell_between (hs : ∀ c ∈ ds, c.isDigit) (hp : ¬point ≤ 0)
    (hl : ¬ds.length ≤ point.toNat) :
    Spell (ds.take point.toNat ++ ['.'] ++ ds.drop point.toNat)
      (Nat.ofDigitChars 10 ds 0 * 10 ^ (point - ds.length)) := by
  have htake : ∀ c ∈ ds.take point.toNat, c.isDigit := fun c hc =>
    hs c (List.mem_of_mem_take hc)
  have hdrop : ∀ c ∈ ds.drop point.toNat, c.isDigit := fun c hc =>
    hs c (List.mem_of_mem_drop hc)
  have hne : ds.take point.toNat ++ ds.drop point.toNat ≠ [] := by
    rw [List.take_append_drop]
    rintro rfl
    exact hl (Nat.zero_le _)
  rw [List.append_assoc, List.singleton_append]
  refine ⟨_, decimal?_point hne htake hdrop, ?_⟩
  rw [Decimal.value, List.take_append_drop]
  congr 2
  simp only [List.length_drop]
  omega

end

/-- A decimal written in full reads back as one of the same value. -/
theorem spell_positional (d : Decimal) : Spell (positional (significant d) d.point) d.value := by
  have hs : ∀ c ∈ significant d, c.isDigit := fun _ => isDigit_significant
  rw [value_significant]
  unfold positional
  split
  · rename_i hp
    exact spell_behind hs hp
  · rename_i hp
    split
    · rename_i hl
      exact spell_whole hs hp hl
    · rename_i hl
      exact spell_between hs hp hl

theorem unsigned?_decimal {cs : List Char} {e : Decimal} (h : decimal? cs = some e) :
    unsigned? cs = some (nearestDecimal e) := by
  rw [unsigned?, h]

/-- A decimal has no sign. -/
theorem ofChars?_decimal {cs : List Char} {e : Decimal} (h : decimal? cs = some e) :
    ofChars? cs = some (ofMagnitude false (nearestDecimal e)) := by
  unfold ofChars?
  split
  · cases h
  · cases h
  · rw [unsigned?_decimal h]
    rfl

/-- The text of a finite number other than zero, without its sign. -/
theorem decimal?_plain {m : Nat} (h : 0 < m) (hm : m < infinite) :
    ∃ e, decimal? (positional (significant (shortest m)) (shortest m).point) = some e ∧
      nearestDecimal e = m := by
  obtain ⟨e, he, hv⟩ := spell_positional (shortest m)
  exact ⟨e, he, (nearestDecimal_congr hv).trans (nearestDecimal_shortest h hm)⟩

/-- A number in full is read back as it was; all that are no number become one. -/
theorem ofText?_plain (x : Single) : ofText? x.plain = some (if x.isNaN then nan else x) := by
  by_cases hnan : x.isNaN = true
  · rw [plain, if_pos hnan, if_pos hnan]
    rfl
  have hle : x.magnitude ≤ infinite := by simpa [isNaN] using hnan
  have hx := x.ofMagnitude_magnitude
  rw [plain, if_neg hnan, if_neg hnan]
  by_cases hi : x.isInfinite = true
  · have hm : x.magnitude = infinite := by simpa [isInfinite] using hi
    rw [hm] at hx
    rw [if_pos hi]
    cases hneg : x.isNegative <;> rw [hneg] at hx <;> rw [← hx] <;> rfl
  have hne : x.magnitude ≠ infinite := by simpa [isInfinite] using hi
  rw [if_neg hi]
  by_cases hz : x.magnitude = 0
  · rw [hz] at hx
    rw [if_pos hz]
    cases hneg : x.isNegative <;> rw [hneg] at hx <;> rw [← hx] <;> rfl
  obtain ⟨e, he, hn⟩ := decimal?_plain (Nat.pos_of_ne_zero hz) (Nat.lt_of_le_of_ne hle hne)
  rw [if_neg hz]
  change ofChars? ((if x.isNegative = true then "-" else "") ++ String.ofList (positional
    (significant (shortest x.magnitude)) (shortest x.magnitude).point)).toList = _
  generalize positional _ _ = ds at he
  rw [String.toList_append, String.toList_ofList]
  cases hneg : x.isNegative with
  | false =>
    rw [hneg] at hx
    change ofChars? ds = _
    rw [ofChars?_decimal he, hn, hx]
  | true =>
    rw [hneg] at hx
    change (unsigned? ds).map (ofMagnitude true) = _
    rw [unsigned?_decimal he, hn, Option.map_some, hx]

theorem nearest_le (num den : Nat) : nearest num den ≤ infinite := by
  unfold nearest
  split
  · exact Nat.zero_le _
  · exact Nat.min_le_right _ _

theorem nearestDecimal_le (d : Decimal) : nearestDecimal d ≤ infinite := by
  unfold nearestDecimal
  split
  · exact Nat.zero_le _
  · split
    · exact Nat.le_refl _
    · split <;> exact nearest_le _ _

theorem toLower_digit {c : Char} (h : c.isDigit = true) : c.toLower = c := by
  simp only [Char.isDigit, Bool.and_eq_true, decide_eq_true_eq] at h
  refine dif_neg fun hu => ?_
  have h1 : c.val.toNat ≤ 57 := UInt32.le_iff_toNat_le.1 h.2
  have h2 : 65 ≤ c.val.toNat := UInt32.le_iff_toNat_le.1 hu.1
  omega

/-- A text that begins with a digit says a number, and one without a sign. -/
theorem ofText?_digit {text : String} {c : Char} {x : Single} (hc : text.toList.head? = some c)
    (hd : c.isDigit = true) (h : ofText? text = some x) :
    ∃ m, m ≤ infinite ∧ x = ofMagnitude false m := by
  unfold ofText? at h
  cases hcs : text.toList with
  | nil =>
    rw [hcs] at hc
    cases hc
  | cons d cs =>
    rw [hcs] at hc h
    obtain rfl := Option.some.inj hc
    unfold ofChars? at h
    split at h
    · rename_i heq
      rw [(List.cons.inj heq).1] at hd
      cases hd
    · rename_i heq
      rw [(List.cons.inj heq).1] at hd
      cases hd
    · obtain ⟨m, hm, rfl⟩ := Option.map_eq_some_iff.1 h
      refine ⟨m, ?_, rfl⟩
      unfold unsigned? at hm
      split at hm
      · cases hm
        exact nearestDecimal_le _
      · simp only [List.map_cons, toLower_digit hd] at hm
        split at hm
        · cases hm
          exact Nat.le_refl _
        · split at hm
          · rename_i hw
            rw [(List.cons.inj hw).1] at hd
            cases hd
          · cases hm

theorem isNaN_ofMagnitude {m : Nat} (h : m ≤ infinite) (negative : Bool) :
    (ofMagnitude negative m).isNaN = false := by
  have hm : m < 0x80000000 := Nat.lt_of_le_of_lt h (by decide)
  rw [isNaN, magnitude_ofMagnitude negative hm]
  simpa using h

end Single
end BlockScript
