import BlockScript.Proofs.Wire.Fields

namespace BlockScript.Numeral

/-- Digits that begin with a zero only if they are a single one. -/
def Trimmed (ds : List Char) : Prop := ds.head? = some '0' → ds = ['0']

/-- A number without a plus sign and without needless zeros. -/
def PlainNatural (cs : List Char) : Prop := cs.head? ≠ some '+' ∧ Trimmed cs

/-- An integer without a plus sign and without needless zeros; zero has no sign. -/
def PlainInteger : List Char → Prop
  | '-' :: ds => ds.head? ≠ some '0'
  | cs => PlainNatural cs

theorem digit_eq {c : Char} (h : c.isDigit) : c.toNat - 48 < 10 ∧ c = (c.toNat - 48).digitChar := by
  simp only [Char.isDigit, Bool.and_eq_true, decide_eq_true_eq] at h
  have hlow : 48 ≤ c.toNat := UInt32.le_iff_toNat_le.1 h.1
  have hhigh : c.toNat ≤ 57 := UInt32.le_iff_toNat_le.1 h.2
  have hlt : c.toNat - 48 < 10 := by omega
  refine ⟨hlt, ?_⟩
  rw [← Char.toNat_inj, Nat.toNat_digitChar_of_lt_ten hlt]
  omega

/-- Digits that do not begin with a zero are those of the number that they spell. -/
theorem toDigits_ofDigitChars {ds : List Char} (hne : ds ≠ []) (hd : ∀ c ∈ ds, c.isDigit)
    (hz : ds.head? ≠ some '0') :
    0 < Nat.ofDigitChars 10 ds 0 ∧ Nat.toDigits 10 (Nat.ofDigitChars 10 ds 0) = ds := by
  induction ds using List.reverseRecOn with
  | nil => exact absurd rfl hne
  | append_singleton ds c ih =>
    have hdigits := List.forall_mem_append.1 hd
    obtain ⟨hlt, hc⟩ := digit_eq (hdigits.2 c (List.mem_singleton_self c))
    have hvalue (n : Nat) : Nat.ofDigitChars 10 [c] n = 10 * n + (c.toNat - 48) := rfl
    rw [Nat.ofDigitChars_append, hvalue]
    by_cases hds : ds = []
    · subst hds
      rw [Nat.ofDigitChars_nil, Nat.mul_zero, Nat.zero_add, Nat.toDigits_of_lt_base hlt, ← hc]
      refine ⟨Nat.pos_of_ne_zero fun h0 => hz ?_, rfl⟩
      rw [hc, h0]
      rfl
    · have hhead : ds.head? ≠ some '0' := by
        rwa [List.head?_append_of_ne_nil ds hds] at hz
      obtain ⟨hpos, hrest⟩ := ih hds hdigits.1 hhead
      refine ⟨by omega, ?_⟩
      rw [← Nat.toDigits_append_toDigits (by decide) hpos hlt, hrest,
        Nat.toDigits_of_lt_base hlt, ← hc]

theorem head?_toDigits {n : Nat} (h : 0 < n) : (Nat.toDigits 10 n).head? ≠ some '0' := by
  induction n using Nat.strongRecOn with
  | ind n ih =>
    by_cases hn : n < 10
    · rw [Nat.toDigits_of_lt_base hn]
      intro h0
      have hzero : n = 0 := Nat.digitChar_eq_zero.1 (Option.some.inj h0)
      omega
    · rw [Nat.toDigits_of_base_le (by decide) (by omega),
        List.head?_append_of_ne_nil _ Nat.toDigits_ne_nil]
      exact ih (n / 10) (by omega) (by omega)

theorem trimmed_toDigits (n : Nat) : Trimmed (Nat.toDigits 10 n) := by
  intro h
  by_cases hn : n = 0
  · rw [hn, Nat.toDigits_zero]
  · exact absurd h (head?_toDigits (Nat.pos_of_ne_zero hn))

section

variable {ds cs : List Char} {n : Nat}

theorem ofDigits?_some (h : ofDigits? ds = some n) :
    ds ≠ [] ∧ (∀ c ∈ ds, c.isDigit) ∧ Nat.ofDigitChars 10 ds 0 = n := by
  unfold ofDigits? at h
  split at h
  · rename_i hds
    exact ⟨hds.1, List.all_eq_true.1 hds.2, Option.some.inj h⟩
  · cases h

/-- A number has one spelling without needless zeros. -/
theorem eq_toDigits_iff (h : ofDigits? ds = some n) : ds = Nat.toDigits 10 n ↔ Trimmed ds := by
  obtain ⟨hne, hdigits, hvalue⟩ := ofDigits?_some h
  constructor
  · intro heq
    rw [heq]
    exact trimmed_toDigits n
  · intro htrimmed
    by_cases hz : ds.head? = some '0'
    · rw [← hvalue, htrimmed hz]
      rfl
    · rw [← hvalue, (toDigits_ofDigitChars hne hdigits hz).2]

theorem head?_digits_ne (c : Char) (hc : c.isDigit = false) :
    (Nat.toDigits 10 n).head? ≠ some c := by
  intro h
  have hd := digits_toDigits n c (List.mem_of_head? h)
  rw [hc] at hd
  cases hd

theorem natural?_spelling {bound : Nat} (h : natural? bound cs = some n) :
    cs = Nat.toDigits 10 n ↔ PlainNatural cs := by
  unfold natural? at h
  split at h
  · rename_i ds
    constructor
    · intro heq
      exact absurd (congrArg List.head? heq.symm) (head?_digits_ne '+' (by decide))
    · intro hplain
      exact absurd rfl hplain.1
  · rename_i hplus
    have hsign : cs.head? ≠ some '+' := by
      intro hhead
      obtain ⟨ds, rfl⟩ := List.head?_eq_some_iff.1 hhead
      exact hplus ds rfl
    rw [eq_toDigits_iff (Option.filter_eq_some_iff.1 h).1, PlainNatural, and_iff_right hsign]

end

theorem count?_spelling {field : String} {n : Nat} (h : count? field = some n) :
    field = toString n ↔ PlainNatural field.toList := by
  rw [← natural?_spelling h, ← String.toList_inj, Nat.toString_eq_ofList_toDigits,
    String.toList_ofList]

theorem word?_spelling {field : String} {w : UInt32} (h : word? field = some w) :
    field = toString w.toNat ↔ PlainNatural field.toList := by
  obtain ⟨n, hn, rfl⟩ := Option.map_eq_some_iff.1 h
  have hw : (UInt32.ofNat n).toNat = n := UInt32.toNat_ofNat_of_lt (natural?_lt hn)
  rw [hw, ← natural?_spelling hn, ← String.toList_inj, Nat.toString_eq_ofList_toDigits,
    String.toList_ofList]

theorem ofInt?_some {n : Int} {v : Int64} (h : ofInt? n = some v) : v.toInt = n := by
  unfold ofInt? at h
  split at h
  · rename_i hn
    rw [← Option.some.inj h, Int64.toInt_ofInt_of_le (by omega) (by omega)]
  · cases h

theorem toList_natCast (n : Nat) : (toString (n : Int)).toList = Nat.toDigits 10 n := by
  change (toString n).toList = _
  rw [Nat.toString_eq_ofList_toDigits, String.toList_ofList]

theorem toList_neg {n : Nat} (h : 0 < n) :
    (toString (-(n : Int))).toList = '-' :: Nat.toDigits 10 n := by
  obtain ⟨m, rfl⟩ : ∃ m, n = m + 1 := ⟨n - 1, by omega⟩
  have hneg : toString (-((m + 1 : Nat) : Int)) = "-" ++ toString (m + 1) := rfl
  rw [hneg, String.toList_append, Nat.toString_eq_ofList_toDigits, String.toList_ofList,
    String.toList_ofList, List.singleton_append]

/-- The number of a sign and digits is written so just if the first digit is not zero. -/
theorem negative_spelling {ds : List Char} {n : Nat} (h : ofDigits? ds = some n) :
    '-' :: ds = (toString (-(n : Int))).toList ↔ ds.head? ≠ some '0' := by
  by_cases hn : n = 0
  · subst hn
    have hzero : (toString (-((0 : Nat) : Int))).toList = ['0'] := rfl
    rw [hzero]
    constructor
    · intro heq
      exact absurd (List.cons.inj heq).1 (by decide)
    · intro hhead
      obtain ⟨hne, hdigits, hvalue⟩ := ofDigits?_some h
      have hpos := (toDigits_ofDigitChars hne hdigits hhead).1
      omega
  · have hpos : 0 < n := Nat.pos_of_ne_zero hn
    rw [toList_neg hpos, List.cons_inj_right, eq_toDigits_iff h]
    constructor
    · intro htrimmed hhead
      rw [htrimmed hhead] at h
      exact hn (Option.some.inj h).symm
    · intro hhead hzero
      exact absurd hzero hhead

theorem integer?_spelling {field : String} {v : Int64} (h : integer? field.toList = some v) :
    field = toString v.toInt ↔ PlainInteger field.toList := by
  rw [← String.toList_inj]
  generalize field.toList = cs at h
  unfold integer? at h
  split at h
  · obtain ⟨n, hn, hv⟩ := Option.bind_eq_some_iff.1 h
    rw [ofInt?_some hv]
    exact negative_spelling hn
  · obtain ⟨n, hn, hv⟩ := Option.bind_eq_some_iff.1 h
    rw [ofInt?_some hv, toList_natCast]
    constructor
    · intro heq
      exact absurd (congrArg List.head? heq.symm) (head?_digits_ne '+' (by decide))
    · intro hplain
      exact absurd rfl hplain.1
  · rename_i hminus hplus
    obtain ⟨n, hn, hv⟩ := Option.bind_eq_some_iff.1 h
    have hsign : cs.head? ≠ some '+' := by
      intro hhead
      obtain ⟨ds, rfl⟩ := List.head?_eq_some_iff.1 hhead
      exact hplus ds rfl
    have hplain : PlainInteger cs ↔ PlainNatural cs := by
      unfold PlainInteger
      split
      · exact absurd rfl (hminus _)
      · exact Iff.rfl
    rw [ofInt?_some hv, toList_natCast, eq_toDigits_iff hn, hplain, PlainNatural,
      and_iff_right hsign]

end BlockScript.Numeral
