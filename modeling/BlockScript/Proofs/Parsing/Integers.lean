import BlockScript.Proofs.Lexing.Layout
import BlockScript.Proofs.Parsing.Alone
import BlockScript.Proofs.Parsing.Completeness
import BlockScript.Proofs.Wire.Record

namespace BlockScript

open Lexeme

namespace Lexeme

/-- The number that digits spell. -/
def number (ds : List Char) : Nat := Nat.ofDigitChars 10 ds 0

/-- The power of ten that stands behind a number. -/
def power : List Char → Nat
  | [] => 0
  | _ :: ds => number ds

/-- Only digits and what may stand behind them spell an integer. -/
theorem spells_int {w : List Char} (h : Spells .int w) :
    ∃ ds ex, Digits ds ∧ Exponent ex ∧ w = ds ++ ex := by
  cases h with
  | int hd he => exact ⟨_, _, hd, he, rfl⟩
  | symbol hmem => exact absurd (by decide) (word_kind (.inl hmem))
  | keyword hmem => exact absurd (by decide) (word_kind (.inr hmem))

theorem isMark_iff {c : Char} : Literal.isMark c = true ↔ IsMark c := by
  simp [Literal.isMark, IsMark]

/-- The digits of a number end where its exponent begins. -/
theorem span_exponent {ds ex : List Char} (hd : Digits ds) (he : Exponent ex) :
    (ds ++ ex).span (fun c => !Literal.isMark c) = (ds, ex) := by
  have hdigits : ∀ c ∈ ds, (!Literal.isMark c) = true := by
    intro c hc
    rw [Bool.not_eq_true', Bool.eq_false_iff]
    intro hm
    have hdigit := hd.2 c hc
    rw [State.isDigit_mark (isMark_iff.1 hm)] at hdigit
    cases hdigit
  rw [List.span_eq_takeWhile_dropWhile, List.takeWhile_append_of_pos hdigits,
    List.dropWhile_append_of_pos hdigits]
  cases he with
  | none => simp
  | some hm => simp [isMark_iff.2 hm]

end Lexeme

namespace Numeral

theorem ofDigits?_number {ds : List Char} (hd : Digits ds) : ofDigits? ds = some (number ds) :=
  if_pos ⟨hd.1, List.all_eq_true.2 hd.2⟩

/-- A number without a sign is read unless it is too large for a machine integer. -/
theorem ofInt?_natCast (n : Nat) :
    ofInt? n = if n < 2 ^ 63 then some (Int64.ofInt n) else none := by
  unfold ofInt?
  by_cases hn : n < 2 ^ 63
  · rw [if_pos hn, if_pos (by omega)]
  · rw [if_neg hn, if_neg (by omega)]

theorem toInt_ofInt_natCast {n : Nat} (hn : n < 2 ^ 63) : (Int64.ofInt n).toInt = n :=
  Int64.toInt_ofInt_of_le (by omega) (by omega)

end Numeral

namespace Literal

/-- A power of ten that fits in a machine integer has an exponent of at most 18, also as a factor of
a number that fits, unless the other factor is zero. -/
theorem exponent_le {n e : Nat} (hfits : n * 10 ^ e < 2 ^ 63) (hzero : n = 0 → e ≤ 18) :
    e ≤ 18 := by
  by_contra hlarge
  have hn : 0 < n := Nat.pos_of_ne_zero fun h0 => hlarge (hzero h0)
  have hbound : 2 ^ 63 < n * 10 ^ e :=
    calc
      2 ^ 63 < 10 ^ 19 := by decide
      _ ≤ 10 ^ e := Nat.pow_le_pow_right (by decide) (by omega)
      _ ≤ n * 10 ^ e := Nat.le_mul_of_pos_left _ hn
  exact absurd hfits (Nat.lt_asymm hbound)

/-- Digits with an exponent can be read as a machine integer. -/
def Fits (ds ex : List Char) : Prop :=
  number ds * 10 ^ power ex < 2 ^ 63 ∧ (number ds = 0 → power ex ≤ 18)

instance (ds ex : List Char) : Decidable (Fits ds ex) := inferInstanceAs (Decidable (_ ∧ _))

theorem integer?_plain {ds : List Char} {text : String} (hd : Digits ds) (ht : text.toList = ds) :
    integer? text = Numeral.ofInt? (number ds) := by
  have hspan := span_exponent hd .none
  rw [List.append_nil, ← ht] at hspan
  simp only [integer?, hspan]
  rw [ht, Numeral.integer?_digits hd.2, Numeral.ofDigits?_number hd, Option.bind_some]

theorem integer?_scaled {ds es : List Char} {m : Char} {text : String} (hd : Digits ds)
    (hm : IsMark m) (he : Digits es) (ht : text.toList = ds ++ m :: es) :
    integer? text = (Numeral.ofInt? (number ds)).bind fun n =>
      if number es ≤ 18 then Numeral.ofInt? (n.toInt * Nat.pow 10 (number es)) else none := by
  have hspan := span_exponent hd (.some hm he)
  rw [← ht] at hspan
  simp only [integer?, hspan]
  rw [Numeral.integer?_digits hd.2, Numeral.natural?_digits he.2, Numeral.ofDigits?_number hd,
    Numeral.ofDigits?_number he, Option.bind_some]
  refine Option.bind_congr fun n _ => ?_
  by_cases hword : number es < 0x100000000
  · rw [Option.filter_some, decide_eq_true hword, if_pos rfl, Option.bind_some]
  · rw [Option.filter_some, decide_eq_false hword, if_neg (by decide), Option.bind_none,
      if_neg (by omega)]

theorem integer?_spelled {ds ex : List Char} {text : String} (hd : Digits ds) (he : Exponent ex)
    (ht : text.toList = ds ++ ex) :
    integer? text =
      if Fits ds ex then some (Int64.ofInt ↑(number ds * 10 ^ power ex)) else none := by
  cases he with
  | none =>
    have hfits : Fits ds [] ↔ number ds < 2 ^ 63 := by simp [Fits, power]
    rw [List.append_nil] at ht
    simp only [integer?_plain hd ht, Numeral.ofInt?_natCast, hfits, power, Nat.pow_zero,
      Nat.mul_one]
  | @some m es hm hes =>
    rw [integer?_scaled hd hm hes ht, Numeral.ofInt?_natCast]
    by_cases hfits : Fits ds (m :: es)
    · have hsmall : number es ≤ 18 := exponent_le hfits.1 hfits.2
      have hn : number ds < 2 ^ 63 :=
        Nat.lt_of_le_of_lt (Nat.le_mul_of_pos_right _ (Nat.pow_pos (by decide))) hfits.1
      rw [if_pos hn, if_pos hfits, Option.bind_some, if_pos hsmall,
        Numeral.toInt_ofInt_natCast hn, ← Int.natCast_mul, Numeral.ofInt?_natCast]
      exact if_pos hfits.1
    · rw [if_neg hfits, Option.bind_eq_none_iff]
      intro n hn
      rw [ite_eq_right_iff]
      intro hsmall
      by_cases hcoefficient : number ds < 2 ^ 63
      · rw [if_pos hcoefficient] at hn
        cases hn
        have hlarge : ¬number ds * 10 ^ number es < 2 ^ 63 := fun h =>
          hfits ⟨h, fun _ => hsmall⟩
        rw [Numeral.toInt_ofInt_natCast hcoefficient, ← Int.natCast_mul, Numeral.ofInt?_natCast]
        exact if_neg hlarge
      · rw [if_neg hcoefficient] at hn
        cases hn

end Literal

open Literal

theorem Parse.operand_int_refused {nested : Precedence → Parse Expr} {c : Cursor}
    (hk : c.current.kind = .int) (hv : integer? c.current.literal = none) :
    operand nested c =
      .error (.located (.badLiteral .integer c.current.literal) c.current.location) c.next := by
  rw [operand, bind_apply]
  simp only [current, hk, hv]
  rfl

/-- An integer token is read as its digits times the power of ten behind them if that is a machine
integer, and, where the digits are zero, the power is one too. If not, it is refused where it
stands. -/
theorem Source.cut_integer {s next : Source} {t : Token} (hcut : s.cut = (.ok t, next))
    (hkind : t.kind = .int) :
    ∃ ds ex, Digits ds ∧ Exponent ex ∧ t.literal.toList = ds ++ ex ∧
      ∃ r : Except Fault Expr,
        (∀ nested c, c.current = t → Parse.operand nested c = Parse.settled r c.next) ∧
        (∀ l limit, parse [t, Token.finish l] limit =
          if 2 ≤ limit then r.map .expr else .error (.located (.tooDeep limit) t.location)) ∧
        ((Fits ds ex ∧ ∃ v : Int64, v.toInt = ↑(number ds * 10 ^ power ex) ∧
            r = .ok (.int v t.location)) ∨
          (¬Fits ds ex ∧ r = .error (.located (.badLiteral .integer t.literal) t.location))) := by
  have hspells := cut_spells hcut (by rw [hkind]; decide)
  rw [hkind] at hspells
  obtain ⟨ds, ex, hd, he, ht⟩ := spells_int hspells
  have hvalue := integer?_spelled hd he ht
  by_cases hfits : Fits ds ex
  · rw [if_pos hfits] at hvalue
    have hread : ∀ nested c, c.current = t → Parse.operand nested c = Parse.settled
        (.ok (.int (Int64.ofInt ↑(number ds * 10 ^ power ex)) t.location)) c.next := by
      rintro nested c rfl
      exact Parse.operand_int hkind hvalue
    exact ⟨ds, ex, hd, he, ht, _, hread, parse_alone (.inl hkind) hread,
      .inl ⟨hfits, _, Numeral.toInt_ofInt_natCast hfits.1, rfl⟩⟩
  · rw [if_neg hfits] at hvalue
    have hread : ∀ nested c, c.current = t → Parse.operand nested c = Parse.settled
        (.error (.located (.badLiteral .integer t.literal) t.location)) c.next := by
      rintro nested c rfl
      exact Parse.operand_int_refused hkind hvalue
    exact ⟨ds, ex, hd, he, ht, _, hread, parse_alone (.inl hkind) hread, .inr ⟨hfits, rfl⟩⟩

theorem Source.cut_integer_scaled : ∃ t next, (ofText "f" "\n 007E2;").cut = (.ok t, next) ∧
    t.kind = .int ∧
    parse [t, Token.finish t.location] 2 = .ok (.expr (.int 700 ⟨"f", 2, 2⟩)) := by
  refine ⟨⟨.int, "007E2", ⟨"f", 2, 2⟩⟩, _, rfl, rfl, ?_⟩
  obtain ⟨ds, ex, hd, he, ht, r, -, hparse, hr⟩ :=
    cut_integer (s := ofText "f" "\n 007E2;") (t := ⟨.int, "007E2", ⟨"f", 2, 2⟩⟩) rfl rfl
  have hspan := span_exponent hd he
  rw [← ht] at hspan
  obtain ⟨rfl, rfl⟩ : ['0', '0', '7'] = ds ∧ ['E', '2'] = ex := Prod.mk.inj hspan
  have hfits : Fits ['0', '0', '7'] ['E', '2'] := by decide
  rcases hr with ⟨-, v, hv, rfl⟩ | ⟨hnot, -⟩
  · obtain rfl : v = 700 := Int64.toInt_inj.1 hv
    exact hparse _ 2
  · exact absurd hfits hnot

/-- Zero times a power of ten that is no machine integer is refused. -/
theorem Literal.zero_refused :
    tokenize "f" "0e19" = .ok [⟨.int, "0e19", ⟨"f", 1, 1⟩⟩, Token.finish ⟨"f", 1, 5⟩] ∧
    "0e19".toList = ['0'] ++ ['e', '1', '9'] ∧ number ['0'] * 10 ^ power ['e', '1', '9'] < 2 ^ 63 ∧
    parse [⟨.int, "0e19", ⟨"f", 1, 1⟩⟩, Token.finish ⟨"f", 1, 5⟩] 2 =
      .error (.located (.badLiteral .integer "0e19") ⟨"f", 1, 1⟩) :=
  ⟨rfl, rfl, by decide, rfl⟩

end BlockScript
