namespace BlockScript.Numeral

/-- The number that a run of one or more decimal digits spells. -/
def ofDigits? (digits : List Char) : Option Nat :=
  if digits ≠ [] ∧ digits.all Char.isDigit then some (Nat.ofDigitChars 10 digits 0) else none

/-- A number below a bound, with or without a plus sign in front. -/
def natural? (bound : Nat) : List Char → Option Nat
  | '+' :: digits => (ofDigits? digits).filter (· < bound)
  | digits => (ofDigits? digits).filter (· < bound)

/-- The machine integer of exactly this value. -/
def ofInt? (n : Int) : Option Int64 :=
  if -0x8000000000000000 ≤ n ∧ n < 0x8000000000000000 then some (Int64.ofInt n) else none

/-- A machine integer, with or without a sign in front. -/
def integer? : List Char → Option Int64
  | '-' :: digits => (ofDigits? digits).bind fun n => ofInt? (-n)
  | '+' :: digits => (ofDigits? digits).bind fun n => ofInt? n
  | digits => (ofDigits? digits).bind fun n => ofInt? n

def word? (text : String) : Option UInt32 := (natural? 0x100000000 text.toList).map UInt32.ofNat

/-- A count of things, which a 64-bit word must hold. -/
def count? (text : String) : Option Nat := natural? 0x10000000000000000 text.toList

theorem ofDigits?_toDigits (n : Nat) : ofDigits? (Nat.toDigits 10 n) = some n := by
  have h : (Nat.toDigits 10 n).all Char.isDigit = true :=
    List.all_eq_true.2 fun c hc => Nat.isDigit_of_mem_toDigits (by decide) (by decide) hc
  simp [ofDigits?, h, Nat.toDigits_ne_nil, Nat.ofDigitChars_ten_toDigits]

end BlockScript.Numeral
