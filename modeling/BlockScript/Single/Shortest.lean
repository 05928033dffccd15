import BlockScript.Single.Decimal

namespace BlockScript.Single

/-- The exact value of a finite magnitude. -/
def exactDecimal (magnitude : Nat) : Decimal :=
  let exponent : Nat := magnitude / 0x800000
  let fraction : Nat := magnitude % 0x800000
  let digits : Nat := if exponent = 0 then fraction else 0x800000 + fraction
  let q : Int := if exponent = 0 then -149 else (exponent : Int) - 150
  if 0 ≤ q then ⟨digits * Nat.pow 2 q.toNat, 0⟩ else ⟨digits * Nat.pow 5 (-q).toNat, q⟩

/-- A decimal without its last `places` digits, if that still reads back as the magnitude: the
neighbour below or above, the nearer one if both do, and the one above if they are equally near. -/
def shortened? (magnitude : Nat) (d : Decimal) (places : Nat) : Option Decimal :=
  let unit := Nat.pow 10 places
  let below : Decimal := ⟨d.digits / unit, d.exponent + places⟩
  let above : Decimal := ⟨d.digits / unit + 1, d.exponent + places⟩
  let nearer := if 2 * (d.digits % unit) < unit then [below, above] else [above, below]
  nearer.find? fun c => nearestDecimal c = magnitude

/-- Takes off as many digits as can be, at most `places`. -/
def shorten (magnitude : Nat) (d : Decimal) : Nat → Decimal
  | 0 => d
  | places + 1 => (shortened? magnitude d (places + 1)).getD (shorten magnitude d places)

/-- The decimal with the fewest digits that reads back as a finite magnitude, and of those the
one nearest to it. -/
def shortest (magnitude : Nat) : Decimal :=
  let d := exactDecimal magnitude
  shorten magnitude d ((Nat.toDigits 10 d.digits).length - 1)

/-- The digits of a decimal without the zeros at their end. -/
def significant (d : Decimal) : List Char :=
  ((Nat.toDigits 10 d.digits).reverse.dropWhile (· = '0')).reverse

/-- Significant digits with a point after the first `point` of them, filled up with zeros. -/
def positional (digits : List Char) (point : Int) : List Char :=
  if point ≤ 0 then ['0', '.'] ++ List.replicate (-point).toNat '0' ++ digits
  else if digits.length ≤ point.toNat then
    digits ++ List.replicate (point.toNat - digits.length) '0'
  else digits.take point.toNat ++ ['.'] ++ digits.drop point.toNat

/-- Significant digits with a point after the first, and the power of ten with a sign and at
least two digits. -/
def scientific (digits : List Char) (point : Int) : List Char :=
  let power := Nat.toDigits 10 (point - 1).natAbs
  digits.take 1 ++ (if digits.length ≤ 1 then [] else '.' :: digits.drop 1) ++
    ['E', if point < 1 then '-' else '+'] ++ List.replicate (2 - power.length) '0' ++ power

/-- A number in full, without an exponent. -/
def plain (x : Single) : String :=
  if x.isNaN then "NaN"
  else
    (if x.isNegative then "-" else "") ++
      if x.isInfinite then "inf"
      else if x.magnitude = 0 then "0"
      else
        let d := shortest x.magnitude
        String.ofList (positional (significant d) d.point)

/-- A number as one digit before the point and a power of ten; infinity always has a sign. -/
def exponential (x : Single) : String :=
  if x.isNaN then "NaN"
  else if x.isInfinite then if x.isNegative then "-Inf" else "+Inf"
  else
    (if x.isNegative then "-" else "") ++
      if x.magnitude = 0 then "0E+00"
      else
        let d := shortest x.magnitude
        String.ofList (scientific (significant d) d.point)

/-- A shortened magnitude reads back as long as the unshortened one does. -/
theorem nearestDecimal_shorten {magnitude : Nat} {d : Decimal} (places : Nat)
    (h : nearestDecimal d = magnitude) :
    nearestDecimal (shorten magnitude d places) = magnitude := by
  induction places with
  | zero => exact h
  | succ places ih =>
    cases hs : shortened? magnitude d (places + 1) with
    | none => simpa [shorten, hs] using ih
    | some c => simpa [shorten, hs] using List.find?_some hs

end BlockScript.Single
