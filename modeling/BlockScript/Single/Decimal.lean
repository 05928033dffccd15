import BlockScript.Single.Basic

namespace BlockScript

/-- The number `digits · 10 ^ exponent`. -/
structure Decimal where
  digits : Nat
  exponent : Int
deriving DecidableEq

namespace Decimal

/-- Where the decimal point stands: a number other than zero is below `10 ^ point` and at least
a tenth of that. -/
def point (d : Decimal) : Int := (Nat.toDigits 10 d.digits).length + d.exponent

end Decimal

namespace Single

/-- A quotient rounded to the nearest integer, a half to the even one. -/
def roundDiv (num den : Nat) : Nat :=
  if 2 * (num % den) < den ∨ 2 * (num % den) = den ∧ num / den % 2 = 0 then num / den
  else num / den + 1

/-- A fraction equal to `num / den / 2 ^ e`. -/
def shifted (num den : Nat) (e : Int) : Nat × Nat :=
  if 0 ≤ e then (num, den * Nat.pow 2 e.toNat) else (num * Nat.pow 2 (-e).toNat, den)

/-- The exponent of the greatest power of two that is at most a positive fraction. -/
def floorLog2 (num den : Nat) : Int :=
  let e : Int := (num.log2 : Int) - den.log2
  let scaled := shifted num den e
  if scaled.2 ≤ scaled.1 then e else e - 1

/-- The magnitude nearest to a fraction. A number with 24 binary digits from position `q` up,
where `q` is at least -149, has the magnitude `(q + 149) · 2 ^ 23` more than these digits. -/
def nearest (num den : Nat) : Nat :=
  if num = 0 then 0
  else
    let q := max (floorLog2 num den - 23) (-149)
    let scaled := shifted num den q
    min ((q + 149).toNat * 0x800000 + roundDiv scaled.1 scaled.2) infinite

/-- The magnitude nearest to a decimal. One of more than 40 places is above all numbers, one
that starts after the 45th place behind the point is closer to zero than to any other. -/
def nearestDecimal (d : Decimal) : Nat :=
  if d.digits = 0 ∨ d.point < -45 then 0
  else if 40 < d.point then infinite
  else if 0 ≤ d.exponent then nearest (d.digits * Nat.pow 10 d.exponent.toNat) 1
  else nearest d.digits (Nat.pow 10 (-d.exponent).toNat)

def ofDecimal (negative : Bool) (d : Decimal) : Single := ofMagnitude negative (nearestDecimal d)

end Single
end BlockScript
