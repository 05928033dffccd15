namespace BlockScript

/-- A number in the 32-bit binary interchange format, held as its bits: two of them are equal
just when all their bits are. -/
structure Single where
  bits : UInt32
deriving DecidableEq

namespace Single

def ofFloat (x : Float32) : Single := ⟨x.toBits⟩

def toFloat (x : Single) : Float32 := .ofBits x.bits

instance : Add Single := ⟨fun x y => ofFloat (x.toFloat + y.toFloat)⟩
instance : Sub Single := ⟨fun x y => ofFloat (x.toFloat - y.toFloat)⟩
instance : Mul Single := ⟨fun x y => ofFloat (x.toFloat * y.toFloat)⟩
instance : Div Single := ⟨fun x y => ofFloat (x.toFloat / y.toFloat)⟩

/-- Flips the sign, also that of a zero or of no number. -/
instance : Neg Single := ⟨fun x => ⟨x.bits ^^^ 0x80000000⟩⟩

/-- Less in numeric order. -/
def less (x y : Single) : Bool := x.toFloat < y.toFloat

/-- Equal as numbers: the two zeros are, and no number is not equal to itself. -/
def equal (x y : Single) : Bool := x.toFloat == y.toFloat

def isNegative (x : Single) : Bool := 0x80000000 ≤ x.bits.toNat

/-- The bits below the sign. For numbers without a sign, their order is the numeric order. -/
def magnitude (x : Single) : Nat := x.bits.toNat % 0x80000000

/-- The magnitude of the infinities; all greater ones are no number. -/
def infinite : Nat := 0x7F800000

def isNaN (x : Single) : Bool := infinite < x.magnitude

def isInfinite (x : Single) : Bool := x.magnitude = infinite

def ofMagnitude (negative : Bool) (magnitude : Nat) : Single :=
  ⟨UInt32.ofNat (magnitude + if negative then 0x80000000 else 0)⟩

def nan : Single := ofMagnitude false (infinite + 0x400000)

theorem magnitude_lt (x : Single) : x.magnitude < 0x80000000 := Nat.mod_lt _ (by decide)

theorem magnitude_ofMagnitude {m : Nat} (negative : Bool) (h : m < 0x80000000) :
    (ofMagnitude negative m).magnitude = m := by
  cases negative <;> simp [ofMagnitude, magnitude] <;> omega

theorem ofMagnitude_magnitude (x : Single) : ofMagnitude x.isNegative x.magnitude = x := by
  obtain ⟨bits⟩ := x
  have h := bits.toNat_lt
  have hm : bits.toNat % 0x80000000 + (if 0x80000000 ≤ bits.toNat then 0x80000000 else 0) =
      bits.toNat := by
    split <;> omega
  simp only [ofMagnitude, magnitude, isNegative, decide_eq_true_eq]
  rw [hm, UInt32.ofNat_toNat]

end Single
end BlockScript
