/-!
# Binary Floating-Point Patterns

A binary floating-point number is kept as its interchange pattern: one sign bit, a biased exponent
field and a fraction field.  Nothing here rounds; the module only reads the fields.

## Main definitions

- `BinaryFormat` — the widths of the two fields, with `single` (32 bits) and `double` (64 bits)
- `Binary f` — a pattern of format `f`
- `Binary.significand`, `Binary.scale` — a finite `x` has the magnitude
  `x.significand * 2 ^ x.scale`
- `Binary.equals` — numeric equality: a NaN equals nothing, and the two zeros are equal
-/

namespace SqlSelect

/-! ## §1 Formats -/

/-- The field widths of a binary interchange format. -/
structure BinaryFormat where
  /-- Bits of the fraction field. -/
  fractionBits : Nat
  /-- Bits of the biased exponent field. -/
  exponentBits : Nat
  deriving DecidableEq

namespace BinaryFormat

def single : BinaryFormat := ⟨23, 8⟩

def double : BinaryFormat := ⟨52, 11⟩

/-- Width of a whole pattern: the sign and the two fields. -/
def width (f : BinaryFormat) : Nat := 1 + f.exponentBits + f.fractionBits

/-- What the exponent field of a number in `[1, 2)` holds. -/
def bias (f : BinaryFormat) : Nat := Nat.pow 2 (f.exponentBits - 1) - 1

/-- The exponent field kept for infinities and NaNs. -/
def topExponent (f : BinaryFormat) : Nat := Nat.pow 2 f.exponentBits - 1

end BinaryFormat

/-! ## §2 Patterns and their fields -/

/-- A floating-point pattern of format `f`. -/
structure Binary (f : BinaryFormat) where
  /-- The pattern, sign bit first. -/
  bits : BitVec f.width
  deriving DecidableEq

namespace Binary

variable {f : BinaryFormat}

def isNegative (x : Binary f) : Bool := x.bits.msb

def fraction (x : Binary f) : Nat := x.bits.toNat % Nat.pow 2 f.fractionBits

def exponentField (x : Binary f) : Nat :=
  x.bits.toNat / Nat.pow 2 f.fractionBits % Nat.pow 2 f.exponentBits

/-- Whether the pattern is a number: not an infinity and not a NaN. -/
def isFinite (x : Binary f) : Bool := x.exponentField != f.topExponent

/-- Whether the pattern is one of the NaNs. -/
def isNaN (x : Binary f) : Bool := !x.isFinite && x.fraction != 0

def isZero (x : Binary f) : Bool := x.exponentField == 0 && x.fraction == 0

/-- The integer significand of a finite pattern: the fraction, with the leading bit that every
exponent field but zero implies. -/
def significand (x : Binary f) : Nat :=
  if x.exponentField = 0 then x.fraction else Nat.pow 2 f.fractionBits + x.fraction

/-- The power of two that the significand is counted in. -/
def scale (x : Binary f) : Int :=
  (max 1 x.exponentField : Nat) - (f.bias : Int) - (f.fractionBits : Int)

/-- Whether the next smaller magnitude is only half as far away as the next larger one, as it is
for a power of two above the smallest normal number. -/
def isNarrowBelow (x : Binary f) : Bool := x.fraction == 0 && 1 < x.exponentField

/-- Numeric equality of two patterns. -/
def equals (x y : Binary f) : Bool :=
  !x.isNaN && !y.isNaN && (x.bits == y.bits || (x.isZero && y.isZero))

end Binary

end SqlSelect
