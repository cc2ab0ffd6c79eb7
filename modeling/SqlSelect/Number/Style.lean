import SqlSelect.Number.Shortest

/-!
# Styles of Number Text

A `NumberStyle` is the set of choices that a text form of floating-point numbers makes: where
positional form ends, whether a whole number keeps a point, and how the values that are not numbers
are spelled.  `Binary.text` writes any pattern in any style.

## Main definitions

- `Decimal.positional`, `Decimal.scientific` — the two forms of a decimal
- `NumberStyle` — the choices
- `Binary.text` — the text of a pattern in a style
-/

namespace SqlSelect

/-! ## §1 The two forms of a decimal -/

namespace Decimal

/-- The digits, most significant first. -/
def digitChars (d : Decimal) : List Char := Nat.toDigits 10 d.digits

/-- The power of ten of the leading digit. -/
def leadingExponent (d : Decimal) : Int := d.exponent + d.digitChars.length - 1

/-- Digits with the point where it belongs, padded with zeros as needed; `wholePoint` appends `.0`
to a whole number. -/
def positional (wholePoint : Bool) (d : Decimal) : List Char :=
  let ds := d.digitChars
  let places := (-d.exponent).toNat
  if places = 0 then
    ds ++ List.replicate d.exponent.toNat '0' ++ (if wholePoint then ['.', '0'] else [])
  else if places < ds.length then
    ds.take (ds.length - places) ++ '.' :: ds.drop (ds.length - places)
  else
    '0' :: '.' :: (List.replicate (places - ds.length) '0' ++ ds)

/-- One digit before the point, the others after it, and the power of ten. -/
def scientific (d : Decimal) : List Char :=
  let mantissa :=
    match d.digitChars with
    | [] => []
    | [c] => [c]
    | c :: cs => c :: '.' :: cs
  mantissa ++ 'e' :: (toString d.leadingExponent).toList

end Decimal

/-! ## §2 Styles -/

/-- The choices of a text form of floating-point numbers. -/
structure NumberStyle where
  /-- The leading exponents from which up to which numbers are positional; all, if there is none. -/
  positionalRange : Option (Int × Int)
  /-- Whether a positional whole number ends in `.0`. -/
  wholePoint : Bool
  nan : String
  infinity : String
  negativeInfinity : String

namespace NumberStyle

/-- Whether a decimal is written in positional form; zero always is. -/
def isPositional (style : NumberStyle) (d : Decimal) : Bool :=
  match style.positionalRange with
  | none => true
  | some (first, last) =>
    d.digits == 0 || (first ≤ d.leadingExponent && d.leadingExponent ≤ last)

def magnitude (style : NumberStyle) (d : Decimal) : List Char :=
  if style.isPositional d then d.positional style.wholePoint else d.scientific

end NumberStyle

/-- The text of a pattern: the style's word for a value that is no number, else the sign, if set,
and the shortest decimal. -/
def Binary.text {f : BinaryFormat} (style : NumberStyle) (x : Binary f) : String :=
  if x.isFinite then
    let digits := style.magnitude x.shortest
    String.ofList (if x.isNegative then '-' :: digits else digits)
  else if x.isNaN then style.nan
  else if x.isNegative then style.negativeInfinity
  else style.infinity

end SqlSelect
