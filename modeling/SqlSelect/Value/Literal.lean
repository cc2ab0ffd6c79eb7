import SqlSelect.Number.Style
import SqlSelect.Value.Basic
import SqlSelect.Value.Quoted

/-!
# Literal Text

The text forms of values: the raw literal that rendering writes, and the forms that are safe to
write into a statement.

## Main definitions

- `Value.literal` — the raw text: a string stands as it is, without marks
- `Value.quoted` — a complete SQL literal: a string between marks, all else as `Value.literal`
- `Value.escaped` — a value whose strings have their marks doubled
- `quoteString`, `quoteIdentifier` — the two quoted forms of a text
-/

namespace SqlSelect

/-! ## §1 Quoted text -/

def quoteString (s : String) : String :=
  String.ofList (Quoted.enclose Quoted.stringMark s.toList)

def quoteIdentifier (s : String) : String :=
  String.ofList (Quoted.enclose Quoted.identifierMark s.toList)

/-- The two lower-case hexadecimal digits of a byte. -/
def hexDigits (b : UInt8) : List Char :=
  [Nat.digitChar (b.toNat / 16), Nat.digitChar (b.toNat % 16)]

/-- Numbers are positional at every magnitude and whole ones have no point.  There is no numeric
literal for the values that are not numbers, so they are written as string literals. -/
def literalNumber : NumberStyle where
  positionalRange := none
  wholePoint := false
  nan := quoteString "NaN"
  infinity := quoteString "Infinity"
  negativeInfinity := quoteString "-Infinity"

/-! ## §2 Text forms of a value -/

namespace Value

/-- The raw literal text of a value. -/
def literal : Value → String
  | null => "NULL"
  | boolean b => if b then "TRUE" else "FALSE"
  | smallint n => toString n.toInt
  | integer n => toString n.toInt
  | bigint n => toString n.toInt
  | real x => x.text literalNumber
  | double x => x.text literalNumber
  | text s => s
  | bytes bs =>
    String.ofList ('X' :: Quoted.enclose Quoted.stringMark (bs.flatMap hexDigits))

/-- The value with the string marks of its text doubled. -/
def escaped : Value → Value
  | text s => text (String.ofList (Quoted.doubled Quoted.stringMark s.toList))
  | v => v

/-- The complete SQL literal of a value. -/
def quoted : Value → String
  | text s => quoteString s
  | v => v.literal

end Value

/-! ## §3 Examples of the number style -/

-- The digits are the fewest that read back at the number's own width.
example : (Value.double ⟨BitVec.ofNat _ 0x3fb999999999999a⟩).literal = "0.1" := by decide +kernel

-- `2 ^ (-12)` lies half way between two decimals of eight digits, and the larger is taken.
example : (Value.real ⟨BitVec.ofNat _ 0x39800000⟩).literal = "0.00024414063" := by
  decide +kernel

-- No magnitude is written with an exponent, and a sign is kept even at zero.
example : (Value.double ⟨BitVec.ofNat _ 0x444b1ae4d6e2ef50⟩).literal = "1000000000000000000000" := by
  decide +kernel

example : (Value.double ⟨BitVec.ofNat _ 0x8000000000000000⟩).literal = "-0" := by decide +kernel

end SqlSelect
