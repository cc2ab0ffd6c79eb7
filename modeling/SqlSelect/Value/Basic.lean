import SqlSelect.Number.Binary

/-!
# Values

A `Value` is what stands for data in a query: a literal written into the text or an argument bound
to a placeholder.

## Main definitions

- `Value` — the nine kinds of value
- `Value.equals` — equality of data: two values of different kinds differ, and numbers compare as
  numbers
-/

namespace SqlSelect

/-- A value of one of the SQL types that columns hold, or NULL. -/
inductive Value where
  | null
  | boolean (b : Bool)
  | smallint (n : Int16)
  | integer (n : Int32)
  | bigint (n : Int64)
  | real (x : Binary .single)
  | double (x : Binary .double)
  | text (s : String)
  | bytes (bs : List UInt8)
  deriving DecidableEq

namespace Value

def isNull : Value → Bool
  | null => true
  | _ => false

/-- Equality of data.  Kinds are never mixed, a NaN differs from itself, and zero equals minus
zero; `=` on `Value` tells patterns apart instead. -/
def equals : Value → Value → Bool
  | null, null => true
  | boolean a, boolean b => a == b
  | smallint a, smallint b => a == b
  | integer a, integer b => a == b
  | bigint a, bigint b => a == b
  | real a, real b => a.equals b
  | double a, double b => a.equals b
  | text a, text b => a == b
  | bytes a, bytes b => a == b
  | _, _ => false

/-- The value of an optional one: nothing is NULL. -/
def ofOption : Option Value → Value
  | some v => v
  | none => null

end Value

end SqlSelect
