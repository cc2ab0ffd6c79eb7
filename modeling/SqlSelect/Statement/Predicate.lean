import SqlSelect.Statement.Expr

/-!
# Predicates

A predicate tests one column by one operation.  The predicates of a query all have to hold; there is
no other connective.

## Main definitions

- `Comparison` — the operators with one operand
- `Operation` — what is written to the right of the column
- `Predicate` — a column and its operation
-/

namespace SqlSelect

/-- An operator that compares a column with one operand. -/
inductive Comparison where
  | eq
  | ne
  | gt
  | gte
  | lt
  | lte
  | like
  deriving DecidableEq

def Comparison.symbol : Comparison → String
  | eq => "="
  | ne => "!="
  | gt => ">"
  | gte => ">="
  | lt => "<"
  | lte => "<="
  | like => "LIKE"

/-- A test of a column. -/
inductive Operation where
  | compare (op : Comparison) (operand : Operand)
  /-- Membership in a list of operands, or its negation. -/
  | isIn (negated : Bool) (operands : List Operand)
  | isNull (negated : Bool)
  /-- A function call in the place of an operator. -/
  | call (f : FunctionCall)

/-- A column and its test. -/
structure Predicate where
  column : ColumnRef
  operation : Operation

def Operation.pieces : Operation → List Piece
  | compare op operand => [.text op.symbol, .text " "] ++ operand.pieces
  | isIn negated operands =>
    [.text (if negated then "NOT IN(" else "IN(")] ++
      joinPieces [.separator] (operands.map Operand.pieces) ++ [.text ")"]
  | isNull negated => [.text (if negated then "IS NOT NULL" else "IS NULL")]
  | call f => f.pieces

/-- The column, without its output alias, and the operation. -/
def Predicate.pieces (p : Predicate) : List Piece :=
  p.column.barePieces ++ [.text " "] ++ p.operation.pieces

instance : Renderable Operation := ⟨fun _ o => o.pieces⟩

instance : Renderable Predicate := ⟨fun _ p => p.pieces⟩

end SqlSelect
