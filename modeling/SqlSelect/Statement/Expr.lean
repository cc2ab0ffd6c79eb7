import SqlSelect.Render.Piece
import SqlSelect.Schema.Column

/-!
# Expressions

Projection items and operands.  An output alias belongs to a projection item only: an expression
used as an operand is written without one.

## Main definitions

- `ColumnRef` — a column seen through a table alias
- `Expr`, `Operand` — expressions, and what stands to the right of an operator
- `FunctionCall` — a function name with its operands
- `Expr.withOutput` — give an expression an output alias, in place of one it has
- `Expr.barePieces`, `Expr.pieces` — an expression without, and with, its output alias
-/

namespace SqlSelect

/-! ## §1 Syntax -/

/-- A column qualified by the alias of the table expression it was read through. -/
structure ColumnRef where
  aliasName : String
  column : Column
  output : Option String := none
  deriving DecidableEq

mutual

/-- A projection item, or an expression inside an operand. -/
inductive Expr where
  | column (c : ColumnRef)
  | call (name : String) (args : List Operand)
  | aliased (e : Expr) (output : String)
  | literal (v : Value)

/-- What an operator or a function is applied to. -/
inductive Operand where
  | literal (v : Value)
  | expr (e : Expr)

end

/-- A call of a SQL function. -/
structure FunctionCall where
  name : String
  args : List Operand

def FunctionCall.toExpr (f : FunctionCall) : Expr := .call f.name f.args

/-- The column under an output alias, in place of one it has. -/
def ColumnRef.withOutput (c : ColumnRef) (output : String) : ColumnRef :=
  { c with output := some output }

/-- The expression under an output alias, in place of one it has. -/
def Expr.withOutput (output : String) : Expr → Expr
  | column c => column (c.withOutput output)
  | aliased e _ => aliased e output
  | e => aliased e output

/-! ## §2 Pieces -/

/-- An output alias after the thing it names. -/
def aliasPieces (a : String) : List Piece := [.text " AS ", .text a]

namespace ColumnRef

/-- The table alias and the column's SQL name. -/
def barePieces (c : ColumnRef) : List Piece := [.text c.aliasName, .text ".", .text c.column.name]

/-- The qualified column, with its output alias if it has one. -/
def pieces (c : ColumnRef) : List Piece :=
  c.barePieces ++
    match c.output with
    | some a => aliasPieces a
    | none => []

end ColumnRef

/-- A function call around operands that are already in pieces. -/
def callPieces (name : String) (args : List (List Piece)) : List Piece :=
  [.text name, .text "("] ++ joinPieces [.separator] args ++ [.text ")"]

mutual

/-- An expression without output aliases. -/
def Expr.barePieces : Expr → List Piece
  | .column c => c.barePieces
  | .call name args => callPieces name (operandPieces args)
  | .aliased e _ => e.barePieces
  | .literal v => [.slot v]

def Operand.pieces : Operand → List Piece
  | .literal v => [.slot v]
  | .expr e => e.barePieces

def operandPieces : List Operand → List (List Piece)
  | [] => []
  | o :: os => o.pieces :: operandPieces os

end

/-- An expression with its output alias, if it has one. -/
def Expr.pieces : Expr → List Piece
  | .column c => c.pieces
  | .aliased e a => e.barePieces ++ aliasPieces a
  | e => e.barePieces

theorem operandPieces_eq_map (os : List Operand) : operandPieces os = os.map Operand.pieces := by
  induction os with
  | nil => rfl
  | cons o os ih => rw [operandPieces, List.map_cons, ih]

def FunctionCall.pieces (f : FunctionCall) : List Piece := f.toExpr.pieces

instance : Renderable ColumnRef := ⟨fun _ c => c.pieces⟩

instance : Renderable Expr := ⟨fun _ e => e.pieces⟩

instance : Renderable Operand := ⟨fun _ o => o.pieces⟩

instance : Renderable FunctionCall := ⟨fun _ f => f.pieces⟩

end SqlSelect
