import SqlSelect.Statement.Predicate

/-!
# Terms

Terms are expressions as a program writes them: their columns are still to be looked up, in a stored
source, by a stored handle, or in the views of the query that is being built.

## Main definitions

- `ColumnTerm` — where to find a column, and its output alias
- `ExprTerm`, `OperandTerm`, `CallTerm` — expressions over column terms
- `OperationTerm`, `PredicateTerm` — tests over them
- `NodeTerm` — a renderable thing, by name or by term
-/

namespace SqlSelect

/-- Where a column is found. -/
inductive ColumnOrigin where
  | view (index : Nat) (field : String)
  | source (name field : String)
  /-- A stored handle, put under an alias. -/
  | handle (name aliasName : String)
  deriving DecidableEq

/-- A column to be looked up. -/
structure ColumnTerm where
  origin : ColumnOrigin
  /-- The output alias to give it. -/
  output : Option String
  deriving DecidableEq

mutual

/-- An expression with columns to be looked up. -/
inductive ExprTerm where
  | column (c : ColumnTerm)
  | call (name : String) (args : List OperandTerm)
  | literal (v : Value)
  | stored (name : String)
  /-- An expression under an output alias, in place of one it has. -/
  | named (e : ExprTerm) (output : String)
  /-- An expression wrapped in an output alias, whatever it has already. -/
  | wrapped (e : ExprTerm) (output : String)

inductive OperandTerm where
  | literal (v : Value)
  | expr (e : ExprTerm)

end

structure CallTerm where
  name : String
  args : List OperandTerm

inductive OperationTerm where
  | compare (op : Comparison) (operand : OperandTerm)
  | isIn (negated : Bool) (operands : List OperandTerm)
  | isNull (negated : Bool)
  | call (f : CallTerm)

structure PredicateTerm where
  column : ColumnTerm
  operation : OperationTerm

/-- A renderable thing: stored, or built from terms. -/
inductive NodeTerm where
  | query (name : String)
  | select (name : String)
  | tableExpression (name : String)
  /-- A stored table expression as a source. -/
  | source (name : String)
  | column (c : ColumnTerm)
  | expr (e : ExprTerm)
  | call (f : CallTerm)
  | operand (o : OperandTerm)
  | operation (o : OperationTerm)
  | predicate (p : PredicateTerm)
  | value (v : Value)

end SqlSelect
