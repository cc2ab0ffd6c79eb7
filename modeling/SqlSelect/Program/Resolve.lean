import SqlSelect.Program.Term
import SqlSelect.Program.Workspace
import SqlSelect.Query.Node

/-!
# Resolving Terms

A term becomes a node by looking up its columns and its stored parts, in reading order: the first
thing that is not found decides the error.

## Main definitions

- `ColumnTerm.resolve`, `ExprTerm.resolve`, `OperandTerm.resolve` — the syntax of expressions
- `OperationTerm.resolve`, `PredicateTerm.resolve` — tests
- `NodeTerm.resolve` — any renderable thing
-/

namespace SqlSelect

variable (ws : Workspace) (views : List View)

def ColumnTerm.resolve (c : ColumnTerm) : Except StepError ColumnRef := do
  let found ←
    match c.origin with
    | .view index field =>
      match views[index]? with
      | some view => (view.column field).mapError .query
      | none => .error (.missing (toString index))
    | .source name field =>
      let e ← ws.get Thing.tableExpression? name
      (e.view.column field).mapError .query
    | .handle name aliasName =>
      let handle ← ws.get Thing.handle? name
      pure { aliasName := aliasName, column := handle }
  return match c.output with
    | some output => found.withOutput output
    | none => found

mutual

def ExprTerm.resolve : ExprTerm → Except StepError Expr
  | .column c => return .column (← c.resolve ws views)
  | .call name args => return .call name (← resolveOperands args)
  | .literal v => return .literal v
  | .stored name => ws.get Thing.expr? name
  | .named e output => return (← e.resolve).withOutput output
  | .wrapped e output => return .aliased (← e.resolve) output

def OperandTerm.resolve : OperandTerm → Except StepError Operand
  | .literal v => return .literal v
  | .expr e => return .expr (← e.resolve)

/-- Look up what operands mention, from left to right. -/
def resolveOperands : List OperandTerm → Except StepError (List Operand)
  | [] => return []
  | o :: os => do
    let first ← o.resolve
    let rest ← resolveOperands os
    return first :: rest

end

/-- Look up what the items of a projection mention, from left to right. -/
def resolveItems (items : List ExprTerm) : Except StepError (List Expr) :=
  items.mapM fun e => e.resolve ws views

def CallTerm.resolve (f : CallTerm) : Except StepError FunctionCall :=
  return ⟨f.name, ← resolveOperands ws views f.args⟩

def OperationTerm.resolve : OperationTerm → Except StepError Operation
  | .compare op operand => return .compare op (← operand.resolve ws views)
  | .isIn negated operands => return .isIn negated (← resolveOperands ws views operands)
  | .isNull negated => return .isNull negated
  | .call f => return .call (← f.resolve ws views)

/-- Look up the column of a predicate, and then what its operation mentions. -/
def PredicateTerm.resolve (p : PredicateTerm) : Except StepError Predicate := do
  let column ← p.column.resolve ws views
  let operation ← p.operation.resolve ws views
  return ⟨column, operation⟩

/-- Look up a renderable thing outside of any query. -/
def NodeTerm.resolve : NodeTerm → Except StepError Node
  | .query name => return .query (← ws.get Thing.query? name)
  | .select name => return .select (← ws.get Thing.query? name).statement
  | .tableExpression name => return .tableExpression (← ws.get Thing.tableExpression? name)
  | .source name => return .source (← ws.get Thing.tableExpression? name).source
  | .column c => return .column (← c.resolve ws [])
  | .expr e => return .expr (← e.resolve ws [])
  | .call f => return .call (← f.resolve ws [])
  | .operand o => return .operand (← o.resolve ws [])
  | .operation o => return .operation (← o.resolve ws [])
  | .predicate p => return .predicate (← p.resolve ws [])
  | .value v => return .value v

end SqlSelect
