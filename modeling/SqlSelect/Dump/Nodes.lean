import SqlSelect.Dump.Basic
import SqlSelect.Query.Node

/-!
# Dumps of Queries and their Parts

How each kind of thing appears in a dump.

## Main definitions

- `dumpNumber` — the style of floating-point numbers in dumps
- `Value.dump`, `Column.dump`, `Expr.dump`, `Select.dump` and so on, up to `Node.dump`
-/

namespace SqlSelect

/-! ## §1 Values and columns -/

/-- Numbers are positional from `0.0001` up to sixteen digits before the point, and whole ones keep
a point. -/
def dumpNumber : NumberStyle where
  positionalRange := some (-4, 15)
  wholePoint := true
  nan := "NaN"
  infinity := "inf"
  negativeInfinity := "-inf"

def Value.dump : Value → Dump
  | null => .word "Null"
  | boolean b => .tuple "Bool" [.ofBool b]
  | smallint n => .tuple "I16" [.ofInt n.toInt]
  | integer n => .tuple "I32" [.ofInt n.toInt]
  | bigint n => .tuple "I64" [.ofInt n.toInt]
  | real x => .tuple "F32" [.word (x.text dumpNumber)]
  | double x => .tuple "F64" [.word (x.text dumpNumber)]
  | text s => .tuple "String" [.string s]
  | bytes bs => .tuple "Bytes" [.list (bs.map fun b => .ofNat b.toNat)]

-- Whole numbers keep a point, on either side of zero.
example : (Value.double ⟨BitVec.ofNat _ 0x8000000000000000⟩).dump.text = "F64(-0.0)" := by
  decide +kernel

-- From sixteen digits before the point on, and below `0.0001`, there is an exponent.
example : (Value.double ⟨BitVec.ofNat _ 0x4341c37937e08000⟩).dump.text = "F64(1e16)" := by
  decide +kernel

example : (Value.real ⟨BitVec.ofNat _ 0x38d1b717⟩).dump.text = "F32(0.0001)" := by decide +kernel

example : (Value.real ⟨BitVec.ofNat _ 0x38d1b716⟩).dump.text = "F32(9.999999e-5)" := by
  decide +kernel

/-- A default; what a generator would give is not shown. -/
def ColumnDefault.dump : ColumnDefault → Dump
  | fixed v => .tuple "Value" [v.dump]
  | generated _ => .word "Generator(..)"

def Column.dump (c : Column) : Dump :=
  .record "ColumnDef" [
    ("field", .string c.field),
    ("name", .string c.name),
    ("table", .string c.table),
    ("nullable", .ofBool c.nullable),
    ("default", .ofOption ColumnDefault.dump c.default?),
    ("comment", .ofOption .string c.comment)]

/-- A column as the handle that its registration returned. -/
def Column.dumpHandle (c : Column) : Dump := .tuple "Column" [c.dump]

def Table.dump (t : Table) : Dump :=
  .record "Table" [
    ("ident", .string t.ident),
    ("name", .string t.name),
    ("columns", .map (t.entries.map fun e => (e.1, e.2.dump)))]

/-! ## §2 Expressions and predicates -/

def ColumnRef.dump (c : ColumnRef) : Dump :=
  .record "ColumnRef" [
    ("alias", .string c.aliasName),
    ("column", c.column.dump),
    ("output", .ofOption .string c.output)]

/-- A column as a view hands it out. -/
def ColumnRef.dumpHandedOut (c : ColumnRef) : Dump := .tuple "ColumnExpression" [c.dump]

/-- A function call around operands that are already dumped. -/
def dumpCall (name : String) (args : List Dump) : Dump :=
  .record "Function" [("name", .string name), ("args", .list args)]

mutual

def Expr.dump : Expr → Dump
  | .column c => .tuple "Column" [c.dump]
  | .call name args => .tuple "Function" [dumpCall name (dumpOperands args)]
  | .aliased e a => .record "Aliased" [("expr", e.dump), ("alias", .string a)]
  | .literal v => .tuple "Value" [v.dump]

def Operand.dump : Operand → Dump
  | .literal v => .tuple "Value" [v.dump]
  | .expr e => .tuple "Expr" [e.dump]

def dumpOperands : List Operand → List Dump
  | [] => []
  | o :: os => o.dump :: dumpOperands os

end

def FunctionCall.dump (f : FunctionCall) : Dump := dumpCall f.name (dumpOperands f.args)

def Comparison.dump : Comparison → Dump
  | eq => .word "Eq"
  | ne => .word "Ne"
  | gt => .word "Gt"
  | gte => .word "Gte"
  | lt => .word "Lt"
  | lte => .word "Lte"
  | like => .word "Like"

def Operation.dump : Operation → Dump
  | compare op operand => .tuple "Compare" [op.dump, operand.dump]
  | isIn negated operands =>
    .record "In" [("negated", .ofBool negated), ("operands", .list (dumpOperands operands))]
  | isNull negated => .record "Null" [("negated", .ofBool negated)]
  | call f => .tuple "Call" [f.dump]

def Predicate.dump (p : Predicate) : Dump :=
  .record "Predicate" [("column", p.column.dump), ("operation", p.operation.dump)]

/-! ## §3 Sources and queries -/

/-- A source around an inner query that is already dumped. -/
def dumpSource (aliasName : String) (table : Table) (query : Dump) : Dump :=
  .record "Source" [("alias", .string aliasName), ("table", table.dump), ("subquery", query)]

def dumpBound (n : Option UInt64) : Dump := .ofOption (fun n => .ofNat n.toNat) n

mutual

def Source.dump : Source → Dump
  | .base t a => dumpSource a t (.word "None")
  | .derived shape q a => dumpSource a shape (.tuple "Some" [q.dump])

def Select.dump : Select → Dump
  | ⟨sources, projection, filters, limit, offset⟩ =>
    .record "Select" [
      ("sources", .list (dumpSources sources)),
      ("projection", .list (projection.map Expr.dump)),
      ("filters", .list (filters.map Predicate.dump)),
      ("limit", dumpBound limit),
      ("offset", dumpBound offset)]

def dumpSources : List Source → List Dump
  | [] => []
  | s :: ss => s.dump :: dumpSources ss

end

def View.dump (v : View) : Dump :=
  .record "QueryView" [
    ("table", .string v.table),
    ("alias", .string v.aliasName),
    ("columns", .map (v.entries.map fun e => (e.1, e.2.dumpHandedOut)))]

def TableExpression.dump (e : TableExpression) : Dump :=
  .record "TableExpression" [("table", .string e.table.name), ("alias", .string e.aliasName)]

/-- A query: of fixed participants only the statement is shown, of dynamic ones the views too. -/
def Query.dump (q : Query) : Dump :=
  let state := ("state", q.statement.dump)
  match q.scope with
  | .fixed (.one _) => .record "SelectQuery1" [state]
  | .fixed (.two _ _) => .record "SelectQuery2" [state]
  | .fixed (.three _ _ _) => .record "SelectQuery3" [state]
  | .dynamic views => .record "DynamicQuery" [("views", .list (views.map View.dump)), state]

def Node.dump : Node → Dump
  | value v => v.dump
  | column c => c.dumpHandedOut
  | expr e => e.dump
  | call f => f.dump
  | operand o => o.dump
  | operation o => o.dump
  | predicate p => p.dump
  | source s => s.dump
  | tableExpression e => e.dump
  | select s => s.dump
  | query q => q.dump

end SqlSelect
