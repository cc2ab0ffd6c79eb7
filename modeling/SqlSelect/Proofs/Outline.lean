import SqlSelect.Query.Node

/-!
# Outlines

The outline of a renderable thing is the part of it that is written: qualifiers and SQL names of
columns, function names with their operands, values, output aliases of projection items, the sources
that are written, predicates and bounds.  Column metadata, output aliases of operands and sources
that are left out are gone, and a value looks the same as an operand and as an expression.

## Main definitions

- `Bare`, `Item`, `Test`, `Condition` — expressions, projection items, operations and predicates
- `Origin`, `Outline` — sources and queries
- `Fragment` — the outline of any renderable thing
- `Expr.bare`, `Select.outline`, `Node.fragment` — from a thing to its outline
- `Outline.names`, `Outline.calls` — the names in an outline, and the operations that are calls
-/

namespace SqlSelect

/-! ## §1 Syntax -/

/-- An expression as it is written where it has no output alias. -/
inductive Bare where
  | column (qualifier name : String)
  | call (name : String) (args : List Bare)
  | literal (v : Value)

/-- A projection item: an expression with the output alias that is written, if any. -/
structure Item where
  bare : Bare
  output : Option String

/-- An operation over bare operands. -/
inductive Test where
  | compare (op : Comparison) (operand : Bare)
  | isIn (negated : Bool) (operands : List Bare)
  | isNull (negated : Bool)
  | call (name : String) (args : List Bare)

/-- A predicate: the column that is tested, and the test. -/
structure Condition where
  qualifier : String
  name : String
  test : Test

mutual

/-- A source: the name of a table, or a query in parentheses, and the alias. -/
inductive Origin where
  | table (name aliasName : String)
  | derived (query : Outline) (aliasName : String)

/-- A query with the sources that are written. -/
structure Outline where
  origins : List Origin
  items : List Item
  conditions : List Condition
  limit : Option UInt64
  offset : Option UInt64

end

/-- The outline of any renderable thing. -/
inductive Fragment where
  | bare (b : Bare)
  | item (i : Item)
  | test (t : Test)
  | condition (c : Condition)
  | origin (o : Origin)
  | outline (q : Outline)

/-! ## §2 From things to outlines -/

mutual

/-- The expression without output aliases and column metadata. -/
def Expr.bare : Expr → Bare
  | .column c => .column c.aliasName c.column.name
  | .call name args => .call name (bareOperands args)
  | .aliased e _ => e.bare
  | .literal v => .literal v

def Operand.bare : Operand → Bare
  | .literal v => .literal v
  | .expr e => e.bare

def bareOperands : List Operand → List Bare
  | [] => []
  | o :: os => o.bare :: bareOperands os

end

/-- The output alias that is written after the expression: the outermost one. -/
def Expr.output? : Expr → Option String
  | .column c => c.output
  | .aliased _ a => some a
  | _ => none

def Expr.item (e : Expr) : Item := ⟨e.bare, e.output?⟩

def ColumnRef.item (c : ColumnRef) : Item := ⟨.column c.aliasName c.column.name, c.output⟩

def FunctionCall.bare (f : FunctionCall) : Bare := .call f.name (bareOperands f.args)

/-- What is written of an operation; its operands have no output alias. -/
def Operation.test : Operation → Test
  | compare op operand => .compare op operand.bare
  | isIn negated operands => .isIn negated (operands.map Operand.bare)
  | isNull negated => .isNull negated
  | call f => .call f.name (bareOperands f.args)

/-- What is written of a predicate. -/
def Predicate.condition (p : Predicate) : Condition :=
  ⟨p.column.aliasName, p.column.column.name, p.operation.test⟩

mutual

/-- The source, with what is written of its inner query. -/
def Source.origin (mode : FromMode) : Source → Origin
  | .base t a => .table t.name a
  | .derived _ q a => .derived (q.outline mode) a

/-- What is written of a query. -/
def Select.outline (mode : FromMode) : Select → Outline
  | ⟨sources, projection, filters, limit, offset⟩ =>
    ⟨mode.visible (sourceOrigins mode sources), projection.map Expr.item,
      filters.map Predicate.condition, limit, offset⟩

def sourceOrigins (mode : FromMode) : List Source → List Origin
  | [] => []
  | s :: ss => s.origin mode :: sourceOrigins mode ss

end

/-- What is written of a node. -/
def Node.fragment (mode : FromMode) : Node → Fragment
  | value v => .bare (.literal v)
  | column c => .item c.item
  | expr e => .item e.item
  | call f => .bare f.bare
  | operand o => .bare o.bare
  | operation o => .test o.test
  | predicate p => .condition p.condition
  | source s => .origin (s.origin mode)
  | tableExpression e => .origin (e.source.origin mode)
  | select s => .outline (s.outline mode)
  | query q => .outline (q.statement.outline mode)

theorem bareOperands_eq_map (os : List Operand) : bareOperands os = os.map Operand.bare := by
  induction os with
  | nil => rfl
  | cons o os ih => rw [bareOperands, List.map_cons, ih]

theorem sourceOrigins_eq_map (mode : FromMode) (ss : List Source) :
    sourceOrigins mode ss = ss.map (Source.origin mode) := by
  induction ss with
  | nil => rfl
  | cons s ss ih => rw [sourceOrigins, List.map_cons, ih]

/-- Choosing the sources that are written commutes with looking at each of them. -/
theorem FromMode.visible_map {α β : Type} (mode : FromMode) (f : α → β) (xs : List α) :
    mode.visible (xs.map f) = (mode.visible xs).map f := by
  cases mode with
  | firstOnly => exact (List.map_take ..).symm
  | allSources => rfl

/-- A source that is written is one of the sources. -/
theorem FromMode.mem_of_mem_visible {α : Type} {mode : FromMode} {x : α} {xs : List α}
    (h : x ∈ mode.visible xs) : x ∈ xs := by
  cases mode with
  | firstOnly => exact List.mem_of_mem_take h
  | allSources => exact h

/-! ## §3 Names -/

mutual

def Bare.names : Bare → List String
  | .column qualifier name => [qualifier, name]
  | .call name args => name :: bareNames args
  | .literal _ => []

def bareNames : List Bare → List String
  | [] => []
  | b :: bs => b.names ++ bareNames bs

end

/-- The names in an item, its output alias last. -/
def Item.names (i : Item) : List String := i.bare.names ++ i.output.toList

def Test.names : Test → List String
  | compare _ operand => operand.names
  | isIn _ operands => bareNames operands
  | isNull _ => []
  | call name args => name :: bareNames args

def Condition.names (c : Condition) : List String := c.qualifier :: c.name :: c.test.names

/-- The function whose call an operation is. -/
def Test.call? : Test → Option String
  | call name _ => some name
  | _ => none

mutual

def Origin.names : Origin → List String
  | .table name a => [name, a]
  | .derived q a => a :: q.names

/-- The names in a query, at every depth. -/
def Outline.names : Outline → List String
  | ⟨origins, items, conditions, _, _⟩ =>
    items.flatMap Item.names ++ originNames origins ++ conditions.flatMap Condition.names

def originNames : List Origin → List String
  | [] => []
  | o :: os => o.names ++ originNames os

end

/-- The names in the outline of any renderable thing. -/
def Fragment.names : Fragment → List String
  | bare b => b.names
  | item i => i.names
  | test t => t.names
  | condition c => c.names
  | origin o => o.names
  | outline q => q.names

mutual

/-- The functions that stand in place of an operator inside a source. -/
def Origin.calls : Origin → List String
  | .table _ _ => []
  | .derived q _ => q.calls

/-- The functions that stand in place of an operator in a query, at every depth. -/
def Outline.calls : Outline → List String
  | ⟨origins, _, conditions, _, _⟩ =>
    originCalls origins ++ conditions.filterMap fun c => c.test.call?

def originCalls : List Origin → List String
  | [] => []
  | o :: os => o.calls ++ originCalls os

end

theorem bareNames_eq_flatMap (bs : List Bare) : bareNames bs = bs.flatMap Bare.names := by
  induction bs with
  | nil => rfl
  | cons b bs ih => rw [bareNames, List.flatMap_cons, ih]

/-- The names of origins are those of each in turn. -/
theorem originNames_eq_flatMap (os : List Origin) : originNames os = os.flatMap Origin.names := by
  induction os with
  | nil => rfl
  | cons o os ih => rw [originNames, List.flatMap_cons, ih]

theorem originCalls_eq_flatMap (os : List Origin) : originCalls os = os.flatMap Origin.calls := by
  induction os with
  | nil => rfl
  | cons o os ih => rw [originCalls, List.flatMap_cons, ih]

end SqlSelect
