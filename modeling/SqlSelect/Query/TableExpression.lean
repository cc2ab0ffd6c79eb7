import SqlSelect.Query.View
import SqlSelect.Schema.Declaration
import SqlSelect.Statement.Select

/-!
# Table Expressions

A table expression is a definition under an alias: one participant of a query.  The same definition
under two aliases is two participants, which is how a table is joined with itself.

## Main definitions

- `Definition` — what can be put under an alias: a plain, a declared or a derived table
- `TableExpression` — a definition and an alias
- `Select.shape` — the table that a finished query offers to an outer one
-/

namespace SqlSelect

/-- What a query can read from. -/
inductive Definition where
  /-- A table as it is now. -/
  | plain (t : Table)
  /-- A table that was declared, seen through its handles. -/
  | declared (d : DeclaredTable)
  /-- A finished query, with the columns of `shape`. -/
  | derived (shape : Table) (query : Select)

namespace Definition

def table : Definition → Table
  | plain t => t
  | declared d => d.table
  | derived shape _ => shape

/-- The columns that a definition offers under an alias. -/
def view (aliasName : String) : Definition → View
  | plain t => t.view aliasName
  | declared d => View.ofEntries d.table.name aliasName d.handles
  | derived shape _ => shape.view aliasName

def query? : Definition → Option Select
  | derived _ q => some q
  | _ => none

end Definition

/-- A definition under an alias. -/
structure TableExpression where
  definition : Definition
  aliasName : String

namespace TableExpression

/-- A definition under the identifier of its table. -/
def unaliased (d : Definition) : TableExpression := ⟨d, d.table.ident⟩

def table (e : TableExpression) : Table := e.definition.table

def view (e : TableExpression) : View := e.definition.view e.aliasName

/-- All columns of the table. -/
def columns (e : TableExpression) : View := e.table.view e.aliasName

def source (e : TableExpression) : Source :=
  match e.definition with
  | .derived shape q => .derived shape q e.aliasName
  | d => .base d.table e.aliasName

/-- An expression is written as the source that it becomes. -/
instance : Renderable TableExpression := ⟨fun mode e => e.source.pieces mode⟩

end TableExpression

/-- The columns of all sources of a query, merged into a table that goes by `name`. -/
def Select.shape (q : Select) (name : String) : Table :=
  Table.merged name (q.sources.map Source.table)

/-- A query as a table for outer queries to read from. -/
def Select.toTableExpression (q : Select) (aliasName : String) : TableExpression :=
  ⟨.derived (q.shape aliasName) q, aliasName⟩

end SqlSelect
