import SqlSelect.Program.Term
import SqlSelect.Query.Node
import SqlSelect.Schema.Declaration

/-!
# Steps and Answers

A program is a list of steps.  Each step is answered on its own; some also store a thing under a
name.

## Main definitions

- `Step` — what a program can do
- `WriterStep` — what can be done with a writer directly
- `DumpTerm` — what can be dumped
- `Answer` — what a step that succeeds shows
-/

namespace SqlSelect

/-- One operation on a writer. -/
inductive WriterStep where
  | piece (p : Piece)
  /-- Write a whole node. -/
  | node (n : NodeTerm)

/-- Something that can be dumped. -/
inductive DumpTerm where
  | node (n : NodeTerm)
  | table (name : String)
  | handle (name : String)
  | functionName (f : CallTerm)

/-- One step of a program.  `store` is the name that the result is kept under; a step that changes a
query keeps it under the query's own name unless another one is given. -/
inductive Step where
  | table (store ident : String) (name : Option String)
  | register (table field : String) (options : List ColumnOption) (store : Option String)
  | declare (store : String) (declaration : Declaration) (name : Option String)
  | merge (store name : String) (tables : List String)
  /-- Take the handle of a field of a declared table. -/
  | handle (store table field : String)
  /-- Put a definition under an alias, or under its own identifier. -/
  | tableExpression (store definition : String) (aliasName : Option String)
  | query (store : String) (sources : List String) (dynamic : Bool)
  | project (query : String) (items : List ExprTerm) (store : Option String)
  | filter (query : String) (predicate : PredicateTerm) (store : Option String)
  | limit (query : String) (n : UInt64) (store : Option String)
  | offset (query : String) (n : UInt64) (store : Option String)
  /-- Make a table expression of a query as it is now. -/
  | subquery (store query aliasName : String)
  | expr (store : String) (e : ExprTerm)
  | render (node : NodeTerm)
  | renderWith (mode : RenderMode) (settings : RenderSettings) (node : NodeTerm)
  /-- Use a fresh writer directly. -/
  | write (mode : RenderMode) (settings : RenderSettings) (steps : List WriterStep)
  /-- Look a field up in the columns of a table expression. -/
  | lookup (source field : String)
  | columns (source : String)
  | describe (table : String)
  | default (table field : String)
  | inspectQuery (query : String)
  /-- Show the query behind a table expression. -/
  | inspectSource (source : String)
  | dump (term : DumpTerm)

/-- What a step shows when it succeeds. -/
inductive Answer where
  | text (s : String)
  | table (t : Table)
  | column (c : Column)
  | handle (c : Column)
  | tableExpression (e : TableExpression)
  /-- The renderings with default settings. -/
  | renderings (sql statement : String) (args : List Value)
  | rendered (r : Rendered)
  /-- The mode and settings of a writer, and what it held after each step. -/
  | trace (mode : RenderMode) (settings : RenderSettings) (states : List Rendered)
  | reference (c : ColumnRef)
  | view (v : View)
  | value (v : Option Value)
  | query (q : Query)
  /-- The query behind a table expression, if there is one. -/
  | statement (s : Option Select)

end SqlSelect
