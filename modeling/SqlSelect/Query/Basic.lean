import SqlSelect.Query.TableExpression

/-!
# Building Queries

A query is built over its participants: each step looks at their column views and adds to the
statement.  Participants are fixed, one to three table expressions whose views are made anew for
each step, or dynamic, a list of sources whose views are made once.

## Main definitions

- `Query.find`, `Query.dynamic` — a query that reads everything from its participants
- `Query.project`, `Query.filter` — add projection items, or a predicate, made from the views
- `Query.limit`, `Query.offset` — bound the rows
- `Query.subquery` — the finished query as a table expression
-/

namespace SqlSelect

/-! ## §1 Participants -/

/-- The table expressions of a query with fixed participants. -/
inductive Participants where
  | one (a : TableExpression)
  | two (a b : TableExpression)
  | three (a b c : TableExpression)

namespace Participants

def toList : Participants → List TableExpression
  | one a => [a]
  | two a b => [a, b]
  | three a b c => [a, b, c]

/-- One, two or three table expressions as participants. -/
def ofList : List TableExpression → Except QueryError Participants
  | [a] => .ok (one a)
  | [a, b] => .ok (two a b)
  | [a, b, c] => .ok (three a b c)
  | es => .error (.arity es.length)

end Participants

/-- Where the columns of a query come from. -/
inductive Scope where
  | fixed (participants : Participants)
  | dynamic (views : List View)

/-- The views that a step of the query sees, one for each source. -/
def Scope.views : Scope → List View
  | fixed ps => ps.toList.map TableExpression.view
  | dynamic views => views

/-! ## §2 Queries -/

/-- A query under construction. -/
structure Query where
  scope : Scope
  /-- What has been built so far. -/
  statement : Select

namespace Query

/-- The largest number of sources. -/
def maxSources : Nat := 3

def find (ps : Participants) : Query :=
  ⟨.fixed ps, .everything (ps.toList.map TableExpression.source)⟩

def dynamic (sources : List Source) : Except QueryError Query :=
  if 1 ≤ sources.length ∧ sources.length ≤ maxSources then
    .ok ⟨.dynamic (sources.map fun s => s.table.view s.aliasName), .everything sources⟩
  else .error (.arity sources.length)

def views (q : Query) : List View := q.scope.views

def update (q : Query) (change : Select → Select) : Query :=
  { q with statement := change q.statement }

variable {ε : Type}

/-- Add projection items made from the views; if they cannot be made, nothing is added. -/
def project (q : Query) (items : List View → Except ε (List Expr)) : Except ε Query := do
  let added ← items q.views
  return q.update fun s => { s with projection := s.projection ++ added }

/-- Add a predicate made from the views. -/
def filter (q : Query) (predicate : List View → Except ε Predicate) : Except ε Query := do
  let added ← predicate q.views
  return q.update fun s => { s with filters := s.filters ++ [added] }

/-- Keep at most `n` rows. -/
def limit (q : Query) (n : UInt64) : Query := q.update fun s => { s with limit := some n }

/-- Skip the first `n` rows. -/
def offset (q : Query) (n : UInt64) : Query := q.update fun s => { s with offset := some n }

/-- The query, as it is now, as a table for others. -/
def subquery (q : Query) (aliasName : String) : TableExpression :=
  q.statement.toTableExpression aliasName

/-- A query is written as its statement. -/
instance : Renderable Query := ⟨fun mode q => q.statement.pieces mode⟩

end Query

end SqlSelect
