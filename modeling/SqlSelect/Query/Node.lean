import SqlSelect.Query.Basic

/-!
# Nodes

A `Node` is any one thing that can be rendered on its own.

## Main definitions

- `Node` — the kinds of renderable thing
- `Node.pieces` — the pieces of each
-/

namespace SqlSelect

/-- Any renderable thing. -/
inductive Node where
  | value (v : Value)
  | column (c : ColumnRef)
  | expr (e : Expr)
  | call (f : FunctionCall)
  | operand (o : Operand)
  | operation (o : Operation)
  | predicate (p : Predicate)
  | source (s : Source)
  | tableExpression (e : TableExpression)
  | select (s : Select)
  | query (q : Query)

def Node.pieces (mode : FromMode) : Node → List Piece
  | value v => Renderable.pieces mode v
  | column c => Renderable.pieces mode c
  | expr e => Renderable.pieces mode e
  | call f => Renderable.pieces mode f
  | operand o => Renderable.pieces mode o
  | operation o => Renderable.pieces mode o
  | predicate p => Renderable.pieces mode p
  | source s => Renderable.pieces mode s
  | tableExpression e => Renderable.pieces mode e
  | select s => Renderable.pieces mode s
  | query q => Renderable.pieces mode q

instance : Renderable Node := ⟨Node.pieces⟩

end SqlSelect
