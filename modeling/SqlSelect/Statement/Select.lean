import SqlSelect.Schema.Table
import SqlSelect.Statement.Predicate

/-!
# Select Statements

A `Select` reads from sources; a source is a table or another, finished `Select`.

## Main definitions

- `Source` — a table or a derived table, under an alias
- `Select` — sources, projection, filters and bounds
- `Source.pieces`, `Select.pieces` — their texts
-/

namespace SqlSelect

/-! ## §1 Syntax -/

mutual

/-- What a query reads from. -/
inductive Source where
  | base (table : Table) (aliasName : String)
  /-- The rows of an inner query, with the columns of `shape`. -/
  | derived (shape : Table) (query : Select) (aliasName : String)

structure Select where
  sources : List Source
  /-- The projection items, in order; all columns, if there is none. -/
  projection : List Expr
  filters : List Predicate
  limit : Option UInt64
  offset : Option UInt64

end

namespace Source

def aliasName : Source → String
  | base _ a => a
  | derived _ _ a => a

/-- The table whose columns the source offers. -/
def table : Source → Table
  | base t _ => t
  | derived shape _ _ => shape

def query? : Source → Option Select
  | base _ _ => none
  | derived _ q _ => some q

end Source

/-- A query that reads everything from its sources. -/
def Select.everything (sources : List Source) : Select := ⟨sources, [], [], none, none⟩

/-! ## §2 Pieces -/

namespace Select

/-- The projection: a star, or the items. -/
def projectionPieces (items : List Expr) : List Piece :=
  .text "SELECT " ::
    (if items.isEmpty then [.text "*"] else joinPieces [.text ", "] (items.map Expr.pieces))

/-- The filters, if there are any. -/
def filterPieces (filters : List Predicate) : List Piece :=
  if filters.isEmpty then []
  else [.clauseBreak, .text "WHERE "] ++ joinPieces [.text " AND "] (filters.map Predicate.pieces)

/-- A bound on the rows, if there is one. -/
def boundPieces (keyword : String) : Option UInt64 → List Piece
  | some n => [.clauseBreak, .text (keyword ++ " " ++ toString n.toNat)]
  | none => []

end Select

mutual

/-- A source: the table's name or the inner query, and the alias. -/
def Source.pieces (mode : FromMode) : Source → List Piece
  | .base t a => [.text t.name] ++ aliasPieces a
  | .derived _ q a =>
    [.text "(", .indent, .softBreak] ++ q.pieces mode ++ [.dedent, .softBreak, .text ")"] ++
      aliasPieces a

/-- A query: one clause after another. -/
def Select.pieces (mode : FromMode) : Select → List Piece
  | ⟨sources, projection, filters, limit, offset⟩ =>
    Select.projectionPieces projection ++
      [.clauseBreak, .text "FROM "] ++
      joinPieces [.text ", "] (sourcePieces mode sources) ++
      Select.filterPieces filters ++
      Select.boundPieces "LIMIT" limit ++
      Select.boundPieces "OFFSET" offset

/-- The pieces of each source that is written, out of a list. -/
def sourcePieces (mode : FromMode) : List Source → List (List Piece)
  | [] => []
  | s :: ss =>
    s.pieces mode ::
      match mode with
      | .firstOnly => []
      | .allSources => sourcePieces mode ss

end

/-- The recursion over sources leaves out those that are not written, and maps the others. -/
theorem sourcePieces_eq_map (mode : FromMode) (ss : List Source) :
    sourcePieces mode ss = (mode.visible ss).map (Source.pieces mode) := by
  cases mode with
  | firstOnly => cases ss <;> simp [sourcePieces, FromMode.visible]
  | allSources =>
    induction ss with
    | nil => simp [sourcePieces, FromMode.visible]
    | cons s ss ih => simpa [sourcePieces, FromMode.visible] using ih

instance : Renderable Source := ⟨Source.pieces⟩

instance : Renderable Select := ⟨Select.pieces⟩

end SqlSelect
