import SqlSelect.Render.Writer

/-!
# Pieces

Everything that can be rendered is a list of pieces.  Which pieces they are depends on the thing and
on the `FromMode` alone; what a piece looks like, and where lines begin, is the writer's business.

## Main definitions

- `Piece` — one operation of the writer
- `Writer.put`, `Writer.putAll` — carry out one piece, or a list of them
- `Renderable` — things with pieces
- `render`, `toSql`, `toStatement`, `toArguments` — the renderings

## Main statements

- `Writer.putAll_append` — a list of pieces can be written in two parts
-/

namespace SqlSelect

/-- One step of a rendering. -/
inductive Piece where
  | text (s : String)
  | slot (v : Value)
  /-- What stands between the members of an operand list. -/
  | separator
  | space
  | clauseBreak
  | softBreak
  | indent
  | dedent
  deriving DecidableEq

namespace Writer

/-- Carry out one piece. -/
def put (w : Writer) : Piece → Writer
  | .text s => w.write s
  | .slot v => w.value v
  | .separator => w.write w.listSeparator
  | .space => w.space
  | .clauseBreak => w.clauseBreak
  | .softBreak => w.softBreak
  | .indent => w.indent
  | .dedent => w.dedent

def putAll (w : Writer) (ps : List Piece) : Writer := ps.foldl put w

theorem putAll_append (w : Writer) (ps qs : List Piece) :
    w.putAll (ps ++ qs) = (w.putAll ps).putAll qs := by
  simp [putAll]

end Writer

/-! ## Renderings -/

/-- A type of things that are rendered piece by piece. -/
class Renderable (α : Type) where
  /-- The pieces of a thing, given which sources are written. -/
  pieces : FromMode → α → List Piece

/-- Lists of pieces with `between` in each gap. -/
def joinPieces (between : List Piece) (parts : List (List Piece)) : List Piece :=
  between.intercalate parts

variable {α : Type} [Renderable α]

/-- The rendering of a thing on its own. -/
def render (mode : RenderMode) (settings : RenderSettings) (x : α) : Rendered :=
  ((Writer.start mode settings).putAll (Renderable.pieces settings.fromMode x)).finish

/-- The text with literal values in it. -/
def toSql (x : α) : String := (render .literal {} x).sql

/-- The text with a placeholder for each value. -/
def toStatement (x : α) : String := (render .statement {} x).sql

/-- The values of the placeholders of `toStatement`, in order. -/
def toArguments (x : α) : List Value := (render .statement {} x).args

/-- A value is a single slot. -/
instance : Renderable Value where
  pieces _ v := [.slot v]

end SqlSelect
