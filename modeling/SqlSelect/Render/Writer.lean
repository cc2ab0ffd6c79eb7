import SqlSelect.Render.Settings
import SqlSelect.Value.Literal

/-!
# The Writer

A `Writer` holds the text written so far, the arguments bound so far and where on its line the text
ends.  Its operations are the only ones that add to either.

## Main definitions

- `Writer` — the state, with `Writer.start` for an empty one
- `Writer.write`, `Writer.value` — a text, and a value as literal or placeholder
- `Writer.space`, `Writer.clauseBreak`, `Writer.softBreak` — what stands between texts
- `Writer.indent`, `Writer.dedent` — the depth of the lines to come
- `Rendered` — the finished text and its arguments
-/

namespace SqlSelect

/-- A finished text with the values bound to its placeholders, in their order. -/
structure Rendered where
  sql : String
  args : List Value
  deriving DecidableEq

structure Writer where
  mode : RenderMode
  settings : RenderSettings
  sql : String
  args : Array Value
  /-- How many levels the next line is indented. -/
  depth : Nat
  /-- Whether nothing has been written on the current line yet. -/
  atLineStart : Bool
  deriving DecidableEq

namespace Writer

/-- A writer that has written nothing. -/
def start (mode : RenderMode) (settings : RenderSettings) : Writer :=
  ⟨mode, settings, "", #[], 0, true⟩

/-- Four spaces for each level. -/
def indentation (depth : Nat) : String := String.ofList (List.replicate (4 * depth) ' ')

/-- What stands before a text written now: the indentation, if it starts a line of a pretty text. -/
def lead (w : Writer) : String :=
  if w.settings.pretty && w.atLineStart then indentation w.depth else ""

/-- Write a text.  Even an empty one ends the start of the line. -/
def write (s : String) (w : Writer) : Writer :=
  { w with sql := w.sql ++ w.lead ++ s, atLineStart := false }

/-- Write a value: its literal text, or a placeholder and an argument. -/
def value (v : Value) (w : Writer) : Writer :=
  match w.mode with
  | .literal => w.write v.literal
  | .statement => { w with args := w.args.push v }.write "?"

/-- What stands between the members of an operand list. -/
def listSeparator (w : Writer) : String :=
  match w.mode with
  | .literal => ", "
  | .statement => ","

/-- A space, unless there is nothing on the line to set it apart from. -/
def space (w : Writer) : Writer :=
  if w.sql.isEmpty || w.atLineStart then w else { w with sql := w.sql ++ " " }

/-- End the line. -/
def lineBreak (w : Writer) : Writer :=
  { w with sql := w.sql ++ "\n", atLineStart := true }

/-- Start a clause: on a new line of a pretty text, after a space otherwise. -/
def clauseBreak (w : Writer) : Writer :=
  if w.settings.pretty then w.lineBreak else w.space

/-- A line break that only a pretty text has. -/
def softBreak (w : Writer) : Writer :=
  if w.settings.pretty then w.lineBreak else w

/-- Indent the lines to come one level more. -/
def indent (w : Writer) : Writer := { w with depth := w.depth + 1 }

/-- Indent the lines to come one level less, if they are indented. -/
def dedent (w : Writer) : Writer := { w with depth := w.depth - 1 }

def finish (w : Writer) : Rendered := ⟨w.sql, w.args.toList⟩

end Writer

end SqlSelect
