/-!
# Rendering Settings

The choices that are made once for a rendering: whether values are written or bound, how the text is
laid out, and which sources of a query are written.

## Main definitions

- `RenderMode` — literal text, or a statement with placeholders
- `FromMode` — the first source only, or all of them
- `RenderSettings` — layout and sources, as a configuration file sets them
-/

namespace SqlSelect

/-- What stands in the text for a value. -/
inductive RenderMode where
  /-- The value's raw literal text. -/
  | literal
  /-- A placeholder; the value is bound as an argument. -/
  | statement
  deriving DecidableEq

/-- Which sources of a query are written after `FROM`. -/
inductive FromMode where
  /-- The first source; the others lend their columns but are not written. -/
  | firstOnly
  | allSources
  deriving DecidableEq

/-- The sources that are written, out of all sources of a query. -/
def FromMode.visible {α : Type} : FromMode → List α → List α
  | firstOnly, sources => sources.take 1
  | allSources, sources => sources

/-- Layout and choice of sources. -/
structure RenderSettings where
  /-- Whether each clause starts a line and derived sources are indented. -/
  pretty : Bool := false
  fromMode : FromMode := .firstOnly
  deriving DecidableEq

end SqlSelect
