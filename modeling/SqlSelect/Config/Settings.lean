import SqlSelect.Config.Document
import SqlSelect.Render.Settings

/-!
# Settings of a Document

What a configuration document says about rendering: the entries `pretty` and `from` of its object
`render`, one after the other.  Every other entry is ignored, and a setting without an entry has
its default.

## Main definitions

- `ConfigError` — why there are no settings
- `configFile` — the name that a document is kept under
- `RenderSettings.change`, `RenderSettings.read` — the settings after one more entry
- `RenderSettings.ofEntries` — the settings that entries give
- `RenderSettings.parse` — the settings of a document's text
-/

namespace SqlSelect

/-- Why there are no settings. -/
inductive ConfigError where
  | notFound
  /-- The file is a directory, or its content is not text. -/
  | unreadable
  /-- The text is not a document. -/
  | malformed (e : DocumentError)
  /-- The entry of this key has a value that it cannot have. -/
  | unexpected (key : String)
  deriving DecidableEq

def configFile : String := "tabula.styx"

def ConfigError.message : ConfigError → String
  | notFound => "no " ++ configFile ++ " found in the start directory or any parent"
  | unreadable => "failed to read " ++ configFile
  | malformed _ => "failed to parse " ++ configFile
  | unexpected key => "failed to parse " ++ configFile ++ ": unexpected value of " ++ key

namespace RenderSettings

/-- A truth value, bare or quoted; a key without a value says false. -/
def flag? : Tree → Option Bool
  | .scalar "true" => some true
  | .scalar "false" => some false
  | .unit => some false
  | _ => none

/-- The name of a choice of sources. -/
def fromModeNamed? : String → Option FromMode
  | "first-only" => some .firstOnly
  | "all-sources" => some .allSources
  | _ => none

/-- A choice of sources: a tag, its name bare or quoted, or an object whose one key is the name and
whose value there is none or an object without entries. -/
def fromMode? : Tree → Option FromMode
  | .tag name => fromModeNamed? name
  | .scalar name => fromModeNamed? name
  | .object [(name, .unit)] => fromModeNamed? name
  | .object [(name, .object [])] => fromModeNamed? name
  | _ => none

/-- The meaning of a key's value, which has to have one. -/
def require {α : Type} (key : String) (meaning : Option α) : Except ConfigError α :=
  match meaning with
  | some x => .ok x
  | none => .error (.unexpected key)

/-- The settings after an entry of an object `render`. -/
def change (s : RenderSettings) (e : String × Tree) : Except ConfigError RenderSettings :=
  if e.1 = "pretty" then return { s with pretty := ← require "pretty" (flag? e.2) }
  else if e.1 = "from" then return { s with fromMode := ← require "from" (fromMode? e.2) }
  else .ok s

/-- The settings after an entry of the document. -/
def read (s : RenderSettings) (e : String × Tree) : Except ConfigError RenderSettings :=
  if e.1 = "render" then
    match e.2 with
    | .object entries => entries.foldlM change s
    | _ => .error (.unexpected "render")
  else .ok s

/-- The settings that the entries of a document give: the defaults, changed by every object
`render` in turn. -/
def ofEntries (entries : Entries) : Except ConfigError RenderSettings :=
  entries.foldlM read {}

def parse (text : String) : Except ConfigError RenderSettings :=
  match Document.parse text with
  | .ok entries => ofEntries entries
  | .error e => .error (.malformed e)

end RenderSettings

end SqlSelect
