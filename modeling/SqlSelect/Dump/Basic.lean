/-!
# Structure Dumps

A dump shows how a thing is built, on one line: constructors by name, with their parts in
parentheses or, where the parts have names, in braces.

## Main definitions

- `Dump` — the tree of a dump
- `Dump.text` — its one line
- `Dump.quoted` — a text between double quotes, with escapes
-/

namespace SqlSelect

/-- The parts that a dump shows. -/
inductive Dump where
  /-- A text that is shown as it stands. -/
  | word (s : String)
  /-- A text that is shown between quotes. -/
  | string (s : String)
  | tuple (name : String) (parts : List Dump)
  | record (name : String) (parts : List (String × Dump))
  | list (items : List Dump)
  | map (entries : List (String × Dump))

namespace Dump

/-! ## §1 Text -/

/-- The code of a control character in lower-case hexadecimal. -/
def controlCode (c : Char) : String :=
  "\\u\x7b" ++ String.ofList (Nat.toDigits 16 c.toNat) ++ "\x7d"

def isControl (c : Char) : Bool := c.toNat < 0x20 || (0x7f ≤ c.toNat && c.toNat < 0xa0)

/-- A character inside quotes. -/
def escapeChar (c : Char) : String :=
  match c with
  | '\x22' => "\\\""
  | '\\' => "\\\\"
  | '\n' => "\\n"
  | '\r' => "\\r"
  | '\t' => "\\t"
  | '\x00' => "\\0"
  | c => if isControl c then controlCode c else c.toString

def quoted (s : String) : String :=
  "\"" ++ String.join (s.toList.map escapeChar) ++ "\""

/-- Items with a comma in each gap. -/
def commas (items : List String) : String := String.intercalate ", " items

/-- Items between braces set off by spaces, or nothing if there are none. -/
def braced (items : List String) : String :=
  if items.isEmpty then "" else " \x7b " ++ commas items ++ " \x7d"

mutual

/-- The line of a dump. -/
def text : Dump → String
  | word s => s
  | string s => quoted s
  | tuple name parts => name ++ "(" ++ commas (texts parts) ++ ")"
  | record name parts => name ++ braced (entryTexts id parts)
  | list items => "[" ++ commas (texts items) ++ "]"
  | map entries => "\x7b" ++ commas (entryTexts quoted entries) ++ "\x7d"

def texts : List Dump → List String
  | [] => []
  | d :: ds => d.text :: texts ds

def entryTexts (key : String → String) : List (String × Dump) → List String
  | [] => []
  | (k, d) :: es => (key k ++ ": " ++ d.text) :: entryTexts key es

end

/-! ## §2 Common shapes -/

def ofBool (b : Bool) : Dump := word (if b then "true" else "false")

def ofInt (n : Int) : Dump := word (toString n)

def ofNat (n : Nat) : Dump := word (toString n)

def ofOption {α : Type} (dump : α → Dump) : Option α → Dump
  | some x => tuple "Some" [dump x]
  | none => word "None"

end Dump

end SqlSelect
