import SqlSelect.Config.Token

/-!
# Configuration Documents

A document is a list of entries, each a key and a value; a value can be an object with entries of
its own.  The reader keeps the objects that are still open, the innermost on top.

An object has every key at most once.  A document may come back to a key after entries of other
keys, and keeps all of them in order.  Attributes are an object without braces.

## Main definitions

- `OpenObject` — an object that is being read
- `Reader` — the open objects
- `Reader.read` — one more token
- `Document.parse` — the entries of a text
-/

namespace SqlSelect

/-! ## §1 Open objects -/

/-- How much of an entry's value has been read. -/
inductive ValueSoFar where
  | nothing
  | complete (t : Tree)
  /-- Attributes: those that are complete, and the key of one without a value. -/
  | attributes (complete : Entries) (pending : Option String)

namespace ValueSoFar

def isOpen : ValueSoFar → Bool
  | nothing => true
  | complete _ => false
  | attributes _ pending => pending.isSome

def toTree : ValueSoFar → Except DocumentError Tree
  | nothing => .ok .unit
  | complete t => .ok t
  | attributes entries none => .ok (.object entries)
  | attributes _ (some key) => .error (.valueExpected key)

end ValueSoFar

/-- An object that is still open. -/
structure OpenObject where
  level : Level := .object
  /-- The entries that are complete, the latest first. -/
  entries : List PathEntry := []
  /-- The keys and the value of the entry that is being read. -/
  current : Option (KeyPath × ValueSoFar) := none
  /-- Whether a comment describes the entry that comes next. -/
  described : Bool := false

namespace OpenObject

def start (o : OpenObject) (p : KeyPath) : OpenObject :=
  { o with current := some (p, .nothing), described := false }

def addValue (o : OpenObject) (t : Tree) : Except DocumentError OpenObject :=
  match o.current with
  | none => .error .keyExpected
  | some (p, .nothing) => .ok { o with current := some (p, .complete t) }
  | some (p, .attributes entries (some key)) =>
    .ok { o with current := some (p, .attributes (entries ++ [(key, t)]) none) }
  | some (p, _) => .error (.twoValues p.keys)

/-- Add the key of an attribute to the entry that is being read; a key can come again. -/
def addAttribute (o : OpenObject) (key : String) : Except DocumentError OpenObject :=
  match o.current with
  | none => .error .keyExpected
  | some (p, .nothing) => .ok { o with current := some (p, .attributes [] (some key)) }
  | some (p, .attributes entries none) =>
    .ok { o with current := some (p, .attributes entries (some key)) }
  | some (p, _) => .error (.twoValues p.keys)

/-- Add a bare word: a key, if no entry is being read, and a value otherwise.  The document takes a
dotted key for a path. -/
def addWord (o : OpenObject) (s : String) : Except DocumentError OpenObject :=
  if o.current.isSome then o.addValue (.scalar s)
  else
    match o.level with
    | .object => .ok (o.start ⟨s, [], s⟩)
    | .document =>
      match KeyPath.ofWord? s with
      | some p => .ok (o.start p)
      | none => .error (.emptyKeyPart s)

/-- Add a quoted text with what it is told apart by: a key, if no entry is being read, and a value
otherwise. -/
def addQuoted (o : OpenObject) (s identity : String) : Except DocumentError OpenObject :=
  if o.current.isSome then o.addValue (.scalar s) else .ok (o.start ⟨identity, [], s⟩)

/-- End the entry that is being read, if there is one. -/
def endEntry (o : OpenObject) : Except DocumentError OpenObject :=
  match o.current with
  | none => .ok o
  | some (p, value) =>
    match o.level.refusal? o.entries p with
    | some why => .error (.refused p.keys why)
    | none => return { o with entries := (p, ← value.toTree) :: o.entries, current := none }

/-- A comment that describes the entry after it, unless it stands behind an entry on its line. -/
def describe (o : OpenObject) : Except DocumentError OpenObject :=
  .ok { o with described := o.described || o.current.isNone }

/-- The entries of an object that ends, in order. -/
def close (o : OpenObject) : Except DocumentError Entries := do
  let complete ← o.endEntry
  if complete.described then .error .nothingDescribed
  else return complete.entries.reverse.map PathEntry.toEntry

end OpenObject

/-! ## §2 The reader -/

/-- The objects that are open. -/
structure Reader where
  innermost : OpenObject := { level := .document }
  /-- The objects around it, from the inside out. -/
  outer : List OpenObject := []
  /-- Whether the entry that is being read has an open parenthesis. -/
  inParenthesis : Bool := false

namespace Reader

def update (r : Reader) (change : OpenObject → Except DocumentError OpenObject) :
    Except DocumentError Reader :=
  return { r with innermost := ← change r.innermost }

/-- Open an object as the value of the entry that is being read. -/
def descend (r : Reader) : Except DocumentError Reader :=
  match r.innermost.current with
  | none => .error .keyExpected
  | some (p, value) =>
    if value.isOpen then .ok { innermost := {}, outer := r.innermost :: r.outer }
    else .error (.twoValues p.keys)

/-- Close the innermost object and make it the value that it was opened for. -/
def ascend (r : Reader) : Except DocumentError Reader := do
  let entries ← r.innermost.close
  match r.outer with
  | [] => .error .surplusBrace
  | o :: outer => return { innermost := ← o.addValue (.object entries), outer := outer }

/-- One more token between parentheses, which contain line ends and comments only. -/
def readInParenthesis (r : Reader) : Token → Except DocumentError Reader
  | .closeParenthesis => { r with inParenthesis := false }.update (·.addValue .emptySequence)
  | .lineEnd => .ok r
  | .description => .ok r
  | _ => .error .badParenthesis

/-- One more token outside parentheses. -/
def readOutside (r : Reader) : Token → Except DocumentError Reader
  | .word s => r.update (·.addWord s)
  | .quoted s identity => r.update (·.addQuoted s identity)
  | .tag name => r.update (·.addValue (.tag name))
  | .attributeKey key => r.update (·.addAttribute key)
  | .openBrace => r.descend
  | .closeBrace => r.ascend
  | .openParenthesis => .ok { r with inParenthesis := true }
  | .closeParenthesis => .error .badParenthesis
  | .comma => r.update OpenObject.endEntry
  | .lineEnd => r.update OpenObject.endEntry
  | .description => r.update OpenObject.describe

def read (r : Reader) (t : Token) : Except DocumentError Reader :=
  if r.inParenthesis then r.readInParenthesis t else r.readOutside t

def finish (r : Reader) : Except DocumentError Entries :=
  if r.inParenthesis then .error .unterminated
  else if r.outer.isEmpty then r.innermost.close
  else .error .unclosedBrace

end Reader

def Document.ofTokens (ts : List Token) : Except DocumentError Entries :=
  ts.foldlM Reader.read {} >>= Reader.finish

def Document.parse (text : String) : Except DocumentError Entries :=
  Token.scan text >>= Document.ofTokens

end SqlSelect
