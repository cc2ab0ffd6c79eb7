/-!
# Key Paths

A value of a document, and the keys that lead to it.  A dotted word in the document leads through
objects, one for each of its parts but the last.

The document is open at its last entry: the next one can enter the objects on the way to it again,
but none that has been left.  After an entry of another first key nothing is remembered.

## Main definitions

- `Tree` — a value
- `KeyPath` — the keys that lead to a value
- `KeyPath.ofWord?` — the path of a dotted word
- `Level.refusal?` — why an entry cannot follow others
-/

namespace SqlSelect

/-! ## §1 Values -/

inductive Tree where
  /-- No value. -/
  | unit
  /-- A text, bare or quoted. -/
  | scalar (text : String)
  /-- An at sign and the name after it, which may be empty. -/
  | tag (name : String)
  | emptySequence
  | object (entries : List (String × Tree))

/-- The entries of an object, in order. -/
abbrev Entries := List (String × Tree)

namespace Tree

def isObject : Tree → Bool
  | object _ => true
  | _ => false

/-- A value under further keys: an object of one entry for each. -/
def under : List String → Tree → Tree
  | [], t => t
  | key :: keys, t => object [(key, t.under keys)]

end Tree

/-! ## §2 Paths -/

/-- The keys that lead to a value, from the outside in. -/
structure KeyPath where
  /-- What the first key is told apart by. -/
  first : String
  further : List String := []
  /-- What the first key says. -/
  name : String := first
  deriving DecidableEq

namespace KeyPath

/-- The path of a word with dots between its parts, none of which is empty. -/
def ofWord? (s : String) : Option KeyPath :=
  match (s.toList.splitOn '.').map String.ofList with
  | [] => none
  | first :: further => if "" ∈ first :: further then none else some ⟨first, further, first⟩

def keys (p : KeyPath) : List String := p.first :: p.further

end KeyPath

/-- How many keys two paths share at their start. -/
def sharedKeys : List String → List String → Nat
  | k :: ks, l :: ls => if k = l then sharedKeys ks ls + 1 else 0
  | _, _ => 0

/-- An entry of the document: a value, and the keys that lead to it. -/
abbrev PathEntry := KeyPath × Tree

def PathEntry.toEntry (e : PathEntry) : String × Tree := (e.1.name, e.2.under e.1.further)

/-! ## §3 What may follow -/

/-- Where entries stand. -/
inductive Level where
  | document
  | object
  deriving DecidableEq

/-- Why an entry cannot follow others. -/
inductive Refusal where
  /-- An entry of the same keys is in the way. -/
  | duplicate
  /-- The path leads through the last entry, whose value is no object. -/
  | throughValue
  /-- The path leads to where an earlier entry led and the last one did not. -/
  | goesBack
  deriving DecidableEq

/-- Why an entry of these keys cannot follow entries of the same first key in the document, the
latest first. -/
def refusalAmong? (entries : List PathEntry) (keys : List String) : Option Refusal :=
  match entries with
  | [] => none
  | last :: earlier =>
    let shared := sharedKeys keys last.1.keys
    if keys = last.1.keys then some .duplicate
    else if shared = last.1.keys.length && !last.2.isObject then some .throughValue
    else if earlier.any fun e => shared < sharedKeys keys e.1.keys then some .goesBack
    else none

/-- Why an entry of these keys cannot follow others, the latest first. -/
def Level.refusal? (l : Level) (entries : List PathEntry) (p : KeyPath) : Option Refusal :=
  match l with
  | document => refusalAmong? (entries.takeWhile (·.1.first == p.first)) p.keys
  | object => if entries.any (·.1.keys == p.keys) then some .duplicate else none

end SqlSelect
