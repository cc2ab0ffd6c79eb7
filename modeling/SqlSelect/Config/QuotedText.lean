/-!
# Quoted Texts of a Configuration Document

What a text between quotes says, and how it is written.  An escape is a backslash and a letter, or a
code of hexadecimal digits: four of them, or any number between braces.

A code can be void: it has no digits, one too few of four, or more than fit into 32 bits.  A void
code stands for nothing, and so does every later code that is no character's.  A text with a void
code is told apart from other texts by how it is written, and any other text by what it says.

## Main definitions

- `unescape?`, `hexDigit?` — the characters of escapes
- `QuotedText` — a text between quotes
- `QuotedText.addCode?` — the text after one more code
- `QuotedText.identity` — what the text is told apart by
-/

namespace SqlSelect

/-! ## §1 Escapes -/

/-- What a backslash and this character stand for. -/
def unescape? : Char → Option Char
  | '\\' => some '\\'
  | '\x22' => some '\x22'
  | 'n' => some '\n'
  | 'r' => some '\r'
  | 't' => some '\t'
  | _ => none

/-- The value of a hexadecimal digit of either case. -/
def hexDigit? (c : Char) : Option Nat :=
  if '0' ≤ c ∧ c ≤ '9' then some (c.toNat - '0'.toNat)
  else if 'a' ≤ c ∧ c ≤ 'f' then some (c.toNat - 'a'.toNat + 10)
  else if 'A' ≤ c ∧ c ≤ 'F' then some (c.toNat - 'A'.toNat + 10)
  else none

/-- The number that hexadecimal digits write, the last digit first. -/
def hexValue : List Nat → Nat
  | [] => 0
  | d :: digits => 16 * hexValue digits + d

/-! ## §2 Texts -/

/-- The text of characters, the last one first. -/
def textOfReverse (cs : List Char) : String := String.ofList cs.reverse

/-- A text between quotes, as far as it has been read. -/
structure QuotedText where
  /-- What it says, the last character first. -/
  said : List Char := []
  /-- How it is written, the last character first. -/
  written : List Char := []
  /-- Whether it has a void code. -/
  hasVoid : Bool := false
  deriving DecidableEq

namespace QuotedText

/-- Read a character that says nothing by itself. -/
def read (q : QuotedText) (c : Char) : QuotedText := { q with written := c :: q.written }

def say (q : QuotedText) (c : Char) : QuotedText := { q with said := c :: q.said }

/-- The text after a void code. -/
def voided (q : QuotedText) : QuotedText := { q with hasVoid := true }

/-- The text after a code with these digits, the last digit first; none if the code is not allowed
there. -/
def addCode? (q : QuotedText) (digits : List Nat) : Option QuotedText :=
  let code := hexValue digits
  if digits = [] ∨ UInt32.size ≤ code then some q.voided
  else if code.isValidChar then some (q.say (Char.ofNat code))
  else if q.hasVoid then some q
  else none

def text (q : QuotedText) : String := textOfReverse q.said

/-- What the text is told apart by. -/
def identity (q : QuotedText) : String := textOfReverse (if q.hasVoid then q.written else q.said)

end QuotedText

end SqlSelect
