/-!
# Characters of a Configuration Document

Which characters a document's words and names consist of.

## Main definitions

- `isWhiteSpace` — the characters that no word contains, of which few are blanks
- `isWordStart`, `isWordChar` — the characters of a bare word
- `continuesName` — the characters of a tag's name
-/

namespace SqlSelect

/-- The ranges of characters with Unicode's property of white space. -/
def whiteSpaceRanges : List (Char × Char) :=
  [('\t', '\r'), (' ', ' '), ('\u0085', '\u0085'), ('\u00a0', '\u00a0'), ('\u1680', '\u1680'),
    ('\u2000', '\u200a'), ('\u2028', '\u2029'), ('\u202f', '\u202f'), ('\u205f', '\u205f'),
    ('\u3000', '\u3000')]

def isWhiteSpace (c : Char) : Bool :=
  whiteSpaceRanges.any fun (first, last) => first ≤ c && c ≤ last

/-- White space that separates tokens and means nothing else. -/
def isBlank (c : Char) : Bool := c == ' ' || c == '\t'

/-- Characters that a bare word goes on with. -/
def isWordChar (c : Char) : Bool :=
  !(isWhiteSpace c || ['\x7b', '\x7d', '(', ')', ',', '>', '\x22'].contains c)

/-- Characters that a bare word starts with, if no other token starts with them. -/
def isWordStart (c : Char) : Bool := isWordChar c && c != '='

/-- Whether the name of a tag goes on with a character: a letter of ASCII or an underscore, and
after the first character also a digit of ASCII or a hyphen. -/
def continuesName (read : List Char) (c : Char) : Bool :=
  c.isAlpha || c == '_' || (!read.isEmpty && (c.isDigit || c == '-'))

end SqlSelect
