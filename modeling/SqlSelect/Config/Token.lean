import SqlSelect.Config.Character
import SqlSelect.Config.KeyPath
import SqlSelect.Config.QuotedText

/-!
# Tokens of a Configuration Document

A document is scanned one character at a time.  Blanks and comments end a token and leave none of
their own.  A comment that starts with a third slash leaves a token, but its text does not.

## Main definitions

- `Token` — the tokens
- `DocumentError` — what makes a document malformed
- `Scan` — what the scanner is in the middle of
- `Scan.step`, `Scan.finish` — one more character, and the end of the text
- `Token.scan` — the tokens of a text
-/

namespace SqlSelect

/-- What a document is made of. -/
inductive Token where
  | word (s : String)
  /-- A text between quotes, and what it is told apart by. -/
  | quoted (text identity : String)
  /-- An at sign and the name after it, which may be empty. -/
  | tag (name : String)
  /-- A bare word and a greater-than sign, which a value follows. -/
  | attributeKey (key : String)
  | openBrace
  | closeBrace
  | openParenthesis
  | closeParenthesis
  | comma
  | lineEnd
  | description
  deriving DecidableEq

/-- What makes a document malformed. -/
inductive DocumentError where
  /-- A quoted text or a parenthesis is still open at the end. -/
  | unterminated
  /-- A carriage return without a line feed, or a character that no token starts with. -/
  | badCharacter (c : Char)
  /-- An escape in a quoted text means nothing because of this character. -/
  | badEscape (c : Char)
  /-- An escape in a quoted text has a code that is no character's. -/
  | badCode (code : Nat)
  /-- A closing parenthesis without an opening one, or a parenthesis around something. -/
  | badParenthesis
  /-- A bare word runs into an opening brace or parenthesis. -/
  | touchesOpening (word : String)
  | keyExpected
  | twoValues (keys : List String)
  | emptyKeyPart (key : String)
  /-- No value follows the key of an attribute. -/
  | valueExpected (key : String)
  /-- An entry of these keys cannot follow those before it. -/
  | refused (keys : List String) (why : Refusal)
  /-- No entry follows a comment that describes one. -/
  | nothingDescribed
  | unclosedBrace
  | surplusBrace
  deriving DecidableEq

/-! ## The scanner -/

/-- What the scanner is in the middle of, with the characters and digits read so far, the last one
first. -/
inductive Scan where
  | between
  | carriageReturn
  /-- After a slash that starts a comment or a word. -/
  | slash
  /-- After two slashes, which a third may follow. -/
  | slashes
  | comment
  /-- After a less-than sign that starts a word; no word starts with two. -/
  | lessThan
  | word (read : List Char)
  /-- After the greater-than sign of an attribute, whose value has to start at once. -/
  | attributeKey (key : String)
  | tag (read : List Char)
  | quoted (read : QuotedText)
  | escape (read : QuotedText)
  /-- In a code of four hexadecimal digits, or before the brace of a longer one. -/
  | code (read : QuotedText) (digits : List Nat)
  /-- In a code between braces. -/
  | bracedCode (read : QuotedText) (digits : List Nat)
  /-- Before the quote of a raw text, after a letter and as many number signs. -/
  | rawStart (signs : Nat)
  /-- In a raw text, which a quote and as many number signs end. -/
  | raw (signs : Nat) (read : List Char)
  /-- In a raw text, after a quote and as many number signs as have been seen. -/
  | rawEnd (signs : Nat) (read : List Char) (seen : Nat)
  deriving DecidableEq

namespace Scan

/-- A character between two tokens. -/
def begin (c : Char) : Except DocumentError (List Token × Scan) :=
  if isBlank c then .ok ([], between)
  else
    match c with
    | '\n' => .ok ([.lineEnd], between)
    | '\r' => .ok ([], carriageReturn)
    | ',' => .ok ([.comma], between)
    | '\x7b' => .ok ([.openBrace], between)
    | '\x7d' => .ok ([.closeBrace], between)
    | '(' => .ok ([.openParenthesis], between)
    | ')' => .ok ([.closeParenthesis], between)
    | '\x22' => .ok ([], quoted {})
    | '@' => .ok ([], tag [])
    | '/' => .ok ([], slash)
    | '<' => .ok ([], lessThan)
    | c => if isWordStart c then .ok ([], word [c]) else .error (.badCharacter c)

/-- A character after a token that ends there. -/
def beginAfter (token : Token) (c : Char) : Except DocumentError (List Token × Scan) := do
  let (tokens, next) ← begin c
  return (token :: tokens, next)

/-- A character after the characters of a word.  The word of the one letter that raw texts start
with can turn out to be the start of one. -/
def continueWord (read : List Char) (c : Char) : Except DocumentError (List Token × Scan) :=
  if read = ['r'] ∧ c = '#' then .ok ([], rawStart 1)
  else if read = ['r'] ∧ c = '\x22' then .ok ([], raw 0 [])
  else if isWordChar c then .ok ([], word (c :: read))
  else if c = '>' then .ok ([.attributeKey (textOfReverse read)], attributeKey (textOfReverse read))
  else if c = '\x7b' ∨ c = '(' then .error (.touchesOpening (textOfReverse read))
  else beginAfter (.word (textOfReverse read)) c

/-- A character after an at sign and the characters of a name. -/
def continueTag (read : List Char) (c : Char) : Except DocumentError (List Token × Scan) :=
  if continuesName read c then .ok ([], tag (c :: read))
  else beginAfter (.tag (textOfReverse read)) c

def continueComment (c : Char) : List Token × Scan :=
  if c = '\n' then ([.lineEnd], between)
  else if c = '\r' then ([], carriageReturn)
  else ([], comment)

def continueQuoted (q : QuotedText) (c : Char) : List Token × Scan :=
  if c = '\x22' then ([.quoted q.text q.identity], between)
  else if c = '\\' then ([], escape (q.read c))
  else ([], quoted ((q.read c).say c))

/-- A character after a backslash in a quoted text. -/
def continueEscape (q : QuotedText) (c : Char) : Except DocumentError (List Token × Scan) :=
  if c = 'u' then .ok ([], code (q.read c) [])
  else
    match unescape? c with
    | some d => .ok ([], quoted ((q.read c).say d))
    | none => .error (.badEscape c)

/-- The end of a code with these digits. -/
def endCode (q : QuotedText) (digits : List Nat) : Except DocumentError (List Token × Scan) :=
  match q.addCode? digits with
  | some q' => .ok ([], quoted q')
  | none => .error (.badCode (hexValue digits))

/-- A character after the digits of a code, which ends with the fourth digit, and as a void code
after the third. -/
def continueCode (q : QuotedText) (digits : List Nat) (c : Char) :
    Except DocumentError (List Token × Scan) :=
  if digits = [] ∧ c = '\x7b' then .ok ([], bracedCode (q.read c) [])
  else
    match hexDigit? c with
    | some d =>
      if digits.length < 3 then .ok ([], code (q.read c) (d :: digits))
      else endCode (q.read c) (d :: digits)
    | none =>
      if digits.length = 3 then .ok (continueQuoted q.voided c) else .error (.badEscape c)

/-- A character after the digits of a code between braces. -/
def continueBracedCode (q : QuotedText) (digits : List Nat) (c : Char) :
    Except DocumentError (List Token × Scan) :=
  if c = '\x7d' then endCode (q.read c) digits
  else
    match hexDigit? c with
    | some d => .ok ([], bracedCode (q.read c) (d :: digits))
    | none => .error (.badEscape c)

def rawToken (read : List Char) : Token := .quoted (textOfReverse read) (textOfReverse read)

/-- A character before the quote of a raw text. -/
def continueRawStart (signs : Nat) (c : Char) : Except DocumentError (List Token × Scan) :=
  if c = '#' then .ok ([], rawStart (signs + 1))
  else if c = '\x22' then .ok ([], raw signs [])
  else .error (.badCharacter c)

def continueRaw (signs : Nat) (read : List Char) (c : Char) : List Token × Scan :=
  if c = '\x22' then
    if signs = 0 then ([rawToken read], between) else ([], rawEnd signs read 0)
  else ([], raw signs (c :: read))

/-- A character of a raw text, after a quote that may end it. -/
def continueRawEnd (signs : Nat) (read : List Char) (seen : Nat) (c : Char) : List Token × Scan :=
  if c = '#' then
    if seen + 1 = signs then ([rawToken read], between) else ([], rawEnd signs read (seen + 1))
  else continueRaw signs (List.replicate seen '#' ++ '\x22' :: read) c

/-- A character after the greater-than sign of an attribute. -/
def continueAttribute (key : String) (c : Char) : Except DocumentError (List Token × Scan) :=
  if isWhiteSpace c then .error (.valueExpected key) else begin c

/-- One more character: the tokens that it completes, and what the scanner is in then. -/
def step : Scan → Char → Except DocumentError (List Token × Scan)
  | between, c => begin c
  | carriageReturn, c =>
    if c = '\n' then .ok ([.lineEnd], between) else .error (.badCharacter '\r')
  | slash, c => if c = '/' then .ok ([], slashes) else continueWord ['/'] c
  | slashes, c => .ok (if c = '/' then ([.description], comment) else continueComment c)
  | comment, c => .ok (continueComment c)
  | lessThan, c => if c = '<' then .error (.badCharacter '<') else continueWord ['<'] c
  | word read, c => continueWord read c
  | attributeKey key, c => continueAttribute key c
  | tag read, c => continueTag read c
  | quoted read, c => .ok (continueQuoted read c)
  | escape read, c => continueEscape read c
  | code read digits, c => continueCode read digits c
  | bracedCode read digits, c => continueBracedCode read digits c
  | rawStart signs, c => continueRawStart signs c
  | raw signs read, c => .ok (continueRaw signs read c)
  | rawEnd signs read seen, c => .ok (continueRawEnd signs read seen c)

def finish : Scan → Except DocumentError (List Token)
  | between => .ok []
  | carriageReturn => .error (.badCharacter '\r')
  | slash => .ok [.word "/"]
  | slashes => .ok []
  | comment => .ok []
  | lessThan => .ok [.word "<"]
  | word read => .ok [.word (textOfReverse read)]
  | attributeKey key => .error (.valueExpected key)
  | tag read => .ok [.tag (textOfReverse read)]
  | quoted _ => .error .unterminated
  | escape _ => .error .unterminated
  | code _ _ => .error .unterminated
  | bracedCode _ _ => .error .unterminated
  | rawStart _ => .error .unterminated
  | raw _ _ => .error .unterminated
  | rawEnd _ _ _ => .error .unterminated

def tokens : Scan → List Char → Except DocumentError (List Token)
  | s, [] => s.finish
  | s, c :: cs => do
    let (found, next) ← s.step c
    return found ++ (← tokens next cs)

end Scan

def Token.scan (text : String) : Except DocumentError (List Token) :=
  Scan.between.tokens text.toList

end SqlSelect
