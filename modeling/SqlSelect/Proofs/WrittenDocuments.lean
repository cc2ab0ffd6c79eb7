import Mathlib.Data.List.Basic
import SqlSelect.Config.Document

/-!
# Written Documents

One document can be written in many ways: with bare or quoted keys and texts, with blanks between them
and comments behind them, with commas or line breaks between its entries.  A written document is the
document with all of this, and what is scanned of its text is the token of each of its parts.

No word has to be told where it ends: it fits before what comes next if that cannot continue it.

## Main definitions

- `Spacer` — what stands between entries
- `WrittenText`, `TagName` — keys, texts and tags
- `WrittenEntries`, `WrittenValue` — entries and their values
- `WrittenEntries.fits` — every word ends where it has to

## Main statements

- `Spacer.scan_chars`, `WrittenText.scan_chars`, `TagName.scan_chars` — the tokens of a part
- `WrittenEntries.scan_chars` — the tokens of entries
-/

namespace SqlSelect

/-! ## §1 What is written -/

inductive Blank where
  | space
  | tab
  deriving DecidableEq

inductive LineBreak where
  | lineFeed
  | carriageReturnLineFeed
  deriving DecidableEq

/-- The text of a comment after its two slashes, without the line break. -/
structure CommentText where
  chars : List Char
  no_slash : chars.head? ≠ some '/'
  no_lineFeed : '\n' ∉ chars
  no_carriageReturn : '\r' ∉ chars

/-- What stands between entries. -/
inductive Spacer where
  | blank (b : Blank)
  | comma
  | lineBreak (b : LineBreak)
  | comment (text : CommentText) (b : LineBreak)

/-- Whether characters are a word that nothing else starts with. -/
def isBareWord : List Char → Bool
  | [] => false
  | c :: cs => isWordStart c && c != '@' && cs.all isWordChar &&
      !([['/', '/'], ['<', '<'], ['r', '#']].contains ((c :: cs).take 2))

structure BareWord where
  chars : List Char
  isBare : isBareWord chars = true

/-- A character between quotes, as it is written. -/
inductive QuotedChar where
  | plain (c : Char) (no_quote : c ≠ '\x22') (no_escape : c ≠ '\\')
  /-- A backslash and a letter, and what they stand for. -/
  | escaped (letter c : Char) (stands : unescape? letter = some c)

/-- A key or a text. -/
inductive WrittenText where
  | bare (w : BareWord)
  | quoted (cs : List QuotedChar)

/-- Whether characters are the name of a tag, which may be empty. -/
def isTagName : List Char → Bool
  | [] => true
  | c :: cs => continuesName [] c && cs.all (continuesName [c])

structure TagName where
  chars : List Char
  isName : isTagName chars = true

mutual

/-- A value, which may be left out. -/
inductive WrittenValue where
  | nothing
  | text (t : WrittenText)
  | tag (name : TagName)
  | emptySequence (inside : List Spacer)
  | object (lead : List Spacer) (entries : WrittenEntries)

/-- Entries: a key, the blanks after it, its value, and what stands before the next entry. -/
inductive WrittenEntries where
  | nil
  | cons (key : WrittenText) (blanks : List Blank) (value : WrittenValue) (gap : List Spacer)
    (others : WrittenEntries)

end

/-- A document, which may end with a comment that no line break ends. -/
structure WrittenDocument where
  lead : List Spacer := []
  entries : WrittenEntries
  trailing : Option CommentText := none

/-! ## §2 Characters and tokens -/

namespace Blank

def char : Blank → Char
  | space => ' '
  | tab => '\t'

end Blank

def LineBreak.chars : LineBreak → List Char
  | lineFeed => ['\n']
  | carriageReturnLineFeed => ['\r', '\n']

namespace Spacer

def chars : Spacer → List Char
  | blank b => [b.char]
  | comma => [',']
  | lineBreak b => b.chars
  | comment text b => ['/', '/'] ++ text.chars ++ b.chars

def tokens : Spacer → List Token
  | blank _ => []
  | comma => [.comma]
  | lineBreak _ => [.lineEnd]
  | comment _ _ => [.lineEnd]

/-- Whether an entry ends here. -/
def separates (s : Spacer) : Bool := !s.tokens.isEmpty

def isComma : Spacer → Bool
  | comma => true
  | _ => false

end Spacer

namespace BareWord

def text (w : BareWord) : String := String.ofList w.chars

/-- Whether nothing that comes next continues the word or turns it into something else. -/
def endsBefore (w : BareWord) : List Char → Bool
  | [] => true
  | c :: _ => !isWordChar c && !(['>', '\x7b', '('].contains c) && !(w.chars == ['r'] && c == '\x22')

end BareWord

namespace QuotedChar

def chars : QuotedChar → List Char
  | plain c _ _ => [c]
  | escaped letter _ _ => ['\\', letter]

/-- What the character says. -/
def said : QuotedChar → Char
  | plain c _ _ => c
  | escaped _ c _ => c

end QuotedChar

namespace WrittenText

def chars : WrittenText → List Char
  | bare w => w.chars
  | quoted cs => '\x22' :: cs.flatMap QuotedChar.chars ++ ['\x22']

/-- What the text says. -/
def text : WrittenText → String
  | bare w => w.text
  | quoted cs => String.ofList (cs.map QuotedChar.said)

def token : WrittenText → Token
  | bare w => .word w.text
  | quoted cs => .quoted (quoted cs).text (quoted cs).text

def endsBefore : WrittenText → List Char → Bool
  | bare w => w.endsBefore
  | quoted _ => fun _ => true

end WrittenText

namespace TagName

def text (t : TagName) : String := String.ofList t.chars

def endsBefore (t : TagName) : List Char → Bool
  | [] => true
  | c :: _ => !continuesName t.chars c

end TagName

mutual

def WrittenValue.chars : WrittenValue → List Char
  | .nothing => []
  | .text t => t.chars
  | .tag name => '@' :: name.chars
  | .emptySequence inside => '(' :: inside.flatMap Spacer.chars ++ [')']
  | .object lead entries => '\x7b' :: lead.flatMap Spacer.chars ++ entries.chars ++ ['\x7d']

def WrittenEntries.chars : WrittenEntries → List Char
  | .nil => []
  | .cons key blanks value gap others =>
    key.chars ++ blanks.map Blank.char ++ value.chars ++ gap.flatMap Spacer.chars ++ others.chars

end

mutual

def WrittenValue.tokens : WrittenValue → List Token
  | .nothing => []
  | .text t => [t.token]
  | .tag name => [.tag name.text]
  | .emptySequence inside => .openParenthesis :: inside.flatMap Spacer.tokens ++ [.closeParenthesis]
  | .object lead entries =>
    .openBrace :: lead.flatMap Spacer.tokens ++ entries.tokens ++ [.closeBrace]

def WrittenEntries.tokens : WrittenEntries → List Token
  | .nil => []
  | .cons key _ value gap others =>
    key.token :: value.tokens ++ gap.flatMap Spacer.tokens ++ others.tokens

end

def WrittenEntries.isNil : WrittenEntries → Bool
  | nil => true
  | cons .. => false

mutual

/-- Whether every word in a value ends where it has to, before what comes after the value. -/
def WrittenValue.fits (next : List Char) : WrittenValue → Bool
  | .nothing => true
  | .text t => t.endsBefore next
  | .tag name => name.endsBefore next
  | .emptySequence inside => inside.all (!Spacer.isComma ·)
  | .object _ entries => entries.fits ('\x7d' :: next)

/-- Whether every word in entries ends where it has to, and every entry before the next one. -/
def WrittenEntries.fits (next : List Char) : WrittenEntries → Bool
  | .nil => true
  | .cons key blanks value gap others =>
    let after := gap.flatMap Spacer.chars ++ others.chars ++ next
    key.endsBefore (blanks.map Blank.char ++ value.chars ++ after) && value.fits after &&
      (others.isNil || gap.any Spacer.separates) && others.fits next

end

namespace WrittenDocument

def trailingChars (d : WrittenDocument) : List Char :=
  match d.trailing with
  | none => []
  | some text => '/' :: '/' :: text.chars

/-- Whether every word ends where it has to, and every entry before the next one. -/
def fits (d : WrittenDocument) : Bool := d.entries.fits d.trailingChars

end WrittenDocument

/-! ## §3 Scanning -/

namespace Scan

/-- Tokens before those of the rest, if it has any. -/
def emit (ts : List Token) (rest : Except DocumentError (List Token)) :
    Except DocumentError (List Token) :=
  (ts ++ ·) <$> rest

@[simp]
theorem emit_nil (rest : Except DocumentError (List Token)) : emit [] rest = rest := by
  cases rest <;> rfl

@[simp]
theorem emit_emit (ts us : List Token) (rest : Except DocumentError (List Token)) :
    emit ts (emit us rest) = emit (ts ++ us) rest := by
  cases rest with
  | ok vs => exact congrArg Except.ok (List.append_assoc ts us vs).symm
  | error e => rfl

theorem tokens_of_step {s next : Scan} {c : Char} {found : List Token}
    (h : s.step c = .ok (found, next)) (cs : List Char) :
    s.tokens (c :: cs) = emit found (next.tokens cs) := by
  rw [tokens, h]
  exact (map_eq_pure_bind (found ++ ·) (next.tokens cs)).symm

/-- A token that ends before a character that begins the next one. -/
theorem tokens_of_beginAfter {s : Scan} {c : Char} {t : Token} (h : s.step c = beginAfter t c)
    (cs : List Char) : s.tokens (c :: cs) = emit [t] (between.tokens (c :: cs)) := by
  have hstep : step between c = begin c := rfl
  rw [tokens, h, tokens, hstep, beginAfter]
  -- The character may be refused, in both readings alike.
  rcases begin c with _ | ⟨found, next⟩
  · rfl
  · show (next.tokens cs >>= fun ts => pure (t :: found ++ ts)) =
      emit [t] (next.tokens cs >>= fun ts => pure (found ++ ts))
    cases next.tokens cs <;> rfl

/-- What the scanner is in the middle of counts for the next character only. -/
theorem tokens_congr {s s' : Scan} {cs : List Char} (hfinish : s.finish = s'.finish)
    (hstep : ∀ c ∈ cs.head?, s.step c = s'.step c) : s.tokens cs = s'.tokens cs := by
  cases cs with
  | nil => exact hfinish
  | cons c cs => rw [tokens, tokens, hstep c rfl]

/-! ### Blanks and comments -/

theorem tokens_blank (b : Blank) (cs : List Char) :
    between.tokens (b.char :: cs) = between.tokens cs := by
  have hstep : between.step b.char = .ok ([], between) := by cases b <;> rfl
  rw [tokens_of_step hstep, emit_nil]

theorem tokens_blanks (bs : List Blank) (cs : List Char) :
    between.tokens (bs.map Blank.char ++ cs) = between.tokens cs := by
  induction bs with
  | nil => rfl
  | cons b bs ih => rw [List.map_cons, List.cons_append, tokens_blank, ih]

/-- A line break ends a line, and a comment on it. -/
theorem tokens_lineBreak (b : LineBreak) (cs : List Char) {s : Scan} (h : s = between ∨ s = comment) :
    s.tokens (b.chars ++ cs) = emit [.lineEnd] (between.tokens cs) := by
  have hfeed : s.step '\n' = .ok ([.lineEnd], between) := by rcases h with rfl | rfl <;> rfl
  have hreturn : s.step '\r' = .ok ([], carriageReturn) := by rcases h with rfl | rfl <;> rfl
  have hreturned : carriageReturn.step '\n' = .ok ([.lineEnd], between) := rfl
  cases b with
  | lineFeed => exact tokens_of_step hfeed cs
  | carriageReturnLineFeed =>
    exact (tokens_of_step hreturn _).trans ((emit_nil _).trans (tokens_of_step hreturned cs))

theorem step_comment {c : Char} (hfeed : c ≠ '\n') (hreturn : c ≠ '\r') :
    comment.step c = .ok ([], comment) := by
  simp [step, continueComment, hfeed, hreturn]

/-- The text of a comment does not count. -/
theorem tokens_comment {text : List Char} (hfeed : '\n' ∉ text) (hreturn : '\r' ∉ text)
    (cs : List Char) : comment.tokens (text ++ cs) = comment.tokens cs := by
  induction text with
  | nil => rfl
  | cons c text ih =>
    -- Neither the first character nor a later one ends the comment.
    rw [List.mem_cons, not_or] at hfeed hreturn
    have hstep := step_comment (Ne.symm hfeed.1) (Ne.symm hreturn.1)
    rw [List.cons_append, tokens_of_step hstep, emit_nil, ih hfeed.2 hreturn.2]

/-- Two slashes and the text after them are a comment that the rest goes on with. -/
theorem tokens_commentText (text : CommentText) {cs : List Char} (h : cs.head? ≠ some '/') :
    between.tokens ('/' :: '/' :: (text.chars ++ cs)) = comment.tokens cs := by
  obtain ⟨chars, hslash, hfeed, hreturn⟩ := text
  have hfirst : between.step '/' = .ok ([], slash) := rfl
  have hsecond : slash.step '/' = .ok ([], slashes) := rfl
  -- Behind two slashes anything but a third one goes on as a comment does.
  have hthird : ∀ c ∈ (chars ++ cs).head?, slashes.step c = comment.step c := by
    intro c hc
    have hne : c ≠ '/' := by
      rintro rfl
      cases chars with
      | nil => exact h hc
      | cons d chars => exact hslash (by simpa using hc)
    simp [step, hne]
  have hend : slashes.finish = comment.finish := rfl
  rw [tokens_of_step hfirst, emit_nil, tokens_of_step hsecond, emit_nil, tokens_congr hend hthird,
    tokens_comment hfeed hreturn]

end Scan

/-- What stands between entries is scanned as its tokens. -/
theorem Spacer.scan_chars (s : Spacer) (cs : List Char) :
    Scan.between.tokens (s.chars ++ cs) = Scan.emit s.tokens (Scan.between.tokens cs) := by
  cases s with
  | blank b => exact (Scan.tokens_blank b cs).trans (Scan.emit_nil _).symm
  | comma => exact Scan.tokens_of_step rfl cs
  | lineBreak b => exact Scan.tokens_lineBreak b cs (.inl rfl)
  | comment text b =>
    -- The line break ends the comment, and is not another slash.
    have hbreak : (b.chars ++ cs).head? ≠ some '/' := by cases b <;> simp [LineBreak.chars]
    rw [chars, List.append_assoc, List.append_assoc]
    exact (Scan.tokens_commentText text hbreak).trans (Scan.tokens_lineBreak b cs (.inr rfl))

/-- So are any number of spacers. -/
theorem Spacer.scan_all (spacers : List Spacer) (cs : List Char) :
    Scan.between.tokens (spacers.flatMap chars ++ cs) =
      Scan.emit (spacers.flatMap tokens) (Scan.between.tokens cs) := by
  induction spacers with
  | nil => exact (Scan.emit_nil _).symm
  | cons s spacers ih =>
    rw [List.flatMap_cons, List.flatMap_cons, List.append_assoc, Spacer.scan_chars, ih,
      Scan.emit_emit]

namespace Scan

/-! ### Words -/

/-- A character that starts a bare word, apart from those that may start something else. -/
theorem begin_of_isWordStart {c : Char} (h : isWordStart c = true) (hat : c ≠ '@') (hslash : c ≠ '/')
    (hless : c ≠ '<') : begin c = .ok ([], word [c]) := by
  have hblank : isBlank c = false := by
    rw [Bool.eq_false_iff]
    intro hb
    rcases Bool.or_eq_true_iff.mp hb with hc | hc <;> (rw [beq_iff_eq.mp hc] at h; revert h; decide)
  unfold begin
  rw [hblank, if_neg Bool.false_ne_true]
  -- The other characters that begin a token are in no word.
  split
  case h_12 => rw [if_pos h]
  all_goals contradiction

/-- A character before which a bare word ends. -/
structure EndsWord (chars : List Char) (c : Char) : Prop where
  not_word : isWordChar c = false
  not_key : c ≠ '>'
  not_brace : c ≠ '\x7b'
  not_parenthesis : c ≠ '('
  not_raw : ¬ (chars = ['r'] ∧ c = '\x22')

/-- A word ends at the end of the text, and before a character that does not continue it. -/
theorem tokens_word_end {read next : List Char} (h : ∀ c ∈ next.head?, EndsWord read.reverse c) :
    (word read).tokens next = emit [.word (textOfReverse read)] (between.tokens next) := by
  cases next with
  | nil => rfl
  | cons c next =>
    obtain ⟨hword, hkey, hbrace, hparenthesis, hquote⟩ := h c rfl
    have hraw : ¬ (read = ['r'] ∧ c = '\x22') := fun ⟨hread, hc⟩ => hquote ⟨by simp [hread], hc⟩
    have hsign : ¬ (read = ['r'] ∧ c = '#') := by
      rintro ⟨-, rfl⟩
      contradiction
    -- None of the readings that go on with a word takes this character.
    have hstep : (word read).step c = beginAfter (.word (textOfReverse read)) c := by
      simp [step, continueWord, hsign, hraw, hword, hkey, hbrace, hparenthesis]
    exact tokens_of_beginAfter hstep next

/-- A word goes on with every character of words, unless it turns into a raw text. -/
theorem step_word {read : List Char} {c : Char} (h : isWordChar c = true)
    (hraw : ¬ (read = ['r'] ∧ c = '#')) : (word read).step c = .ok ([], word (c :: read)) := by
  have hquote : ¬ (read = ['r'] ∧ c = '\x22') := by
    rintro ⟨-, rfl⟩
    contradiction
  simp [step, continueWord, hraw, hquote, h]

/-- A bare word is scanned up to where it ends. -/
theorem tokens_word {read cs next : List Char} (hword : ∀ c ∈ cs, isWordChar c = true)
    (hraw : (read.reverse ++ cs).take 2 ≠ ['r', '#'])
    (hend : ∀ c ∈ next.head?, EndsWord (read.reverse ++ cs) c) :
    (word read).tokens (cs ++ next) =
      emit [.word (String.ofList (read.reverse ++ cs))] (between.tokens next) := by
  -- What has been read and what is left are the same word all along.
  induction cs generalizing read with
  | nil =>
    rw [List.append_nil] at hend ⊢
    exact tokens_word_end hend
  | cons c cs ih =>
    have hsign : ¬ (read = ['r'] ∧ c = '#') := by
      rintro ⟨rfl, rfl⟩
      exact hraw rfl
    have hread : (c :: read).reverse ++ cs = read.reverse ++ c :: cs := by simp
    rw [← hread] at hraw hend ⊢
    rw [List.cons_append, tokens_of_step (step_word (hword c List.mem_cons_self) hsign), emit_nil]
    exact ih (fun d hd => hword d (List.mem_cons_of_mem c hd)) hraw hend

/-- A character that means something else if it is doubled, and starts a word otherwise. -/
theorem tokens_not_doubled {d : Char} {s : Scan} {cs : List Char}
    (hbegin : between.step d = .ok ([], s)) (hfinish : s.finish = (word [d]).finish)
    (hstep : ∀ c, c ≠ d → s.step c = (word [d]).step c) (h : cs.head? ≠ some d) :
    between.tokens (d :: cs) = (word [d]).tokens cs := by
  have hnext : ∀ c ∈ cs.head?, s.step c = (word [d]).step c := by
    intro c hc
    apply hstep
    rintro rfl
    exact h hc
  rw [tokens_of_step hbegin, emit_nil, tokens_congr hfinish hnext]

/-- A word begins with its first character, if this one starts nothing else. -/
theorem tokens_begin_word {c : Char} {cs : List Char} (h : isWordStart c = true) (hat : c ≠ '@')
    (hslash : c = '/' → cs.head? ≠ some '/') (hless : c = '<' → cs.head? ≠ some '<') :
    between.tokens (c :: cs) = (word [c]).tokens cs := by
  -- A slash and a less-than sign wait for the next character to decide.
  by_cases hc : c = '/'
  · subst hc
    have hstep : ∀ c, c ≠ '/' → slash.step c = (word ['/']).step c := fun c hc => by
      simp [step, hc]
    exact tokens_not_doubled rfl rfl hstep (hslash rfl)
  · by_cases hc' : c = '<'
    · subst hc'
      have hstep : ∀ c, c ≠ '<' → lessThan.step c = (word ['<']).step c := fun c hc => by
        simp [step, hc]
      exact tokens_not_doubled rfl rfl hstep (hless rfl)
    · have hstep : between.step c = .ok ([], word [c]) := begin_of_isWordStart h hat hc hc'
      rw [tokens_of_step hstep, emit_nil]

end Scan

/-- A word that fits before the text behind it ends there. -/
theorem BareWord.endsWord {w : BareWord} {next : List Char} (h : w.endsBefore next = true) :
    ∀ c ∈ next.head?, Scan.EndsWord w.chars c := by
  intro c hc
  cases next with
  | nil => cases hc
  | cons d next =>
    obtain rfl : d = c := by simpa using hc
    simp only [endsBefore, Bool.and_eq_true, Bool.not_eq_true', List.contains_cons,
      List.contains_nil, Bool.or_false, Bool.or_eq_false_iff, beq_eq_false_iff_ne] at h
    obtain ⟨⟨hword, hkey, hbrace, hparenthesis⟩, hraw⟩ := h
    refine ⟨hword, hkey, hbrace, hparenthesis, ?_⟩
    rintro ⟨hchars, rfl⟩
    simp [hchars] at hraw

/-- A bare word starts as a word, goes on as one, and begins with nothing that starts something
else. -/
theorem isBareWord_cons {c : Char} {cs : List Char} (h : isBareWord (c :: cs) = true) :
    isWordStart c = true ∧ c ≠ '@' ∧ (∀ d ∈ cs, isWordChar d = true) ∧
      ∀ start ∈ [['/', '/'], ['<', '<'], ['r', '#']], (c :: cs).take 2 ≠ start := by
  simp only [isBareWord, Bool.and_eq_true, bne_iff_ne, List.all_eq_true, Bool.not_eq_true'] at h
  obtain ⟨⟨⟨hstart, hat⟩, hword⟩, hnone⟩ := h
  refine ⟨hstart, hat, hword, fun start hmem htake => ?_⟩
  rw [htake, List.contains_iff_mem.mpr hmem] at hnone
  cases hnone

/-- A bare word is scanned as one token, in front of anything that it fits before. -/
theorem BareWord.scan_chars (w : BareWord) {next : List Char} (h : w.endsBefore next = true) :
    Scan.between.tokens (w.chars ++ next) = Scan.emit [.word w.text] (Scan.between.tokens next) := by
  have hend := endsWord h
  obtain ⟨_ | ⟨c, cs⟩, hbare⟩ := w
  · cases hbare
  · obtain ⟨hstart, hat, hword, hother⟩ := isBareWord_cons hbare
    -- The second character of a word of one character is that after it.
    have hhead : ∀ d, isWordChar d = true → (c :: cs).take 2 ≠ [d, d] → c = d →
        (cs ++ next).head? ≠ some d := by
      rintro d hd htake rfl hhead
      cases cs with
      | nil => exact absurd hd (by simp [(hend c hhead).not_word])
      | cons e cs =>
        obtain rfl : e = c := by simpa using hhead
        exact htake rfl
    have hslash := hhead '/' (by decide) (hother _ (by simp))
    have hless := hhead '<' (by decide) (hother _ (by simp))
    have hraw : ([c].reverse ++ cs).take 2 ≠ ['r', '#'] := hother _ (by simp)
    exact (Scan.tokens_begin_word hstart hat hslash hless).trans (Scan.tokens_word hword hraw hend)

/-! ### Texts between quotes and tags -/

namespace Scan

/-- A character between quotes adds what it says, escaped or not. -/
theorem tokens_quotedChar (c : QuotedChar) (q : QuotedText) (cs : List Char) :
    ∃ written, (quoted q).tokens (c.chars ++ cs) =
      (quoted { q with said := c.said :: q.said, written := written }).tokens cs := by
  cases c with
  | plain c hquote hescape =>
    have hstep : (quoted q).step c = .ok ([], quoted ((q.read c).say c)) := by
      simp [step, continueQuoted, hquote, hescape]
    exact ⟨_, (tokens_of_step hstep cs).trans (emit_nil _)⟩
  | escaped letter c hstands =>
    -- A code point has its own escape, which is not among these characters.
    have hcode : letter ≠ 'u' := by
      rintro rfl
      cases hstands
    have hstep : (quoted q).step '\\' = .ok ([], escape (q.read '\\')) := rfl
    have hletter : (escape (q.read '\\')).step letter =
        .ok ([], quoted (((q.read '\\').read letter).say c)) := by
      simp [step, continueEscape, hcode, hstands]
    exact ⟨_, (tokens_of_step hstep _).trans ((emit_nil _).trans
      ((tokens_of_step hletter cs).trans (emit_nil _)))⟩

/-- A text without codes is told apart by what it says. -/
theorem tokens_quoted (q : QuotedText) (hvoid : q.hasVoid = false) (text : List QuotedChar)
    (cs : List Char) :
    (quoted q).tokens (text.flatMap QuotedChar.chars ++ '\x22' :: cs) =
      emit [.quoted (String.ofList (q.said.reverse ++ text.map QuotedChar.said))
        (String.ofList (q.said.reverse ++ text.map QuotedChar.said))] (between.tokens cs) := by
  induction text generalizing q with
  | nil =>
    have hstep : (quoted q).step '\x22' = .ok ([.quoted q.text q.identity], between) := rfl
    rw [List.flatMap_nil, List.nil_append, tokens_of_step hstep, QuotedText.identity, hvoid]
    simp [QuotedText.text, textOfReverse]
  | cons c text ih =>
    -- How the text has been written does not count, since no code is void.
    obtain ⟨written, hc⟩ := tokens_quotedChar c q (text.flatMap QuotedChar.chars ++ '\x22' :: cs)
    rw [List.flatMap_cons, List.append_assoc, hc, ih ⟨c.said :: q.said, written, q.hasVoid⟩ hvoid]
    simp

/-- A tag ends at a character that no name goes on with. -/
theorem tokens_tag_end {read next : List Char} (h : ∀ c ∈ next.head?, continuesName read c = false) :
    (tag read).tokens next = emit [.tag (textOfReverse read)] (between.tokens next) := by
  cases next with
  | nil => rfl
  | cons c next =>
    have hstep : (tag read).step c = beginAfter (.tag (textOfReverse read)) c := by
      simp [step, continueTag, h c rfl]
    exact tokens_of_beginAfter hstep next

/-- A tag goes on with every character that its name does. -/
theorem step_tag {read : List Char} {c : Char} (h : continuesName read c = true) :
    (tag read).step c = .ok ([], tag (c :: read)) := by
  simp [step, continueTag, h]

end Scan

/-- A key or a text is scanned as its token. -/
theorem WrittenText.scan_chars (t : WrittenText) {next : List Char} (h : t.endsBefore next = true) :
    Scan.between.tokens (t.chars ++ next) = Scan.emit [t.token] (Scan.between.tokens next) := by
  cases t with
  | bare w => exact w.scan_chars h
  | quoted cs =>
    have hstep : Scan.between.step '\x22' = .ok ([], .quoted {}) := rfl
    simp only [chars, List.cons_append, List.append_assoc, List.nil_append]
    rw [Scan.tokens_of_step hstep, Scan.emit_nil, Scan.tokens_quoted {} rfl]
    rfl

/-- After its first character a name goes on in one way. -/
theorem Scan.tokens_tag {first : Char} {read cs next : List Char}
    (hname : ∀ c ∈ cs, continuesName [first] c = true)
    (hend : ∀ c ∈ next.head?, continuesName [first] c = false) :
    (tag (first :: read)).tokens (cs ++ next) =
      emit [.tag (String.ofList ((first :: read).reverse ++ cs))] (between.tokens next) := by
  induction cs generalizing first read with
  | nil =>
    rw [List.append_nil]
    exact tokens_tag_end hend
  | cons c cs ih =>
    have hstep : (tag (first :: read)).step c = .ok ([], tag (c :: first :: read)) :=
      step_tag (hname c List.mem_cons_self)
    have hread : (c :: first :: read).reverse ++ cs = (first :: read).reverse ++ c :: cs := by simp
    rw [List.cons_append, tokens_of_step hstep, emit_nil, ← hread]
    exact ih (fun d hd => hname d (List.mem_cons_of_mem c hd)) hend

/-- A tag is scanned as one token with its name. -/
theorem TagName.scan_chars (t : TagName) {next : List Char} (h : t.endsBefore next = true) :
    Scan.between.tokens ('@' :: (t.chars ++ next)) =
      Scan.emit [.tag t.text] (Scan.between.tokens next) := by
  have hstep : Scan.between.step '@' = .ok ([], .tag []) := rfl
  have hend : ∀ c ∈ next.head?, continuesName t.chars c = false := by
    intro c hc
    cases next with
    | nil => cases hc
    | cons d next =>
      obtain rfl : d = c := by simpa using hc
      simpa [endsBefore] using h
  rw [Scan.tokens_of_step hstep, Scan.emit_nil]
  -- A tag may have no name; otherwise its first character decides how the name goes on.
  obtain ⟨_ | ⟨first, cs⟩, hname⟩ := t
  · exact Scan.tokens_tag_end hend
  · simp only [isTagName, Bool.and_eq_true, List.all_eq_true] at hname
    rw [List.cons_append, Scan.tokens_of_step (Scan.step_tag hname.1), Scan.emit_nil]
    exact Scan.tokens_tag hname.2 hend

/-! ### Entries -/

mutual

/-- The tokens of a value are what is scanned of its characters. -/
theorem WrittenValue.scan_chars (v : WrittenValue) {next : List Char} (h : v.fits next = true) :
    Scan.between.tokens (v.chars ++ next) = Scan.emit v.tokens (Scan.between.tokens next) := by
  cases v with
  | nothing => exact (Scan.emit_nil _).symm
  | text t => exact t.scan_chars h
  | tag name => exact name.scan_chars h
  | emptySequence inside =>
    have hopen : Scan.between.step '(' = .ok ([.openParenthesis], .between) := rfl
    have hclose : Scan.between.step ')' = .ok ([.closeParenthesis], .between) := rfl
    simp only [WrittenValue.chars, WrittenValue.tokens, List.cons_append, List.append_assoc,
      List.nil_append]
    rw [Scan.tokens_of_step hopen, Spacer.scan_all, Scan.tokens_of_step hclose, Scan.emit_emit,
      Scan.emit_emit]
    rfl
  | object lead entries =>
    have hopen : Scan.between.step '\x7b' = .ok ([.openBrace], .between) := rfl
    have hclose : Scan.between.step '\x7d' = .ok ([.closeBrace], .between) := rfl
    have hentries := entries.scan_chars h
    simp only [WrittenValue.chars, WrittenValue.tokens, List.cons_append, List.append_assoc,
      List.nil_append]
    rw [Scan.tokens_of_step hopen, Spacer.scan_all, hentries, Scan.tokens_of_step hclose]
    simp only [Scan.emit_emit]
    rfl

/-- The tokens of entries are what is scanned of their characters. -/
theorem WrittenEntries.scan_chars (es : WrittenEntries) {next : List Char} (h : es.fits next = true) :
    Scan.between.tokens (es.chars ++ next) = Scan.emit es.tokens (Scan.between.tokens next) := by
  cases es with
  | nil => exact (Scan.emit_nil _).symm
  | cons key blanks value gap others =>
    simp only [WrittenEntries.fits, Bool.and_eq_true] at h
    obtain ⟨⟨⟨hkey, hvalue⟩, -⟩, hothers⟩ := h
    simp only [List.append_assoc] at hkey hvalue
    simp only [WrittenEntries.chars, WrittenEntries.tokens, List.append_assoc]
    -- The parts of an entry are scanned one after another, each in front of the others.
    rw [key.scan_chars hkey, Scan.tokens_blanks, value.scan_chars hvalue, Spacer.scan_all,
      others.scan_chars hothers]
    simp only [Scan.emit_emit, List.cons_append, List.nil_append]

end

/-! ### Documents -/

namespace WrittenDocument

def chars (d : WrittenDocument) : List Char :=
  d.lead.flatMap Spacer.chars ++ d.entries.chars ++ d.trailingChars

/-- The text of a document. -/
def text (d : WrittenDocument) : String := String.ofList d.chars

/-- A comment at the end has no token. -/
theorem scan_trailing (d : WrittenDocument) : Scan.between.tokens d.trailingChars = .ok [] := by
  rw [trailingChars]
  cases d.trailing with
  | none => rfl
  | some text =>
    -- Behind the last comment the document ends.
    have hnone : ([] : List Char).head? ≠ some '/' := by simp
    have hcomment := Scan.tokens_commentText text hnone
    rw [List.append_nil] at hcomment
    exact hcomment

/-- The tokens of a document are those of its parts. -/
theorem scan_text {d : WrittenDocument} (h : d.fits = true) :
    Token.scan d.text = .ok (d.lead.flatMap Spacer.tokens ++ d.entries.tokens) := by
  have hentries := d.entries.scan_chars h
  rw [Token.scan, text, String.toList_ofList, chars, List.append_assoc, Spacer.scan_all, hentries,
    d.scan_trailing, Scan.emit_emit]
  exact congrArg Except.ok (List.append_nil _)

end WrittenDocument

end SqlSelect
