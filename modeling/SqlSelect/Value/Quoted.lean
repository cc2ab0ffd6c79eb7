/-!
# Quoting by Doubling

A quoted text stands between two quote marks, and a quote mark inside it is written twice.  The same
rule serves string literals (mark `'`) and identifiers (mark `"`).

## Main definitions

- `doubled q` — every mark `q` of a text written twice
- `Quoted.enclose q` — a text between two marks, its own marks doubled
- `Quoted.read? q` — the text at the front of the input that `enclose` could have written

## Main statements

- `Quoted.read?_enclose` — reading back gives the text and leaves what followed it
-/

namespace SqlSelect

namespace Quoted

/-! ## §1 Writing -/

/-- The mark around string literals, the apostrophe. -/
def stringMark : Char := '\x27'

/-- The mark around identifiers, the double quote. -/
def identifierMark : Char := '\x22'

/-- A text with every mark `q` written twice. -/
def doubled (q : Char) : List Char → List Char
  | [] => []
  | c :: cs => if c = q then q :: q :: doubled q cs else c :: doubled q cs

/-- A text between two marks, its own marks doubled. -/
def enclose (q : Char) (cs : List Char) : List Char := q :: (doubled q cs ++ [q])

/-! ## §2 Reading -/

/-- Read up to the closing mark: a pair of marks is one character, a lone mark closes. -/
def readBody? (q : Char) : List Char → Option (List Char × List Char)
  | [] => none
  | c :: cs =>
    if c = q then
      match cs with
      | [] => some ([], [])
      | d :: ds =>
        if d = q then (readBody? q ds).map fun r => (q :: r.1, r.2)
        else some ([], d :: ds)
    else (readBody? q cs).map fun r => (c :: r.1, r.2)

/-- Read a quoted text at the front of the input, and return it with the rest. -/
def read? (q : Char) : List Char → Option (List Char × List Char)
  | [] => none
  | c :: cs => if c = q then readBody? q cs else none

/-- A closing mark followed by anything but another mark ends the text. -/
private theorem readBody?_close (q : Char) (rest : List Char) (h : rest.head? ≠ some q) :
    readBody? q (q :: rest) = some ([], rest) := by
  cases rest with
  | nil => simp [readBody?]
  | cons d ds =>
    have hd : d ≠ q := by simpa using h
    simp [readBody?, hd]

/-- What `enclose` wrote is read back, whatever follows, unless a further mark follows. -/
theorem read?_enclose (q : Char) (cs rest : List Char) (h : rest.head? ≠ some q) :
    read? q (enclose q cs ++ rest) = some (cs, rest) := by
  suffices ∀ cs, readBody? q (doubled q cs ++ q :: rest) = some (cs, rest) by
    simpa [read?, enclose] using this cs
  intro cs
  induction cs with
  | nil => simpa [doubled] using readBody?_close q rest h
  | cons c cs ih =>
    -- A quote stands doubled, and is read as one; any other character is read as it is.
    by_cases hc : c = q
    · simp [doubled, hc, readBody?, ih]
    · rw [doubled, if_neg hc, List.cons_append]
      unfold readBody?
      simp [hc, ih]

end Quoted

end SqlSelect
