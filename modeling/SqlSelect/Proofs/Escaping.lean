import SqlSelect.Proofs.Quoting

/-!
# Escaped Values

Escaping doubles the marks of a string, and a literal text writes a string as it stands, so nothing
encloses an escaped string.  A reader of string literals finds in it only what its own doubled marks
make: each run of marks is one literal, which holds one mark less than the run, and every other
character stands outside.  The marks come in pairs, so the reader is outside again behind each value;
but what it has read there is never the string.

This complements `Quoting`, where the marks around a quoted value make it one literal.

## Main definitions

- `heldMarks` — what the string literals of a text with doubled marks say
- `Value.escapedContents` — what the string literals of an escaped value say

## Main statements

- `Value.scan_escaped` — the reader gets over an escaped value, whatever follows but a mark
- `not_mem_heldMarks` — no literal in an escaped string says what the string says
- `literalContents_render_escaped` — the string literals of a text over escaped values
- `escaped_strings_not_held` — escaping does not keep strings inside string literals
-/

namespace SqlSelect

/-! ## §1 Runs of marks -/

/-- What a run of doubled marks says: one mark less than there are, in a literal of its own. -/
def heldBy : Nat → List String
  | 0 => []
  | run + 1 => [String.ofList (List.replicate run Quoted.stringMark)]

/-- What the string literals of a text with doubled marks say, behind a run of marks. -/
def heldMarks : Nat → List Char → List String
  | run, [] => heldBy run
  | run, c :: cs =>
    if c = Quoted.stringMark then heldMarks (run + 1) cs else heldBy run ++ heldMarks 0 cs

/-- Where a reader is behind a run of doubled marks. -/
def ScanState.behind : Nat → ScanState
  | 0 => .outside
  | run + 1 => .marked (List.replicate run Quoted.stringMark)

/-- A run of marks ends where no further mark follows. -/
theorem scan_behind (run : Nat) {rest : List Char} (h : rest.head? ≠ some Quoted.stringMark) :
    scan (.behind run) rest = (scan .outside rest).map (heldBy run ++ ·) := by
  cases run with
  | zero => simp [ScanState.behind, heldBy]
  | succ run => exact scan_marked (List.replicate run Quoted.stringMark) h

/-- A doubled mark makes the run longer. -/
theorem scan_behind_mark (run : Nat) (cs : List Char) :
    scan (.behind run) (Quoted.stringMark :: Quoted.stringMark :: cs) =
      scan (.behind (run + 1)) cs := by
  cases run with
  | zero => simp [ScanState.behind, scan]
  | succ run =>
    -- The first of the two marks may close the literal, and the second says that it does not.
    have hone : scan (.marked (List.replicate run Quoted.stringMark))
        (Quoted.stringMark :: Quoted.stringMark :: cs) =
          scan (.marked (List.replicate run Quoted.stringMark ++ [Quoted.stringMark])) cs := by
      simp [scan]
    rw [← List.replicate_succ'] at hone
    exact hone

/-- The reader gets over a text with doubled marks, unless a further mark follows. -/
theorem scan_behind_doubled (run : Nat) (cs : List Char) {rest : List Char}
    (h : rest.head? ≠ some Quoted.stringMark) :
    scan (.behind run) (Quoted.doubled Quoted.stringMark cs ++ rest) =
      (scan .outside rest).map (heldMarks run cs ++ ·) := by
  induction cs generalizing run with
  | nil => exact scan_behind run h
  | cons c cs ih =>
    by_cases hc : c = Quoted.stringMark
    · subst hc
      simp only [Quoted.doubled, heldMarks, if_true, List.cons_append]
      rw [scan_behind_mark, ih]
    · -- The character ends the run, and what follows begins without one.
      have hhead : (c :: (Quoted.doubled Quoted.stringMark cs ++ rest)).head? ≠
          some Quoted.stringMark := by
        simpa using hc
      have hrest : scan .outside (Quoted.doubled Quoted.stringMark cs ++ rest) =
          (scan .outside rest).map (heldMarks 0 cs ++ ·) := ih 0
      simp only [Quoted.doubled, heldMarks, if_neg hc, List.cons_append]
      rw [scan_behind run hhead, scan, if_neg hc, hrest, Option.map_map]
      simp [Function.comp_def]

/-- What a text with doubled marks holds is shorter than the text. -/
theorem length_lt_of_mem_heldMarks {run : Nat} {cs : List Char} {t : String}
    (h : t ∈ heldMarks run cs) : t.length < run + cs.length := by
  have hheld : ∀ {run}, t ∈ heldBy run → t.length < run := by
    intro run ht
    cases run with
    | zero => simp [heldBy] at ht
    | succ run =>
      obtain rfl := List.mem_singleton.mp ht
      simp
  induction cs generalizing run with
  | nil => exact hheld h
  | cons c cs ih =>
    -- A mark makes the run longer; any other character ends it, and what it held is shorter than
    -- it.
    rw [heldMarks] at h
    split at h
    · have := ih h
      simp only [List.length_cons]
      omega
    · rcases List.mem_append.mp h with h | h
      · have := hheld h
        omega
      · have := ih h
        simp only [List.length_cons]
        omega

/-- No literal in an escaped string says what the string says. -/
theorem not_mem_heldMarks (s : String) : s ∉ heldMarks 0 s.toList := by
  intro h
  have hlength := length_lt_of_mem_heldMarks h
  rw [String.length_toList] at hlength
  omega

/-! ## §2 Escaped values -/

/-- What the string literals of an escaped value say. -/
def Value.escapedContents : Value → List String
  | text s => heldMarks 0 s.toList
  | v => v.stringContent?.toList

/-- The reader gets over an escaped value, unless a further mark follows. -/
theorem Value.scan_escaped : ReadsAs Value.escaped Value.escapedContents := by
  intro v rest h
  cases v with
  | text s =>
    have hdoubled := scan_behind_doubled 0 s.toList h
    simpa [Value.escaped, Value.literal, Value.escapedContents, ScanState.behind] using hdoubled
  -- Every other value is left as it is, and its literal is the quoted form.
  | null => exact Value.null.scan_quoted h
  | boolean b => exact (Value.boolean b).scan_quoted h
  | smallint n => exact (Value.smallint n).scan_quoted h
  | integer n => exact (Value.integer n).scan_quoted h
  | bigint n => exact (Value.bigint n).scan_quoted h
  | real x => exact (Value.real x).scan_quoted h
  | double x => exact (Value.double x).scan_quoted h
  | bytes bs => exact (Value.bytes bs).scan_quoted h

/-- A literal text over escaped values ends outside string literals.  Those that it has are the ones
of bytes and of what is no number, and one for each run of marks in a string; none of the latter says
what its string says. -/
theorem literalContents_render_escaped (n : Node) (settings : RenderSettings)
    (h : (n.fragment settings.fromMode).Unmarked) :
    literalContents (render .literal settings (n.mapLiterals Value.escaped)).sql =
        some ((n.literals settings.fromMode).flatMap Value.escapedContents) ∧
      ∀ s, s ∉ (Value.text s).escapedContents := by
  refine ⟨?_, not_mem_heldMarks⟩
  -- The reader goes over the row value by value, since no two of them touch.
  have hrow := scan_rowBy Value.scan_escaped (n.apart settings) fun _ hc =>
    Node.literalGlyphs_ne_stringMark h hc
  have hvalues : (n.literalGlyphs settings).filterMap Glyph.value? =
      n.literals settings.fromMode := by
    rw [Node.literalGlyphs, filterMap_value_literalGlyphs, ← n.args_eq_literals, render_statement]
  rw [literalContents, render_literal, Node.chunks_mapLiterals, toList_join_mapValue,
    ← Node.literalGlyphs, hrow, hvalues]

open Samples (articlesChecked) in
/-- Two titles that hold a mark, and one run of two: the reader finds an empty literal for the one
mark, and a mark for the run, beside the word and the digits that are literals by themselves. -/
theorem literalContents_of_escapedArticles :
    let n := Node.select (articlesChecked (.double ⟨BitVec.ofNat _ 0xfff0000000000000⟩)
      (.text "it's") (.text "''; DROP TABLE posts") (.bytes [0x0a, 0xff]))
    (n.fragment .allSources).Unmarked ∧
      literalContents (render .literal ⟨true, .allSources⟩ (n.mapLiterals Value.escaped)).sql =
        some ["-Infinity", "", "'", "0aff"] := by
  intro n
  have hunmarked : (n.fragment .allSources).Unmarked := by decide
  refine ⟨hunmarked, ?_⟩
  rw [(literalContents_render_escaped n ⟨true, .allSources⟩ hunmarked).1]
  decide

/-- A test for users with a first name. -/
def Samples.usersNamed (name : String) : Node :=
  .predicate ⟨⟨"u", .plain "firstName" "User", none⟩, .compare .eq (.literal (.text name))⟩

open Samples (usersNamed) in
/-- Escaping does not keep strings inside string literals: a name without a mark is written as it is,
and its words are words of the statement. -/
theorem escaped_strings_not_held :
    ¬ ∀ (n : Node) (settings : RenderSettings), (n.fragment settings.fromMode).Unmarked →
      ∃ contents,
        literalContents (render .literal settings (n.mapLiterals Value.escaped)).sql =
          some contents ∧
        ∀ s, Value.text s ∈ n.literals settings.fromMode → s ∈ contents := by
  intro h
  obtain ⟨contents, hcontents, hheld⟩ := h (usersNamed "x OR 1=1") {} (by decide)
  -- The reader finds no string literal at all, so that the name cannot be in one.
  have hnone : literalContents
      (render .literal {} ((usersNamed "x OR 1=1").mapLiterals Value.escaped)).sql = some [] := by
    decide
  rw [hnone] at hcontents
  obtain rfl := Option.some.inj hcontents
  have hname : "x OR 1=1" ∈ ([] : List String) := hheld "x OR 1=1" (by decide)
  simp at hname

end SqlSelect
