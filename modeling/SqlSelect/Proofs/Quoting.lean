import SqlSelect.Proofs.Alike
import SqlSelect.Proofs.Rows

/-!
# Quoted Values

A value can be written into a literal text safely if it is quoted first: whatever characters it has,
a reader of string literals finds it between its own marks, and is outside again behind it.  Two
things make this so.  A quoted value has no mark that is not doubled, except at its ends; and no two
values touch, so the mark that closes one literal is never taken for half of a doubled mark.

## Main definitions

- `ScanState`, `scan` — a reader of string literals, character by character
- `literalContents` — what the string literals of a text say
- `Value.stringContent?` — what the string literal of a quoted value says, if it is one

## Main statements

- `Value.scan_quoted` — the reader gets over a quoted value, whatever follows but a mark
- `literalContents_render_quoted` — the string literals of a text over quoted values say what the
  values say, in their order
-/

namespace SqlSelect

open Chunk (text slot separator)

/-! ## §1 Reading string literals -/

/-- Where a reader of string literals is. -/
inductive ScanState where
  | outside
  /-- Inside a literal, behind these characters of it. -/
  | inside (content : List Char)
  /-- Behind a mark inside a literal, which closes the literal unless another mark follows. -/
  | marked (content : List Char)

/-- The contents of the string literals that end in a text, or nothing if the text ends inside
one. -/
def scan : ScanState → List Char → Option (List String)
  | .outside, [] => some []
  | .inside _, [] => none
  | .marked content, [] => some [String.ofList content]
  | .outside, c :: cs => if c = Quoted.stringMark then scan (.inside []) cs else scan .outside cs
  | .inside content, c :: cs =>
    if c = Quoted.stringMark then scan (.marked content) cs
    else scan (.inside (content ++ [c])) cs
  | .marked content, c :: cs =>
    if c = Quoted.stringMark then scan (.inside (content ++ [c])) cs
    else (scan .outside cs).map (String.ofList content :: ·)

/-- The contents of the string literals of a text, in order. -/
def literalContents (s : String) : Option (List String) := scan .outside s.toList

/-- A text without marks is passed over. -/
theorem scan_outside_append {cs : List Char} (h : Quoted.stringMark ∉ cs) (rest : List Char) :
    scan .outside (cs ++ rest) = scan .outside rest := by
  induction cs with
  | nil => rfl
  | cons c cs ih =>
    obtain ⟨hc, hcs⟩ : Quoted.stringMark ≠ c ∧ Quoted.stringMark ∉ cs := by simpa using h
    -- The head is no mark, so the reader stays outside.
    rw [List.cons_append, scan, if_neg (Ne.symm hc)]
    exact ih hcs

/-- Doubled marks do not close a literal. -/
theorem scan_inside_doubled (content cs rest : List Char) :
    scan (.inside content) (Quoted.doubled Quoted.stringMark cs ++ Quoted.stringMark :: rest) =
      scan (.marked (content ++ cs)) rest := by
  induction cs generalizing content with
  | nil => simp [Quoted.doubled, scan]
  | cons c cs ih =>
    have hmove : content ++ c :: cs = (content ++ [c]) ++ cs := by simp
    by_cases hc : c = Quoted.stringMark
    · -- The first mark of the pair may close the literal, and the second says that it does not.
      subst hc
      rw [Quoted.doubled, if_pos rfl, List.cons_append, List.cons_append, scan, if_pos rfl, scan,
        if_pos rfl, ih, hmove]
    · rw [Quoted.doubled, if_neg hc, List.cons_append, scan, if_neg hc, ih, hmove]

/-- A mark that no other mark follows has closed the literal. -/
theorem scan_marked (content : List Char) {rest : List Char}
    (h : rest.head? ≠ some Quoted.stringMark) :
    scan (.marked content) rest = (scan .outside rest).map (String.ofList content :: ·) := by
  cases rest with
  | nil => rfl
  | cons c cs =>
    have hc : c ≠ Quoted.stringMark := by simpa using h
    rw [scan, scan, if_neg hc, if_neg hc]

/-- A text between marks, with its own marks doubled, is one literal that says the text. -/
theorem scan_enclose (cs : List Char) {rest : List Char}
    (h : rest.head? ≠ some Quoted.stringMark) :
    scan .outside (Quoted.enclose Quoted.stringMark cs ++ rest) =
      (scan .outside rest).map (String.ofList cs :: ·) := by
  have hinside := scan_inside_doubled [] cs rest
  rw [Quoted.enclose, List.cons_append, List.append_assoc, scan, if_pos rfl, List.singleton_append,
    hinside, List.nil_append, scan_marked cs h]

/-! ## §2 Quoted values -/

/-- The word for a value that is no number. -/
def Binary.word? {f : BinaryFormat} (x : Binary f) : Option String :=
  if x.isFinite then none
  else if x.isNaN then some "NaN"
  else if x.isNegative then some "-Infinity"
  else some "Infinity"

/-- What the string literal of a quoted value says.  Most values are written without one. -/
def Value.stringContent? : Value → Option String
  | text s => some s
  | bytes bs => some (String.ofList (bs.flatMap hexDigits))
  | real x => x.word?
  | double x => x.word?
  | _ => none

theorem stringMark_not_digit {c : Char} (h : c.isDigit = true) : Quoted.stringMark ≠ c := by
  rintro rfl
  exact absurd h (by decide)

theorem stringMark_not_mem_toString_nat (n : Nat) : Quoted.stringMark ∉ (toString n).toList :=
  fun hc => stringMark_not_digit (isDigit_of_mem_toString hc) rfl

/-- An integer is written in digits and a sign. -/
theorem stringMark_not_mem_toString_int (n : Int) : Quoted.stringMark ∉ (toString n).toList := by
  cases n with
  | ofNat n => exact stringMark_not_mem_toString_nat n
  | negSucc n =>
    -- A sign and digits, none of which is the mark.
    have hminus : Quoted.stringMark ∉ "-".toList := by decide
    have hdigits := stringMark_not_mem_toString_nat (n + 1)
    show Quoted.stringMark ∉ ("-" ++ toString (n + 1)).toList
    rw [String.toList_append, List.mem_append]
    exact not_or.mpr ⟨hminus, hdigits⟩

/-- A decimal is written in digits and a point. -/
theorem stringMark_not_mem_positional (d : Decimal) :
    Quoted.stringMark ∉ d.positional false := by
  have hdigits : ∀ c ∈ d.digitChars, Quoted.stringMark ≠ c := fun c hc =>
    stringMark_not_digit (Nat.isDigit_of_mem_toDigits (by decide) (by decide) hc)
  have hzeros : ∀ n, ∀ c ∈ List.replicate n '0', Quoted.stringMark ≠ c := by
    intro n c hc
    rw [List.eq_of_mem_replicate hc]
    decide
  have hpoint : Quoted.stringMark ≠ '.' := by decide
  have hzero : Quoted.stringMark ≠ '0' := by decide
  suffices h : ∀ c ∈ d.positional false, Quoted.stringMark ≠ c from fun hc => h _ hc rfl
  unfold Decimal.positional
  dsimp only
  -- The point stands behind all digits, between them, or in front of all.
  split
  · simp only [List.forall_mem_append]
    exact ⟨⟨hdigits, hzeros _⟩, by simp⟩
  · split
    · simp only [List.forall_mem_append, List.forall_mem_cons]
      exact ⟨fun c hc => hdigits c (List.mem_of_mem_take hc), hpoint,
        fun c hc => hdigits c (List.mem_of_mem_drop hc)⟩
    · simp only [List.forall_mem_append, List.forall_mem_cons]
      exact ⟨hzero, hpoint, hzeros _, hdigits⟩

/-- The reader gets over a number's text, and finds a literal in it if it is no number. -/
theorem Binary.scan_text {f : BinaryFormat} (x : Binary f) {rest : List Char}
    (h : rest.head? ≠ some Quoted.stringMark) :
    scan .outside ((x.text literalNumber).toList ++ rest) =
      (scan .outside rest).map (x.word?.toList ++ ·) := by
  unfold Binary.text Binary.word?
  split
  · have hdigits := stringMark_not_mem_positional x.shortest
    have hminus : Quoted.stringMark ≠ '-' := by decide
    have hsigned : Quoted.stringMark ∉ (if x.isNegative then
        '-' :: literalNumber.magnitude x.shortest else literalNumber.magnitude x.shortest) := by
      split
      · rw [List.mem_cons]
        exact not_or.mpr ⟨hminus, hdigits⟩
      · exact hdigits
    rw [String.toList_ofList, scan_outside_append hsigned]
    simp
  · -- What is no number is written as a quoted word.
    have hword : ∀ s : String, scan .outside ((quoteString s).toList ++ rest) =
        (scan .outside rest).map ([s] ++ ·) := by
      intro s
      rw [quoteString, String.toList_ofList, scan_enclose _ h, String.ofList_toList]
      rfl
    split
    · exact hword "NaN"
    · split
      · exact hword "-Infinity"
      · exact hword "Infinity"

/-- The reader gets over a quoted value, unless a further mark follows. -/
theorem Value.scan_quoted (v : Value) {rest : List Char}
    (h : rest.head? ≠ some Quoted.stringMark) :
    scan .outside (v.quoted.toList ++ rest) =
      (scan .outside rest).map (v.stringContent?.toList ++ ·) := by
  have hplain : ∀ {cs : List Char}, Quoted.stringMark ∉ cs →
      scan .outside (cs ++ rest) = (scan .outside rest).map ([] ++ ·) := by
    intro cs hcs
    rw [scan_outside_append hcs]
    simp
  -- Four kinds of values may have marks of their own; the others have none at all.
  cases v with
  | null => exact hplain (by decide)
  | boolean b => exact hplain (by cases b <;> decide)
  | smallint n => exact hplain (stringMark_not_mem_toString_int _)
  | integer n => exact hplain (stringMark_not_mem_toString_int _)
  | bigint n => exact hplain (stringMark_not_mem_toString_int _)
  | real x => exact x.scan_text h
  | double x => exact x.scan_text h
  | text s =>
    show scan .outside ((quoteString s).toList ++ rest) = _
    rw [quoteString, String.toList_ofList, scan_enclose _ h, String.ofList_toList]
    rfl
  | bytes bs =>
    -- The letter before the marks belongs to no literal.
    have hletter : Quoted.stringMark ∉ ['X'] := by decide
    show scan .outside ((String.ofList (['X'] ++ Quoted.enclose _ _)).toList ++ rest) = _
    rw [String.toList_ofList, List.append_assoc, scan_outside_append hletter, scan_enclose _ h]
    rfl

/-! ## §3 Rows of quoted values -/

/-- The characters of a glyph, with a value quoted. -/
def Glyph.quotedChars : Glyph → List Char
  | char c => [c]
  | value v => v.quoted.toList

def Glyph.value? : Glyph → Option Value
  | char _ => none
  | value v => some v

/-- The characters of a glyph, with each value replaced by another, whose literal is written. -/
def Glyph.charsBy (f : Value → Value) : Glyph → List Char
  | char c => [c]
  | value v => (f v).literal.toList

/-- Once `f` was applied the reader gets over any value, unless a further mark follows, and finds
the string literals that `contents` gives. -/
def ReadsAs (f : Value → Value) (contents : Value → List String) : Prop :=
  ∀ v {rest : List Char}, rest.head? ≠ some Quoted.stringMark →
    scan .outside ((f v).literal.toList ++ rest) = (scan .outside rest).map (contents v ++ ·)

/-- In a row where no two values touch, and no character is a mark, the reader finds the string
literals of the values and nothing else. -/
theorem scan_rowBy {f : Value → Value} {contents : Value → List String}
    (hreads : ReadsAs f contents) {r : List Glyph} (hapart : Apart r)
    (hchars : ∀ c, .char c ∈ r → c ≠ Quoted.stringMark) :
    scan .outside (r.flatMap (Glyph.charsBy f)) =
      some ((r.filterMap Glyph.value?).flatMap contents) := by
  induction r with
  | nil => rfl
  | cons g r ih =>
    rw [Apart, List.isChain_cons] at hapart
    obtain ⟨hnext, hrest⟩ := hapart
    have hih := ih hrest fun c hc => hchars c (List.mem_cons_of_mem _ hc)
    cases g with
    | char c =>
      have hc : Quoted.stringMark ∉ [c] := by
        have := hchars c (List.mem_cons_self ..)
        simpa using this.symm
      rw [List.flatMap_cons, Glyph.charsBy, scan_outside_append hc, hih]
      rfl
    | value v =>
      -- A character follows, and it is no mark; or the row is at its end.
      have hhead : (r.flatMap (Glyph.charsBy f)).head? ≠ some Quoted.stringMark := by
        cases r with
        | nil => simp
        | cons g r =>
          cases g with
          | char c =>
            have := hchars c (by simp)
            simpa [Glyph.charsBy] using this
          | value w =>
            have := hnext (.value w) rfl
            simp [Glyph.isChar] at this
      rw [List.flatMap_cons, Glyph.charsBy, hreads v hhead, hih]
      simp [Glyph.value?]

/-- Quoting is one way of replacing values. -/
theorem charsBy_quoted : Glyph.charsBy (fun v => .text v.quoted) = Glyph.quotedChars := by
  funext g
  cases g <;> rfl

/-- The reader finds the string literals of quoted values, those that have one. -/
theorem scan_row {r : List Glyph} (hapart : Apart r)
    (hchars : ∀ c, .char c ∈ r → c ≠ Quoted.stringMark) :
    scan .outside (r.flatMap Glyph.quotedChars) =
      some ((r.filterMap Glyph.value?).filterMap Value.stringContent?) := by
  have hreads : ReadsAs (fun v => .text v.quoted) fun v => v.stringContent?.toList :=
    fun v _ h => v.scan_quoted h
  rw [← charsBy_quoted, scan_rowBy hreads hapart hchars,
    List.filterMap_eq_flatMap_toList Value.stringContent?]

/-! ## §4 Texts over quoted values -/

def Chunk.mapValue (f : Value → Value) : Chunk → Chunk
  | text s => text s
  | slot v => slot (f v)
  | separator => separator

/-- Chunks that are alike but for their values come from one another by replacing values. -/
theorem eq_map_of_alike {f : Value → Value} {ts us : List Chunk}
    (h : List.Forall₂ (Chunk.Alike fun v w => w = f v) ts us) : us = ts.map (Chunk.mapValue f) := by
  induction h with
  | nil => rfl
  | cons htu _ ih =>
    rw [List.map_cons, ← ih]
    cases htu with
    | text s => rfl
    | slot h => rw [h]; rfl
    | separator => rfl

/-- Replacing literals replaces the values of the slots. -/
theorem Node.chunks_mapLiterals (n : Node) (settings : RenderSettings) (f : Value → Value) :
    (n.mapLiterals f).chunks settings = (n.chunks settings).map (Chunk.mapValue f) :=
  eq_map_of_alike ((n.alike_mapLiterals f).chunks settings)

theorem flatMap_charsBy_textGlyphs (f : Value → Value) (s : String) :
    (textGlyphs s).flatMap (Glyph.charsBy f) = s.toList := by
  rw [textGlyphs, List.flatMap_map]
  exact List.flatMap_singleton' s.toList

/-- The literal text of a chunk with its value replaced is that of its glyphs. -/
theorem toList_literalText_mapValue (f : Value → Value) (t : Chunk) :
    (t.mapValue f).literalText.toList = t.literalGlyphs.flatMap (Glyph.charsBy f) := by
  cases t with
  | text s => exact (flatMap_charsBy_textGlyphs f s).symm
  | slot v => exact (List.append_nil _).symm
  | separator => exact (flatMap_charsBy_textGlyphs f ", ").symm

/-- So it is with the literal text of a list of chunks. -/
theorem toList_join_mapValue (f : Value → Value) (ts : List Chunk) :
    (String.join ((ts.map (Chunk.mapValue f)).map Chunk.literalText)).toList =
      (ts.flatMap Chunk.literalGlyphs).flatMap (Glyph.charsBy f) := by
  induction ts with
  | nil => rfl
  | cons t ts ih =>
    rw [List.map_cons, List.map_cons, String.join_cons, String.toList_append, ih,
      toList_literalText_mapValue, List.flatMap_cons, List.flatMap_append]

theorem toList_join_quoted (ts : List Chunk) :
    (String.join ((ts.map (Chunk.mapValue fun v => .text v.quoted)).map
      Chunk.literalText)).toList = (ts.flatMap Chunk.literalGlyphs).flatMap Glyph.quotedChars := by
  rw [toList_join_mapValue, charsBy_quoted]

/-- The values in a row are those in the slots of its chunks. -/
theorem filterMap_value_literalGlyphs (ts : List Chunk) :
    (ts.flatMap Chunk.literalGlyphs).filterMap Glyph.value? = Chunk.slots ts := by
  have htext : ∀ s, (textGlyphs s).filterMap Glyph.value? = [] := by
    intro s
    rw [textGlyphs, List.filterMap_map]
    exact List.filterMap_eq_nil_iff.mpr fun _ _ => rfl
  -- The values of the chunks are the only glyphs that are no characters.
  induction ts with
  | nil => rfl
  | cons t ts ih =>
    rw [List.flatMap_cons, List.filterMap_append, ih]
    cases t with
    | text s => rw [Chunk.literalGlyphs, htext]; rfl
    | slot v => rfl
    | separator => rw [Chunk.literalGlyphs, htext]; rfl

/-- No name in the fragment has a string mark in it. -/
def Fragment.Unmarked (f : Fragment) : Prop := ∀ s ∈ f.names, Quoted.stringMark ∉ s.toList

instance (f : Fragment) : Decidable f.Unmarked :=
  inferInstanceAs (Decidable (∀ s ∈ f.names, Quoted.stringMark ∉ s.toList))

theorem mem_of_char_mem_textGlyphs {s : String} {c : Char} (h : .char c ∈ textGlyphs s) :
    c ∈ s.toList := by
  obtain ⟨d, hd, hdc⟩ := List.mem_map.mp h
  cases hdc
  exact hd

/-- Where no name has a mark, no character of the row is one. -/
theorem Node.literalGlyphs_ne_stringMark {n : Node} {settings : RenderSettings}
    (h : (n.fragment settings.fromMode).Unmarked) {c : Char}
    (hc : .char c ∈ n.literalGlyphs settings) : c ≠ Quoted.stringMark := by
  have hfixed : FixedHold fun s => Quoted.stringMark ∉ s.toList :=
    fun s hs => hs.not_mem (by decide) (by decide) (by decide)
  have hcomma : Quoted.stringMark ∉ ", ".toList := by decide
  have hbreak := Mark.not_mem_newline (show Quoted.stringMark ≠ _ by decide) (by decide)
    settings.pretty 0
  -- Neither the language nor a line end nor a name brings in a mark.
  have hholds := (Fragment.holds hfixed _ h).chunks_of_breaks 0 hbreak
  obtain ⟨t, ht, hct⟩ := List.mem_flatMap.mp hc
  rintro rfl
  cases t with
  | text s => exact hholds _ ht (mem_of_char_mem_textGlyphs hct)
  | slot v => simp [Chunk.literalGlyphs] at hct
  | separator => exact hcomma (mem_of_char_mem_textGlyphs hct)

/-- A literal text over quoted values ends outside string literals, and its string literals are
those of the values, with what the values say, in reading order. -/
theorem literalContents_render_quoted (n : Node) (settings : RenderSettings)
    (h : (n.fragment settings.fromMode).Unmarked) :
    literalContents (render .literal settings (n.mapLiterals fun v => .text v.quoted)).sql =
      some ((n.literals settings.fromMode).filterMap Value.stringContent?) := by
  -- The reader takes the row value by value, as no two of them touch.
  have hrow := scan_row (n.apart settings) fun _ hc => Node.literalGlyphs_ne_stringMark h hc
  have hvalues : (n.literalGlyphs settings).filterMap Glyph.value? =
      n.literals settings.fromMode := by
    rw [Node.literalGlyphs, filterMap_value_literalGlyphs, ← n.args_eq_literals, render_statement]
  rw [literalContents, render_literal, Node.chunks_mapLiterals, toList_join_quoted,
    ← Node.literalGlyphs, hrow, hvalues]

/-- A number beside the articles under two titles, which are asked for in an inner query, and with
one checksum. -/
def Samples.articlesChecked (number title other checksum : Value) : Select where
  sources := [
    .derived ⟨"D", "D", []⟩
      ⟨[.base ⟨"Post", "posts", []⟩ "P"], [],
        [⟨⟨"P", .plain "title" "posts", none⟩, .isIn false [.literal title, .literal other]⟩],
        some 1, none⟩
      "D"]
  projection := [.literal number]
  filters := [⟨⟨"D", .plain "checksum" "posts", none⟩, .compare .eq (.literal checksum)⟩]
  limit := none
  offset := none

/-- Marks, separators and a whole clause in the titles move nothing: the number that is none, the
titles and the digits of the checksum are read as they are. -/
theorem literalContents_of_articlesChecked :
    let n := Node.select (Samples.articlesChecked (.double ⟨BitVec.ofNat _ 0xfff0000000000000⟩)
      (.text "it's") (.text "', '') OR '' = '") (.bytes [0x0a, 0xff]))
    (n.fragment .allSources).Unmarked ∧
      literalContents
          (render .literal ⟨true, .allSources⟩ (n.mapLiterals fun v => .text v.quoted)).sql =
        some ["-Infinity", "it's", "', '') OR '' = '", "0aff"] := by
  intro n
  have hunmarked : (n.fragment .allSources).Unmarked := by decide
  refine ⟨hunmarked, ?_⟩
  rw [literalContents_render_quoted n ⟨true, .allSources⟩ hunmarked]
  decide

end SqlSelect
