import Mathlib.Data.List.DropRight
import SqlSelect.Proofs.Drawing

/-!
# The Text of a Writer

What a writer has written after any pieces, in any order: also after dedents that take back no
indent, texts that are empty, and breaks that follow one another.  The writer remembers a level, and
whether its line has begun; both can be read off the pieces, and so can the text.  A text that is not
pretty is one row, with a space for a space or a clause only behind something.  A pretty text has a
line for each break and one more, and a line is indented where something is first written on it.

This complements `Drawing`, where the pieces are those of a thing that is rendered, and where every
line has something written on it.

## Main definitions

- `Piece.levelAfter` — the level of the lines to come
- `rowText` — what pieces add to a text on one line
- `prettyLine`, `prettyLines` — a line, and lines one below the other, of a pretty text
- `Writer.InRow` — a writer whose text goes on on one line

## Main statements

- `Writer.put_eq` — everything that one piece does
- `Writer.InRow.sql_putAll`, `Writer.sql_putAll_of_atLineStart` — rows and lines
- `Writer.text_of_pieces` — the text and the arguments after any pieces
-/

namespace SqlSelect

/-! ## §1 One piece -/

namespace Piece

/-- Whether a piece writes something, be it an empty text. -/
def isWrite : Piece → Bool
  | text _ | slot _ | separator => true
  | _ => false

/-- Whether a piece ends the line of a pretty text. -/
def isBreak : Piece → Bool
  | clauseBreak | softBreak => true
  | _ => false

/-- Whether a piece can show in a text that is not pretty. -/
def showsInRow : Piece → Bool
  | softBreak | indent | dedent => false
  | _ => true

def value? : Piece → Option Value
  | slot v => some v
  | _ => none

/-- The level behind a piece, which is never below zero. -/
def levelAfter (level : Nat) : Piece → Nat
  | indent => level + 1
  | dedent => level - 1
  | _ => level

/-- What a piece adds behind the text `before` on a line that has begun. -/
def rowPart (mode : RenderMode) (before : String) : Piece → String
  | text s => s
  | slot v => (Chunk.slot v).written mode
  | separator => Chunk.separator.written mode
  | space | clauseBreak => if before = "" then "" else " "
  | softBreak | indent | dedent => ""

/-- A piece writes a chunk, or is one of those that write nothing by themselves. -/
@[elab_as_elim]
theorem chunk_cases {motive : Piece → Prop} (chunk : ∀ t : Chunk, motive t.piece)
    (space : motive space) (clauseBreak : motive clauseBreak) (softBreak : motive softBreak)
    (indent : motive indent) (dedent : motive dedent) (p : Piece) : motive p := by
  -- Three pieces are chunks, and all that is known of chunks holds of them.
  cases p with
  | text s => exact chunk (.text s)
  | slot v => exact chunk (.slot v)
  | separator => exact chunk .separator
  | space => exact space
  | clauseBreak => exact clauseBreak
  | softBreak => exact softBreak
  | indent => exact indent
  | dedent => exact dedent

@[simp]
theorem isWrite_piece (t : Chunk) : t.piece.isWrite = true := by cases t <;> rfl

@[simp]
theorem isBreak_piece (t : Chunk) : t.piece.isBreak = false := by cases t <;> rfl

@[simp]
theorem levelAfter_piece (level : Nat) (t : Chunk) : levelAfter level t.piece = level := by
  cases t <;> rfl

@[simp]
theorem value?_piece (t : Chunk) : t.piece.value? = t.value? := by cases t <;> rfl

@[simp]
theorem rowPart_piece (mode : RenderMode) (before : String) (t : Chunk) :
    t.piece.rowPart mode before = t.written mode := by
  cases t with
  | text s => exact (Chunk.written_text mode s).symm
  | slot v => rfl
  | separator => rfl

/-- What does not show in a row adds nothing to it. -/
theorem rowPart_of_not_shows {p : Piece} (h : p.showsInRow = false) (mode : RenderMode)
    (before : String) : p.rowPart mode before = "" := by
  cases p <;> simp_all [showsInRow, rowPart]

/-- At the very start, only what is written shows. -/
theorem rowPart_empty {p : Piece} (h : p.isWrite = false) (mode : RenderMode) :
    p.rowPart mode "" = "" := by
  cases p <;> simp_all [isWrite, rowPart]

end Piece

namespace Writer

/-- What a space adds: nothing, where there is nothing on the line to set it apart from. -/
def gap (w : Writer) : String := if w.sql = "" ∨ w.atLineStart = true then "" else " "

/-- What a piece adds to the text. -/
def added (w : Writer) (p : Piece) : String :=
  if p.isBreak && w.settings.pretty then "\n"
  else if p.isWrite then w.lead ++ p.rowPart w.mode w.sql
  else if p.showsInRow then w.gap
  else ""

/-- Whether the line has yet to begin behind a piece. -/
def startsLine (w : Writer) (p : Piece) : Bool :=
  if p.isBreak && w.settings.pretty then true else !p.isWrite && w.atLineStart

/-- A space adds a gap and changes nothing else. -/
theorem space_eq (w : Writer) : w.space = { w with sql := w.sql ++ w.gap } := by
  rw [space, gap]
  by_cases h : w.sql = "" ∨ w.atLineStart = true <;> simp [h, String.isEmpty_iff]

/-- Everything that one piece does: the text and the arguments grow, and the level and the start of
the line are kept up to date. -/
theorem put_eq (w : Writer) (p : Piece) :
    w.put p =
      { w with
        sql := w.sql ++ w.added p
        args := (w.args.toList ++ if w.mode = .literal then [] else p.value?.toList).toArray
        depth := p.levelAfter w.depth
        atLineStart := w.startsLine p } := by
  cases p using Piece.chunk_cases with
  | chunk t =>
    have hvalues : Layout.values [.chunk t] = t.value?.toList := by simp [Mark.value?]
    rw [put_piece, extend, bound_eq, hvalues]
    simp [added, startsLine, chunks, Mark.chunks, String.append_assoc]
  -- The other pieces bind nothing; a break depends on whether the text is pretty.
  | space => simp [put, space_eq, added, startsLine, Piece.isBreak, Piece.isWrite,
      Piece.showsInRow, Piece.value?, Piece.levelAfter]
  | clauseBreak =>
    cases hp : w.settings.pretty <;>
      simp [put, clauseBreak, hp, lineBreak, space_eq, added, startsLine, Piece.isBreak,
        Piece.isWrite, Piece.showsInRow, Piece.value?, Piece.levelAfter]
  | softBreak =>
    cases hp : w.settings.pretty <;>
      simp [put, softBreak, hp, lineBreak, added, startsLine, Piece.isBreak, Piece.isWrite,
        Piece.showsInRow, Piece.value?, Piece.levelAfter]
  | indent => simp [put, indent, added, startsLine, Piece.isBreak, Piece.isWrite,
      Piece.showsInRow, Piece.value?, Piece.levelAfter]
  | dedent => simp [put, dedent, added, startsLine, Piece.isBreak, Piece.isWrite,
      Piece.showsInRow, Piece.value?, Piece.levelAfter]

/-! ## §2 What pieces leave behind -/

theorem putAll_cons (w : Writer) (p : Piece) (ps : List Piece) :
    w.putAll (p :: ps) = (w.put p).putAll ps := rfl

@[simp]
theorem mode_putAll (w : Writer) (ps : List Piece) : (w.putAll ps).mode = w.mode := by
  induction ps generalizing w with
  | nil => rfl
  | cons p ps ih => rw [putAll_cons, ih, put_eq]

@[simp]
theorem settings_putAll (w : Writer) (ps : List Piece) :
    (w.putAll ps).settings = w.settings := by
  induction ps generalizing w with
  | nil => rfl
  | cons p ps ih => rw [putAll_cons, ih, put_eq]

/-- The level after pieces can be read off them. -/
theorem depth_putAll (w : Writer) (ps : List Piece) :
    (w.putAll ps).depth = ps.foldl Piece.levelAfter w.depth := by
  induction ps generalizing w with
  | nil => rfl
  | cons p ps ih => rw [putAll_cons, ih, put_eq, List.foldl_cons]

/-- The arguments are the values, in their order, if values are bound at all. -/
theorem args_putAll (w : Writer) (ps : List Piece) :
    (w.putAll ps).args.toList =
      w.args.toList ++ if w.mode = .literal then [] else ps.filterMap Piece.value? := by
  induction ps generalizing w with
  | nil => simp [putAll]
  | cons p ps ih =>
    rw [putAll_cons, ih, put_eq]
    -- In a literal text nothing is bound; in a statement the value of a slot is, at once.
    cases w.mode with
    | literal => simp
    | statement => cases hvalue : p.value? <;> simp [hvalue]

/-- The text is only ever extended. -/
theorem sql_prefix_putAll (w : Writer) (ps : List Piece) :
    w.sql.toList <+: (w.putAll ps).sql.toList := by
  induction ps generalizing w with
  | nil => exact List.prefix_refl _
  | cons p ps ih =>
    have hstep : w.sql.toList <+: (w.put p).sql.toList := by
      rw [put_eq, String.toList_append]
      exact List.prefix_append _ _
    -- One piece extends the text, and the others extend what it left.
    exact hstep.trans (ih (w.put p))

end Writer

/-- The pieces on the line that a pretty text ends with. -/
def lastLine (ps : List Piece) : List Piece := ps.rtakeWhile (!·.isBreak)

/-- The line of a pretty text has begun once a piece has written something since the last break. -/
theorem Writer.atLineStart_putAll (mode : RenderMode) {settings : RenderSettings}
    (hp : settings.pretty = true) (ps : List Piece) :
    ((start mode settings).putAll ps).atLineStart = !(lastLine ps).any Piece.isWrite := by
  induction ps using List.reverseRecOn with
  | nil => rfl
  | append_singleton ps p ih =>
    have hsettings : ((start mode settings).putAll ps).settings = settings := settings_putAll _ ps
    have hlast : ((start mode settings).putAll (ps ++ [p])).atLineStart =
        ((start mode settings).putAll ps).startsLine p := by
      rw [putAll_append, putAll_cons, put_eq]
      rfl
    rw [hlast, startsLine, hsettings, hp, ih, lastLine, lastLine, List.rtakeWhile_concat]
    -- A break leaves an empty last line; any other piece joins the one that is there.
    cases hbreak : p.isBreak <;> simp [Bool.and_comm]

/-! ## §3 Rows -/

/-- What pieces add, one after another, behind the text `before` on a line that has begun. -/
def rowText (mode : RenderMode) : String → List Piece → String
  | _, [] => ""
  | before, p :: ps =>
    p.rowPart mode before ++ rowText mode (before ++ p.rowPart mode before) ps

/-- Pieces that do not show in a row can be left out. -/
theorem rowText_filter (mode : RenderMode) (before : String) (ps : List Piece) :
    rowText mode before (ps.filter Piece.showsInRow) = rowText mode before ps := by
  induction ps generalizing before with
  | nil => rfl
  | cons p ps ih =>
    cases hp : p.showsInRow with
    | true => rw [List.filter_cons_of_pos hp, rowText, rowText, ih]
    | false =>
      -- What does not show has an empty part, so the text before the next piece is the same.
      have hnone := Piece.rowPart_of_not_shows hp mode before
      rw [List.filter_cons_of_neg (by simp [hp]), rowText, hnone, String.append_empty,
        String.empty_append, ih]

namespace Writer

/-- The text goes on on one line: it has begun if the text is pretty, and if it is not, only an empty
text can be at the start of its line. -/
structure InRow (w : Writer) : Prop where
  begun : w.settings.pretty = true → w.atLineStart = false
  blank : w.atLineStart = true → w.sql = ""

theorem InRow.lead_eq {w : Writer} (h : w.InRow) : w.lead = "" := by
  rw [lead]
  cases hp : w.settings.pretty <;> simp [h.begun, hp]

theorem InRow.gap_eq {w : Writer} (h : w.InRow) : w.gap = if w.sql = "" then "" else " " := by
  have hempty : (w.sql = "" ∨ w.atLineStart = true) ↔ w.sql = "" := or_iff_left_of_imp h.blank
  simp [gap, hempty]

/-- A piece that ends no line of a pretty text ends no line at all. -/
theorem isBreak_and_pretty {w : Writer} {p : Piece}
    (hp : w.settings.pretty = true → p.isBreak = false) :
    (p.isBreak && w.settings.pretty) = false := by
  cases hpretty : w.settings.pretty with
  | false => simp
  | true => simp [hp hpretty]

/-- In a row, a piece adds its part of the row, unless it ends the line. -/
theorem InRow.added_eq {w : Writer} (h : w.InRow) {p : Piece}
    (hp : w.settings.pretty = true → p.isBreak = false) : w.added p = p.rowPart w.mode w.sql := by
  rw [added, isBreak_and_pretty hp, h.lead_eq, h.gap_eq]
  cases p <;> simp [Piece.isWrite, Piece.showsInRow, Piece.rowPart]

/-- A row goes on behind a piece that does not end its line. -/
theorem InRow.put {w : Writer} (h : w.InRow) {p : Piece}
    (hp : w.settings.pretty = true → p.isBreak = false) : (w.put p).InRow := by
  have hsql : (w.put p).sql = w.sql ++ p.rowPart w.mode w.sql := by rw [put_eq, h.added_eq hp]
  refine ⟨fun hpretty => ?_, fun hstart => ?_⟩
  · rw [put_eq] at hpretty ⊢
    simp [startsLine, hp hpretty, h.begun hpretty]
  · -- Nothing was written before this piece, and it writes nothing either.
    have hstarts : w.startsLine p = true := by rw [← hstart, put_eq]
    rw [startsLine, isBreak_and_pretty hp] at hstarts
    obtain ⟨hwrite, hblank⟩ : p.isWrite = false ∧ w.atLineStart = true := by
      simpa using hstarts
    rw [hsql, h.blank hblank, Piece.rowPart_empty hwrite]
    rfl

/-- In a row, the text grows by the row of the pieces. -/
theorem InRow.sql_putAll {w : Writer} (h : w.InRow) {ps : List Piece}
    (hps : w.settings.pretty = true → ∀ p ∈ ps, p.isBreak = false) :
    (w.putAll ps).sql = w.sql ++ rowText w.mode w.sql ps := by
  induction ps generalizing w with
  | nil => simp [putAll, rowText]
  | cons p ps ih =>
    have hp := fun hpretty => hps hpretty p (List.mem_cons_self ..)
    -- No piece touches the settings, so the rest has no break either.
    have hrest : (w.put p).settings.pretty = true → ∀ q ∈ ps, q.isBreak = false := by
      rw [put_eq]
      exact fun hpretty q hq => hps hpretty q (List.mem_cons_of_mem _ hq)
    rw [putAll_cons, ih (h.put hp) hrest, put_eq, h.added_eq hp, rowText, String.append_assoc]

end Writer

/-! ## §4 Lines -/

/-- The text of a line that begins at a level behind the text `before`: nothing up to the first
write, and there four spaces for each level that was reached, and the row from there on. -/
def prettyLine (mode : RenderMode) (before : String) (level : Nat) (line : List Piece) : String :=
  match line.dropWhile (!·.isWrite) with
  | [] => ""
  | p :: ps =>
    let lead := blanks (4 * (line.takeWhile (!·.isWrite)).foldl Piece.levelAfter level)
    lead ++ rowText mode (before ++ lead) (p :: ps)

/-- The texts of lines one below the other, the first at a level and behind the text `before`. -/
def prettyLines (mode : RenderMode) : String → Nat → List (List Piece) → List String
  | _, _, [] => []
  | before, level, line :: rest =>
    let t := prettyLine mode before level line
    t :: prettyLines mode (before ++ t ++ "\n") (line.foldl Piece.levelAfter level) rest

theorem prettyLine_nil (mode : RenderMode) (before : String) (level : Nat) :
    prettyLine mode before level [] = "" := rfl

/-- A line that begins with a write is indented by its level. -/
theorem prettyLine_of_write (mode : RenderMode) (before : String) (level : Nat) {p : Piece}
    (hp : p.isWrite = true) (ps : List Piece) :
    prettyLine mode before level (p :: ps) =
      blanks (4 * level) ++ rowText mode (before ++ blanks (4 * level)) (p :: ps) := by
  simp [prettyLine, hp]

/-- Before the first write a piece can only move the level. -/
theorem prettyLine_of_not_write (mode : RenderMode) (before : String) (level : Nat) {p : Piece}
    (hp : p.isWrite = false) (ps : List Piece) :
    prettyLine mode before level (p :: ps) = prettyLine mode before (p.levelAfter level) ps := by
  simp [prettyLine, hp]

namespace Writer

/-- The writer with its line begun: the indentation stands there. -/
def beginLine (w : Writer) : Writer := { w with sql := w.sql ++ w.lead, atLineStart := false }

/-- Once its line has begun, a writer goes on in a row. -/
theorem inRow_beginLine (w : Writer) : w.beginLine.InRow := ⟨fun _ => rfl, nofun⟩

/-- What is written begins the line, if it has not begun. -/
theorem put_beginLine (w : Writer) {p : Piece} (hp : p.isWrite = true) :
    w.beginLine.put p = w.put p := by
  cases p using Piece.chunk_cases with
  | chunk t =>
    have hlead : w.beginLine.lead = "" := lead_of_begun rfl
    rw [put_piece, put_piece, extend, hlead, String.append_empty]
    rfl
  | space | clauseBreak | softBreak | indent | dedent => cases hp

/-- The first write on a line of a pretty text puts the indentation there, and the row goes on. -/
theorem sql_putAll_line {w : Writer} (hpretty : w.settings.pretty = true)
    (hstart : w.atLineStart = true) {line : List Piece} (hline : ∀ p ∈ line, p.isBreak = false) :
    (w.putAll line).sql = w.sql ++ prettyLine w.mode w.sql w.depth line := by
  induction line generalizing w with
  | nil => simp [putAll, prettyLine_nil]
  | cons p ps ih =>
    cases hwrite : p.isWrite with
    | true =>
      have hlead : w.lead = blanks (4 * w.depth) := by simp [lead, hpretty, hstart]
      have hrow := w.inRow_beginLine.sql_putAll fun _ => hline
      -- To write in the middle of a fresh line is to begin it first.
      have hbegin : w.beginLine.putAll (p :: ps) = w.putAll (p :: ps) := by
        rw [putAll_cons, put_beginLine w hwrite, putAll_cons]
      rw [hbegin] at hrow
      rw [hrow, prettyLine_of_write _ _ _ hwrite, ← String.append_assoc, ← hlead]
      rfl
    | false =>
      -- Before the first write nothing is added, and only the level moves.
      have hp : p.isBreak = false := hline p (List.mem_cons_self ..)
      have hps : ∀ q ∈ ps, q.isBreak = false := fun q hq => hline q (List.mem_cons_of_mem _ hq)
      have hadded : w.added p = "" := by simp [added, hp, hwrite, gap, hstart]
      have hsql : (w.put p).sql = w.sql := by rw [put_eq, hadded, String.append_empty]
      have hstart' : (w.put p).atLineStart = true := by
        rw [put_eq]
        simp [startsLine, hwrite, hstart]
      have hsettings : (w.put p).settings.pretty = true := by rw [put_eq]; exact hpretty
      have hdepth : (w.put p).depth = p.levelAfter w.depth := by rw [put_eq]
      have hmode : (w.put p).mode = w.mode := by rw [put_eq]
      rw [putAll_cons, ih hsettings hstart' hps, hsql, hdepth, hmode,
        prettyLine_of_not_write _ _ _ hwrite]

/-- A break of a pretty text ends the line. -/
theorem put_break {w : Writer} (hpretty : w.settings.pretty = true) {p : Piece}
    (hp : p.isBreak = true) : w.put p = w.lineBreak := by
  cases p <;> simp_all [Piece.isBreak, put, clauseBreak, softBreak]

end Writer

/-- Pieces are one line, or a line, a break and further pieces. -/
@[elab_as_elim]
theorem line_induction {motive : List Piece → Prop}
    (line : ∀ ps, (∀ p ∈ ps, p.isBreak = false) → motive ps)
    (next : ∀ ps b rest, (∀ p ∈ ps, p.isBreak = false) → b.isBreak = true → motive rest →
      motive (ps ++ b :: rest)) (ps : List Piece) : motive ps := by
  have hsplit : ps.takeWhile (!·.isBreak) ++ ps.dropWhile (!·.isBreak) = ps :=
    List.takeWhile_append_dropWhile
  have hfirst : ∀ p ∈ ps.takeWhile (!·.isBreak), p.isBreak = false := fun p hp => by
    simpa using List.mem_takeWhile_imp hp
  cases hrest : ps.dropWhile (!·.isBreak) with
  | nil =>
    rw [hrest, List.append_nil] at hsplit
    exact line ps (hsplit ▸ hfirst)
  | cons b rest =>
    have hb : b.isBreak = true := by
      have := List.head_dropWhile_not (!·.isBreak) (by simp [hrest] : ps.dropWhile _ ≠ [])
      simpa [hrest] using this
    -- What is left behind the break is shorter, as the break is taken off.
    have hlength : rest.length < ps.length := by
      rw [← hsplit, hrest, List.length_append, List.length_cons]
      omega
    rw [hrest] at hsplit
    rw [← hsplit]
    exact next _ b rest hfirst hb (line_induction line next rest)
termination_by ps.length

namespace Writer

/-- The pieces of a pretty text leave its lines one below the other. -/
theorem sql_putAll_of_atLineStart {w : Writer} (hpretty : w.settings.pretty = true)
    (hstart : w.atLineStart = true) (ps : List Piece) :
    (w.putAll ps).sql = w.sql ++
      "\n".intercalate (prettyLines w.mode w.sql w.depth (ps.splitOnP Piece.isBreak)) := by
  induction ps using line_induction generalizing w with
  | line ps hps =>
    rw [List.splitOnP_eq_singleton hps, sql_putAll_line hpretty hstart hps]
    simp [prettyLines]
  | next ps b rest hps hb ih =>
    have hline := sql_putAll_line hpretty hstart hps
    have hsettings : (w.putAll ps).settings.pretty = true := by rw [settings_putAll, hpretty]
    have hrest := ih (w := (w.putAll ps).lineBreak) hsettings rfl
    have hruns : w.putAll (ps ++ b :: rest) = (w.putAll ps).lineBreak.putAll rest := by
      rw [putAll_append, putAll_cons, put_break hsettings hb]
    -- There are always lines left behind a break, if only an empty one.
    have hne : ∀ before level,
        prettyLines w.mode before level (rest.splitOnP Piece.isBreak) ≠ [] := by
      intro before level
      obtain ⟨l, ls, hls⟩ := List.exists_cons_of_ne_nil (List.splitOnP_ne_nil Piece.isBreak rest)
      rw [hls, prettyLines]
      exact List.cons_ne_nil _ _
    rw [hruns, hrest, List.splitOnP_append_cons_of_forall_mem hps b hb, prettyLines,
      String.intercalate_cons_of_ne_nil (hne _ _)]
    simp only [lineBreak, mode_putAll, depth_putAll, hline, String.append_assoc]

theorem inRow_start (mode : RenderMode) {settings : RenderSettings}
    (hpretty : settings.pretty = false) : (start mode settings).InRow where
  begun h := by simp [start, hpretty] at h
  blank _ := rfl

/-- A text that is not pretty is the row of its pieces. -/
theorem sql_putAll_start (mode : RenderMode) {settings : RenderSettings}
    (hpretty : settings.pretty = false) (ps : List Piece) :
    ((start mode settings).putAll ps).sql = rowText mode "" ps := by
  have hrow : ((start mode settings).putAll ps).sql = "" ++ rowText mode "" ps :=
    (inRow_start mode hpretty).sql_putAll fun h => by simp [start, hpretty] at h
  rw [hrow, String.empty_append]

/-- Nothing on its line, and nothing before it, keeps a space from being written. -/
theorem sql_space (w : Writer) :
    w.space.sql = w.sql ++ if w.sql ≠ "" ∧ w.atLineStart = false then " " else "" := by
  rw [space_eq, gap]
  by_cases hempty : w.sql = "" <;> cases hstart : w.atLineStart <;> simp [hempty]

/-- What a fresh writer holds after any pieces.  Its text only grows, its arguments are the values if
they are bound, and its level is never below zero.  A text that is not pretty is a row, in which
levels and soft breaks do not show.  A pretty text is its lines, each indented by the level at its
first write and empty if it has none; and a space shows behind something written on its line. -/
theorem text_of_pieces (mode : RenderMode) (settings : RenderSettings) (ps : List Piece) :
    let w := (start mode settings).putAll ps
    (∀ qs, w.sql.toList <+: (w.putAll qs).sql.toList) ∧
      w.args.toList = (if mode = .literal then [] else ps.filterMap Piece.value?) ∧
      w.depth = ps.foldl Piece.levelAfter 0 ∧
      (w.depth = 0 → w.dedent = w) ∧
      (settings.pretty = false →
        w.sql = rowText mode "" ps ∧
          w.sql = ((start mode settings).putAll (ps.filter Piece.showsInRow)).sql) ∧
      (settings.pretty = true →
        w.sql = "\n".intercalate (prettyLines mode "" 0 (ps.splitOnP Piece.isBreak)) ∧
          w.space.sql =
            w.sql ++ if w.sql ≠ "" ∧ ∃ p ∈ lastLine ps, p.isWrite = true then " " else "") := by
  intro w
  refine ⟨w.sql_prefix_putAll, args_putAll _ ps, depth_putAll _ ps, fun hdepth => ?_,
    fun hpretty => ⟨sql_putAll_start mode hpretty ps, ?_⟩, fun hpretty => ⟨?_, ?_⟩⟩
  · rw [dedent, hdepth, Nat.zero_sub, ← hdepth]
  · have hfilter := sql_putAll_start mode hpretty (ps.filter Piece.showsInRow)
    rw [rowText_filter] at hfilter
    exact (sql_putAll_start mode hpretty ps).trans hfilter.symm
  · have hlines : w.sql = "" ++
        "\n".intercalate (prettyLines mode "" 0 (ps.splitOnP Piece.isBreak)) :=
      sql_putAll_of_atLineStart hpretty rfl ps
    rw [hlines, String.empty_append]
  · -- The flag that a space looks at says whether the last line has a write on it.
    have hbegun : w.atLineStart = false ↔ ∃ p ∈ lastLine ps, p.isWrite = true := by
      rw [atLineStart_putAll mode hpretty ps]
      simp
    simp only [sql_space, hbegun]

end Writer

/-- More dedents than indents, an empty text, breaks in a row, and spaces where nothing is. -/
def Samples.unevenPieces : List Piece :=
  [.dedent, .text "", .space, .indent, .clauseBreak, .space, .indent, .text "a", .space, .dedent,
    .dedent, .dedent, .softBreak, .clauseBreak, .slot (.text "x")]

open Samples (unevenPieces) in
/-- Of four lines the second is indented by both indents, although the level falls behind it; the
first has only an empty text, and the third has nothing on it.  As a row, the text has two spaces. -/
theorem text_of_unevenPieces :
    let w := (Writer.start .statement ⟨true, .firstOnly⟩).putAll unevenPieces
    w.sql = "\n        a \n\n?" ∧ w.args.toList = [.text "x"] ∧ w.dedent = w ∧
      w.space.sql = w.sql ++ " " ∧
      ((Writer.start .literal ⟨false, .firstOnly⟩).putAll unevenPieces).sql = "a  x" := by
  obtain ⟨-, hargs, hdepth, hdedent, -, hpretty⟩ :=
    Writer.text_of_pieces .statement ⟨true, .firstOnly⟩ unevenPieces
  obtain ⟨-, -, -, -, hcompact, -⟩ :=
    Writer.text_of_pieces .literal ⟨false, .firstOnly⟩ unevenPieces
  obtain ⟨hlines, hspace⟩ := hpretty rfl
  refine ⟨?_, ?_, hdedent ?_, ?_, ?_⟩
  · rw [hlines]
    decide
  · rw [hargs]
    rfl
  · rw [hdepth]
    rfl
  · rw [hspace, if_pos]
    decide
  · rw [(hcompact rfl).1]
    decide

end SqlSelect
