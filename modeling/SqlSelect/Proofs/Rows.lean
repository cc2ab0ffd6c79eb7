import Mathlib.Data.List.Chain
import SqlSelect.Proofs.Glyphs
import SqlSelect.Proofs.Modes

/-!
# Rows of a Literal Text

In a literal text the values stand where a statement has its placeholders, and as in a statement no
two of them touch: whatever the names of a node are, empty ones included, a word or a mark of the
language stands between one value and the next.

## Main definitions

- `Chunk.literalGlyphs`, `Node.literalGlyphs` — the row of glyphs that a literal text is made of
- `Solid`, `Apart` — rows of characters, and rows in which no two values touch

## Main statements

- `Apart.append` — two such rows can be joined where a character stands at the joint
- `Outline.apart` — the values of a query do not touch, at any depth and in any layout
- `Node.apart` — nor do those of any node
-/

namespace SqlSelect

open Chunk (text slot separator)

/-! ## §1 Rows -/

def Glyph.isChar : Glyph → Bool
  | char _ => true
  | value _ => false

/-- The glyphs of a chunk where operands are set apart as in a literal text. -/
def Chunk.literalGlyphs : Chunk → List Glyph
  | text s => textGlyphs s
  | slot v => [.value v]
  | separator => textGlyphs ", "

/-- A row of characters only. -/
def Solid (r : List Glyph) : Prop := ∀ g ∈ r, g.isChar = true

/-- No two values stand side by side in the row. -/
def Apart (r : List Glyph) : Prop := r.IsChain fun g h => g.isChar = true ∨ h.isChar = true

/-- The row is empty, or begins with a character. -/
def Led (r : List Glyph) : Prop := ∀ g ∈ r.head?, g.isChar = true

theorem solid_nil : Solid [] := nofun

theorem solid_textGlyphs (s : String) : Solid (textGlyphs s) := by
  intro g hg
  obtain ⟨c, -, rfl⟩ := List.mem_map.mp hg
  rfl

theorem Solid.append {r s : List Glyph} (hr : Solid r) (hs : Solid s) : Solid (r ++ s) := by
  intro g hg
  rcases List.mem_append.mp hg with hg | hg
  · exact hr g hg
  · exact hs g hg

theorem solid_texts (ss : List String) :
    Solid ((ss.map Chunk.text).flatMap Chunk.literalGlyphs) := by
  induction ss with
  | nil => exact solid_nil
  | cons s ss ih => exact (solid_textGlyphs s).append ih

/-- A row of characters begins with one, if with anything. -/
theorem Solid.led {r : List Glyph} (h : Solid r) : Led r :=
  fun g hg => h g (List.mem_of_mem_head? hg)

/-- A row that is not empty leads whatever stands behind it. -/
theorem Led.append {r s : List Glyph} (hr : Led r) (hne : r ≠ []) : Led (r ++ s) := by
  intro g hg
  -- The head of the joined row is the head of its first part.
  rw [List.head?_append_of_ne_nil _ hne] at hg
  exact hr g hg

/-- Without values there are none that could touch. -/
theorem Solid.apart {r : List Glyph} (h : Solid r) : Apart r := by
  induction r with
  | nil => exact .nil
  | cons g r ih =>
    -- The head is a character, so it keeps its distance from any neighbour.
    rw [Apart, List.isChain_cons]
    exact ⟨fun _ _ => .inl (h g (List.mem_cons_self ..)),
      ih fun g hg => h g (List.mem_cons_of_mem _ hg)⟩

theorem Apart.append {r s : List Glyph} (hr : Apart r) (hs : Apart s) (hlead : Led s) :
    Apart (r ++ s) := by
  rw [Apart, List.isChain_append]
  exact ⟨hr, hs, fun _ _ h hh => .inr (hlead h hh)⟩

/-- Characters can stand behind anything. -/
theorem Apart.append_solid {r s : List Glyph} (hr : Apart r) (hs : Solid s) : Apart (r ++ s) :=
  hr.append hs.apart hs.led

theorem Solid.append_apart {r s : List Glyph} (hr : Solid r) (hs : Apart s) : Apart (r ++ s) := by
  rw [Apart, List.isChain_append]
  exact ⟨hr.apart, hs, fun g hg _ _ => .inl (hr g (List.mem_of_getLast? hg))⟩

/-- Rows can be joined by characters. -/
theorem Apart.intercalate {sep : List Glyph} (hsep : Solid sep) (hne : sep ≠ [])
    {parts : List (List Glyph)} (h : ∀ part ∈ parts, Apart part) :
    Apart (sep.intercalate parts) := by
  induction parts with
  | nil => exact solid_nil.apart
  | cons part rest ih =>
    have hpart := h part (List.mem_cons_self ..)
    have hrest := ih fun p hp => h p (List.mem_cons_of_mem _ hp)
    -- A part is followed by the separator, which leads the rest and keeps the values on its two
    -- sides apart.
    cases rest with
    | nil => simpa using hpart
    | cons next rest =>
      rw [List.intercalate_cons_cons, List.append_assoc]
      exact hpart.append (hsep.append_apart hrest) (hsep.led.append hne)

/-! ## §2 Expressions and predicates -/

/-- The values of the chunks do not touch. -/
def ChunksApart (ts : List Chunk) : Prop := Apart (ts.flatMap Chunk.literalGlyphs)

theorem chunksApart_texts (ss : List String) : ChunksApart (ss.map Chunk.text) :=
  (solid_texts ss).apart

theorem ChunksApart.append_texts {ts : List Chunk} (h : ChunksApart ts) (ss : List String) :
    ChunksApart (ts ++ ss.map Chunk.text) := by
  rw [ChunksApart, List.flatMap_append]
  exact Apart.append_solid h (solid_texts ss)

theorem ChunksApart.texts_append {ts : List Chunk} (ss : List String) (h : ChunksApart ts) :
    ChunksApart (ss.map Chunk.text ++ ts) := by
  rw [ChunksApart, List.flatMap_append]
  exact (solid_texts ss).append_apart h

theorem ChunksApart.intercalate {sep : List Chunk} (hsep : Solid (sep.flatMap Chunk.literalGlyphs))
    (hne : sep.flatMap Chunk.literalGlyphs ≠ []) {parts : List (List Chunk)}
    (h : ∀ part ∈ parts, ChunksApart part) : ChunksApart (sep.intercalate parts) := by
  rw [ChunksApart, flatMap_intercalate]
  exact Apart.intercalate hsep hne (List.forall_mem_map.mpr h)

theorem ChunksApart.joinOperands {parts : List (List Chunk)}
    (h : ∀ part ∈ parts, ChunksApart part) : ChunksApart (joinOperands parts) := by
  have hsep : Solid ([separator].flatMap Chunk.literalGlyphs) := solid_texts [", "]
  exact ChunksApart.intercalate hsep (by decide) h

mutual

/-- The values of an expression do not touch: around every operand there is a mark. -/
theorem Bare.apart : ∀ b : Bare, ChunksApart b.chunks
  | .column qualifier name => chunksApart_texts [qualifier, ".", name]
  | .call name args => by
    have hargs := ChunksApart.joinOperands (bares_apart args)
    exact (hargs.texts_append [name, "("]).append_texts [")"]
  | .literal _ => .singleton _

theorem bares_apart : ∀ bs : List Bare, ∀ part ∈ bareChunks bs, ChunksApart part
  | [] => fun _ h => absurd h List.not_mem_nil
  | b :: bs => List.forall_mem_cons.mpr ⟨b.apart, bares_apart bs⟩

end

theorem Item.apart (i : Item) : ChunksApart i.chunks := by
  obtain ⟨b, output⟩ := i
  cases output with
  | none => exact b.apart.append_texts []
  | some a => exact b.apart.append_texts [" AS ", a]

/-- The values of a test do not touch, whatever its operation is. -/
theorem Test.apart (t : Test) : ChunksApart t.chunks := by
  cases t with
  | compare op operand => exact operand.apart.texts_append [op.symbol, " "]
  | isIn negated operands =>
    have hoperands := ChunksApart.joinOperands (bares_apart operands)
    exact (hoperands.texts_append [_]).append_texts [")"]
  | isNull negated => exact chunksApart_texts [_]
  | call name args => exact (Bare.call name args).apart

/-- A column and a space stand before the test. -/
theorem Condition.apart (c : Condition) : ChunksApart c.chunks :=
  c.test.apart.texts_append [c.qualifier, ".", c.name, " "]

/-- The items of a projection are set apart by commas, or there is only the star. -/
theorem Outline.itemChunks_apart (items : List Item) : ChunksApart (Outline.itemChunks items) := by
  rw [Outline.itemChunks]
  split
  · exact chunksApart_texts ["*"]
  · apply ChunksApart.intercalate (solid_texts [", "]) (by decide)
    simp only [List.forall_mem_map]
    exact fun i _ => i.apart

/-! ## §3 Sources and queries -/

section Layouts

variable (pretty : Bool) (base : Nat)

/-- The glyphs of a mark, in a layout that starts at the depth `base`. -/
def Mark.literalGlyphs (m : Mark) : List Glyph :=
  (m.chunks pretty base).flatMap Chunk.literalGlyphs

def Layout.literalGlyphs (ms : List Mark) : List Glyph :=
  ms.flatMap (Mark.literalGlyphs pretty base)

/-- The row of a layout can be read from its chunks or from its marks. -/
theorem Layout.flatMap_literalGlyphs (ms : List Mark) :
    (Layout.chunks pretty base ms).flatMap Chunk.literalGlyphs =
      Layout.literalGlyphs pretty base ms :=
  List.flatMap_assoc

@[simp]
theorem Layout.literalGlyphs_cons (m : Mark) (ms : List Mark) :
    literalGlyphs pretty base (m :: ms) =
      m.literalGlyphs pretty base ++ literalGlyphs pretty base ms := rfl

@[simp]
theorem Layout.literalGlyphs_append (ms ns : List Mark) :
    literalGlyphs pretty base (ms ++ ns) =
      literalGlyphs pretty base ms ++ literalGlyphs pretty base ns :=
  List.flatMap_append

@[simp]
theorem Layout.literalGlyphs_inline (ts : List Chunk) :
    literalGlyphs pretty base (inline ts) = ts.flatMap Chunk.literalGlyphs := by
  rw [inline, literalGlyphs, List.flatMap_map]
  simp [Mark.literalGlyphs, Mark.chunks]

/-- One level deeper, a layout has the row of a layout that starts deeper. -/
theorem Layout.literalGlyphs_deeper (ms : List Mark) :
    literalGlyphs pretty base (ms.map .deeper) = literalGlyphs pretty (base + 1) ms := by
  rw [← flatMap_literalGlyphs, chunks_deeper, flatMap_literalGlyphs]

theorem solid_newline (e : LineEnd) (depth : Nat) :
    Solid ((Mark.newline e depth).literalGlyphs pretty base) := by
  cases pretty with
  | false => exact solid_texts [e.gap]
  | true => exact solid_texts ["\n", blanks (4 * (base + depth))]

/-- The line end before a clause is written in every layout. -/
theorem newline_clause_ne_nil (depth : Nat) :
    (Mark.newline .clause depth).literalGlyphs pretty base ≠ [] := by
  cases pretty <;>
    simp [Mark.literalGlyphs, Mark.chunks, LineEnd.gap, Chunk.literalGlyphs, textGlyphs]

/-- The values of a clause do not touch, nor does the first one touch what stands before it. -/
theorem clauseLayout_apart {ts : List Chunk} (h : ChunksApart ts) :
    Apart (Layout.literalGlyphs pretty base (clauseLayout ts)) ∧
      Led (Layout.literalGlyphs pretty base (clauseLayout ts)) := by
  have hbreak := solid_newline pretty base .clause 0
  rw [clauseLayout, Layout.literalGlyphs_cons, Layout.literalGlyphs_inline]
  exact ⟨hbreak.append_apart h, hbreak.led.append (newline_clause_ne_nil pretty base 0)⟩

/-- Filters are written behind a keyword on a line of their own, or not at all. -/
theorem conditionLayout_apart (conditions : List Condition) :
    Apart (Layout.literalGlyphs pretty base (Outline.conditionLayout conditions)) ∧
      Led (Layout.literalGlyphs pretty base (Outline.conditionLayout conditions)) := by
  rw [Outline.conditionLayout]
  split
  · exact ⟨solid_nil.apart, solid_nil.led⟩
  · apply clauseLayout_apart
    -- Behind the keyword, the conditions are joined by another one.
    apply ChunksApart.texts_append ["WHERE "]
    apply ChunksApart.intercalate (solid_texts [" AND "]) (by decide)
    simp only [List.forall_mem_map]
    exact fun c _ => c.apart

theorem boundLayout_apart (keyword : String) (bound : Option UInt64) :
    Apart (Layout.literalGlyphs pretty base (Outline.boundLayout keyword bound)) ∧
      Led (Layout.literalGlyphs pretty base (Outline.boundLayout keyword bound)) := by
  cases bound with
  | none => exact ⟨solid_nil.apart, solid_nil.led⟩
  | some n => exact clauseLayout_apart pretty base (chunksApart_texts [_])

end Layouts

mutual

/-- The values of a source do not touch: the marks of a derived one enclose its query. -/
theorem Origin.apart (pretty : Bool) (base : Nat) : ∀ o : Origin,
    Apart (Layout.literalGlyphs pretty base o.layout)
  | .table name a => by
    rw [Origin.layout, Layout.literalGlyphs_inline]
    exact chunksApart_texts [name, " AS ", a]
  | .derived q a => by
    -- The parentheses and the line ends inside them are characters, on both sides of the query.
    have hinner := q.apart pretty (base + 1)
    have hopen := (solid_texts ["("]).append (solid_newline pretty base .soft 1)
    have hclose := (solid_newline pretty base .soft 0).append (solid_texts [")", " AS ", a])
    have hsource := (hopen.append_apart hinner).append_solid hclose
    simpa [Origin.layout, Layout.literalGlyphs_deeper, aliasChunks] using hsource

/-- The values of a query do not touch, at any depth and in any layout. -/
theorem Outline.apart (pretty : Bool) (base : Nat) : ∀ q : Outline,
    Apart (Layout.literalGlyphs pretty base q.layout)
  | ⟨origins, items, conditions, limit, offset⟩ => by
    have hselect := (Outline.itemChunks_apart items).texts_append ["SELECT "]
    have hsources : Apart ((textGlyphs ", ").intercalate
        ((originLayouts origins).map (Layout.literalGlyphs pretty base))) :=
      Apart.intercalate (solid_textGlyphs ", ") (by decide)
        (List.forall_mem_map.mpr (origins_apart pretty base origins))
    -- The sources stand behind their keyword, which is set off by the line end before it.
    have hkeyword := (solid_newline pretty base .clause 0).append (solid_texts ["FROM "])
    have hkeyword_ne : (Mark.newline .clause 0).literalGlyphs pretty base ++
        ([text "FROM "].flatMap Chunk.literalGlyphs) ≠ [] :=
      List.append_ne_nil_of_left_ne_nil (newline_clause_ne_nil pretty base 0) _
    have hfrom := Apart.append hselect (hkeyword.append_apart hsources)
      (hkeyword.led.append hkeyword_ne)
    obtain ⟨hwhere, hwhereLed⟩ := conditionLayout_apart pretty base conditions
    obtain ⟨hlimit, hlimitLed⟩ := boundLayout_apart pretty base "LIMIT" limit
    obtain ⟨hoffset, hoffsetLed⟩ := boundLayout_apart pretty base "OFFSET" offset
    -- Every further clause begins with its line end, or is missing.
    have hall := ((hfrom.append hwhere hwhereLed).append hlimit hlimitLed).append hoffset hoffsetLed
    have horigins : Layout.literalGlyphs pretty base
        ((inline [text ", "]).intercalate (originLayouts origins)) =
          (textGlyphs ", ").intercalate
            ((originLayouts origins).map (Layout.literalGlyphs pretty base)) :=
      flatMap_intercalate _ _ _
    simpa [Outline.layout, clauseLayout, horigins] using hall

theorem origins_apart (pretty : Bool) (base : Nat) : ∀ os : List Origin,
    ∀ part ∈ originLayouts os, Apart (Layout.literalGlyphs pretty base part)
  | [] => fun _ h => absurd h List.not_mem_nil
  | o :: os => List.forall_mem_cons.mpr ⟨o.apart pretty base, origins_apart pretty base os⟩

end

/-! ## §4 Nodes -/

def Node.literalGlyphs (settings : RenderSettings) (n : Node) : List Glyph :=
  (n.chunks settings).flatMap Chunk.literalGlyphs

/-- The values of a node do not touch in its literal text. -/
theorem Node.apart (settings : RenderSettings) (n : Node) : Apart (n.literalGlyphs settings) := by
  rw [Node.literalGlyphs, Node.chunks, Layout.flatMap_literalGlyphs]
  -- What is written on one line has no line ends to look at.
  cases n.fragment settings.fromMode with
  | bare b => rw [Fragment.layout, Layout.literalGlyphs_inline]; exact b.apart
  | item i => rw [Fragment.layout, Layout.literalGlyphs_inline]; exact i.apart
  | test t => rw [Fragment.layout, Layout.literalGlyphs_inline]; exact t.apart
  | condition c => rw [Fragment.layout, Layout.literalGlyphs_inline]; exact c.apart
  | origin o => exact o.apart settings.pretty 0
  | outline q => exact q.apart settings.pretty 0

end SqlSelect
