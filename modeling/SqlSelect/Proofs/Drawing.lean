import SqlSelect.Proofs.Layout

/-!
# Drawing a Layout

A writer that carries out the pieces of a thing leaves the text of its layout behind, and nothing
else of its state changes.  What the writer reads back of its own state decides only how the first
line begins: whether anything has been written, and whether the line has begun.

## Main definitions

- `Writer.extend` — a writer after a layout
- `Writer.Open` — a writer in the middle of a line
- `Draws`, `Begins` — pieces that leave a layout behind in any open writer, or in any writer

## Main statements

- `Node.begins` — any writer turns the pieces of a node into the layout of its fragment
- `render_eq_layout` — a rendering is the text of a layout, with its values
-/

namespace SqlSelect

open Chunk (text slot separator)

/-! ## §1 The effect of a layout -/

namespace Writer

def chunks (w : Writer) (ms : List Mark) : List Chunk :=
  Layout.chunks w.settings.pretty w.depth ms

/-- The values that a layout binds. -/
def bound (w : Writer) (ms : List Mark) : List Value :=
  match w.mode with
  | .literal => []
  | .statement => Layout.values ms

/-- The writer after a layout: the text and the arguments grow, and the line has begun. -/
def extend (w : Writer) (ms : List Mark) : Writer :=
  { w with
    sql := w.sql ++ w.lead ++ Chunk.concat w.mode (w.chunks ms)
    args := (w.args.toList ++ w.bound ms).toArray
    atLineStart := false }

/-- Something has been written, on the line that the text ends with. -/
structure Open (w : Writer) : Prop where
  begun : w.atLineStart = false
  written : w.sql ≠ ""

/-- A line that has begun is not indented again. -/
theorem lead_of_begun {w : Writer} (h : w.atLineStart = false) : w.lead = "" := by
  simp [lead, h]

/-- A layout binds its values in a statement, and nothing in a literal text. -/
theorem bound_eq (w : Writer) (ms : List Mark) :
    w.bound ms = if w.mode = .literal then [] else Layout.values ms := by
  -- The mode decides it, whatever the layout is.
  unfold bound
  cases w.mode <;> rfl

theorem bound_eq_nil (w : Writer) {ms : List Mark} (h : Layout.values ms = []) :
    w.bound ms = [] := by
  simp [bound_eq, h]

/-- One layout after another is one layout. -/
theorem extend_extend (w : Writer) (ms ns : List Mark) :
    (w.extend ms).extend ns = w.extend (ms ++ ns) := by
  -- The first layout has begun the line, so the second one is not indented again.
  have hlead : (w.extend ms).lead = "" := lead_of_begun rfl
  have hbound : w.bound (ms ++ ns) = w.bound ms ++ w.bound ns := by
    rw [bound_eq, bound_eq, bound_eq, Layout.values_append]
    split <;> simp
  rw [extend, hlead]
  simp [extend, chunks, hbound, String.append_assoc]
  rfl

theorem extend_nil {w : Writer} (h : w.atLineStart = false) : w.extend [] = w := by
  have hbound : w.bound [] = [] := w.bound_eq_nil rfl
  simp [extend, chunks, lead_of_begun h, hbound, ← h]

theorem Open.extend {w : Writer} (h : w.Open) (ms : List Mark) : (w.extend ms).Open := by
  refine ⟨rfl, fun hempty => h.written ?_⟩
  simp only [Writer.extend, String.append_eq_empty_iff] at hempty
  exact hempty.1.1

/-- Writing a text is the layout of one chunk. -/
theorem write_eq_extend (w : Writer) (s : String) : w.write s = w.extend [.chunk (text s)] := by
  have hbound : w.bound [.chunk (text s)] = [] := w.bound_eq_nil rfl
  simp [write, extend, chunks, Mark.chunks, hbound]

end Writer

/-! ## §2 Chunks -/

/-- The piece that a chunk is written with. -/
def Chunk.piece : Chunk → Piece
  | text s => .text s
  | slot v => .slot v
  | separator => .separator

namespace Writer

/-- A piece of any kind extends the writer by its chunk. -/
theorem put_piece (w : Writer) (t : Chunk) : w.put t.piece = w.extend [.chunk t] := by
  cases t with
  | text s => exact w.write_eq_extend s
  | slot v =>
    rw [Chunk.piece, put, value]
    -- The modes part here and nowhere else: a literal binds nothing.
    cases hmode : w.mode with
    | literal =>
      simp [write, extend, chunks, Mark.chunks, bound, hmode, Chunk.written, Chunk.literalText]
    | statement =>
      have hargs : (w.args.toList ++ [v]).toArray = w.args.push v := by
        rw [← Array.toList_push, Array.toArray_toList]
      simp [write, extend, chunks, Mark.chunks, bound, hmode, Chunk.written, Chunk.statementText,
        Mark.value?, Chunk.value?, lead, hargs]
  | separator =>
    rw [Chunk.piece, put, listSeparator]
    have hbound : w.bound [.chunk separator] = [] := w.bound_eq_nil rfl
    cases hmode : w.mode <;>
      simp [write, extend, chunks, Mark.chunks, hbound, hmode, Chunk.written, Chunk.literalText,
        Chunk.statementText]

/-- On a line that has begun, the pieces of chunks draw them. -/
theorem putAll_chunks_of_begun {w : Writer} (h : w.atLineStart = false) (ts : List Chunk) :
    w.putAll (ts.map Chunk.piece) = w.extend (inline ts) := by
  induction ts generalizing w with
  | nil => exact (extend_nil h).symm
  | cons t ts ih =>
    -- After one chunk the line has begun again, whatever the chunk is.
    have hrest : (w.extend [.chunk t]).putAll (ts.map Chunk.piece) =
        (w.extend [.chunk t]).extend (inline ts) := ih rfl
    calc w.putAll ((t :: ts).map Chunk.piece)
        = (w.put t.piece).putAll (ts.map Chunk.piece) := rfl
      _ = (w.extend [.chunk t]).extend (inline ts) := by rw [put_piece, hrest]
      _ = w.extend (inline (t :: ts)) := by rw [extend_extend]; rfl

end Writer

/-! ## §3 Drawing -/

/-- The pieces leave the layout behind in any open writer. -/
def Draws (ps : List Piece) (ms : List Mark) : Prop :=
  ∀ w : Writer, w.Open → w.putAll ps = w.extend ms

/-- The pieces leave the layout behind in any writer, also one that is at the start of a line. -/
def Begins (ps : List Piece) (ms : List Mark) : Prop := ∀ w : Writer, w.putAll ps = w.extend ms

theorem Begins.draws {ps : List Piece} {ms : List Mark} (h : Begins ps ms) : Draws ps ms :=
  fun w _ => h w

theorem Draws.append {ps qs : List Piece} {ms ns : List Mark} (hp : Draws ps ms)
    (hq : Draws qs ns) : Draws (ps ++ qs) (ms ++ ns) := by
  intro w hw
  rw [Writer.putAll_append, hp w hw, hq _ (hw.extend ms), Writer.extend_extend]

theorem Draws.nil : Draws [] [] := fun _ hw => (Writer.extend_nil hw.begun).symm

/-- An open writer draws any chunks with their own pieces. -/
theorem draws_chunks (ts : List Chunk) : Draws (ts.map Chunk.piece) (inline ts) :=
  fun _ hw => Writer.putAll_chunks_of_begun hw.begun ts

/-- The first chunk begins the line, so that any writer draws a chunk and what follows it. -/
theorem begins_chunks {ps : List Piece} {ts : List Chunk} (hps : ps = ts.map Chunk.piece)
    (hts : ts ≠ []) : Begins ps (inline ts) := by
  intro w
  obtain ⟨t, ts, rfl⟩ := List.exists_cons_of_ne_nil hts
  subst hps
  -- The first chunk begins the line; behind it, no chunk is indented.
  calc w.putAll ((t :: ts).map Chunk.piece)
      = (w.extend [.chunk t]).putAll (ts.map Chunk.piece) := by
        rw [← Writer.put_piece]; rfl
    _ = (w.extend [.chunk t]).extend (inline ts) := Writer.putAll_chunks_of_begun rfl ts
    _ = w.extend (inline (t :: ts)) := by rw [Writer.extend_extend]; rfl

/-- After a text that is not empty every writer is open. -/
theorem Draws.begins {ps : List Piece} {ms : List Mark} (h : Draws ps ms) {s : String}
    (hs : s ≠ "") : Begins (.text s :: ps) (.chunk (text s) :: ms) := by
  intro w
  -- What is written is not empty, so that neither is the text behind it.
  have hopen : (w.write s).Open := by
    refine ⟨rfl, fun hempty => hs ?_⟩
    simp only [Writer.write, String.append_eq_empty_iff] at hempty
    exact hempty.2
  calc w.putAll (.text s :: ps)
      = (w.write s).putAll ps := rfl
    _ = (w.extend [.chunk (text s)]).extend ms := by rw [h _ hopen, Writer.write_eq_extend]
    _ = w.extend (.chunk (text s) :: ms) := by rw [Writer.extend_extend]; rfl

/-- Parts that are drawn can be drawn with something between them. -/
theorem Draws.intercalate {α : Type} {between : List Piece} {sep : List Mark}
    (hsep : Draws between sep) (pieces : α → List Piece) (layout : α → List Mark) (xs : List α)
    (h : ∀ x ∈ xs, Draws (pieces x) (layout x)) :
    Draws (joinPieces between (xs.map pieces)) (sep.intercalate (xs.map layout)) := by
  induction xs with
  | nil => exact Draws.nil
  | cons x xs ih =>
    have hx := h x (List.mem_cons_self ..)
    have hxs := ih fun y hy => h y (List.mem_cons_of_mem _ hy)
    -- A part is followed by the separator and the other parts, if there are any.
    cases xs with
    | nil => simpa [joinPieces] using hx
    | cons y ys =>
      simp only [joinPieces, List.map_cons, List.intercalate_cons_cons] at hxs ⊢
      exact (hx.append hsep).append hxs

/-- A clause begins on a new line, or after a space. -/
theorem draws_clause (s : String) (ts : List Chunk) :
    Draws (.clauseBreak :: .text s :: ts.map Chunk.piece) (clauseLayout (text s :: ts)) := by
  have hbreak : Draws [.clauseBreak, .text s] [.newline .clause 0, .chunk (text s)] := by
    intro w hw
    -- The break is a space only behind a text, which an open writer has.
    have hempty : w.sql.isEmpty = false := String.isEmpty_eq_false_iff.mpr hw.written
    have hbound : w.bound [.newline .clause 0, .chunk (text s)] = [] := w.bound_eq_nil rfl
    cases hp : w.settings.pretty <;>
      simp [Writer.putAll, Writer.put, Writer.clauseBreak, Writer.space, Writer.lineBreak, hp,
        hempty, hw.begun, Writer.write, Writer.lead, Writer.extend, Writer.chunks, Mark.chunks,
        LineEnd.gap, hbound, String.append_assoc]
  exact hbreak.append (draws_chunks ts)

/-- What begins in any writer can be drawn on lines of its own, one level deeper. -/
theorem Begins.nested {ps : List Piece} {ms : List Mark} (h : Begins ps ms) (s : String) :
    Draws ([.indent, .softBreak] ++ ps ++ [.dedent, .softBreak, .text s])
      (.newline .soft 1 :: ms.map .deeper ++ [.newline .soft 0, .chunk (text s)]) := by
  intro w hw
  have hps : w.indent.softBreak.putAll ps = w.indent.softBreak.extend ms := h _
  have hsteps : w.putAll ([.indent, .softBreak] ++ ps ++ [.dedent, .softBreak, .text s]) =
      (w.indent.softBreak.extend ms).dedent.softBreak.write s := by
    rw [Writer.putAll_append, Writer.putAll_append, ← hps]
    rfl
  -- The dedent takes back the indent, so that the writer ends at its old depth.
  rw [hsteps]
  cases hp : w.settings.pretty <;>
    simp [Writer.indent, Writer.softBreak, Writer.lineBreak, hp, Writer.dedent, Writer.write,
      Writer.extend, Writer.lead, hw.begun, Writer.chunks, Mark.chunks, Layout.chunks_deeper,
      LineEnd.gap, Writer.bound_eq, Mark.value?, Chunk.value?, String.append_assoc]

/-! ## §4 The pieces of things -/

theorem joinPieces_chunks (between : List Chunk) (parts : List (List Chunk)) :
    joinPieces (between.map Chunk.piece) (parts.map fun part => part.map Chunk.piece) =
      (between.intercalate parts).map Chunk.piece := by
  simp only [joinPieces, List.map_eq_flatMap, flatMap_intercalate]

mutual

/-- The pieces of an expression are the chunks of its bare form. -/
theorem Expr.barePieces_eq : ∀ e : Expr, e.barePieces = e.bare.chunks.map Chunk.piece
  | .column c => rfl
  | .call name args => by
    have hargs := operandPieces_eq_chunks args
    rw [Expr.barePieces, callPieces, hargs, Expr.bare, Bare.chunks, joinOperands]
    simp [← joinPieces_chunks, Chunk.piece]
  | .aliased e _ => e.barePieces_eq
  | .literal _ => rfl

/-- An operand is written as what it stands for. -/
theorem Operand.pieces_eq : ∀ o : Operand, o.pieces = o.bare.chunks.map Chunk.piece
  | .literal _ => rfl
  | .expr e => e.barePieces_eq

/-- The operands of a list are written one by one. -/
theorem operandPieces_eq_chunks : ∀ os : List Operand,
    operandPieces os = (bareChunks (bareOperands os)).map fun part => part.map Chunk.piece
  | [] => rfl
  | o :: os => by
    rw [operandPieces, o.pieces_eq, operandPieces_eq_chunks os]
    rfl

end

theorem ColumnRef.pieces_eq (c : ColumnRef) : c.pieces = c.item.chunks.map Chunk.piece := by
  obtain ⟨a, column, output⟩ := c
  cases output <;> rfl

/-- An expression is written as an item: its bare form and the outermost alias. -/
theorem Expr.pieces_eq (e : Expr) : e.pieces = e.item.chunks.map Chunk.piece := by
  cases e with
  | column c => exact c.pieces_eq
  | call name args =>
    -- A call has no output alias of its own, so nothing follows its bare form.
    have hitem : (Expr.call name args).item.chunks = (Expr.call name args).bare.chunks :=
      List.append_nil _
    rw [hitem]
    exact (Expr.call name args).barePieces_eq
  | aliased e a =>
    simp [Expr.pieces, Expr.barePieces_eq, Expr.item, Item.chunks, Expr.output?, Expr.bare,
      aliasPieces, aliasChunks, Chunk.piece]
  | literal v => rfl

/-- An operation is written as its test. -/
theorem Operation.pieces_eq (o : Operation) : o.pieces = o.test.chunks.map Chunk.piece := by
  cases o with
  | compare op operand =>
    rw [Operation.pieces, operand.pieces_eq, Operation.test, Test.chunks, List.map_append]
    rfl
  | isIn negated operands =>
    -- The operands of a list are joined as the arguments of a call are.
    have hoperands := operandPieces_eq_chunks operands
    rw [operandPieces_eq_map, bareOperands_eq_map] at hoperands
    rw [Operation.pieces, hoperands, Operation.test, Test.chunks, joinOperands]
    simp [← joinPieces_chunks, Chunk.piece]
  | isNull negated => rfl
  | call f => exact (Expr.call f.name f.args).barePieces_eq

theorem Predicate.pieces_eq (p : Predicate) :
    p.pieces = p.condition.chunks.map Chunk.piece := by
  rw [Predicate.pieces, p.operation.pieces_eq, Condition.chunks, List.map_append]
  rfl

/-! ## §5 The pieces of sources and queries -/

/-- A projection is its keyword and its items, or a star. -/
theorem projectionPieces_eq (items : List Expr) :
    Select.projectionPieces items =
      .text "SELECT " :: (Outline.itemChunks (items.map Expr.item)).map Chunk.piece := by
  -- The items are chunks one by one; a projection without any is the star.
  have hitems : items.map Expr.pieces =
      (items.map fun e => e.item.chunks).map fun part => part.map Chunk.piece := by
    simp [Expr.pieces_eq]
  cases items with
  | nil => rfl
  | cons e es =>
    rw [Select.projectionPieces, hitems, Outline.itemChunks]
    simp [← joinPieces_chunks, Chunk.piece, Function.comp_def]

/-- Filters begin a clause and are joined by a keyword. -/
theorem filterPieces_cons (p : Predicate) (ps : List Predicate) :
    Select.filterPieces (p :: ps) =
      .clauseBreak :: .text "WHERE " ::
        ([text " AND "].intercalate ((p :: ps).map fun p => p.condition.chunks)).map
          Chunk.piece := by
  have hfilters : (p :: ps).map Predicate.pieces =
      ((p :: ps).map fun p => p.condition.chunks).map fun part => part.map Chunk.piece := by
    simp [Predicate.pieces_eq]
  have hjoin := joinPieces_chunks [text " AND "] ((p :: ps).map fun p => p.condition.chunks)
  -- The clause and the keyword stand in front on both sides.
  rw [← hjoin, ← hfilters]
  rfl

/-- An open writer draws the filters, none included. -/
theorem draws_filterPieces (filters : List Predicate) :
    Draws (Select.filterPieces filters)
      (Outline.conditionLayout (filters.map Predicate.condition)) := by
  cases filters with
  | nil => exact Draws.nil
  | cons p ps =>
    have hclause := draws_clause "WHERE "
      ([text " AND "].intercalate ((p :: ps).map fun p => p.condition.chunks))
    rw [← filterPieces_cons] at hclause
    simpa [Outline.conditionLayout, Function.comp_def] using hclause

/-- An open writer draws a bound, a missing one included. -/
theorem draws_boundPieces (keyword : String) (bound : Option UInt64) :
    Draws (Select.boundPieces keyword bound) (Outline.boundLayout keyword bound) := by
  cases bound with
  | none => exact Draws.nil
  | some n => exact draws_clause _ []

mutual

theorem Source.begins (mode : FromMode) : ∀ s : Source,
    Begins (s.pieces mode) (s.origin mode).layout
  | .base t a => begins_chunks rfl (List.cons_ne_nil (text t.name) (aliasChunks a))
  | .derived _ q a => by
    -- The inner query begins a line of its own, where the writer is not open.
    have hnested := (q.begins mode).nested ")"
    have halias := draws_chunks (aliasChunks a)
    have hsource := (hnested.append halias).begins (show "(" ≠ "" by decide)
    simpa [Source.pieces, Source.origin, Origin.layout, inline, aliasPieces, aliasChunks,
      Chunk.piece] using hsource

/-- Any writer can draw a query. -/
theorem Select.begins (mode : FromMode) : ∀ q : Select,
    Begins (q.pieces mode) (q.outline mode).layout
  | ⟨sources, projection, filters, limit, offset⟩ => by
    have hfrom : Draws (joinPieces [.text ", "] (sourcePieces mode sources))
        ((inline [text ", "]).intercalate
          (originLayouts (mode.visible (sourceOrigins mode sources)))) := by
      -- Both sides choose the sources that are written, and the choice commutes with the maps.
      rw [sourcePieces_eq_map, sourceOrigins_eq_map, mode.visible_map, originLayouts_eq_map,
        List.map_map]
      exact Draws.intercalate (draws_chunks [text ", "]) _ _ _ fun s hs =>
        (sources_begin mode sources s (mode.mem_of_mem_visible hs)).draws
    have hclauses := (((hfrom.append (draws_filterPieces filters)).append
      (draws_boundPieces "LIMIT" limit)).append (draws_boundPieces "OFFSET" offset))
    -- Everything after the first keyword finds an open writer.
    have hitems := draws_chunks (Outline.itemChunks (projection.map Expr.item))
    have hrest := hitems.append ((draws_clause "FROM " []).append hclauses)
    have hquery := hrest.begins (show "SELECT " ≠ "" by decide)
    rw [Select.pieces, projectionPieces_eq, Select.outline, Outline.layout]
    simpa [inline, clauseLayout] using hquery

theorem sources_begin (mode : FromMode) : ∀ ss : List Source,
    ∀ s ∈ ss, Begins (s.pieces mode) (s.origin mode).layout
  | [] => fun _ hs => absurd hs List.not_mem_nil
  | s :: ss => List.forall_mem_cons.mpr ⟨s.begins mode, sources_begin mode ss⟩

end

/-! ## §6 Renderings -/

/-- Every expression is written with something. -/
theorem Bare.chunks_ne_nil (b : Bare) : b.chunks ≠ [] := by
  cases b <;> simp [Bare.chunks]

theorem Item.chunks_ne_nil (i : Item) : i.chunks ≠ [] := by
  simp [Item.chunks, i.bare.chunks_ne_nil]

theorem Test.chunks_ne_nil (t : Test) : t.chunks ≠ [] := by
  cases t <;> simp [Test.chunks, Bare.chunks]

theorem Condition.chunks_ne_nil (c : Condition) : c.chunks ≠ [] := by
  simp [Condition.chunks]

/-- Any writer turns the pieces of a node into the layout of its fragment. -/
theorem Node.begins (n : Node) (mode : FromMode) :
    Begins (n.pieces mode) (n.fragment mode).layout := by
  -- Everything but sources and queries is written on one line.
  cases n with
  | value v => exact begins_chunks rfl (Bare.literal v).chunks_ne_nil
  | column c => exact begins_chunks c.pieces_eq c.item.chunks_ne_nil
  | expr e => exact begins_chunks e.pieces_eq e.item.chunks_ne_nil
  | call f => exact begins_chunks f.toExpr.barePieces_eq f.bare.chunks_ne_nil
  | operand o => exact begins_chunks o.pieces_eq o.bare.chunks_ne_nil
  | operation o => exact begins_chunks o.pieces_eq o.test.chunks_ne_nil
  | predicate p => exact begins_chunks p.pieces_eq p.condition.chunks_ne_nil
  | source s => exact s.begins mode
  | tableExpression e => exact e.source.begins mode
  | select s => exact s.begins mode
  | query q => exact q.statement.begins mode

/-- A rendering is the text of a layout, with its values in a statement. -/
theorem render_eq_layout (n : Node) (mode : RenderMode) (settings : RenderSettings) :
    render mode settings n =
      ⟨Chunk.concat mode (Layout.chunks settings.pretty 0 (n.fragment settings.fromMode).layout),
        if mode = .literal then [] else Layout.values (n.fragment settings.fromMode).layout⟩ := by
  have hrun := n.begins settings.fromMode (Writer.start mode settings)
  calc render mode settings n
      = ((Writer.start mode settings).putAll (n.pieces settings.fromMode)).finish := rfl
    _ = ((Writer.start mode settings).extend (n.fragment settings.fromMode).layout).finish := by
        rw [hrun]
    -- An empty writer is at depth zero, so that its first line is not indented.
    _ = _ := by
        simp [Writer.extend, Writer.finish, Writer.lead, Writer.bound_eq, Writer.chunks,
          Writer.start]

end SqlSelect
