import SqlSelect.Proofs.Clauses
import SqlSelect.Proofs.Lines

/-!
# Placing a Node

A node can be rendered into a text that has already begun, at any level and in the middle of a line.
The text and the arguments are those of the node on its own, put behind what is there; only its lines
move to the level that the writer is at.  Nothing else of the writer is left changed, so that what is
written next does not depend on the node.

This complements `Lines`, which is about the lines of a query on its own.

## Main definitions

- `Shows` — pieces that show as a layout: the same texts and breaks in the same order
- `Node.lines` — the lines of a node
- `Lines.pieces` — the pieces that lines were cut from

## Main statements

- `Node.shows` — the layout of a node is its pieces, with the levels worked out
- `Node.pieces_lines` — so are its lines, cut at the breaks
- `Node.putAll_pieces` — a node in any writer is the node on its own, with its lines moved
-/

namespace SqlSelect

open Chunk (text slot separator)

/-! ## §1 Pieces and marks -/

/-- Whether a piece changes the level of the lines to come, and nothing else. -/
def Piece.changesLevel : Piece → Bool
  | indent | dedent => true
  | _ => false

/-- The piece that ends a line. -/
def LineEnd.piece : LineEnd → Piece
  | clause => .clauseBreak
  | soft => .softBreak

def Mark.piece : Mark → Piece
  | chunk t => t.piece
  | newline e _ => e.piece

/-- The pieces show as the layout does: apart from changes of the level, they are its chunks and its
line ends. -/
def Shows (ps : List Piece) (ms : List Mark) : Prop :=
  ps.filter (!·.changesLevel) = ms.map Mark.piece

theorem Shows.nil : Shows [] [] := rfl

theorem Shows.append {ps qs : List Piece} {ms ns : List Mark} (hp : Shows ps ms)
    (hq : Shows qs ns) : Shows (ps ++ qs) (ms ++ ns) := by
  rw [Shows, List.filter_append, hp, hq, List.map_append]

/-- A chunk is written at the level that the writer is at. -/
theorem Chunk.changesLevel_piece (t : Chunk) : t.piece.changesLevel = false := by
  cases t <;> rfl

/-- The pieces of chunks show as the chunks. -/
theorem shows_chunks {ps : List Piece} {ts : List Chunk} (h : ps = ts.map Chunk.piece) :
    Shows ps (inline ts) := by
  have hkeep : ∀ p ∈ ts.map Chunk.piece, (!p.changesLevel) = true := by
    simp [Chunk.changesLevel_piece]
  rw [Shows, h, List.filter_eq_self.mpr hkeep, inline, List.map_map]
  rfl

theorem shows_clause (ts : List Chunk) :
    Shows (.clauseBreak :: ts.map Chunk.piece) (clauseLayout ts) := by
  have hbreak : Shows [.clauseBreak] [.newline .clause 0] := rfl
  exact hbreak.append (shows_chunks rfl)

theorem Shows.deeper {ps : List Piece} {ms : List Mark} (h : Shows ps ms) :
    Shows ps (ms.map .deeper) := by
  have hpiece : Mark.piece ∘ Mark.deeper = Mark.piece := by
    funext m
    cases m <;> rfl
  rw [Shows, h, List.map_map, hpiece]

/-- Parts that show can show with something between them. -/
theorem Shows.intercalate {α : Type} {between : List Piece} {sep : List Mark}
    (hsep : Shows between sep) (pieces : α → List Piece) (layout : α → List Mark) (xs : List α)
    (h : ∀ x ∈ xs, Shows (pieces x) (layout x)) :
    Shows (joinPieces between (xs.map pieces)) (sep.intercalate (xs.map layout)) := by
  induction xs with
  | nil => exact .nil
  | cons x xs ih =>
    have hx := h x (List.mem_cons_self ..)
    have hxs := ih fun y hy => h y (List.mem_cons_of_mem _ hy)
    -- A part is followed by the separator and the other parts, if there are any.
    cases xs with
    | nil => simpa [joinPieces] using hx
    | cons y ys =>
      simp only [joinPieces, List.map_cons, List.intercalate_cons_cons] at hxs ⊢
      exact (hx.append hsep).append hxs

/-! ## §2 The layout of a node -/

/-- The filters show as their layout, none included. -/
theorem shows_filterPieces (filters : List Predicate) :
    Shows (Select.filterPieces filters)
      (Outline.conditionLayout (filters.map Predicate.condition)) := by
  cases filters with
  | nil => exact .nil
  | cons p ps =>
    have hclause := shows_clause
      (text "WHERE " :: [text " AND "].intercalate ((p :: ps).map fun p => p.condition.chunks))
    rw [List.map_cons, Chunk.piece, ← filterPieces_cons] at hclause
    simpa [Outline.conditionLayout, Function.comp_def] using hclause

theorem shows_boundPieces (keyword : String) (bound : Option UInt64) :
    Shows (Select.boundPieces keyword bound) (Outline.boundLayout keyword bound) := by
  cases bound with
  | none => exact .nil
  | some n => exact shows_clause [text (keyword ++ " " ++ toString n.toNat)]

mutual

/-- A source shows as its layout, the inner query one level deeper. -/
theorem Source.shows (mode : FromMode) : ∀ s : Source,
    Shows (s.pieces mode) (s.origin mode).layout
  | .base _ _ => shows_chunks rfl
  | .derived _ q a => by
    -- The level goes up before the line ends, and the layout counts it at the line end.
    have hopen : Shows [.text "(", .indent, .softBreak]
        (inline [text "("] ++ [.newline .soft 1]) := rfl
    have hclose : Shows [.dedent, .softBreak, .text ")"]
        [.newline .soft 0, .chunk (text ")")] := rfl
    have halias : Shows (aliasPieces a) (inline (aliasChunks a)) := shows_chunks rfl
    have hsource := ((hopen.append (q.shows mode).deeper).append hclose).append halias
    simpa [Source.pieces, Source.origin, Origin.layout, inline, aliasPieces, aliasChunks,
      Chunk.piece] using hsource

/-- A query shows as its layout, clause by clause. -/
theorem Select.shows (mode : FromMode) : ∀ q : Select,
    Shows (q.pieces mode) (q.outline mode).layout
  | ⟨sources, projection, filters, limit, offset⟩ => by
    have hsources : Shows (joinPieces [.text ", "] (sourcePieces mode sources))
        ((inline [text ", "]).intercalate
          (originLayouts (mode.visible (sourceOrigins mode sources)))) := by
      have hcomma : Shows [.text ", "] (inline [text ", "]) := shows_chunks rfl
      rw [sourcePieces_eq_map, sourceOrigins_eq_map, mode.visible_map, originLayouts_eq_map,
        List.map_map]
      exact hcomma.intercalate _ _ _ fun s hs =>
        sources_show mode sources s (mode.mem_of_mem_visible hs)
    -- From here on it is clause by clause, as the pieces are put together.
    have hselect : Shows (Select.projectionPieces projection)
        (inline (text "SELECT " :: Outline.itemChunks (projection.map Expr.item))) :=
      shows_chunks (projectionPieces_eq projection)
    have hfrom := (hselect.append (shows_clause [text "FROM "])).append hsources
    have hclauses := ((hfrom.append (shows_filterPieces filters)).append
      (shows_boundPieces "LIMIT" limit)).append (shows_boundPieces "OFFSET" offset)
    exact hclauses

theorem sources_show (mode : FromMode) : ∀ ss : List Source,
    ∀ s ∈ ss, Shows (s.pieces mode) (s.origin mode).layout
  | [] => fun _ hs => absurd hs List.not_mem_nil
  | s :: ss => List.forall_mem_cons.mpr ⟨s.shows mode, sources_show mode ss⟩

end

/-- The layout of a node is its pieces, with the levels worked out. -/
theorem Node.shows (n : Node) (mode : FromMode) :
    Shows (n.pieces mode) (n.fragment mode).layout := by
  cases n with
  | value v => exact shows_chunks rfl
  | column c => exact shows_chunks c.pieces_eq
  | expr e => exact shows_chunks e.pieces_eq
  | call f => exact shows_chunks f.toExpr.barePieces_eq
  | operand o => exact shows_chunks o.pieces_eq
  | operation o => exact shows_chunks o.pieces_eq
  | predicate p => exact shows_chunks p.pieces_eq
  | source s => exact s.shows mode
  | tableExpression e => exact e.source.shows mode
  | select s => exact s.shows mode
  | query q => exact q.statement.shows mode

/-! ## §3 Lines -/

/-- The pieces on a line. -/
def Line.pieces (l : Line) : List Piece := l.chunks.map Chunk.piece

/-- The pieces that lines were cut from, without those that change the level. -/
def Lines.pieces (ls : Lines) : List Piece :=
  ls.first.pieces ++ ls.rest.flatMap fun (e, l) => e.piece :: l.pieces

/-- Cutting a layout into lines keeps its chunks and its breaks. -/
theorem Layout.pieces_lines (depth : Nat) (ms : List Mark) :
    (lines depth ms).pieces = ms.map Mark.piece := by
  induction ms generalizing depth with
  | nil => rfl
  | cons m ms ih =>
    cases m with
    | chunk t => exact congrArg (t.piece :: ·) (ih depth)
    | newline e next => exact congrArg (e.piece :: ·) (ih next)

/-- The lines of a node on its own. -/
def Node.lines (mode : FromMode) (n : Node) : Lines := Layout.lines 0 (n.fragment mode).layout

/-- The lines of a node are its pieces, cut at the breaks. -/
theorem Node.pieces_lines (n : Node) (mode : FromMode) :
    (n.lines mode).pieces = (n.pieces mode).filter (!·.changesLevel) := by
  rw [Node.lines, Layout.pieces_lines, n.shows mode]

/-- The text of a layout behind the start of its first line, moved to a level. -/
theorem Layout.lead_append_concat (mode : RenderMode) (level : Nat) (atStart : Bool)
    (ms : List Mark) :
    (if atStart then blanks (4 * level) else "") ++
        Chunk.concat mode (chunks true level ms) =
      ((lines 0 ms).moved level atStart).pretty mode := by
  -- The first line is moved only where the writer is at the start of a line.
  have hfirst : blanks (4 * ((lines 0 ms).moved level atStart).first.depth) =
      if atStart then blanks (4 * level) else "" := by
    cases atStart with
    | false => simp [Lines.moved, depth_first_lines]
    | true => simp [Lines.moved, Line.moved, depth_first_lines]
  rw [Lines.pretty_eq_joined, hfirst, concat_chunks_moved mode true level 0 atStart]
  rfl

/-- On its own, a node is its lines, as the settings lay them out. -/
theorem Node.sql_eq_lines (n : Node) (mode : RenderMode) (settings : RenderSettings) :
    (render mode settings n).sql =
      if settings.pretty then (n.lines settings.fromMode).pretty mode
      else (n.lines settings.fromMode).compact mode := by
  rw [render_eq_layout]
  cases settings.pretty with
  | false =>
    exact Layout.concat_chunks mode false 0 (n.fragment settings.fromMode).layout
  | true =>
    -- The first line stands at level zero, where a lead is empty.
    have hlead := Layout.lead_append_concat mode 0 false (n.fragment settings.fromMode).layout
    rw [Lines.moved_zero, if_neg Bool.false_ne_true, String.empty_append] at hlead
    exact hlead

/-! ## §4 A node in a writer -/

/-- A node can be put into any writer.  The writer's mode, settings and level are as they were, and
its line has begun; its arguments are followed by those of the node on its own.  So is its text,
except that the lines of a pretty text move to the writer's level: those that a break of the node
begins, and the first one where the writer was at the start of a line. -/
theorem Node.putAll_pieces (n : Node) (w : Writer) :
    let after := w.putAll (n.pieces w.settings.fromMode)
    let alone := render w.mode w.settings n
    let lines := n.lines w.settings.fromMode
    (after.mode = w.mode ∧ after.settings = w.settings ∧ after.depth = w.depth) ∧
      after.atLineStart = false ∧
      after.args.toList = w.args.toList ++ alone.args ∧
      lines.pieces = (n.pieces w.settings.fromMode).filter (!·.changesLevel) ∧
      alone.sql =
        (if w.settings.pretty then lines.pretty w.mode else lines.compact w.mode) ∧
      after.sql =
        w.sql ++
          if w.settings.pretty then (lines.moved w.depth w.atLineStart).pretty w.mode
          else alone.sql := by
  intro after alone lines
  have hafter : after = w.extend (n.fragment w.settings.fromMode).layout :=
    n.begins w.settings.fromMode w
  have halone : alone = _ := render_eq_layout n w.mode w.settings
  rw [hafter]
  refine ⟨⟨rfl, rfl, rfl⟩, rfl, ?_, n.pieces_lines _, n.sql_eq_lines w.mode w.settings, ?_⟩
  · rw [halone, Writer.extend, Writer.bound_eq]
  · rw [halone, Writer.extend, String.append_assoc, Writer.lead, Writer.chunks]
    cases hpretty : w.settings.pretty with
    | false =>
      -- Nothing is indented, so the level that the layout starts at does not show.
      rw [Bool.false_and, if_neg Bool.false_ne_true, if_neg Bool.false_ne_true,
        String.empty_append, Layout.chunks_false]
    | true =>
      have hlead : (if w.atLineStart then blanks (4 * w.depth) else "") ++
          Chunk.concat w.mode
            (Layout.chunks true w.depth (n.fragment w.settings.fromMode).layout) =
          (lines.moved w.depth w.atLineStart).pretty w.mode :=
        Layout.lead_append_concat w.mode w.depth w.atLineStart _
      rw [Bool.true_and, Writer.indentation_eq_blanks, hlead, if_pos rfl]

end SqlSelect
