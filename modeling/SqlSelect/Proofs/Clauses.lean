import SqlSelect.Proofs.Drawing

/-!
# Clauses

A text that is not pretty is a formula over the clauses of its query.  The writer that makes it
decides at each break whether there is something to set apart, from what it has written before; none
of this is left in the result, whatever stands in front of it and however deep the query is nested.

## Main definitions

- `lineText` — the text of a thing on its own, when everything is on one line
- `Source.grammar`, `Select.grammar` — the formula, over the texts of items and operations
- `Layout.flat` — the text of a layout on one line

## Main statements

- `Select.flat_layout` — on one line, the layout of a query is the formula
- `Select.render_eq_grammar` — so is what is rendered, on its own or behind any other text
-/

namespace SqlSelect

open Chunk (text slot separator)

/-! ## §1 The grammar -/

/-- The text of a thing on its own, when everything is on one line. -/
def lineText {α : Type} [Renderable α] (mode : RenderMode) (fromMode : FromMode) (x : α) : String :=
  (render mode ⟨false, fromMode⟩ x).sql

section Grammar

variable (mode : RenderMode) (fromMode : FromMode)

/-- The projection: a star, or the items. -/
def projectionGrammar (items : List Expr) : String :=
  if items.isEmpty then "*" else ", ".intercalate (items.map (lineText mode fromMode))

/-- A predicate: the qualified column, and the operation. -/
def Predicate.grammar (p : Predicate) : String :=
  p.column.aliasName ++ "." ++ p.column.column.name ++ " " ++ lineText mode fromMode p.operation

/-- The filters, if there are any. -/
def filterGrammar (filters : List Predicate) : String :=
  if filters.isEmpty then ""
  else " WHERE " ++ " AND ".intercalate (filters.map (Predicate.grammar mode fromMode))

/-- A bound on the rows, if there is one. -/
def boundGrammar (keyword : String) : Option UInt64 → String
  | some n => " " ++ keyword ++ " " ++ toString n.toNat
  | none => ""

mutual

/-- A source: the name of a table, or a query in parentheses, and the alias. -/
def Source.grammar : Source → String
  | .base t a => t.name ++ " AS " ++ a
  | .derived _ q a => "(" ++ q.grammar ++ ") AS " ++ a

/-- A query: one clause after another. -/
def Select.grammar : Select → String
  | ⟨sources, projection, filters, limit, offset⟩ =>
    "SELECT " ++ projectionGrammar mode fromMode projection ++
      " FROM " ++ ", ".intercalate (fromMode.visible (sourceGrammars sources)) ++
      filterGrammar mode fromMode filters ++
      boundGrammar "LIMIT" limit ++
      boundGrammar "OFFSET" offset

def sourceGrammars : List Source → List String
  | [] => []
  | s :: ss => s.grammar :: sourceGrammars ss

end

end Grammar

/-! ## §2 Texts on one line -/

/-- What turns appending into appending turns joining into joining. -/
theorem map_intercalate {α : Type} {f : List α → String} (hnil : f [] = "")
    (happend : ∀ xs ys, f (xs ++ ys) = f xs ++ f ys) (sep : List α) (parts : List (List α)) :
    f (sep.intercalate parts) = (f sep).intercalate (parts.map f) := by
  induction parts with
  | nil => simpa using hnil
  | cons part rest ih =>
    -- A separator stands only between two parts, so the rest is split once more.
    cases rest with
    | nil => simp
    | cons next rest =>
      rw [List.intercalate_cons_cons, happend, happend, ih]
      simp only [List.map_cons, String.intercalate_cons_cons]

namespace Layout

/-- The text of a layout on one line. -/
def flat (mode : RenderMode) (ms : List Mark) : String := Chunk.concat mode (chunks false 0 ms)

theorem chunks_false (base : Nat) (ms : List Mark) : chunks false base ms = chunks false 0 ms := by
  have hmark : Mark.chunks false base = Mark.chunks false 0 := by
    funext m
    cases m <;> rfl
  rw [chunks, hmark, chunks]

variable (mode : RenderMode)

@[simp]
theorem flat_append (ms ns : List Mark) : flat mode (ms ++ ns) = flat mode ms ++ flat mode ns := by
  simp [flat]

@[simp]
theorem flat_newline (e : LineEnd) (depth : Nat) (ms : List Mark) :
    flat mode (.newline e depth :: ms) = e.gap ++ flat mode ms := by
  simp [flat, Mark.chunks]

@[simp]
theorem flat_deeper (ms : List Mark) : flat mode (ms.map .deeper) = flat mode ms := by
  rw [flat, chunks_deeper, chunks_false, flat]

@[simp]
theorem flat_inline (ts : List Chunk) : flat mode (inline ts) = Chunk.concat mode ts := by
  rw [flat, chunks_inline]

theorem flat_intercalate (sep : List Mark) (parts : List (List Mark)) :
    flat mode (sep.intercalate parts) = (flat mode sep).intercalate (parts.map (flat mode)) :=
  map_intercalate (by simp [flat]) (flat_append mode) sep parts

end Layout

theorem Chunk.concat_intercalate (mode : RenderMode) (sep : List Chunk)
    (parts : List (List Chunk)) :
    concat mode (sep.intercalate parts) = (concat mode sep).intercalate (parts.map (concat mode)) :=
  map_intercalate (concat_nil mode) (concat_append mode) sep parts

/-! ## §3 The clauses of a layout -/

section Clauses

variable (mode : RenderMode) (fromMode : FromMode)

/-- A node on its own is the layout of its fragment, on one line. -/
theorem lineText_eq_flat (n : Node) :
    lineText mode fromMode n = Layout.flat mode (n.fragment fromMode).layout := by
  rw [lineText, render_eq_layout]
  rfl

/-- An expression on its own is written as a projection item. -/
theorem Expr.lineText_eq (e : Expr) :
    lineText mode fromMode e = Chunk.concat mode e.item.chunks :=
  (lineText_eq_flat mode fromMode (.expr e)).trans (Layout.flat_inline mode _)

/-- An operation on its own is written as its test. -/
theorem Operation.lineText_eq (o : Operation) :
    lineText mode fromMode o = Chunk.concat mode o.test.chunks :=
  (lineText_eq_flat mode fromMode (.operation o)).trans (Layout.flat_inline mode _)

/-- The projection of a layout is that of the formula. -/
theorem concat_itemChunks (items : List Expr) :
    Chunk.concat mode (Outline.itemChunks (items.map Expr.item)) =
      projectionGrammar mode fromMode items := by
  have hitems : items.map (lineText mode fromMode) =
      (items.map fun e => e.item.chunks).map (Chunk.concat mode) := by
    rw [List.map_map]
    exact List.map_congr_left fun e _ => e.lineText_eq mode fromMode
  -- An empty projection is a star on both sides; otherwise the items are joined.
  cases items with
  | nil => simp [Outline.itemChunks, projectionGrammar]
  | cons e es =>
    rw [projectionGrammar, hitems, Outline.itemChunks]
    simp [Chunk.concat_intercalate, Function.comp_def]

theorem Predicate.concat_chunks (p : Predicate) :
    Chunk.concat mode p.condition.chunks = p.grammar mode fromMode := by
  rw [Predicate.grammar, Operation.lineText_eq, Condition.chunks]
  simp [Predicate.condition, String.append_assoc]

/-- The filters of a layout are those of the formula, with the gap in front of their keyword. -/
theorem flat_conditionLayout (filters : List Predicate) :
    Layout.flat mode (Outline.conditionLayout (filters.map Predicate.condition)) =
      filterGrammar mode fromMode filters := by
  have hfilters : filters.map (Predicate.grammar mode fromMode) =
      (filters.map fun p => p.condition.chunks).map (Chunk.concat mode) := by
    rw [List.map_map]
    exact List.map_congr_left fun p _ => (p.concat_chunks mode fromMode).symm
  cases filters with
  | nil => rfl
  | cons p ps =>
    -- The break leaves the space that the keyword begins with in the formula.
    rw [filterGrammar, hfilters, Outline.conditionLayout]
    simp [clauseLayout, LineEnd.gap, Chunk.concat_intercalate, Function.comp_def,
      ← String.append_assoc]

theorem flat_boundLayout (keyword : String) (bound : Option UInt64) :
    Layout.flat mode (Outline.boundLayout keyword bound) = boundGrammar keyword bound := by
  cases bound with
  | none => rfl
  | some n => simp [Outline.boundLayout, boundGrammar, clauseLayout, LineEnd.gap, String.append_assoc]

mutual

/-- On one line, the layout of a source is the formula over its query. -/
theorem Source.flat_layout : ∀ s : Source,
    Layout.flat mode (s.origin fromMode).layout = s.grammar mode fromMode
  | .base t a => by
    rw [Source.origin, Origin.layout, Layout.flat_inline, Source.grammar]
    simp [aliasChunks, String.append_assoc]
  | .derived _ q a => by
    have hinner := q.flat_layout
    -- The line ends around the inner query leave nothing on one line.
    rw [Source.origin, Origin.layout, Source.grammar, ← hinner]
    simp [aliasChunks, LineEnd.gap, ← String.append_assoc]

/-- On one line, the layout of a query is the formula over its clauses. -/
theorem Select.flat_layout : ∀ q : Select,
    Layout.flat mode (q.outline fromMode).layout = q.grammar mode fromMode
  | ⟨sources, projection, filters, limit, offset⟩ => by
    have hsources := flat_sourceLayouts sources
    -- The sources that are written are chosen before their texts or after, to the same effect.
    have hfrom : (originLayouts (fromMode.visible (sourceOrigins fromMode sources))).map
        (Layout.flat mode) = fromMode.visible (sourceGrammars mode fromMode sources) := by
      rw [← hsources, originLayouts_eq_map, originLayouts_eq_map, fromMode.visible_map,
        fromMode.visible_map]
    rw [Select.outline, Outline.layout, Select.grammar, ← hfrom, ← concat_itemChunks,
      ← flat_conditionLayout, ← flat_boundLayout mode, ← flat_boundLayout mode]
    simp [clauseLayout, LineEnd.gap, Layout.flat_intercalate, ← String.append_assoc]

/-- So it is for each source of a list. -/
theorem flat_sourceLayouts : ∀ ss : List Source,
    (originLayouts (sourceOrigins fromMode ss)).map (Layout.flat mode) =
      sourceGrammars mode fromMode ss
  | [] => rfl
  | s :: ss => by
    rw [sourceOrigins, originLayouts, List.map_cons, s.flat_layout, flat_sourceLayouts ss,
      sourceGrammars]

end

end Clauses

/-! ## §4 Renderings -/

/-- Behind any text, in a writer in any state, a query adds its formula and nothing else. -/
theorem Select.sql_putAll (q : Select) (w : Writer) (hw : w.settings.pretty = false) :
    (w.putAll (q.pieces w.settings.fromMode)).sql =
      w.sql ++ q.grammar w.mode w.settings.fromMode := by
  have hlead : w.lead = "" := by simp [Writer.lead, hw]
  -- Nothing is indented on one line, so that the writer's depth is not to be seen.
  rw [q.begins w.settings.fromMode w, ← q.flat_layout, Layout.flat, ← Layout.chunks_false w.depth]
  simp [Writer.extend, Writer.chunks, hlead, hw]

/-- What is rendered on one line is the formula: of a query and of a source on its own, and of a
query behind any other text, whatever the state of the writer. -/
theorem Select.render_eq_grammar (q : Select) (mode : RenderMode) (fromMode : FromMode) :
    (render mode ⟨false, fromMode⟩ q).sql = q.grammar mode fromMode ∧
      (∀ s : Source, (render mode ⟨false, fromMode⟩ s).sql = s.grammar mode fromMode) ∧
      ∀ (sql : String) (args : Array Value) (depth : Nat) (atLineStart : Bool),
        ((Writer.mk mode ⟨false, fromMode⟩ sql args depth atLineStart).putAll
          (q.pieces fromMode)).sql = sql ++ q.grammar mode fromMode := by
  -- A fresh writer first, for a query and for a source; then a query behind any text.
  refine ⟨?_, fun s => ?_, fun sql args depth atLineStart => ?_⟩
  · exact (lineText_eq_flat mode fromMode (.select q)).trans (q.flat_layout mode fromMode)
  · exact (lineText_eq_flat mode fromMode (.source s)).trans (s.flat_layout mode fromMode)
  · exact q.sql_putAll ⟨mode, ⟨false, fromMode⟩, sql, args, depth, atLineStart⟩ rfl

/-- Clauses that are there and clauses that are not, in a query and in the query that it reads. -/
example :
    let posts : Table := ⟨"Post", "posts", [("id", .plain "id" "posts")]⟩
    let numbered : Predicate := ⟨⟨"P", .plain "id" "posts", none⟩, .isNull true⟩
    let inner : Select := ⟨[.base posts "P"], [], [numbered, numbered], some 3, none⟩
    Select.grammar .literal .firstOnly
        ⟨[.derived posts inner "D"], [.literal (.integer 7)], [], none, some 5⟩ =
      "SELECT 7 FROM (SELECT * FROM posts AS P WHERE " ++
        "P.id IS NOT NULL AND P.id IS NOT NULL LIMIT 3) AS D OFFSET 5" := by
  decide

end SqlSelect
