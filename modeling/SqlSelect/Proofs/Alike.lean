import Mathlib.Data.List.Forall2
import SqlSelect.Proofs.Literals
import SqlSelect.Proofs.Modes

/-!
# Alike Nodes

Two nodes are alike if they differ in nothing but their literals and what is never written: fields,
owning tables and other metadata of columns, identifiers and columns of tables, and output aliases
away from the projection.  Alike nodes have the same statement, so neither a literal nor unwritten
data can be learned from its text.

The relation takes a relation `R` between values and asks for it at each pair of literals in the
same place.  What `R` is does not matter for the texts; that it comes out between the arguments, one
by one, says that the arguments stand in the same places too.

## Main definitions

- `Expr.Alike`, `Predicate.Alike`, `Select.Alike`, `Node.Alike` — alike things, with `R` between
  literals
- `Expr.AlikeItem` — expressions that are alike as projection items, where an output alias counts
- `Chunk.Alike` — the same text, or places for values that `R` relates

## Main statements

- `Select.Alike.layout` — alike queries have layouts that are alike
- `Node.alike_mapLiterals` — replacing literals gives a node that is alike
- `Node.Alike.sql_eq_and_args_related` — one statement, and arguments that `R` relates
-/

namespace SqlSelect

open Chunk (text slot separator)

/-! ## §1 Alike things -/

/-- Columns that are written alike, their output aliases apart. -/
structure ColumnRef.Alike (c d : ColumnRef) : Prop where
  aliasName : c.aliasName = d.aliasName
  name : c.column.name = d.column.name

section Relation

variable (R : Value → Value → Prop)

mutual

/-- Expressions that are alike as operands, where no output alias is written. -/
inductive Expr.Alike : Expr → Expr → Prop where
  | column {c d : ColumnRef} (h : c.Alike d) : Expr.Alike (.column c) (.column d)
  | call (name : String) {os ps : List Operand} (h : OperandsAlike os ps) :
      Expr.Alike (.call name os) (.call name ps)
  | aliasedLeft {e d : Expr} (h : Expr.Alike e d) (a : String) : Expr.Alike (.aliased e a) d
  | aliasedRight {e d : Expr} (h : Expr.Alike e d) (a : String) : Expr.Alike e (.aliased d a)
  | literal {v w : Value} (h : R v w) : Expr.Alike (.literal v) (.literal w)

inductive Operand.Alike : Operand → Operand → Prop where
  | literal {v w : Value} (h : R v w) : Operand.Alike (.literal v) (.literal w)
  | expr {e d : Expr} (h : Expr.Alike e d) : Operand.Alike (.expr e) (.expr d)

inductive OperandsAlike : List Operand → List Operand → Prop where
  | nil : OperandsAlike [] []
  | cons {o p : Operand} {os ps : List Operand} (h : Operand.Alike o p)
      (hs : OperandsAlike os ps) : OperandsAlike (o :: os) (p :: ps)

end

/-- Expressions that are alike as projection items, with the output alias that is written. -/
structure Expr.AlikeItem (e d : Expr) : Prop where
  bare : e.Alike R d
  output : e.output? = d.output?

/-- Operations with the same operator and operands that are alike. -/
inductive Operation.Alike : Operation → Operation → Prop where
  | compare (op : Comparison) {o p : Operand} (h : o.Alike R p) :
      Operation.Alike (.compare op o) (.compare op p)
  | isIn (negated : Bool) {os ps : List Operand} (h : OperandsAlike R os ps) :
      Operation.Alike (.isIn negated os) (.isIn negated ps)
  | isNull (negated : Bool) : Operation.Alike (.isNull negated) (.isNull negated)
  | call (name : String) {os ps : List Operand} (h : OperandsAlike R os ps) :
      Operation.Alike (.call ⟨name, os⟩) (.call ⟨name, ps⟩)

structure Predicate.Alike (p q : Predicate) : Prop where
  column : p.column.Alike q.column
  operation : p.operation.Alike R q.operation

mutual

/-- Sources under one alias: tables of one name, or inner queries that are alike. -/
inductive Source.Alike : Source → Source → Prop where
  | base {t u : Table} (h : t.name = u.name) (a : String) :
      Source.Alike (.base t a) (.base u a)
  | derived (shape shape' : Table) {q r : Select} (h : Select.Alike q r) (a : String) :
      Source.Alike (.derived shape q a) (.derived shape' r a)

/-- Queries with the same bounds that are alike clause by clause. -/
inductive Select.Alike : Select → Select → Prop where
  | mk {sources sources' : List Source} {projection projection' : List Expr}
      {filters filters' : List Predicate} (hsources : SourcesAlike sources sources')
      (hprojection : List.Forall₂ (Expr.AlikeItem R) projection projection')
      (hfilters : List.Forall₂ (Predicate.Alike R) filters filters')
      (limit offset : Option UInt64) :
      Select.Alike ⟨sources, projection, filters, limit, offset⟩
        ⟨sources', projection', filters', limit, offset⟩

inductive SourcesAlike : List Source → List Source → Prop where
  | nil : SourcesAlike [] []
  | cons {s t : Source} {ss ts : List Source} (h : Source.Alike s t) (hs : SourcesAlike ss ts) :
      SourcesAlike (s :: ss) (t :: ts)

end

/-- Nodes of one kind that are alike.  Columns and expressions count as projection items. -/
inductive Node.Alike : Node → Node → Prop where
  | value {v w : Value} (h : R v w) : Node.Alike (.value v) (.value w)
  | column {c d : ColumnRef} (h : c.Alike d) (houtput : c.output = d.output) :
      Node.Alike (.column c) (.column d)
  | expr {e d : Expr} (h : e.AlikeItem R d) : Node.Alike (.expr e) (.expr d)
  | call (name : String) {os ps : List Operand} (h : OperandsAlike R os ps) :
      Node.Alike (.call ⟨name, os⟩) (.call ⟨name, ps⟩)
  | operand {o p : Operand} (h : o.Alike R p) : Node.Alike (.operand o) (.operand p)
  | operation {o p : Operation} (h : o.Alike R p) : Node.Alike (.operation o) (.operation p)
  | predicate {p q : Predicate} (h : p.Alike R q) : Node.Alike (.predicate p) (.predicate q)
  | source {s t : Source} (h : s.Alike R t) : Node.Alike (.source s) (.source t)
  | tableExpression {e d : TableExpression} (h : e.source.Alike R d.source) :
      Node.Alike (.tableExpression e) (.tableExpression d)
  | select {q r : Select} (h : q.Alike R r) : Node.Alike (.select q) (.select r)
  | query {q r : Query} (h : q.statement.Alike R r.statement) : Node.Alike (.query q) (.query r)

/-- The same text, or places for values that `R` relates. -/
inductive Chunk.Alike : Chunk → Chunk → Prop where
  | text (s : String) : Chunk.Alike (.text s) (.text s)
  | slot {v w : Value} (h : R v w) : Chunk.Alike (.slot v) (.slot w)
  | separator : Chunk.Alike .separator .separator

/-- Chunks that are alike, or the same line end. -/
inductive Mark.Alike : Mark → Mark → Prop where
  | chunk {t u : Chunk} (h : t.Alike R u) : Mark.Alike (.chunk t) (.chunk u)
  | newline (lineEnd : LineEnd) (depth : Nat) :
      Mark.Alike (.newline lineEnd depth) (.newline lineEnd depth)

end Relation

/-! ## §2 Chunks of alike things -/

section Chunks

variable {R : Value → Value → Prop}

/-- Parts that correspond, joined by separators that correspond, correspond as a whole. -/
theorem forall₂_intercalate {α β : Type} {S : α → β → Prop} {sep : List α} {sep' : List β}
    (hsep : List.Forall₂ S sep sep') {parts : List (List α)} {parts' : List (List β)}
    (h : List.Forall₂ (List.Forall₂ S) parts parts') :
    List.Forall₂ S (sep.intercalate parts) (sep'.intercalate parts') := by
  induction h with
  | nil => exact .nil
  | cons hpart hrest ih =>
    -- A separator stands only where one more part follows.
    cases hrest with
    | nil => simpa using hpart
    | cons hnext hrest =>
      rw [List.intercalate_cons_cons, List.intercalate_cons_cons]
      exact List.rel_append (List.rel_append hpart hsep) ih

theorem Chunk.alike_texts (ss : List String) :
    List.Forall₂ (Chunk.Alike R) (ss.map Chunk.text) (ss.map Chunk.text) := by
  rw [List.forall₂_map_left_iff, List.forall₂_map_right_iff, List.forall₂_same]
  exact fun s _ => .text s

/-- Of a column only the alias and the SQL name are written, so that its other data is free. -/
theorem ColumnRef.Alike.chunks {c d : ColumnRef} (h : c.Alike d) :
    List.Forall₂ (Chunk.Alike R) (Bare.column c.aliasName c.column.name).chunks
      (Bare.column d.aliasName d.column.name).chunks := by
  -- After rewriting, both sides are the same texts.
  rw [h.aliasName, h.name]
  exact Chunk.alike_texts [d.aliasName, ".", d.column.name]

mutual

/-- Alike expressions have chunks that are alike: an alias that is peeled off leaves no chunk. -/
theorem Expr.Alike.chunks {e d : Expr} : e.Alike R d →
    List.Forall₂ (Chunk.Alike R) e.bare.chunks d.bare.chunks
  | .column h => h.chunks
  | .call name h => h.chunks_call name
  | .aliasedLeft h _ => h.chunks
  | .aliasedRight h _ => h.chunks
  | .literal h => .cons (.slot h) .nil

theorem Operand.Alike.chunks {o p : Operand} : o.Alike R p →
    List.Forall₂ (Chunk.Alike R) o.bare.chunks p.bare.chunks
  | .literal h => .cons (.slot h) .nil
  | .expr h => h.chunks

theorem OperandsAlike.parts {os ps : List Operand} : OperandsAlike R os ps →
    List.Forall₂ (List.Forall₂ (Chunk.Alike R)) (bareChunks (bareOperands os))
      (bareChunks (bareOperands ps))
  | .nil => .nil
  | .cons h hs => .cons h.chunks hs.parts

/-- A call is written alike for alike operands: the name, the parentheses and the separators are
fixed, and there are as many operands on both sides. -/
theorem OperandsAlike.chunks_call {os ps : List Operand} (name : String) :
    OperandsAlike R os ps →
    List.Forall₂ (Chunk.Alike R) (Bare.call name (bareOperands os)).chunks
      (Bare.call name (bareOperands ps)).chunks := by
  intro h
  -- The separators are chunks too, and alike without any condition.
  have hjoined := forall₂_intercalate (.cons .separator .nil) h.parts
  exact List.rel_append (List.rel_append (Chunk.alike_texts [name, "("]) hjoined)
    (Chunk.alike_texts [")"])

end

/-- A projection item is its bare form and, behind it, the output alias that both sides share. -/
theorem Item.alike_chunks {i j : Item}
    (hbare : List.Forall₂ (Chunk.Alike R) i.bare.chunks j.bare.chunks)
    (houtput : i.output = j.output) : List.Forall₂ (Chunk.Alike R) i.chunks j.chunks := by
  obtain ⟨b, output⟩ := i
  obtain ⟨b', output'⟩ := j
  obtain rfl : output = output' := houtput
  -- The alias is written on both sides or on neither.
  cases output with
  | none => exact List.rel_append hbare .nil
  | some a => exact List.rel_append hbare (Chunk.alike_texts [" AS ", a])

theorem Expr.AlikeItem.chunks {e d : Expr} (h : e.AlikeItem R d) :
    List.Forall₂ (Chunk.Alike R) e.item.chunks d.item.chunks :=
  Item.alike_chunks h.bare.chunks h.output

/-- Operations with the same operator are written alike. -/
theorem Operation.Alike.chunks {o p : Operation} (h : o.Alike R p) :
    List.Forall₂ (Chunk.Alike R) o.test.chunks p.test.chunks := by
  cases h with
  | compare op h => exact List.rel_append (Chunk.alike_texts [op.symbol, " "]) h.chunks
  | isIn negated h =>
    -- The keyword is chosen by the flag, which both sides share.
    have hjoined := forall₂_intercalate (.cons .separator .nil) h.parts
    rw [bareOperands_eq_map, bareOperands_eq_map] at hjoined
    exact List.rel_append (List.rel_append (Chunk.alike_texts [_]) hjoined)
      (Chunk.alike_texts [")"])
  | isNull negated => exact Chunk.alike_texts [_]
  | call name h => exact h.chunks_call name

/-- Predicates are written alike: a column, and behind it the operation. -/
theorem Predicate.Alike.chunks {p q : Predicate} (h : p.Alike R q) :
    List.Forall₂ (Chunk.Alike R) p.condition.chunks q.condition.chunks := by
  -- The column is written the same on both sides, whatever its metadata.
  have hcolumn : List.Forall₂ (Chunk.Alike R)
      [text p.column.aliasName, text ".", text p.column.column.name, text " "]
      [text q.column.aliasName, text ".", text q.column.column.name, text " "] := by
    rw [h.column.aliasName, h.column.name]
    exact Chunk.alike_texts [_, ".", _, " "]
  exact List.rel_append hcolumn h.operation.chunks

/-! ## §3 Layouts of alike things -/

theorem alike_inline {ts us : List Chunk} (h : List.Forall₂ (Chunk.Alike R) ts us) :
    List.Forall₂ (Mark.Alike R) (inline ts) (inline us) := by
  rw [inline, inline, List.forall₂_map_left_iff, List.forall₂_map_right_iff]
  exact h.imp fun _ _ => .chunk

theorem alike_clauseLayout {ts us : List Chunk} (h : List.Forall₂ (Chunk.Alike R) ts us) :
    List.Forall₂ (Mark.Alike R) (clauseLayout ts) (clauseLayout us) :=
  .cons (.newline .clause 0) (alike_inline h)

/-- Going one level deeper moves the line ends of both layouts by the same amount. -/
theorem alike_deeper {ms ns : List Mark} (h : List.Forall₂ (Mark.Alike R) ms ns) :
    List.Forall₂ (Mark.Alike R) (ms.map .deeper) (ns.map .deeper) := by
  rw [List.forall₂_map_left_iff, List.forall₂_map_right_iff]
  refine h.imp fun m n hmn => ?_
  cases hmn with
  | chunk h => exact .chunk h
  | newline lineEnd depth => exact .newline lineEnd (depth + 1)

/-- Projections of the same length are written alike, item by item. -/
theorem alike_itemChunks {es ds : List Expr} (h : List.Forall₂ (Expr.AlikeItem R) es ds) :
    List.Forall₂ (Chunk.Alike R) (Outline.itemChunks (es.map Expr.item))
      (Outline.itemChunks (ds.map Expr.item)) := by
  have hitems : List.Forall₂ (List.Forall₂ (Chunk.Alike R))
      ((es.map Expr.item).map Item.chunks) ((ds.map Expr.item).map Item.chunks) := by
    simp only [List.forall₂_map_left_iff, List.forall₂_map_right_iff]
    exact h.imp fun _ _ => Expr.AlikeItem.chunks
  -- A star stands on both sides or on neither.
  cases h with
  | nil => exact Chunk.alike_texts ["*"]
  | cons _ _ => exact forall₂_intercalate (Chunk.alike_texts [", "]) hitems

/-- Filters of the same number are written alike; without filters there is no clause on either side.
-/
theorem alike_conditionLayout {ps qs : List Predicate}
    (h : List.Forall₂ (Predicate.Alike R) ps qs) :
    List.Forall₂ (Mark.Alike R) (Outline.conditionLayout (ps.map Predicate.condition))
      (Outline.conditionLayout (qs.map Predicate.condition)) := by
  have hconditions : List.Forall₂ (List.Forall₂ (Chunk.Alike R))
      ((ps.map Predicate.condition).map Condition.chunks)
      ((qs.map Predicate.condition).map Condition.chunks) := by
    simp only [List.forall₂_map_left_iff, List.forall₂_map_right_iff]
    exact h.imp fun _ _ => Predicate.Alike.chunks
  -- There is a clause on both sides or on neither.
  cases h with
  | nil => exact .nil
  | cons _ _ =>
    exact alike_clauseLayout (.cons (.text "WHERE ")
      (forall₂_intercalate (Chunk.alike_texts [" AND "]) hconditions))

theorem alike_boundLayout (keyword : String) (bound : Option UInt64) :
    List.Forall₂ (Mark.Alike R) (Outline.boundLayout keyword bound)
      (Outline.boundLayout keyword bound) := by
  cases bound with
  | none => exact .nil
  | some n => exact alike_clauseLayout (Chunk.alike_texts [_])

/-- Which sources are written depends on their number alone, so that sources which correspond are
chosen together. -/
theorem FromMode.visible_forall₂ {α β : Type} {S : α → β → Prop} (mode : FromMode) {xs : List α}
    {ys : List β} (h : List.Forall₂ S xs ys) :
    List.Forall₂ S (mode.visible xs) (mode.visible ys) := by
  cases mode with
  | firstOnly => exact List.forall₂_take 1 h
  | allSources => exact h

mutual

/-- Alike sources have layouts that are alike: the shape of a derived one is never written. -/
theorem Source.Alike.layout (mode : FromMode) {s t : Source} : s.Alike R t →
    List.Forall₂ (Mark.Alike R) (s.origin mode).layout (t.origin mode).layout
  | .base h a => by
    simp only [Source.origin, h]
    exact alike_inline (Chunk.alike_texts [_, " AS ", a])
  | .derived _ _ h a => by
    -- The parentheses are on lines of their own, and the query between them is one level deeper.
    have hinner := alike_deeper (h.layout mode)
    have hopen : List.Forall₂ (Mark.Alike R) (inline [text "("]) (inline [text "("]) :=
      alike_inline (Chunk.alike_texts ["("])
    have hclose := alike_inline (R := R) (Chunk.alike_texts [")", " AS ", a])
    exact List.rel_append (List.rel_append hopen (.cons (.newline .soft 1) hinner))
      (.cons (.newline .soft 0) hclose)

/-- Alike queries have layouts that are alike. -/
theorem Select.Alike.layout (mode : FromMode) {q r : Select} : q.Alike R r →
    List.Forall₂ (Mark.Alike R) (q.outline mode).layout (r.outline mode).layout
  | .mk hsources hprojection hfilters limit offset => by
    -- Clause by clause, in the order of the layout.
    have hitems := alike_inline (.cons (.text "SELECT ") (alike_itemChunks hprojection))
    have hfrom : List.Forall₂ (Mark.Alike R) (clauseLayout [text "FROM "])
        (clauseLayout [text "FROM "]) := alike_clauseLayout (Chunk.alike_texts ["FROM "])
    -- The sources that are written are chosen by their places alone.
    have hwritten := mode.visible_forall₂ (hsources.layouts mode)
    simp only [originLayouts_eq_map, mode.visible_map] at hwritten
    simp only [← originLayouts_eq_map] at hwritten
    have horigins := forall₂_intercalate (alike_inline (Chunk.alike_texts [", "])) hwritten
    exact List.rel_append (List.rel_append (List.rel_append
      (List.rel_append (List.rel_append hitems hfrom) horigins)
      (alike_conditionLayout hfilters)) (alike_boundLayout "LIMIT" limit))
      (alike_boundLayout "OFFSET" offset)

theorem SourcesAlike.layouts (mode : FromMode) {ss ts : List Source} : SourcesAlike R ss ts →
    List.Forall₂ (List.Forall₂ (Mark.Alike R)) (originLayouts (sourceOrigins mode ss))
      (originLayouts (sourceOrigins mode ts))
  | .nil => .nil
  | .cons h hs => .cons (h.layout mode) (hs.layouts mode)

end

/-- Alike nodes of any kind have layouts that are alike. -/
theorem Node.Alike.layout (mode : FromMode) {m n : Node} (h : m.Alike R n) :
    List.Forall₂ (Mark.Alike R) (m.fragment mode).layout (n.fragment mode).layout := by
  cases h with
  -- A bare literal is one slot.
  | value h => exact alike_inline (.cons (.slot h) .nil)
  | column h houtput => exact alike_inline (Item.alike_chunks h.chunks houtput)
  | expr h => exact alike_inline h.chunks
  | call name h => exact alike_inline (h.chunks_call name)
  | operand h => exact alike_inline h.chunks
  | operation h => exact alike_inline h.chunks
  | predicate h => exact alike_inline h.chunks
  | source h => exact h.layout mode
  | tableExpression h => exact h.layout mode
  | select h => exact h.layout mode
  | query h => exact h.layout mode

/-- Layouts that are alike stay so once the settings are known. -/
theorem alike_chunks {ms ns : List Mark} (pretty : Bool) (base : Nat)
    (h : List.Forall₂ (Mark.Alike R) ms ns) :
    List.Forall₂ (Chunk.Alike R) (Layout.chunks pretty base ms)
      (Layout.chunks pretty base ns) := by
  refine List.rel_flatMap h fun m n hmn => ?_
  cases hmn with
  | chunk h => exact .cons h .nil
  | newline lineEnd depth =>
    -- A line end has become texts, which are the same on both sides.
    cases pretty with
    | false => exact Chunk.alike_texts [_]
    | true => exact Chunk.alike_texts ["\n", _]

/-- Alike nodes are written with chunks that are alike, under any settings. -/
theorem Node.Alike.chunks {m n : Node} (h : m.Alike R n) (settings : RenderSettings) :
    List.Forall₂ (Chunk.Alike R) (m.chunks settings) (n.chunks settings) :=
  alike_chunks settings.pretty 0 (h.layout settings.fromMode)

end Chunks

/-! ## §4 Replacing literals -/

section Replace

variable (f : Value → Value)

mutual

/-- An expression is alike to itself with its literals replaced. -/
theorem Expr.alike_mapLiterals : ∀ e : Expr, e.Alike (fun v w => w = f v) (e.mapLiterals f)
  | .column _ => .column ⟨rfl, rfl⟩
  | .call name args => .call name (operandsAlike_mapLiterals args)
  | .aliased e a => .aliasedLeft (.aliasedRight e.alike_mapLiterals a) a
  | .literal _ => .literal rfl

theorem Operand.alike_mapLiterals : ∀ o : Operand, o.Alike (fun v w => w = f v) (o.mapLiterals f)
  | .literal _ => .literal rfl
  | .expr e => .expr e.alike_mapLiterals

theorem operandsAlike_mapLiterals : ∀ os : List Operand,
    OperandsAlike (fun v w => w = f v) os (mapOperandLiterals f os)
  | [] => .nil
  | o :: os => .cons o.alike_mapLiterals (operandsAlike_mapLiterals os)

end

/-- Replacing literals keeps the output alias of a projection item. -/
theorem Expr.alikeItem_mapLiterals (e : Expr) :
    e.AlikeItem (fun v w => w = f v) (e.mapLiterals f) := by
  refine ⟨e.alike_mapLiterals f, ?_⟩
  cases e <;> rfl

/-- Replacing literals keeps the operator. -/
theorem Operation.alike_mapLiterals (o : Operation) :
    o.Alike (fun v w => w = f v) (o.mapLiterals f) := by
  cases o with
  | compare op operand => exact .compare op (operand.alike_mapLiterals f)
  | isIn negated operands => exact .isIn negated (operandsAlike_mapLiterals f operands)
  | isNull negated => exact .isNull negated
  | call c => exact .call c.name (operandsAlike_mapLiterals f c.args)

theorem Predicate.alike_mapLiterals (p : Predicate) :
    p.Alike (fun v w => w = f v) (p.mapLiterals f) :=
  ⟨⟨rfl, rfl⟩, p.operation.alike_mapLiterals f⟩

mutual

theorem Source.alike_mapLiterals : ∀ s : Source, s.Alike (fun v w => w = f v) (s.mapLiterals f)
  | .base _ a => .base rfl a
  | .derived shape q a => .derived shape shape q.alike_mapLiterals a

/-- Replacing literals keeps the clauses and the bounds of a query. -/
theorem Select.alike_mapLiterals : ∀ q : Select, q.Alike (fun v w => w = f v) (q.mapLiterals f)
  | ⟨sources, projection, filters, limit, offset⟩ => by
    refine .mk (sourcesAlike_mapLiterals sources) ?_ ?_ limit offset
    · rw [List.forall₂_map_right_iff, List.forall₂_same]
      exact fun e _ => e.alikeItem_mapLiterals f
    · rw [List.forall₂_map_right_iff, List.forall₂_same]
      exact fun p _ => p.alike_mapLiterals f

theorem sourcesAlike_mapLiterals : ∀ ss : List Source,
    SourcesAlike (fun v w => w = f v) ss (mapSourceLiterals f ss)
  | [] => .nil
  | s :: ss => .cons s.alike_mapLiterals (sourcesAlike_mapLiterals ss)

end

/-- Literals can be replaced before or after a table expression becomes a source. -/
theorem TableExpression.source_mapLiterals (e : TableExpression) :
    (e.mapLiterals f).source = e.source.mapLiterals f := by
  obtain ⟨definition, a⟩ := e
  cases definition <;> rfl

/-- Replacing literals gives a node that is alike, with each literal related to its substitute. -/
theorem Node.alike_mapLiterals (n : Node) : n.Alike (fun v w => w = f v) (n.mapLiterals f) := by
  cases n with
  | value v => exact .value rfl
  | column c => exact .column ⟨rfl, rfl⟩ rfl
  | expr e => exact .expr (e.alikeItem_mapLiterals f)
  | call c => exact .call c.name (operandsAlike_mapLiterals f c.args)
  | operand o => exact .operand (o.alike_mapLiterals f)
  | operation o => exact .operation (o.alike_mapLiterals f)
  | predicate p => exact .predicate (p.alike_mapLiterals f)
  | source s => exact .source (s.alike_mapLiterals f)
  | tableExpression e =>
    -- A table expression is written as the source that it becomes.
    refine .tableExpression ?_
    rw [e.source_mapLiterals]
    exact e.source.alike_mapLiterals f
  | select q => exact .select (q.alike_mapLiterals f)
  | query q => exact .query (q.statement.alike_mapLiterals f)

end Replace

/-! ## §5 Renderings of alike nodes -/

section Renderings

variable {R : Value → Value → Prop} {ts us : List Chunk}

/-- The statement does not tell chunks apart that are alike. -/
theorem statementText_of_alike (h : List.Forall₂ (Chunk.Alike R) ts us) :
    ts.map Chunk.statementText = us.map Chunk.statementText := by
  induction h with
  | nil => rfl
  | cons htu _ ih =>
    rw [List.map_cons, List.map_cons, ih]
    -- A slot is the same placeholder whatever its value is.
    cases htu <;> rfl

/-- The values in chunks that are alike correspond one by one, in order. -/
theorem slots_of_alike (h : List.Forall₂ (Chunk.Alike R) ts us) :
    List.Forall₂ R (Chunk.slots ts) (Chunk.slots us) := by
  induction h with
  | nil => exact .nil
  | cons htu _ ih =>
    -- Only a slot holds a value.
    cases htu with
    | text s => exact ih
    | slot hvw => exact .cons hvw ih
    | separator => exact ih

/-- Chunks that are alike with equal values are the same. -/
theorem eq_of_alike (hR : ∀ v w, R v w → v = w) (h : List.Forall₂ (Chunk.Alike R) ts us) :
    ts = us := by
  induction h with
  | nil => rfl
  | cons htu _ ih =>
    rw [ih]
    cases htu with
    | text s => rfl
    | slot hvw => rw [hR _ _ hvw]
    | separator => rfl

/-- Alike nodes have one statement, whatever their literals and unwritten data are.  The arguments
are the literals that are written, and at each place the literal of the one node is related to the
literal of the other.  If they are equal everywhere, the literal texts are one too. -/
theorem Node.Alike.sql_eq_and_args_related {m n : Node} (h : m.Alike R n)
    (settings : RenderSettings) :
    (render .statement settings m).sql = (render .statement settings n).sql ∧
      (render .statement settings m).args = m.literals settings.fromMode ∧
      (render .statement settings n).args = n.literals settings.fromMode ∧
      List.Forall₂ R (m.literals settings.fromMode) (n.literals settings.fromMode) ∧
      ((∀ v w, R v w → v = w) →
        (render .literal settings m).sql = (render .literal settings n).sql) := by
  -- Texts and arguments are read off the same chunks.
  have hchunks := h.chunks settings
  refine ⟨?_, m.args_eq_literals settings, n.args_eq_literals settings, ?_, fun hR => ?_⟩
  · rw [render_statement, render_statement, statementText_of_alike hchunks]
  · rw [← m.args_eq_literals, ← n.args_eq_literals, render_statement, render_statement]
    exact slots_of_alike hchunks
  · rw [render_literal, render_literal, eq_of_alike hR hchunks]

end Renderings

/-- A constant beside the articles of two authors, who are asked for in an inner query. -/
def Samples.bylines (posts shape : Table) (author : ColumnRef) (first second constant : Value) :
    Select where
  sources := [
    .derived shape
      ⟨[.base posts "P"], [],
        [⟨author, .isIn false [.literal first, .expr (.aliased (.literal second) "name")]⟩],
        none, none⟩
      "D"]
  projection := [.aliased (.literal constant) "byline"]
  filters := []
  limit := some 3
  offset := none

open Samples (bylines)

/-- Bylines are alike for any tables of one SQL name, columns of one name and related values. -/
theorem bylines_alike {R : Value → Value → Prop} {posts posts' shape shape' : Table}
    {author author' : ColumnRef} {a a' b b' c c' : Value} (hposts : posts.name = posts'.name)
    (hauthor : author.Alike author') (ha : R a a') (hb : R b b') (hc : R c c') :
    (bylines posts shape author a b c).Alike R (bylines posts' shape' author' a' b' c') := by
  -- The operands are the two names, the second under an alias that is not written.
  have hoperands : OperandsAlike R [.literal a, .expr (.aliased (.literal b) "name")]
      [.literal a', .expr (.aliased (.literal b') "name")] :=
    .cons (.literal ha)
      (.cons (.expr (.aliasedLeft (.aliasedRight (.literal hb) "name") "name")) .nil)
  have hfilter : Predicate.Alike R
      ⟨author, .isIn false [.literal a, .expr (.aliased (.literal b) "name")]⟩
      ⟨author', .isIn false [.literal a', .expr (.aliased (.literal b') "name")]⟩ :=
    ⟨hauthor, .isIn false hoperands⟩
  -- The inner query reads a table of one name and filters by the operands.
  have hinner := Select.Alike.mk (.cons (.base hposts "P") .nil) .nil (.cons hfilter .nil) none none
  have hbyline : (Expr.aliased (.literal c) "byline").AlikeItem R (.aliased (.literal c') "byline") :=
    ⟨.aliasedLeft (.aliasedRight (.literal hc) "byline") "byline", rfl⟩
  exact .mk (.cons (.derived _ _ hinner "D") .nil) (.cons hbyline .nil) .nil (some 3) none

/-- Two such queries over columns that share no more than their SQL name: the statement is one, and
each argument has its counterpart in its own place. -/
theorem statement_of_bylines_eq :
    let R := fun v w => (v, w) ∈ [(Value.text "Ann", Value.null), (.text "Bob", .bigint 7),
      (.boolean true, .text "?")]
    let m := Node.select (bylines ⟨"Post", "posts", []⟩ ⟨"D", "D", []⟩
      ⟨"P", .plain "author" "posts", none⟩ (.text "Ann") (.text "Bob") (.boolean true))
    let n := Node.select (bylines ⟨"Article", "posts", [("id", .plain "id" "posts")]⟩ ⟨"E", "E", []⟩
      ⟨"P", ⟨"writer", "author", "people", true, some (.fixed .null), some "pen name"⟩, some "w"⟩
      .null (.bigint 7) (.text "?"))
    m.Alike R n ∧
      (render .statement ⟨true, .allSources⟩ m).sql =
        (render .statement ⟨true, .allSources⟩ n).sql ∧
      (render .statement ⟨true, .allSources⟩ m).args =
        [.boolean true, .text "Ann", .text "Bob"] ∧
      (render .statement ⟨true, .allSources⟩ n).args = [.text "?", .null, .bigint 7] := by
  intro R m n
  have halike : m.Alike R n :=
    .select (bylines_alike rfl ⟨rfl, rfl⟩ (by decide) (by decide) (by decide))
  obtain ⟨hsql, hargs, hargs', -, -⟩ := halike.sql_eq_and_args_related ⟨true, .allSources⟩
  exact ⟨halike, hsql, hargs, hargs'⟩

end SqlSelect
