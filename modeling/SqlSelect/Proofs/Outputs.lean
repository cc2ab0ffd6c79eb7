import SqlSelect.Proofs.Literals
import SqlSelect.Proofs.References

/-!
# Output Aliases

An output alias names a result column, so it belongs to a projection item.  It can be given in other
places too: a column carries one wherever it goes, and an expression can be wrapped in several.  None
of these is written.  A query is written as if it had been erased everywhere except for the outermost
output alias of each projection item.

## Main definitions

- `Expr.eraseOutputs`, `Predicate.eraseOutputs` — without any output alias, at any depth
- `Expr.eraseInnerOutputs` — a projection item with its outermost output alias and no other
- `Select.eraseOutputs`, `Query.eraseOutputs` — a query with nothing but the output aliases that count
- `Expr.outputAliases` — all output aliases in an expression

## Main statements

- `Select.outline_eraseOutputs` — erasing changes nothing that is written
- `Select.isErased_of_isLevel` — after erasing, each projection item has at most one output alias and
  nothing else has any
- `Query.render_eraseOutputs` — a query renders as its erasure does
- `Expr.render_eq_bare`, `Operand.render_expr_eq_bare` — an item and an operand, from the erased
  expression
-/

namespace SqlSelect

/-! ## §1 Erasing -/

def ColumnRef.eraseOutput (c : ColumnRef) : ColumnRef := { c with output := none }

mutual

/-- The expression without any output alias, at any depth. -/
def Expr.eraseOutputs : Expr → Expr
  | .column c => .column c.eraseOutput
  | .call name args => .call name (eraseOperandOutputs args)
  | .aliased e _ => e.eraseOutputs
  | .literal v => .literal v

def Operand.eraseOutputs : Operand → Operand
  | .literal v => .literal v
  | .expr e => .expr e.eraseOutputs

def eraseOperandOutputs : List Operand → List Operand
  | [] => []
  | o :: os => o.eraseOutputs :: eraseOperandOutputs os

end

/-- The projection item with its outermost output alias and no other. -/
def Expr.eraseInnerOutputs (e : Expr) : Expr :=
  match e.output? with
  | some a => e.eraseOutputs.withOutput a
  | none => e.eraseOutputs

def Operation.eraseOutputs : Operation → Operation
  | compare op operand => compare op operand.eraseOutputs
  | isIn negated operands => isIn negated (eraseOperandOutputs operands)
  | isNull negated => isNull negated
  | call f => call { f with args := eraseOperandOutputs f.args }

def Predicate.eraseOutputs (p : Predicate) : Predicate :=
  ⟨p.column.eraseOutput, p.operation.eraseOutputs⟩

mutual

def Source.eraseOutputs : Source → Source
  | .base t a => .base t a
  | .derived shape q a => .derived shape q.eraseOutputs a

/-- The query with the outermost output alias of each projection item and no other, here and in every
query that it reads. -/
def Select.eraseOutputs : Select → Select
  | ⟨sources, projection, filters, limit, offset⟩ =>
    ⟨eraseSourceOutputs sources, projection.map Expr.eraseInnerOutputs,
      filters.map Predicate.eraseOutputs, limit, offset⟩

def eraseSourceOutputs : List Source → List Source
  | [] => []
  | s :: ss => s.eraseOutputs :: eraseSourceOutputs ss

end

def Query.eraseOutputs (q : Query) : Query := q.update Select.eraseOutputs

theorem eraseSourceOutputs_eq_map (ss : List Source) :
    eraseSourceOutputs ss = ss.map Source.eraseOutputs := by
  induction ss with
  | nil => rfl
  | cons s ss ih => rw [eraseSourceOutputs, List.map_cons, ih]

/-! ## §2 What is erased -/

mutual

/-- All output aliases in an expression: of its columns and of what wraps it, at every depth. -/
def Expr.outputAliases : Expr → List String
  | .column c => c.output.toList
  | .call _ args => operandOutputAliases args
  | .aliased e a => a :: e.outputAliases
  | .literal _ => []

def Operand.outputAliases : Operand → List String
  | .literal _ => []
  | .expr e => e.outputAliases

def operandOutputAliases : List Operand → List String
  | [] => []
  | o :: os => o.outputAliases ++ operandOutputAliases os

end

def Operation.outputAliases : Operation → List String
  | compare _ operand => operand.outputAliases
  | isIn _ operands => operandOutputAliases operands
  | isNull _ => []
  | call f => operandOutputAliases f.args

def Predicate.outputAliases (p : Predicate) : List String :=
  p.column.output.toList ++ p.operation.outputAliases

/-- No output alias but one at most around each projection item. -/
structure Select.IsErased (q : Select) : Prop where
  items : ∀ e ∈ q.projection, e.outputAliases = e.output?.toList
  filters : ∀ p ∈ q.filters, p.outputAliases = []

mutual

/-- Erasing leaves no output alias in an expression. -/
theorem Expr.outputAliases_eraseOutputs : ∀ e : Expr, e.eraseOutputs.outputAliases = []
  | .column _ => rfl
  | .call _ args => operandOutputAliases_erase args
  | .aliased e _ => e.outputAliases_eraseOutputs
  | .literal _ => rfl

theorem Operand.outputAliases_eraseOutputs : ∀ o : Operand, o.eraseOutputs.outputAliases = []
  | .literal _ => rfl
  | .expr e => e.outputAliases_eraseOutputs

/-- Nor in any operand of a list. -/
theorem operandOutputAliases_erase : ∀ os : List Operand,
    operandOutputAliases (eraseOperandOutputs os) = []
  | [] => rfl
  | o :: os => by
    rw [eraseOperandOutputs, operandOutputAliases, o.outputAliases_eraseOutputs,
      operandOutputAliases_erase os, List.nil_append]

end

/-- Nor in an operation, whatever its operands are. -/
theorem Operation.outputAliases_eraseOutputs (o : Operation) :
    o.eraseOutputs.outputAliases = [] := by
  cases o with
  | compare op operand => exact operand.outputAliases_eraseOutputs
  | isIn negated operands => exact operandOutputAliases_erase operands
  | isNull negated => rfl
  | call f => exact operandOutputAliases_erase f.args

theorem Predicate.outputAliases_eraseOutputs (p : Predicate) :
    p.eraseOutputs.outputAliases = [] := by
  rw [Predicate.outputAliases, Predicate.eraseOutputs, p.operation.outputAliases_eraseOutputs]
  rfl

/-- An erased expression has no output alias that could be written. -/
theorem Expr.output?_eraseOutputs : ∀ e : Expr, e.eraseOutputs.output? = none
  | .column _ => rfl
  | .call _ _ => rfl
  | .aliased e _ => e.output?_eraseOutputs
  | .literal _ => rfl

/-! ## §3 Giving an output alias -/

namespace Expr

variable (e : Expr)

theorem output?_withOutput (a : String) : (e.withOutput a).output? = some a := by
  cases e <;> rfl

/-- An output alias does not touch the expression that it names. -/
theorem bare_withOutput (a : String) : (e.withOutput a).bare = e.bare := by
  cases e <;> rfl

theorem withOutput_withOutput (a b : String) :
    (e.withOutput a).withOutput b = e.withOutput b := by
  cases e <;> rfl

variable {e}

/-- An expression without output aliases has just the one that it is given. -/
theorem outputAliases_withOutput (h : e.outputAliases = []) (a : String) :
    (e.withOutput a).outputAliases = [a] := by
  cases e with
  | column c => rfl
  | call name args => exact congrArg (List.cons a) h
  -- What has no output alias is not wrapped in one.
  | aliased d b => cases h
  | literal v => rfl

end Expr

/-- An item keeps the output alias that counts, and no other is left in it. -/
theorem Expr.outputAliases_eraseInnerOutputs (e : Expr) :
    e.eraseInnerOutputs.outputAliases = e.eraseInnerOutputs.output?.toList := by
  unfold Expr.eraseInnerOutputs
  -- Without an alias that counts nothing is put back; with one, just this one is.
  cases e.output? with
  | none =>
    show e.eraseOutputs.outputAliases = e.eraseOutputs.output?.toList
    rw [e.outputAliases_eraseOutputs, e.output?_eraseOutputs]
    rfl
  | some a =>
    show (e.eraseOutputs.withOutput a).outputAliases = (e.eraseOutputs.withOutput a).output?.toList
    rw [Expr.outputAliases_withOutput e.outputAliases_eraseOutputs, Expr.output?_withOutput]
    rfl

/-! ## §4 Levels of an erased query -/

/-- The levels of an erased query are the erased levels. -/
theorem Select.exists_of_isLevel_eraseOutputs {level r : Select} (h : IsLevel level r) :
    ∀ q : Select, r = q.eraseOutputs → ∃ l : Select, level = l.eraseOutputs := by
  induction h with
  | top => exact fun q hr => ⟨q, hr⟩
  | @inner r inner shape a hsource _ ih =>
    rintro ⟨sources, projection, filters, limit, offset⟩ rfl
    -- The source that is read is the erasure of a source, whose query is the one to go on with.
    rw [Select.eraseOutputs, eraseSourceOutputs_eq_map] at hsource
    obtain ⟨s, -, hs⟩ := List.mem_map.mp hsource
    cases s with
    | base t b => cases hs
    | derived shape' q b =>
      cases hs
      exact ih q rfl

theorem Select.isErased_eraseOutputs (q : Select) : q.eraseOutputs.IsErased := by
  obtain ⟨sources, projection, filters, limit, offset⟩ := q
  exact ⟨List.forall_mem_map.mpr fun e _ => e.outputAliases_eraseInnerOutputs,
    List.forall_mem_map.mpr fun p _ => p.outputAliases_eraseOutputs⟩

/-- At every level of an erased query, only projection items have an output alias. -/
theorem Select.isErased_of_isLevel {level q : Select} (h : IsLevel level q.eraseOutputs) :
    level.IsErased := by
  obtain ⟨l, rfl⟩ := Select.exists_of_isLevel_eraseOutputs h q rfl
  exact l.isErased_eraseOutputs

/-! ## §5 What is written of an erased query -/

mutual

/-- The bare expression never had its output aliases. -/
theorem Expr.bare_eraseOutputs : ∀ e : Expr, e.eraseOutputs.bare = e.bare
  | .column _ => rfl
  | .call name args => by
    rw [Expr.eraseOutputs, Expr.bare, Expr.bare, bareOperands_erase args]
  | .aliased e _ => e.bare_eraseOutputs
  | .literal _ => rfl

theorem Operand.bare_eraseOutputs : ∀ o : Operand, o.eraseOutputs.bare = o.bare
  | .literal _ => rfl
  | .expr e => e.bare_eraseOutputs

theorem bareOperands_erase : ∀ os : List Operand,
    bareOperands (eraseOperandOutputs os) = bareOperands os
  | [] => rfl
  | o :: os => by
    rw [eraseOperandOutputs, bareOperands, bareOperands, o.bare_eraseOutputs, bareOperands_erase os]

end

/-- A projection item is written with the alias that is left. -/
theorem Expr.item_eraseInnerOutputs (e : Expr) : e.eraseInnerOutputs.item = e.item := by
  -- The alias that counts is put back, and the item has no place for any other.
  unfold Expr.eraseInnerOutputs Expr.item
  cases houtput : e.output? with
  | none =>
    show Item.mk e.eraseOutputs.bare e.eraseOutputs.output? = _
    rw [e.bare_eraseOutputs, e.output?_eraseOutputs]
  | some a =>
    show Item.mk (e.eraseOutputs.withOutput a).bare (e.eraseOutputs.withOutput a).output? = _
    rw [Expr.bare_withOutput, e.bare_eraseOutputs, Expr.output?_withOutput]

/-- A test is written without the output aliases of its operands. -/
theorem Operation.test_eraseOutputs (o : Operation) : o.eraseOutputs.test = o.test := by
  cases o with
  | compare op operand => exact congrArg (Test.compare op) operand.bare_eraseOutputs
  | isIn negated operands =>
    -- The operands of a membership test are mapped one by one; those of a call go by recursion.
    have hoperands := bareOperands_erase operands
    rw [bareOperands_eq_map, bareOperands_eq_map] at hoperands
    exact congrArg (Test.isIn negated) hoperands
  | isNull negated => rfl
  | call f => exact congrArg (Test.call f.name) (bareOperands_erase f.args)

/-- A condition is written without any output alias. -/
theorem Predicate.condition_eraseOutputs (p : Predicate) :
    p.eraseOutputs.condition = p.condition :=
  congrArg (Condition.mk p.column.aliasName p.column.column.name) p.operation.test_eraseOutputs

mutual

/-- Erasing changes nothing that is written of a source. -/
theorem Source.origin_eraseOutputs (mode : FromMode) : ∀ s : Source,
    s.eraseOutputs.origin mode = s.origin mode
  | .base _ _ => rfl
  | .derived _ q a => by
    rw [Source.eraseOutputs, Source.origin, Source.origin, q.outline_eraseOutputs mode]

/-- Erasing changes nothing that is written of a query. -/
theorem Select.outline_eraseOutputs (mode : FromMode) : ∀ q : Select,
    q.eraseOutputs.outline mode = q.outline mode
  | ⟨sources, projection, filters, limit, offset⟩ => by
    -- Each clause is erased item by item, and no item is written otherwise.
    have hitems : Expr.item ∘ Expr.eraseInnerOutputs = Expr.item :=
      funext Expr.item_eraseInnerOutputs
    have hconditions : Predicate.condition ∘ Predicate.eraseOutputs = Predicate.condition :=
      funext Predicate.condition_eraseOutputs
    rw [Select.eraseOutputs, Select.outline, Select.outline, sourceOrigins_erase mode sources,
      List.map_map, List.map_map, hitems, hconditions]

/-- Nor of any source of a list. -/
theorem sourceOrigins_erase (mode : FromMode) : ∀ ss : List Source,
    sourceOrigins mode (eraseSourceOutputs ss) = sourceOrigins mode ss
  | [] => rfl
  | s :: ss => by
    rw [eraseSourceOutputs, sourceOrigins, sourceOrigins, s.origin_eraseOutputs mode,
      sourceOrigins_erase mode ss]

end

/-! ## §6 Renderings -/

/-- An output alias as it is written behind an expression, if there is one. -/
def outputText : Option String → String
  | some a => " AS " ++ a
  | none => ""

/-- A node without line ends has the same rendering whatever the layout. -/
theorem render_inline {n : Node} {ts : List Chunk} (settings : RenderSettings)
    (h : (n.fragment settings.fromMode).layout = inline ts) (mode : RenderMode) :
    render mode settings n =
      ⟨Chunk.concat mode ts, if mode = .literal then [] else Chunk.slots ts⟩ := by
  rw [render_eq_layout, h, Layout.chunks_inline, Layout.values_inline]

/-- The text of an item is that of its expression, with the output alias behind it. -/
theorem Item.concat_chunks (mode : RenderMode) (i : Item) :
    Chunk.concat mode i.chunks = Chunk.concat mode i.bare.chunks ++ outputText i.output := by
  obtain ⟨b, output⟩ := i
  cases output <;> simp [Item.chunks, outputText, aliasChunks]

section Items

variable (mode : RenderMode) (settings : RenderSettings) (e : Expr)

/-- An erased expression renders as its bare form, in one line. -/
theorem Expr.render_eraseOutputs :
    render mode settings e.eraseOutputs =
      ⟨Chunk.concat mode e.bare.chunks,
        if mode = .literal then [] else Chunk.slots e.bare.chunks⟩ := by
  -- The erased expression is an item without an output alias, and its bare form is the old one.
  have hitem : e.eraseOutputs.item = ⟨e.bare, none⟩ := by
    rw [Expr.item, e.bare_eraseOutputs, e.output?_eraseOutputs]
  have hchunks : e.eraseOutputs.item.chunks = e.bare.chunks := by
    rw [hitem, Item.chunks, List.append_nil]
  exact render_inline (n := .expr e.eraseOutputs) settings (congrArg inline hchunks) mode

/-- A projection item is its bare expression, and then its output alias if it has one. -/
theorem Expr.render_eq_bare :
    render mode settings e =
      ⟨(render mode settings e.eraseOutputs).sql ++ outputText e.output?,
        (render mode settings e.eraseOutputs).args⟩ := by
  have hitem : render mode settings e =
      ⟨Chunk.concat mode e.item.chunks,
        if mode = .literal then [] else Chunk.slots e.item.chunks⟩ :=
    render_inline (n := .expr e) settings rfl mode
  -- Both are chunks on one line, and the alias has no slot.
  rw [hitem, e.render_eraseOutputs, e.item.concat_chunks, e.item.slots_chunks]
  rfl

/-- An operand is its bare expression and nothing else. -/
theorem Operand.render_expr_eq_bare :
    render mode settings (Operand.expr e) = render mode settings e.eraseOutputs := by
  rw [e.render_eraseOutputs]
  exact render_inline (n := .operand (.expr e)) settings rfl mode

/-- What is given an output alias has the same erasure as before. -/
theorem Expr.eraseOutputs_withOutput (a : String) :
    render mode settings (e.withOutput a).eraseOutputs = render mode settings e.eraseOutputs := by
  rw [Expr.render_eraseOutputs, Expr.render_eraseOutputs, e.bare_withOutput]

/-- Giving an output alias leaves the bare expression as it was. -/
theorem Expr.render_withOutput (b : String) :
    render mode settings (e.withOutput b) =
      ⟨(render mode settings e.eraseOutputs).sql ++ " AS " ++ b,
        (render mode settings e.eraseOutputs).args⟩ := by
  rw [Expr.render_eq_bare, Expr.eraseOutputs_withOutput, Expr.output?_withOutput,
    String.append_assoc]
  rfl

theorem Operand.render_expr_withOutput (b : String) :
    render mode settings (Operand.expr (e.withOutput b)) =
      render mode settings (Operand.expr e) := by
  rw [Operand.render_expr_eq_bare, Operand.render_expr_eq_bare, Expr.eraseOutputs_withOutput]

end Items

/-- A query renders as its erasure does, in every mode and with all settings. -/
theorem Query.render_eraseOutputs (q : Query) (mode : RenderMode) (settings : RenderSettings) :
    render mode settings q.eraseOutputs = render mode settings q := by
  have hquery := render_eq_layout (.query q) mode settings
  have herased := render_eq_layout (.query q.eraseOutputs) mode settings
  have houtline := q.statement.outline_eraseOutputs settings.fromMode
  -- Both renderings are made from one outline.
  simp only [Node.fragment, Query.eraseOutputs, Query.update, houtline] at hquery herased
  exact herased.trans hquery.symm

/-- A query is written as its erasure, where at every level the projection items have one output alias
at most and nothing else has any.  An item is its bare expression with that alias behind it, an
operand is the bare expression alone, and of several output aliases the last one counts. -/
theorem Query.render_items_only (q : Query) (mode : RenderMode) (settings : RenderSettings) :
    render mode settings q.eraseOutputs = render mode settings q ∧
      (∀ level, IsLevel level q.eraseOutputs.statement → level.IsErased) ∧
      (∀ e : Expr,
        render mode settings e =
            ⟨(render mode settings e.eraseOutputs).sql ++ outputText e.output?,
              (render mode settings e.eraseOutputs).args⟩ ∧
          render mode settings (Operand.expr e) = render mode settings e.eraseOutputs) ∧
      ∀ (e : Expr) (a b : String),
        (e.withOutput a).withOutput b = e.withOutput b ∧
          render mode settings (e.withOutput b) =
            ⟨(render mode settings e.eraseOutputs).sql ++ " AS " ++ b,
              (render mode settings e.eraseOutputs).args⟩ ∧
          render mode settings (Operand.expr (e.withOutput b)) =
            render mode settings (Operand.expr e) :=
  ⟨q.render_eraseOutputs mode settings,
    fun _ hlevel => Select.isErased_of_isLevel hlevel,
    fun e => ⟨e.render_eq_bare mode settings, Operand.render_expr_eq_bare mode settings e⟩,
    fun e a b => ⟨e.withOutput_withOutput a b, e.render_withOutput mode settings b,
      Operand.render_expr_withOutput mode settings e b⟩⟩

/-! ## §7 A title that is named again and again -/

namespace Samples

/-- Articles by a title in lower case, tested with output aliases in the test. -/
def lowercaseArticles : Query :=
  let title : ColumnRef := ⟨"P", .plain "title" "Post", some "t"⟩
  (Query.find (.one ⟨.plain ⟨"Post", "Post", [("title", title.column)]⟩, "P"⟩)).update fun s =>
    { s with filters := [⟨title, .isIn false
      [.expr (.aliased (.call "LOWER" [.expr (.column title)]) "l")]⟩] }

/-- Their titles, named three times. -/
def retitledArticles : Query :=
  (Query.find (.one (lowercaseArticles.subquery "D"))).update fun s =>
    { s with projection := [.aliased (.aliased (.column
      ⟨"D", .plain "title" "Post", some "t"⟩) "heading") "title"] }

end Samples

open Samples (lowercaseArticles retitledArticles) in
/-- The inner query of `retitledArticles` loses every output alias, and of those around the title the
outermost one is written. -/
theorem erasure_of_retitledArticles :
    IsLevel lowercaseArticles.statement.eraseOutputs retitledArticles.eraseOutputs.statement ∧
      lowercaseArticles.statement.eraseOutputs.IsErased ∧
      render .statement {} retitledArticles.eraseOutputs = render .statement {} retitledArticles ∧
      (render .statement {} lowercaseArticles).sql =
        "SELECT * FROM Post AS P WHERE P.title IN(LOWER(P.title))" ∧
      (retitledArticles.statement.projection.map fun e => (render .statement {} e).sql) =
        ["D.title AS title"] := by
  have hlevel : IsLevel lowercaseArticles.statement.eraseOutputs
      retitledArticles.eraseOutputs.statement := .inner (List.mem_singleton.mpr rfl) (.top _)
  obtain ⟨hrender, herased, -⟩ := retitledArticles.render_items_only .statement {}
  exact ⟨hlevel, herased _ hlevel, hrender, by decide, by decide⟩

end SqlSelect
