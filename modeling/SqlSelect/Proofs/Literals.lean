import Mathlib.Data.List.Basic
import SqlSelect.Proofs.Drawing

/-!
# Literals

The literals of a node in reading order: those of the projection, then those of the sources that are
written, then those of the filters.  A statement binds exactly these values, whatever it looks like,
so a value can be followed from its place in a node to its place among the arguments.

## Main definitions

- `Expr.literals`, `Select.literals`, `Node.literals` — the literals that are written, in order
- `Expr.mapLiterals`, `Select.mapLiterals`, `Node.mapLiterals` — a function applied to every literal,
  written or not

## Main statements

- `Node.args_eq_literals` — a statement binds the literals of its node in reading order
-/

namespace SqlSelect

open Chunk (text slot separator)

/-! ## §1 Reading order -/

mutual

def Expr.literals : Expr → List Value
  | .column _ => []
  | .call _ args => operandLiterals args
  | .aliased e _ => e.literals
  | .literal v => [v]

def Operand.literals : Operand → List Value
  | .literal v => [v]
  | .expr e => e.literals

def operandLiterals : List Operand → List Value
  | [] => []
  | o :: os => o.literals ++ operandLiterals os

end

def Operation.literals : Operation → List Value
  | compare _ operand => operand.literals
  | isIn _ operands => operandLiterals operands
  | isNull _ => []
  | call f => operandLiterals f.args

def Predicate.literals (p : Predicate) : List Value := p.operation.literals

mutual

def Source.literals (mode : FromMode) : Source → List Value
  | .base _ _ => []
  | .derived _ q _ => q.literals mode

/-- The literals of a query, with those of the sources that are written. -/
def Select.literals (mode : FromMode) : Select → List Value
  | ⟨sources, projection, filters, _, _⟩ =>
    projection.flatMap Expr.literals ++ sourceLiterals mode sources ++
      filters.flatMap Predicate.literals

def sourceLiterals (mode : FromMode) : List Source → List Value
  | [] => []
  | s :: ss =>
    s.literals mode ++
      match mode with
      | .firstOnly => []
      | .allSources => sourceLiterals mode ss

end

/-- The literals of a node that are written, in reading order. -/
def Node.literals (mode : FromMode) : Node → List Value
  | value v => [v]
  | column _ => []
  | expr e => e.literals
  | call f => operandLiterals f.args
  | operand o => o.literals
  | operation o => o.literals
  | predicate p => p.literals
  | source s => s.literals mode
  | tableExpression e => e.source.literals mode
  | select s => s.literals mode
  | query q => q.statement.literals mode

/-- The literals of a source list are those of the sources that the settings leave visible. -/
theorem sourceLiterals_eq_flatMap (mode : FromMode) (ss : List Source) :
    sourceLiterals mode ss = (mode.visible ss).flatMap (Source.literals mode) := by
  cases mode with
  -- Only the head is visible, and an empty list has none.
  | firstOnly => cases ss <;> simp [sourceLiterals, FromMode.visible]
  | allSources =>
    induction ss with
    | nil => rfl
    | cons s ss ih =>
      show s.literals .allSources ++ sourceLiterals .allSources ss = _
      rw [ih]
      rfl

/-! ## §2 Replacing literals -/

section Replace

variable (f : Value → Value)

mutual

def Expr.mapLiterals : Expr → Expr
  | .column c => .column c
  | .call name args => .call name (mapOperandLiterals args)
  | .aliased e a => .aliased e.mapLiterals a
  | .literal v => .literal (f v)

def Operand.mapLiterals : Operand → Operand
  | .literal v => .literal (f v)
  | .expr e => .expr e.mapLiterals

def mapOperandLiterals : List Operand → List Operand
  | [] => []
  | o :: os => o.mapLiterals :: mapOperandLiterals os

end

def FunctionCall.mapLiterals (c : FunctionCall) : FunctionCall :=
  { c with args := mapOperandLiterals f c.args }

def Operation.mapLiterals : Operation → Operation
  | compare op operand => compare op (operand.mapLiterals f)
  | isIn negated operands => isIn negated (mapOperandLiterals f operands)
  | isNull negated => isNull negated
  | call c => call (c.mapLiterals f)

def Predicate.mapLiterals (p : Predicate) : Predicate :=
  { p with operation := p.operation.mapLiterals f }

mutual

def Source.mapLiterals : Source → Source
  | .base t a => .base t a
  | .derived shape q a => .derived shape q.mapLiterals a

def Select.mapLiterals : Select → Select
  | ⟨sources, projection, filters, limit, offset⟩ =>
    ⟨mapSourceLiterals sources, projection.map (Expr.mapLiterals f),
      filters.map (Predicate.mapLiterals f), limit, offset⟩

def mapSourceLiterals : List Source → List Source
  | [] => []
  | s :: ss => s.mapLiterals :: mapSourceLiterals ss

end

def Definition.mapLiterals : Definition → Definition
  | plain t => plain t
  | declared d => declared d
  | derived shape q => derived shape (q.mapLiterals f)

def TableExpression.mapLiterals (e : TableExpression) : TableExpression :=
  { e with definition := e.definition.mapLiterals f }

def Participants.mapLiterals : Participants → Participants
  | one a => one (a.mapLiterals f)
  | two a b => two (a.mapLiterals f) (b.mapLiterals f)
  | three a b c => three (a.mapLiterals f) (b.mapLiterals f) (c.mapLiterals f)

def Scope.mapLiterals : Scope → Scope
  | fixed ps => fixed (ps.mapLiterals f)
  | dynamic views => dynamic views

/-- The query with every literal replaced, in its participants too. -/
def Query.mapLiterals (q : Query) : Query :=
  ⟨q.scope.mapLiterals f, q.statement.mapLiterals f⟩

/-- The node with every literal replaced, at every depth and in sources that are not written too. -/
def Node.mapLiterals : Node → Node
  | value v => value (f v)
  | column c => column c
  | expr e => expr (e.mapLiterals f)
  | call c => call (c.mapLiterals f)
  | operand o => operand (o.mapLiterals f)
  | operation o => operation (o.mapLiterals f)
  | predicate p => predicate (p.mapLiterals f)
  | source s => source (s.mapLiterals f)
  | tableExpression e => tableExpression (e.mapLiterals f)
  | select s => select (s.mapLiterals f)
  | query q => query (q.mapLiterals f)

end Replace

/-! ## §3 Literals and slots -/

theorem Layout.values_inline (ts : List Chunk) : values (inline ts) = Chunk.slots ts := by
  rw [inline, values, List.filterMap_map]
  rfl

theorem slots_joinOperands (parts : List (List Chunk)) :
    Chunk.slots (joinOperands parts) = parts.flatMap Chunk.slots :=
  filterMap_intercalate rfl parts

mutual

/-- Drawing an expression without its alias keeps its literals, in order. -/
theorem Expr.slots_bare : ∀ e : Expr, Chunk.slots e.bare.chunks = e.literals
  | .column _ => rfl
  | .call name args => slots_call name args
  | .aliased e _ => e.slots_bare
  | .literal _ => rfl

theorem Operand.slots_bare : ∀ o : Operand, Chunk.slots o.bare.chunks = o.literals
  | .literal _ => rfl
  | .expr e => e.slots_bare

theorem slots_bareOperands : ∀ os : List Operand,
    (bareChunks (bareOperands os)).flatMap Chunk.slots = operandLiterals os
  | [] => rfl
  | o :: os => by
    show Chunk.slots o.bare.chunks ++ (bareChunks (bareOperands os)).flatMap Chunk.slots = _
    rw [o.slots_bare, slots_bareOperands os]
    rfl

/-- A call has the literals of its operands; its name is not one of them. -/
theorem slots_call (name : String) : ∀ args : List Operand,
    Chunk.slots (Bare.call name (bareOperands args)).chunks = operandLiterals args := by
  intro args
  -- The name and the parentheses are texts.
  rw [Bare.chunks, Chunk.slots_append, Chunk.slots_append, slots_joinOperands,
    slots_bareOperands args]
  exact List.append_nil _

end

/-- An output alias has no slot. -/
theorem Item.slots_chunks (i : Item) : Chunk.slots i.chunks = Chunk.slots i.bare.chunks := by
  obtain ⟨b, output⟩ := i
  cases output with
  | none => rw [Item.chunks, List.append_nil]
  | some a =>
    rw [Item.chunks, Chunk.slots_append]
    exact List.append_nil _

theorem Expr.slots_item (e : Expr) : Chunk.slots e.item.chunks = e.literals :=
  e.item.slots_chunks.trans e.slots_bare

theorem ColumnRef.slots_item (c : ColumnRef) : Chunk.slots c.item.chunks = [] :=
  (Expr.column c).slots_item

/-- A test has the literals of its operation, whatever the operation is. -/
theorem Operation.slots_test (o : Operation) : Chunk.slots o.test.chunks = o.literals := by
  cases o with
  | compare op operand =>
    rw [Operation.test, Test.chunks, Chunk.slots_append, operand.slots_bare]
    rfl
  | isIn negated operands =>
    rw [Operation.test, Test.chunks, Chunk.slots_append, Chunk.slots_append, slots_joinOperands,
      ← bareOperands_eq_map, slots_bareOperands]
    exact List.append_nil _
  | isNull negated => rfl
  | call f => exact slots_call f.name f.args

/-- A condition has the literals of its test; the column to their left has none. -/
theorem Predicate.slots_condition (p : Predicate) :
    Chunk.slots p.condition.chunks = p.literals := by
  rw [Condition.chunks, Chunk.slots_append]
  exact p.operation.slots_test

/-! ## §4 Literals and arguments -/

/-- A projection has the literals of its expressions; an empty one is a star, which has none. -/
theorem slots_itemChunks (items : List Expr) :
    Chunk.slots (Outline.itemChunks (items.map Expr.item)) = items.flatMap Expr.literals := by
  cases items with
  | nil => rfl
  | cons e es =>
    -- The commas have no slot, so the slots are those of the items, one after another.
    have hcomma : [text ", "].filterMap Chunk.value? = [] := rfl
    have hitems : (fun e : Expr => Chunk.slots e.item.chunks) = Expr.literals :=
      funext Expr.slots_item
    show ([text ", "].intercalate (((e :: es).map Expr.item).map Item.chunks)).filterMap _ = _
    rw [filterMap_intercalate hcomma, List.map_map, List.flatMap_map, ← hitems]
    rfl

/-- A filter list has the literals of its predicates. -/
theorem values_conditionLayout (filters : List Predicate) :
    Layout.values (Outline.conditionLayout (filters.map Predicate.condition)) =
      filters.flatMap Predicate.literals := by
  cases filters with
  | nil => rfl
  | cons p ps =>
    -- As in the projection, with the conjunctions in place of the commas.
    have hand : [text " AND "].filterMap Chunk.value? = [] := rfl
    have hfilters : (fun p : Predicate => Chunk.slots p.condition.chunks) = Predicate.literals :=
      funext Predicate.slots_condition
    -- The break and the keyword have no value.
    show Layout.values (inline ([text " AND "].intercalate
      (((p :: ps).map Predicate.condition).map Condition.chunks))) = _
    rw [Layout.values_inline, Chunk.slots, filterMap_intercalate hand, List.map_map,
      List.flatMap_map, ← hfilters]
    rfl

/-- A bound is written as a text, so it is never bound as an argument. -/
theorem values_boundLayout (keyword : String) (bound : Option UInt64) :
    Layout.values (Outline.boundLayout keyword bound) = [] := by
  cases bound <;> rfl

mutual

/-- A source has the literals of the query that it derives from. -/
theorem Source.values_layout (mode : FromMode) : ∀ s : Source,
    Layout.values (s.origin mode).layout = s.literals mode
  | .base _ _ => rfl
  | .derived _ q a => by
    have hinner := q.values_layout mode
    have halias : Chunk.slots (text ")" :: aliasChunks a) = [] := rfl
    -- Neither the parentheses nor the line ends around the inner layout have a value.
    rw [Source.origin, Origin.layout, Source.literals]
    simp [inline, Mark.value?, Chunk.value?, aliasChunks, hinner]

/-- A query has the literals of its projection, of its visible sources and of its filters. -/
theorem Select.values_layout (mode : FromMode) : ∀ q : Select,
    Layout.values (q.outline mode).layout = q.literals mode
  | ⟨sources, projection, filters, limit, offset⟩ => by
    -- The clauses are taken one by one, in the order in which they are written.
    have hsep : (inline [text ", "]).filterMap Mark.value? = [] := rfl
    have hsources : Layout.values ((inline [text ", "]).intercalate
        (originLayouts (mode.visible (sourceOrigins mode sources)))) =
          sourceLiterals mode sources := by
      rw [Layout.values, filterMap_intercalate hsep, sourceLiterals_eq_flatMap,
        sourceOrigins_eq_map, mode.visible_map, originLayouts_eq_map, List.map_map,
        List.flatMap_map]
      -- Only the sources that are written are asked for, and each of them is smaller.
      exact List.flatMap_congr fun s hs =>
        values_sources mode sources s (mode.mem_of_mem_visible hs)
    have hitems : Layout.values (inline (text "SELECT " ::
        Outline.itemChunks (projection.map Expr.item))) = projection.flatMap Expr.literals := by
      rw [Layout.values_inline, ← slots_itemChunks]
      rfl
    have hfrom : Layout.values (clauseLayout [text "FROM "]) = [] := rfl
    rw [Select.outline, Outline.layout, Select.literals]
    simp only [Layout.values_append, hitems, hfrom, hsources, values_conditionLayout,
      values_boundLayout, List.append_nil]

theorem values_sources (mode : FromMode) : ∀ ss : List Source,
    ∀ s ∈ ss, Layout.values (s.origin mode).layout = s.literals mode
  | [] => fun _ hs => absurd hs List.not_mem_nil
  | s :: ss => List.forall_mem_cons.mpr ⟨s.values_layout mode, values_sources mode ss⟩

end

/-- Every kind of node is drawn with its literals in reading order. -/
theorem Node.values_layout (n : Node) (mode : FromMode) :
    Layout.values (n.fragment mode).layout = n.literals mode := by
  -- Only sources and queries take more than a line; the rest has the slots of its chunks.
  cases n with
  | value v => rfl
  | column c => exact (Layout.values_inline _).trans c.slots_item
  | expr e => exact (Layout.values_inline _).trans e.slots_item
  | call f => exact (Layout.values_inline _).trans (slots_call f.name f.args)
  | operand o => exact (Layout.values_inline _).trans o.slots_bare
  | operation o => exact (Layout.values_inline _).trans o.slots_test
  | predicate p => exact (Layout.values_inline _).trans p.slots_condition
  | source s => exact s.values_layout mode
  | tableExpression e => exact e.source.values_layout mode
  | select s => exact s.values_layout mode
  | query q => exact q.statement.values_layout mode

/-- A statement binds the literals of its node in reading order. -/
theorem Node.args_eq_literals (n : Node) (settings : RenderSettings) :
    (render .statement settings n).args = n.literals settings.fromMode := by
  rw [render_eq_layout, ← n.values_layout]
  rfl

end SqlSelect
