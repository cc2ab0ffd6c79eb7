import SqlSelect.Program.Resolve

/-!
# Lookups

A term mentions columns and stored things, and becomes a node only if each of them is found.  What it
mentions is a list, in reading order, at whatever depth it stands; resolving fails exactly if one of
the list is missing, and the first one that is decides the error.

## Main definitions

- `failure?` — the error of a computation that fails
- `Lookup` — one thing that is looked up, and `Lookup.error?` — why it is not found
- `ExprTerm.lookups`, `PredicateTerm.lookups` — all that a term looks up, in reading order

## Main statements

- `failure?_resolveItems`, `PredicateTerm.failure?_resolve` — the error of a term is that of the
  first lookup that fails
-/

namespace SqlSelect

/-! ## §1 Failures -/

section Failures

variable {ε α β : Type}

/-- The error of a computation that fails. -/
def failure? : Except ε α → Option ε
  | .ok _ => none
  | .error e => some e

/-- One computation after another: if what follows fails in one way whatever it is given, the first
error is that of the computation, or else that of what follows. -/
theorem failure?_bind {r : Option ε} (x : Except ε α) {f : α → Except ε β}
    (h : ∀ a, failure? (f a) = r) : failure? (x >>= f) = (failure? x).or r := by
  cases x with
  | ok a => exact h a
  | error e => rfl

theorem failure?_bind_pure (x : Except ε α) (g : α → β) :
    failure? (x >>= fun a => pure (g a)) = failure? x := by
  cases x <;> rfl

theorem failure?_mapError {ε' : Type} (g : ε → ε') (x : Except ε α) :
    failure? (x.mapError g) = (failure? x).map g := by
  cases x <;> rfl

/-- A list of computations fails with the first of them that does. -/
theorem failure?_mapM (f : α → Except ε β) (xs : List α) :
    failure? (xs.mapM f) = xs.findSome? fun x => failure? (f x) := by
  induction xs with
  | nil => rfl
  | cons x xs ih =>
    -- If the first one succeeds, the error is that of the others, whatever it returned.
    have hrest : ∀ y, failure? (xs.mapM f >>= fun ys => pure (y :: ys)) =
        xs.findSome? fun x => failure? (f x) := fun y =>
      (failure?_bind_pure _ _).trans ih
    rw [List.mapM_cons, failure?_bind _ hrest, List.findSome?_cons]
    cases failure? (f x) <;> rfl

end Failures

/-! ## §2 What a term looks up -/

/-- One thing that is looked up. -/
inductive Lookup where
  | column (origin : ColumnOrigin)
  /-- A stored expression. -/
  | stored (name : String)
  deriving DecidableEq

mutual

/-- All that an expression looks up, in reading order. -/
def ExprTerm.lookups : ExprTerm → List Lookup
  | .column c => [.column c.origin]
  | .call _ args => operandLookups args
  | .literal _ => []
  | .stored name => [.stored name]
  | .named e _ => e.lookups
  | .wrapped e _ => e.lookups

def OperandTerm.lookups : OperandTerm → List Lookup
  | .literal _ => []
  | .expr e => e.lookups

def operandLookups : List OperandTerm → List Lookup
  | [] => []
  | o :: os => o.lookups ++ operandLookups os

end

def OperationTerm.lookups : OperationTerm → List Lookup
  | .compare _ operand => operand.lookups
  | .isIn _ operands => operandLookups operands
  | .isNull _ => []
  | .call f => operandLookups f.args

/-- The column that is tested is looked up first. -/
def PredicateTerm.lookups (p : PredicateTerm) : List Lookup :=
  .column p.column.origin :: p.operation.lookups

/-- Why a field is not found in a view. -/
def View.error? (v : View) (field : String) : Option StepError :=
  if field ∈ v.fields then none else some (.query (.unknownColumn v.table field))

section Resolve

variable (ws : Workspace) (views : List View)

/-- Why a lookup fails. -/
def Lookup.error? : Lookup → Option StepError
  | column (.view index field) =>
    match views[index]? with
    | some v => v.error? field
    | none => some (.missing (toString index))
  | column (.source name field) =>
    match ws.get Thing.tableExpression? name with
    | .ok e => e.view.error? field
    | .error e => some e
  | column (.handle name _) => failure? (ws.get Thing.handle? name)
  | stored name => failure? (ws.get Thing.expr? name)

/-! ## §3 The first lookup that fails -/

/-- A field is not found in a view just if the view does not have it. -/
theorem View.failure?_column (v : View) (field : String) :
    failure? ((v.column field).mapError StepError.query) = v.error? field := by
  -- The view finds a column just for the fields that it lists.
  have hfound : (v.column? field).isSome = true ↔ field ∈ v.fields := by
    simp [View.column?, View.fields]
  rw [failure?_mapError, View.column, View.error?]
  cases hcolumn : v.column? field with
  | none =>
    have hmissing : field ∉ v.fields := by simp [← hfound, hcolumn]
    rw [if_neg hmissing]
    rfl
  | some c =>
    have hfield : field ∈ v.fields := hfound.mp (by rw [hcolumn]; rfl)
    rw [if_pos hfield]
    rfl

/-- A column term fails as its one lookup does. -/
theorem ColumnTerm.failure?_resolve (c : ColumnTerm) :
    failure? (c.resolve ws views) = (Lookup.column c.origin).error? ws views := by
  obtain ⟨origin, output⟩ := c
  -- The output alias is given at the end of each branch, and giving it cannot fail.
  cases origin with
  | view index field =>
    simp only [ColumnTerm.resolve, Lookup.error?]
    cases views[index]? with
    | none => rfl
    | some v => exact (failure?_bind_pure _ _).trans (v.failure?_column field)
  | source name field =>
    simp only [ColumnTerm.resolve, Lookup.error?]
    cases ws.get Thing.tableExpression? name with
    | ok e => exact (failure?_bind_pure _ _).trans (e.view.failure?_column field)
    | error e => rfl
  | handle name a => exact failure?_bind_pure _ _

mutual

/-- An expression fails with the first of its lookups that does. -/
theorem ExprTerm.failure?_resolve : ∀ e : ExprTerm,
    failure? (e.resolve ws views) = e.lookups.findSome? (Lookup.error? ws views)
  | .column c => by
    rw [ExprTerm.resolve, failure?_bind_pure, c.failure?_resolve, ExprTerm.lookups,
      List.findSome?_singleton]
  | .call name args => by
    rw [ExprTerm.resolve, failure?_bind_pure, failure?_resolveOperands args, ExprTerm.lookups]
  | .literal v => rfl
  | .stored name => by
    rw [ExprTerm.lookups, List.findSome?_singleton]
    rfl
  | .named e output => by
    rw [ExprTerm.resolve, failure?_bind_pure, e.failure?_resolve, ExprTerm.lookups]
  | .wrapped e output => by
    rw [ExprTerm.resolve, failure?_bind_pure, e.failure?_resolve, ExprTerm.lookups]

theorem OperandTerm.failure?_resolve : ∀ o : OperandTerm,
    failure? (o.resolve ws views) = o.lookups.findSome? (Lookup.error? ws views)
  | .literal v => rfl
  | .expr e => by
    rw [OperandTerm.resolve, failure?_bind_pure, e.failure?_resolve, OperandTerm.lookups]

theorem failure?_resolveOperands : ∀ os : List OperandTerm,
    failure? (resolveOperands ws views os) =
      (operandLookups os).findSome? (Lookup.error? ws views)
  | [] => rfl
  | o :: os => by
    -- Whatever the first operand is, the error behind it is that of the others.
    have hrest : ∀ first, failure? (resolveOperands ws views os >>= fun rest =>
        pure (first :: rest)) = (operandLookups os).findSome? (Lookup.error? ws views) :=
      fun first => (failure?_bind_pure _ _).trans (failure?_resolveOperands os)
    rw [resolveOperands, failure?_bind _ hrest, o.failure?_resolve, operandLookups,
      List.findSome?_append]

end

/-- The items of a projection fail with the first lookup that does, whichever item it is in. -/
theorem failure?_resolveItems (items : List ExprTerm) :
    failure? (resolveItems ws views items) =
      (items.flatMap ExprTerm.lookups).findSome? (Lookup.error? ws views) := by
  rw [resolveItems, failure?_mapM]
  induction items with
  | nil => rfl
  | cons e es ih =>
    -- The first item either has a lookup that fails, or the error is one of the others.
    rw [List.findSome?_cons, List.flatMap_cons, List.findSome?_append, e.failure?_resolve, ih]
    cases e.lookups.findSome? (Lookup.error? ws views) <;> rfl

/-- So does an operation over operands. -/
theorem OperationTerm.failure?_resolve (o : OperationTerm) :
    failure? (o.resolve ws views) = o.lookups.findSome? (Lookup.error? ws views) := by
  cases o with
  | compare op operand => exact (failure?_bind_pure _ _).trans (operand.failure?_resolve ws views)
  | isIn negated operands =>
    exact (failure?_bind_pure _ _).trans (failure?_resolveOperands ws views operands)
  | isNull negated => rfl
  | call f =>
    exact (failure?_bind_pure _ _).trans
      ((failure?_bind_pure _ _).trans (failure?_resolveOperands ws views f.args))

/-- A predicate fails with the first of its lookups that does, its column before all others. -/
theorem PredicateTerm.failure?_resolve (p : PredicateTerm) :
    failure? (p.resolve ws views) = p.lookups.findSome? (Lookup.error? ws views) := by
  have hrest : ∀ column, failure? (p.operation.resolve ws views >>= fun operation =>
      pure (Predicate.mk column operation)) =
        p.operation.lookups.findSome? (Lookup.error? ws views) :=
    fun column => (failure?_bind_pure _ _).trans (p.operation.failure?_resolve ws views)
  rw [PredicateTerm.resolve, failure?_bind _ hrest, p.column.failure?_resolve,
    PredicateTerm.lookups, List.findSome?_cons]
  -- The column fails, or all depends on the operation.
  cases (Lookup.column p.column.origin).error? ws views <;> rfl

end Resolve

end SqlSelect
