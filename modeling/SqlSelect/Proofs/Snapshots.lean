import SqlSelect.Proofs.Effects
import SqlSelect.Proofs.Lookups

/-!
# Snapshots

What a program has stored stays as it was when it was stored.  A name is affected only by steps that
store something under it and succeed, and the answer to a step depends on the things under the names
that it looks at and on nothing else.  So whatever happens elsewhere, a stored table, query or
derived table keeps its columns and is written as before.

## Main definitions

- `Step.reads` — the names that a step looks at
- `Workspace.SameAt` — two workspaces hold the same things under given names
- `Workspace.Spares` — no step of a run stores anything under a name

## Main statements

- `Workspace.answer_congr` — a step is answered alike where what it looks at is the same
- `Workspace.find?_after_of_spares` — a run that spares a name leaves what is stored there
- `Workspace.stored_things_are_snapshots` — stored things are not affected by what is done to others
-/

namespace SqlSelect

/-! ## §1 What a step looks at -/

/-- The name of a stored thing that is looked up. -/
def Lookup.name? : Lookup → Option String
  | column (.view _ _) => none
  | column (.source name _) => some name
  | column (.handle name _) => some name
  | stored name => some name

def lookedUp (ls : List Lookup) : List String := ls.filterMap Lookup.name?

def NodeTerm.reads : NodeTerm → List String
  | query name | select name | tableExpression name | source name => [name]
  | column c => lookedUp [.column c.origin]
  | expr e => lookedUp e.lookups
  | call f => lookedUp (operandLookups f.args)
  | operand o => lookedUp o.lookups
  | operation o => lookedUp o.lookups
  | predicate p => lookedUp p.lookups
  | value _ => []

def WriterStep.reads : WriterStep → List String
  | piece _ => []
  | node n => n.reads

def DumpTerm.reads : DumpTerm → List String
  | node n => n.reads
  | table name | handle name => [name]
  | functionName f => lookedUp (operandLookups f.args)

/-- The names that a step looks at, whether or not it finds something there. -/
def Step.reads : Step → List String
  | .table _ _ _ | .declare _ _ _ => []
  | .register name _ _ _ | .handle _ name _ => [name]
  | .tableExpression _ name _ | .subquery _ name _ => [name]
  | .merge _ _ names | .query _ names _ => names
  | .project name items _ => name :: lookedUp (items.flatMap ExprTerm.lookups)
  | .filter name p _ => name :: lookedUp p.lookups
  | .limit name _ _ | .offset name _ _ => [name]
  | .expr _ e => lookedUp e.lookups
  | .render n | .renderWith _ _ n => n.reads
  | .write _ _ ops => ops.flatMap WriterStep.reads
  | .lookup name _ | .columns name | .describe name | .default name _ => [name]
  | .inspectQuery name | .inspectSource name => [name]
  | .dump term => term.reads

/-- Whether a step also looks at the counters. -/
def Step.usesCounters : Step → Bool
  | .register _ _ _ _ | .declare _ _ _ | .default _ _ => true
  | _ => false

/-- The workspaces hold the same things under the names. -/
def Workspace.SameAt (ws ws' : Workspace) (names : List String) : Prop :=
  ∀ name ∈ names, ws'.find? name = ws.find? name

/-! ## §2 Answers depend on what is looked at -/

section Agreement

variable {ws ws' : Workspace}

theorem Workspace.SameAt.get {names : List String} (h : ws.SameAt ws' names) {name : String}
    (hname : name ∈ names) {α : Type} (kind? : Thing → Option α) :
    ws'.get kind? name = ws.get kind? name := by
  unfold Workspace.get
  rw [h name hname]

/-- Workspaces that agree on some names agree on fewer. -/
theorem Workspace.SameAt.mono {names names' : List String} (h : ws.SameAt ws' names)
    (hsub : names' ⊆ names) : ws.SameAt ws' names' :=
  fun name hname => h name (hsub hname)

theorem Workspace.sameAt_lookedUp_append {ls ks : List Lookup} :
    ws.SameAt ws' (lookedUp (ls ++ ks)) ↔
      ws.SameAt ws' (lookedUp ls) ∧ ws.SameAt ws' (lookedUp ks) := by
  unfold SameAt lookedUp
  rw [List.filterMap_append, List.forall_mem_append]

/-- Computations that agree on all members of a list agree on the list. -/
theorem mapM_congr {ε α β : Type} {f g : α → Except ε β} {xs : List α}
    (h : ∀ x ∈ xs, f x = g x) : xs.mapM f = xs.mapM g := by
  induction xs with
  | nil => rfl
  | cons x xs ih =>
    obtain ⟨hx, hxs⟩ := List.forall_mem_cons.mp h
    rw [List.mapM_cons, List.mapM_cons, hx, ih hxs]

/-- One computation followed by either of two that show the same. -/
theorem map_bind_congr {ε α β γ : Type} {x : Except ε α} {f g : α → Except ε β} {show' : β → γ}
    (h : ∀ a, (f a).map show' = (g a).map show') :
    (x >>= f).map show' = (x >>= g).map show' := by
  cases x with
  | ok a => exact h a
  | error e => rfl

variable {views : List View}

/-- A column resolves alike where its source or its handle is the same; a view is no matter of the
workspace. -/
theorem ColumnTerm.resolve_congr (c : ColumnTerm)
    (h : ws.SameAt ws' (lookedUp [.column c.origin])) :
    c.resolve ws' views = c.resolve ws views := by
  obtain ⟨origin, output⟩ := c
  -- A column of a view looks nothing up; the other two ask for one name.
  cases origin with
  | view index field => rfl
  | source name field =>
    have hget := h.get (List.mem_singleton.mpr rfl) Thing.tableExpression?
    simp only [ColumnTerm.resolve, hget]
  | handle name a =>
    have hget := h.get (List.mem_singleton.mpr rfl) Thing.handle?
    simp only [ColumnTerm.resolve, hget]

mutual

/-- An expression resolves alike where all that it looks up is the same. -/
theorem ExprTerm.resolve_congr : ∀ e : ExprTerm, ws.SameAt ws' (lookedUp e.lookups) →
    e.resolve ws' views = e.resolve ws views
  | .column c, h => by
    rw [ExprTerm.lookups] at h
    rw [ExprTerm.resolve, ExprTerm.resolve, c.resolve_congr h]
  | .call name args, h => by
    rw [ExprTerm.lookups] at h
    rw [ExprTerm.resolve, ExprTerm.resolve, resolveOperands_congr args h]
  | .literal v, _ => rfl
  | .stored name, h => by
    rw [ExprTerm.lookups] at h
    rw [ExprTerm.resolve, ExprTerm.resolve, h.get (List.mem_singleton.mpr rfl)]
  | .named e output, h => by
    rw [ExprTerm.lookups] at h
    rw [ExprTerm.resolve, ExprTerm.resolve, e.resolve_congr h]
  | .wrapped e output, h => by
    rw [ExprTerm.lookups] at h
    rw [ExprTerm.resolve, ExprTerm.resolve, e.resolve_congr h]

theorem OperandTerm.resolve_congr : ∀ o : OperandTerm, ws.SameAt ws' (lookedUp o.lookups) →
    o.resolve ws' views = o.resolve ws views
  | .literal v, _ => rfl
  | .expr e, h => by
    rw [OperandTerm.lookups] at h
    rw [OperandTerm.resolve, OperandTerm.resolve, e.resolve_congr h]

/-- So do the operands of a list, in order. -/
theorem resolveOperands_congr : ∀ os : List OperandTerm,
    ws.SameAt ws' (lookedUp (operandLookups os)) →
      resolveOperands ws' views os = resolveOperands ws views os
  | [], _ => rfl
  | o :: os, h => by
    rw [operandLookups, Workspace.sameAt_lookedUp_append] at h
    rw [resolveOperands, resolveOperands, o.resolve_congr h.1, resolveOperands_congr os h.2]

end

theorem resolveItems_congr {items : List ExprTerm}
    (h : ws.SameAt ws' (lookedUp (items.flatMap ExprTerm.lookups))) :
    resolveItems ws' views items = resolveItems ws views items := by
  refine mapM_congr fun e he => e.resolve_congr (h.mono ?_)
  -- What one item looks up is among what all of them do.
  exact List.filterMap_subset _ fun l hl => List.mem_flatMap_of_mem he hl

theorem CallTerm.resolve_congr (f : CallTerm)
    (h : ws.SameAt ws' (lookedUp (operandLookups f.args))) :
    f.resolve ws' views = f.resolve ws views := by
  rw [CallTerm.resolve, CallTerm.resolve, resolveOperands_congr f.args h]

/-- So does an operation. -/
theorem OperationTerm.resolve_congr (o : OperationTerm)
    (h : ws.SameAt ws' (lookedUp o.lookups)) : o.resolve ws' views = o.resolve ws views := by
  cases o with
  | compare op operand =>
    rw [OperationTerm.resolve, OperationTerm.resolve, operand.resolve_congr h]
  | isIn negated operands =>
    rw [OperationTerm.resolve, OperationTerm.resolve, resolveOperands_congr operands h]
  | isNull negated => rfl
  | call f => rw [OperationTerm.resolve, OperationTerm.resolve, f.resolve_congr h]

theorem PredicateTerm.resolve_congr (p : PredicateTerm)
    (h : ws.SameAt ws' (lookedUp p.lookups)) : p.resolve ws' views = p.resolve ws views := by
  -- The lookups of a predicate are that of its column and those of its operation.
  have happend : ws.SameAt ws' (lookedUp ([.column p.column.origin] ++ p.operation.lookups)) := h
  obtain ⟨hcolumn, hoperation⟩ := Workspace.sameAt_lookedUp_append.mp happend
  rw [PredicateTerm.resolve, PredicateTerm.resolve, p.column.resolve_congr hcolumn,
    p.operation.resolve_congr hoperation]

/-- Any node is the same where what it looks at is. -/
theorem NodeTerm.resolve_congr (n : NodeTerm) (h : ws.SameAt ws' n.reads) :
    n.resolve ws' = n.resolve ws := by
  cases n with
  | query name | select name | tableExpression name | source name =>
    rw [NodeTerm.resolve, NodeTerm.resolve, h.get (List.mem_singleton.mpr rfl)]
  | column c => rw [NodeTerm.resolve, NodeTerm.resolve, c.resolve_congr h]
  | expr e => rw [NodeTerm.resolve, NodeTerm.resolve, e.resolve_congr h]
  | call f => rw [NodeTerm.resolve, NodeTerm.resolve, f.resolve_congr h]
  | operand o => rw [NodeTerm.resolve, NodeTerm.resolve, o.resolve_congr h]
  | operation o => rw [NodeTerm.resolve, NodeTerm.resolve, o.resolve_congr h]
  | predicate p => rw [NodeTerm.resolve, NodeTerm.resolve, p.resolve_congr h]
  | value v => rfl

theorem WriterStep.pieces_congr (op : WriterStep) (h : ws.SameAt ws' op.reads) (mode : FromMode) :
    op.pieces ws' mode = op.pieces ws mode := by
  cases op with
  | piece p => rfl
  | node n => rw [WriterStep.pieces, WriterStep.pieces, n.resolve_congr h]

/-- So is what is shown of a thing. -/
theorem DumpTerm.text_congr (term : DumpTerm) (h : ws.SameAt ws' term.reads) :
    term.text ws' = term.text ws := by
  cases term with
  | node n => rw [DumpTerm.text, DumpTerm.text, n.resolve_congr h]
  | table name | handle name =>
    rw [DumpTerm.text, DumpTerm.text, h.get (List.mem_singleton.mpr rfl)]
  | functionName f => rw [DumpTerm.text, DumpTerm.text, f.resolve_congr h]

namespace Workspace

/-- The answer to a step is its result without the workspace that it leaves. -/
theorem answer_eq_map (ws : Workspace) (step : Step) :
    ws.answer step = (ws.run step).map Prod.fst := by
  unfold answer attempt
  cases ws.run step <;> rfl

/-- A query over the same sources is the same, however it keeps its views. -/
theorem beginQuery_congr {sources : List String} (h : ws.SameAt ws' sources) (dynamic : Bool) :
    ws'.beginQuery sources dynamic = ws.beginQuery sources dynamic := by
  have hsources : sources.mapM (ws'.get Thing.tableExpression?) =
      sources.mapM (ws.get Thing.tableExpression?) := mapM_congr fun name hname => h.get hname _
  rw [beginQuery, beginQuery, hsources]

/-- A step is answered alike in workspaces that hold the same things under the names that it looks
at, and, if it uses the counters, have the same ones. -/
theorem answer_congr (step : Step) (h : ws.SameAt ws' step.reads)
    (hcounters : step.usesCounters = true → ws'.counters = ws.counters) :
    ws'.answer step = ws.answer step := by
  rw [answer_eq_map, answer_eq_map]
  -- Once what is looked up is the same, the runs differ only in the workspace that they leave, and
  -- this one is not shown.
  cases step with
  | table store ident name => rfl
  | register table field options store =>
    have hget := h.get (List.mem_singleton.mpr rfl) Thing.openTable?
    simp only [run, register, hget, hcounters rfl]
    exact map_bind_congr fun t => map_bind_congr fun c => rfl
  | declare store declaration name =>
    simp only [run, hcounters rfl]
    exact map_bind_congr fun _ => rfl
  | merge store name tables =>
    have htables : tables.mapM (ws'.get Thing.table?) = tables.mapM (ws.get Thing.table?) :=
      mapM_congr fun t ht => h.get ht _
    simp only [run, htables]
    exact map_bind_congr fun _ => rfl
  | handle store table field =>
    have hget := h.get (List.mem_singleton.mpr rfl) Thing.declared?
    simp only [run, hget]
    refine map_bind_congr fun d => ?_
    cases d.handle? field <;> rfl
  | tableExpression store definition aliasName =>
    have hget := h.get (List.mem_singleton.mpr rfl) Thing.definition?
    simp only [run, hget]
    exact map_bind_congr fun _ => rfl
  | query store sources dynamic =>
    have hsources : ws.SameAt ws' sources := h
    simp only [run, beginQuery_congr hsources]
    exact map_bind_congr fun _ => rfl
  | project query items store =>
    have hget := h.get (List.mem_cons_self ..) Thing.query?
    have hitems := h.mono (List.subset_cons_self ..)
    simp only [run, hget, resolveItems_congr hitems]
    exact map_bind_congr fun q => map_bind_congr fun r => rfl
  | filter query predicate store =>
    have hget := h.get (List.mem_cons_self ..) Thing.query?
    have hpredicate := h.mono (List.subset_cons_self ..)
    simp only [run, hget, predicate.resolve_congr hpredicate]
    exact map_bind_congr fun q => map_bind_congr fun r => rfl
  | limit _ _ _ | offset _ _ _ | subquery _ _ _ | inspectQuery _ =>
    have hget := h.get (List.mem_singleton.mpr rfl) Thing.query?
    simp only [run, hget]
    exact map_bind_congr fun _ => rfl
  | expr store e =>
    simp only [run, e.resolve_congr h]
    exact map_bind_congr fun _ => rfl
  | render node | renderWith _ _ node =>
    simp only [run, node.resolve_congr h]
    exact map_bind_congr fun _ => rfl
  | write mode settings ops =>
    have hops : ops.mapM (·.pieces ws' settings.fromMode) =
        ops.mapM (·.pieces ws settings.fromMode) :=
      mapM_congr fun op hop => op.pieces_congr (h.mono fun _ hn => List.mem_flatMap_of_mem hop hn) _
    simp only [run, hops]
    exact map_bind_congr fun _ => rfl
  | lookup source field =>
    have hget := h.get (List.mem_singleton.mpr rfl) Thing.tableExpression?
    simp only [run, hget]
    exact map_bind_congr fun e => map_bind_congr fun c => rfl
  | columns _ | inspectSource _ =>
    have hget := h.get (List.mem_singleton.mpr rfl) Thing.tableExpression?
    simp only [run, hget]
    exact map_bind_congr fun _ => rfl
  | describe table =>
    have hget := h.get (List.mem_singleton.mpr rfl) Thing.table?
    simp only [run, hget]
    exact map_bind_congr fun _ => rfl
  | default table field =>
    have hget := h.get (List.mem_singleton.mpr rfl) Thing.table?
    simp only [run, askDefault, hget, hcounters rfl]
    refine map_bind_congr fun t => ?_
    cases (t.column? field).bind (·.default?) <;> rfl
  | dump term =>
    simp only [run, term.text_congr h]
    exact map_bind_congr fun _ => rfl

end Workspace

end Agreement

/-! ## §3 Runs that spare a name -/

namespace Workspace

/-- No step of the run stores anything under the name: each one stores under others, or fails. -/
def Spares (name : String) : Workspace → List Step → Prop
  | _, [] => True
  | ws, step :: steps =>
    (name ∈ step.writes → (failure? (ws.run step)).isSome) ∧ Spares name (ws.attempt step).2 steps

/-- A step that stores nothing under a name, or fails, leaves what is there. -/
theorem find?_attempt {ws : Workspace} {name : String} {step : Step}
    (h : name ∈ step.writes → (failure? (ws.run step)).isSome) :
    (ws.attempt step).2.find? name = ws.find? name := by
  cases hrun : ws.run step with
  | error e => rw [attempt_error hrun]
  | ok result =>
    obtain ⟨answer, ws'⟩ := result
    -- A step that succeeds does not store anything under the name.
    have hname : name ∉ step.writes := fun hmem => by
      have hfails := h hmem
      rw [hrun] at hfails
      cases hfails
    rw [attempt_ok hrun]
    exact (run_effect hrun).stays name hname

/-- A run that spares a name leaves what is stored there. -/
theorem find?_after_of_spares {name : String} {steps : List Step} {ws : Workspace}
    (h : ws.Spares name steps) : (ws.after steps).find? name = ws.find? name := by
  induction steps generalizing ws with
  | nil => rfl
  | cons step steps ih =>
    -- By induction on the run: the first step leaves what is there, and so do the others.
    obtain ⟨hstep, hsteps⟩ := h
    calc (ws.after (step :: steps)).find? name
        = ((ws.attempt step).2.after steps).find? name := rfl
      _ = (ws.attempt step).2.find? name := ih hsteps
      _ = ws.find? name := find?_attempt hstep

/-- A step is answered at the end of a run as it was before, if the run spares what it looks at. -/
theorem answer_after_of_spares {ws : Workspace} {steps : List Step} {step : Step}
    (h : ∀ name ∈ step.reads, ws.Spares name steps)
    (hcounters : step.usesCounters = true → (ws.after steps).counters = ws.counters) :
    (ws.after steps).answer step = ws.answer step :=
  answer_congr step (fun name hname => find?_after_of_spares (h name hname)) hcounters

/-- Stored things are snapshots.  Whatever a run does, a name that it spares holds the same thing
afterwards, which shows the same columns, finds the same column for every field and is written alike
in every mode and with all settings; so is any term whose names are spared.  A step that fails
changes nothing at all. -/
theorem stored_things_are_snapshots (ws : Workspace) (steps : List Step) :
    (∀ name, ws.Spares name steps →
      (ws.after steps).find? name = ws.find? name ∧
        (ws.after steps).answer (.columns name) = ws.answer (.columns name) ∧
        (ws.after steps).answer (.describe name) = ws.answer (.describe name) ∧
        (∀ field, (ws.after steps).answer (.lookup name field) = ws.answer (.lookup name field)) ∧
        ∀ mode settings, ∀ node ∈ [NodeTerm.source name, .tableExpression name, .query name,
          .select name], (ws.after steps).answer (.renderWith mode settings node) =
            ws.answer (.renderWith mode settings node)) ∧
      (∀ step, (∀ name ∈ step.reads, ws.Spares name steps) →
        (step.usesCounters = true → (ws.after steps).counters = ws.counters) →
          (ws.after steps).answer step = ws.answer step) ∧
      ∀ step e, ws.answer step = .error e → (ws.attempt step).2 = ws := by
  refine ⟨fun name hspares => ?_, fun step h hcounters => answer_after_of_spares h hcounters,
    fun step e h => ?_⟩
  · -- All that is asked of one name looks at this name only.
    have hasked : ∀ step : Step, step.reads = [name] → step.usesCounters = false →
        (ws.after steps).answer step = ws.answer step := by
      intro step hreads huses
      refine answer_after_of_spares (fun other hother => ?_) (fun h => ?_)
      · rw [hreads] at hother
        exact List.mem_singleton.mp hother ▸ hspares
      · rw [huses] at h
        cases h
    refine ⟨find?_after_of_spares hspares, hasked _ rfl rfl, hasked _ rfl rfl,
      fun field => hasked _ rfl rfl, fun mode settings node hnode => ?_⟩
    -- Each of the four terms looks at the name alone.
    have hreads : node.reads = [name] := by
      simp only [List.mem_cons, List.not_mem_nil, or_false] at hnode
      rcases hnode with rfl | rfl | rfl | rfl <;> rfl
    exact hasked (.renderWith mode settings node) hreads rfl
  · cases hrun : ws.run step with
    | error e' => rw [attempt_error hrun]
    | ok result =>
      -- A step that succeeds is not answered with an error.
      rw [answer_eq_map, hrun] at h
      cases h

end Workspace

/-! ## §4 A newsroom -/

instance decidableSpares (name : String) :
    (ws : Workspace) → (steps : List Step) → Decidable (ws.Spares name steps)
  | _, [] => .isTrue trivial
  | ws, step :: steps =>
    have := decidableSpares name (ws.attempt step).2 steps
    inferInstanceAs (Decidable ((_ → _) ∧ _))

namespace Samples

/-- A table of articles, a source and a merged table made of it, a query and a derived table. -/
def newsroom : List Step :=
  [.table "articles" "Article" (some "articles"),
    .register "articles" "id" [] none,
    .register "articles" "title" [.named "headline"] none,
    .tableExpression "source" "articles" (some "A"),
    .merge "merged" "M" ["articles"],
    .query "query" ["source"] false,
    .project "query" [.column ⟨.view 0 "title", none⟩] none,
    .subquery "derived" "query" "D"]

/-- What is done to the table, the query and others later on.  Half of these steps fail. -/
def newsroomLater : List Step :=
  [.register "articles" "votes" [.generator [.integer 1, .integer 2]] (some "handle"),
    .register "articles" "id" [] none,
    .register "merged" "title" [] none,
    .default "articles" "votes",
    .project "query" [.column ⟨.view 0 "votes", none⟩] none,
    .filter "query" ⟨⟨.view 0 "id", none⟩, .compare .gt (.literal (.integer 7))⟩ none,
    .tableExpression "again" "source" (some "B"),
    .merge "both" "N" ["derived", "articles"],
    .query "query" ["again", "derived"] false,
    .query "derived" [] false,
    .subquery "source" "nothing" "E"]

end Samples

open Samples (newsroom newsroomLater) in
/-- The source has no votes although the table it was made of has them now, and the derived table is
written with the one item that its query had. -/
theorem answers_of_newsroom_stay :
    let ws := ({} : Workspace).after newsroom
    let ws' := ws.after newsroomLater
    (∀ name ∈ ["source", "merged", "derived"], ws.Spares name newsroomLater) ∧
      ws'.answer (.describe "merged") = ws.answer (.describe "merged") ∧
      ws'.answer (.lookup "source" "votes") =
        .error (.query (.unknownColumn "articles" "votes")) ∧
      ws'.answer (.renderWith .statement {} (.source "derived")) =
        .ok (.rendered ⟨"(SELECT A.headline FROM articles AS A) AS D", []⟩) ∧
      ws'.answer (.expr "title" (.column ⟨.source "source" "title", some "t"⟩)) =
        .ok (.text "A.headline AS t") ∧
      (ws.attempt (.register "articles" "id" [] none)).2 = ws := by
  intro ws ws'
  obtain ⟨hnames, hsteps, hfails⟩ := ws.stored_things_are_snapshots newsroomLater
  have hspares : ∀ name ∈ ["source", "merged", "derived"], ws.Spares name newsroomLater := by
    decide +kernel
  obtain ⟨-, -, -, hlookup, -⟩ := hnames "source" (hspares _ (by decide))
  obtain ⟨-, -, hdescribe, -⟩ := hnames "merged" (hspares _ (by decide))
  obtain ⟨-, -, -, -, hrender⟩ := hnames "derived" (hspares _ (by decide))
  have hread : ∀ name ∈ ["source"], ws.Spares name newsroomLater :=
    List.forall_mem_singleton.mpr (hspares _ (by decide))
  have hexpr := hsteps (.expr "title" (.column ⟨.source "source" "title", some "t"⟩)) hread nofun
  exact ⟨hspares, hdescribe, (hlookup "votes").trans rfl,
    (hrender .statement {} _ (List.mem_cons_self ..)).trans rfl, hexpr.trans rfl, hfails _ _ rfl⟩

end SqlSelect
