import SqlSelect.Proofs.Merging
import SqlSelect.Proofs.Outline
import SqlSelect.Proofs.Results
import SqlSelect.Schema.Samples

/-!
# Column References

A column is written as an alias and a name.  Whether a source of the same level answers to both is
decided far from where it is written: the view that handed out the column took the alias from a
participant and the name from a merged table, and the merged table kept one column for each field.

## Main definitions

- `Outline.references` — the column references that are written at the top level of a query
- `Source.outputs`, `Select.outputs` — the column names that a source or a query offers
- `IsLevel` — a query is a nesting level of another
- `Query.Regular`, `Definition.Regular` — each column comes from the views of its own level, and a
  query that is read by others selects everything
- `Source.Backed`, `Query.Coherent` — the invariant: a source outputs what its table promises, and a
  view hands out what the sources back

## Main statements

- `Query.Coherent.subquery` — a coherent query that selects everything is a backed source for others
- `Query.Regular.coherent` — building keeps the invariant
- `Query.Regular.reference_resolves` — no reference of a regular query dangles, at any level
-/

namespace SqlSelect

/-! ## §1 What is referred to -/

mutual

/-- The column references of an expression, as alias and name. -/
def Bare.references : Bare → List (String × String)
  | .column qualifier name => [(qualifier, name)]
  | .call _ args => bareReferences args
  | .literal _ => []

def bareReferences : List Bare → List (String × String)
  | [] => []
  | b :: bs => b.references ++ bareReferences bs

end

def Test.references : Test → List (String × String)
  | compare _ operand => operand.references
  | isIn _ operands => bareReferences operands
  | isNull _ => []
  | call _ args => bareReferences args

def Condition.references (c : Condition) : List (String × String) :=
  (c.qualifier, c.name) :: c.test.references

/-- The column references of a query, those of its sources apart. -/
def Outline.references (q : Outline) : List (String × String) :=
  q.items.flatMap (fun i => i.bare.references) ++ q.conditions.flatMap Condition.references

def ColumnRef.reference (c : ColumnRef) : String × String := (c.aliasName, c.column.name)

mutual

def Expr.columns : Expr → List ColumnRef
  | .column c => [c]
  | .call _ args => operandColumns args
  | .aliased e _ => e.columns
  | .literal _ => []

def Operand.columns : Operand → List ColumnRef
  | .literal _ => []
  | .expr e => e.columns

def operandColumns : List Operand → List ColumnRef
  | [] => []
  | o :: os => o.columns ++ operandColumns os

end

def Operation.columns : Operation → List ColumnRef
  | compare _ operand => operand.columns
  | isIn _ operands => operandColumns operands
  | isNull _ => []
  | call f => operandColumns f.args

def Predicate.columns (p : Predicate) : List ColumnRef := p.column :: p.operation.columns

/-- The columns in the projection and the predicates of a query. -/
def Select.columns (q : Select) : List ColumnRef :=
  q.projection.flatMap Expr.columns ++ q.filters.flatMap Predicate.columns

mutual

/-- The references of an expression are its columns, each as alias and name. -/
theorem Expr.references_bare : ∀ e : Expr, e.bare.references = e.columns.map ColumnRef.reference
  | .column _ => rfl
  | .call _ args => bareReferences_bareOperands args
  | .aliased e _ => e.references_bare
  | .literal _ => rfl

theorem Operand.references_bare : ∀ o : Operand,
    o.bare.references = o.columns.map ColumnRef.reference
  | .literal _ => rfl
  | .expr e => e.references_bare

/-- So are those of the operands of a list. -/
theorem bareReferences_bareOperands : ∀ os : List Operand,
    bareReferences (bareOperands os) = (operandColumns os).map ColumnRef.reference
  | [] => rfl
  | o :: os => by
    rw [bareOperands, bareReferences, operandColumns, List.map_append, o.references_bare,
      bareReferences_bareOperands os]

end

/-- The references of an operation are the columns of its operands. -/
theorem Operation.references_test (o : Operation) :
    o.test.references = o.columns.map ColumnRef.reference := by
  cases o with
  | compare op operand => exact operand.references_bare
  | isIn negated operands =>
    rw [Operation.test, ← bareOperands_eq_map]
    exact bareReferences_bareOperands operands
  | isNull negated => rfl
  | call f => exact bareReferences_bareOperands f.args

theorem Predicate.references_condition (p : Predicate) :
    p.condition.references = p.columns.map ColumnRef.reference := by
  rw [Predicate.columns, List.map_cons, ← p.operation.references_test]
  rfl

/-- What is written as a reference is a column of the projection or of a predicate. -/
theorem Select.references_outline (q : Select) (mode : FromMode) :
    (q.outline mode).references = q.columns.map ColumnRef.reference := by
  obtain ⟨sources, projection, filters, limit, offset⟩ := q
  -- Item by item and predicate by predicate, what is written is what the columns say.
  have hitems : (fun e : Expr => e.item.bare.references) =
      fun e => e.columns.map ColumnRef.reference := funext Expr.references_bare
  have hconditions : (fun p : Predicate => p.condition.references) =
      fun p => p.columns.map ColumnRef.reference := funext Predicate.references_condition
  simp only [Select.outline, Outline.references, Select.columns, List.flatMap_map, hitems,
    hconditions, List.map_append, List.map_flatMap]

/-! ## §2 What is offered -/

/-- The name of a result column: the output alias, or the name of a column without one. -/
def Expr.outputName? (e : Expr) : Option String :=
  match e.output?, e with
  | some a, _ => some a
  | none, .column c => some c.column.name
  | none, _ => none

mutual

/-- The column names that a source offers: those of a table's columns, or of an inner query. -/
def Source.outputs : Source → List String
  | .base t _ => t.columns.map Column.name
  | .derived _ q _ => q.outputs

/-- The column names of the result of a query: everything that its sources offer, or the names of
its projection items. -/
def Select.outputs : Select → List String
  | ⟨sources, projection, _, _, _⟩ =>
    if projection.isEmpty then sourceOutputs sources else projection.filterMap Expr.outputName?

def sourceOutputs : List Source → List String
  | [] => []
  | s :: ss => s.outputs ++ sourceOutputs ss

end

theorem sourceOutputs_eq_flatMap (ss : List Source) :
    sourceOutputs ss = ss.flatMap Source.outputs := by
  induction ss with
  | nil => rfl
  | cons s ss ih => rw [sourceOutputs, List.flatMap_cons, ih]

/-- A query without projection items offers everything that its sources offer. -/
theorem Select.outputs_of_star {q : Select} (h : q.projection = []) :
    q.outputs = q.sources.flatMap Source.outputs := by
  obtain ⟨sources, projection, filters, limit, offset⟩ := q
  subst h
  exact sourceOutputs_eq_flatMap sources

/-- A level of a query: the query itself, or a level of a query that one of its sources reads. -/
inductive IsLevel : Select → Select → Prop where
  | top (q : Select) : IsLevel q q
  | inner {level q inner : Select} {shape : Table} {a : String}
      (hsource : .derived shape inner a ∈ q.sources) (h : IsLevel level inner) : IsLevel level q

/-- Every reference of the query is answered: a source that is written has the alias and offers the
name. -/
def Select.Resolves (q : Select) : Prop :=
  ∀ r ∈ (q.outline .allSources).references,
    ∃ s ∈ FromMode.allSources.visible q.sources, s.aliasName = r.1 ∧ r.2 ∈ s.outputs

/-! ## §3 Regular queries -/

/-- A column of one of the views, under any output alias. -/
def FromViews (views : List View) (c : ColumnRef) : Prop :=
  ∃ v ∈ views, ∃ d ∈ v.columns, c.aliasName = d.aliasName ∧ c.column = d.column

mutual

/-- What a regular query may read: any table, or a regular query that selects everything. -/
inductive Definition.Regular : Definition → Prop where
  | plain (t : Table) : Definition.Regular (.plain t)
  | declared {declaration : Declaration} {name : Option String} {before after : Counters}
      {d : DeclaredTable} (h : declaration.declare name before = .ok (d, after)) :
      Definition.Regular (.declared d)
  | derived {q : Query} (hq : Query.Regular q) (hstar : q.statement.projection = [])
      (a : String) : Definition.Regular (q.subquery a).definition

/-- A query that is built from regular definitions, with columns of its own views only. -/
inductive Query.Regular : Query → Prop where
  | find {ps : Participants} (hps : ∀ e ∈ ps.toList, Definition.Regular e.definition) :
      Query.Regular (.find ps)
  | dynamic {es : List TableExpression} (hes : ∀ e ∈ es, Definition.Regular e.definition)
      {q : Query} (h : Query.dynamic (es.map TableExpression.source) = .ok q) : Query.Regular q
  | project {ε : Type} {q r : Query} (hq : Query.Regular q)
      {items : List View → Except ε (List Expr)}
      (hitems : ∀ added, items q.views = .ok added →
        ∀ e ∈ added, ∀ c ∈ e.columns, FromViews q.views c)
      (h : q.project items = .ok r) : Query.Regular r
  | filter {ε : Type} {q r : Query} (hq : Query.Regular q)
      {predicate : List View → Except ε Predicate}
      (hpredicate : ∀ added, predicate q.views = .ok added →
        ∀ c ∈ added.columns, FromViews q.views c)
      (h : q.filter predicate = .ok r) : Query.Regular r
  | limit {q : Query} (hq : Query.Regular q) (n : UInt64) : Query.Regular (q.limit n)
  | offset {q : Query} (hq : Query.Regular q) (n : UInt64) : Query.Regular (q.offset n)

end

/-! ## §4 The handles of a declared table -/

/-- Registering a field keeps the handles equal to the entries of the table. -/
theorem DeclaredTable.handles_addField {d e : DeclaredTable} {before after : Counters}
    {field : String × List ColumnOption} (hd : d.handles = d.table.entries)
    (h : DeclaredTable.addField (d, before) field = .ok (e, after)) :
    e.handles = e.table.entries := by
  -- A field that is taken is refused; any other is added to both lists alike.
  unfold DeclaredTable.addField Table.register at h
  split at h
  · exact absurd h (by simp [bind, Except.bind])
  · simp only [bind, Except.bind, pure, Except.pure, Except.ok.injEq, Prod.mk.injEq] at h
    obtain ⟨rfl, -⟩ := h
    simp [hd]

/-- The handles of a declared table are its columns, under the same fields. -/
theorem Declaration.handles_of_declare {declaration : Declaration} {name : Option String}
    {before after : Counters} {d : DeclaredTable}
    (h : declaration.declare name before = .ok (d, after)) : d.handles = d.table.entries := by
  have hfold : ∀ (fields : List (String × List ColumnOption)) (start : DeclaredTable × Counters),
      start.1.handles = start.1.table.entries →
      fields.foldlM DeclaredTable.addField start = .ok (d, after) →
      d.handles = d.table.entries := by
    intro fields
    -- Registering fails as a whole at the first field that is taken, so every step succeeded.
    induction fields with
    | nil =>
      intro start hstart hdone
      cases hdone
      exact hstart
    | cons field fields ih =>
      intro start hstart hdone
      rw [List.foldlM_cons] at hdone
      cases hstep : DeclaredTable.addField start field with
      | error e => rw [hstep] at hdone; cases hdone
      | ok next =>
        rw [hstep] at hdone
        exact ih next (DeclaredTable.handles_addField hstart hstep) hdone
  exact hfold declaration.fields _ rfl h

/-! ## §5 The invariant -/

/-- The source offers every column that its table promises, and the query that it reads, if any,
has no dangling reference at any level. -/
structure Source.Backed (s : Source) : Prop where
  promised : ∀ c ∈ s.table.columns, c.name ∈ s.outputs
  resolves : ∀ q, s.query? = some q → ∀ level, IsLevel level q → level.Resolves

/-- A query in the course of being built: what its views hand out is backed by its sources, and
what has been written so far comes from there. -/
structure Query.Coherent (q : Query) : Prop where
  offered : ∀ v ∈ q.views, ∀ c ∈ v.columns,
    ∃ s ∈ q.statement.sources, s.aliasName = c.aliasName ∧ c.column ∈ s.table.columns
  backed : ∀ s ∈ q.statement.sources, s.Backed
  written : ∀ c ∈ q.statement.columns, FromViews q.views c

/-- In a coherent query no reference of the top level dangles. -/
theorem Query.Coherent.resolves {q : Query} (h : q.Coherent) : q.statement.Resolves := by
  intro r hr
  rw [Select.references_outline] at hr
  obtain ⟨c, hc, rfl⟩ := List.mem_map.mp hr
  -- From the column to the view that handed it out, and from there to the source behind the view.
  obtain ⟨v, hv, d, hd, halias, hcolumn⟩ := h.written c hc
  obtain ⟨s, hs, hsalias, hsd⟩ := h.offered v hv d hd
  refine ⟨s, hs, hsalias.trans halias.symm, ?_⟩
  have hname := (h.backed s hs).promised d.column hsd
  rwa [← hcolumn] at hname

/-- In a coherent query no reference dangles, at any level. -/
theorem Query.Coherent.level_resolves {q : Query} (h : q.Coherent) {level : Select}
    (hlevel : IsLevel level q.statement) : level.Resolves := by
  -- Below the top, every level belongs to the query of some source.
  cases hlevel with
  | top => exact h.resolves
  | inner hsource hinner => exact (h.backed _ hsource).resolves _ rfl _ hinner

/-! ## §6 What building preserves -/

namespace Query

/-- A dynamic query that is made starts as a fixed one does, with the views of its sources. -/
theorem eq_of_dynamic {sources : List Source} {q : Query} (h : dynamic sources = .ok q) :
    q = ⟨.dynamic (sources.map fun s => s.table.view s.aliasName), .everything sources⟩ := by
  unfold dynamic at h
  split at h
  · cases h
    rfl
  · cases h

/-- Projecting succeeds only if the items can be made, and appends them. -/
theorem exists_of_project {ε : Type} {q r : Query} {items : List View → Except ε (List Expr)}
    (h : q.project items = .ok r) :
    ∃ added, items q.views = .ok added ∧
      r = q.update fun s => { s with projection := s.projection ++ added } := by
  obtain ⟨added, hadded, hr⟩ := bind_eq_ok_iff.mp h
  cases hr
  exact ⟨added, hadded, rfl⟩

/-- Filtering succeeds only if the predicate can be made, and adds it behind the others. -/
theorem exists_of_filter {ε : Type} {q r : Query} {predicate : List View → Except ε Predicate}
    (h : q.filter predicate = .ok r) :
    ∃ added, predicate q.views = .ok added ∧
      r = q.update fun s => { s with filters := s.filters ++ [added] } := by
  obtain ⟨added, hadded, hr⟩ := bind_eq_ok_iff.mp h
  cases hr
  exact ⟨added, hadded, rfl⟩

end Query

namespace TableExpression

@[simp]
theorem aliasName_source (e : TableExpression) : e.source.aliasName = e.aliasName := by
  obtain ⟨definition, a⟩ := e
  cases definition <;> rfl

@[simp]
theorem table_source (e : TableExpression) : e.source.table = e.definition.table := by
  obtain ⟨definition, a⟩ := e
  cases definition <;> rfl

end TableExpression

/-- A definition that can be trusted under any alias: its source is backed, and its view hands out
the columns of its table. -/
structure Definition.Coherent (d : Definition) : Prop where
  backed : ∀ a, (TableExpression.mk d a).source.Backed
  offered : ∀ a, ∀ c ∈ (d.view a).columns, c.aliasName = a ∧ c.column ∈ d.table.columns

/-- A view hands out the columns that it was made of, under its alias. -/
theorem View.mem_ofEntries {table a : String} {entries : List (String × Column)} {c : ColumnRef}
    (h : c ∈ (View.ofEntries table a entries).columns) :
    c.aliasName = a ∧ c.column ∈ entries.map Prod.snd := by
  obtain ⟨e, he, rfl⟩ := List.mem_map.mp h
  obtain ⟨entry, hentry, rfl⟩ := List.mem_map.mp he
  exact ⟨rfl, List.mem_map_of_mem hentry⟩

theorem Source.backed_base (t : Table) (a : String) : (Source.base t a).Backed where
  promised _ hc := List.mem_map_of_mem hc
  resolves _ hq := nomatch hq

/-- A query that selects everything outputs every column of its shape. -/
theorem Query.Coherent.backed_derived {q : Query} (h : q.Coherent)
    (hstar : q.statement.projection = []) (name a : String) :
    (Source.derived (q.statement.shape name) q.statement a).Backed where
  promised := by
    intro c hc
    -- The shape is merged from the tables of the sources, and those sources are backed.
    obtain ⟨t, ht, hct⟩ := Table.mem_table_of_mem_columns_merged hc
    obtain ⟨s, hs, rfl⟩ := List.mem_map.mp ht
    have hout : c.name ∈ s.outputs := (h.backed s hs).promised c hct
    show c.name ∈ q.statement.outputs
    rw [Select.outputs_of_star hstar]
    exact List.mem_flatMap.mpr ⟨s, hs, hout⟩
  resolves := by
    intro inner hinner level hlevel
    cases hinner
    exact h.level_resolves hlevel

/-- A coherent query that selects everything can be trusted as a definition for others. -/
theorem Query.Coherent.subquery {q : Query} (h : q.Coherent)
    (hstar : q.statement.projection = []) (a : String) : (q.subquery a).definition.Coherent where
  backed := h.backed_derived hstar a
  offered _ _ hc := View.mem_ofEntries hc

/-- A query that has only just begun is coherent if its participants are. -/
theorem Query.Coherent.find {ps : Participants}
    (hps : ∀ e ∈ ps.toList, e.definition.Coherent) : (Query.find ps).Coherent where
  offered := by
    intro v hv c hc
    obtain ⟨e, he, rfl⟩ := List.mem_map.mp hv
    -- What a view offers, the source under the same alias offers too.
    obtain ⟨halias, hcolumn⟩ := (hps e he).offered e.aliasName c hc
    exact ⟨e.source, List.mem_map_of_mem he, by simp [halias], by simpa using hcolumn⟩
  backed := List.forall_mem_map.mpr fun e he => (hps e he).backed e.aliasName
  written _ hc := absurd hc List.not_mem_nil

/-- So is a dynamic query, whose views are made from the sources. -/
theorem Query.Coherent.dynamic {es : List TableExpression}
    (hes : ∀ e ∈ es, e.definition.Coherent) {q : Query}
    (h : Query.dynamic (es.map TableExpression.source) = .ok q) : q.Coherent := by
  obtain rfl := Query.eq_of_dynamic h
  refine ⟨?_, ?_, ?_⟩
  · intro v hv c hc
    obtain ⟨s, hs, rfl⟩ := List.mem_map.mp hv
    -- The view is made from the source itself, so the definition behind it does not matter.
    obtain ⟨halias, hcolumn⟩ := View.mem_ofEntries hc
    exact ⟨s, hs, halias.symm, hcolumn⟩
  · exact List.forall_mem_map.mpr fun e he => (hes e he).backed e.aliasName
  · exact fun _ hc => absurd hc List.not_mem_nil

/-- A change of the statement that leaves the sources alone, and writes columns of the views only,
keeps a query coherent. -/
theorem Query.Coherent.update {q : Query} (h : q.Coherent) {change : Select → Select}
    (hsources : (change q.statement).sources = q.statement.sources)
    (hwritten : ∀ c ∈ (change q.statement).columns, FromViews q.views c) :
    (q.update change).Coherent where
  -- The sources stay, so only the columns that are written are new.
  offered := by
    intro v hv c hc
    have hoffered := h.offered v hv c hc
    rwa [← hsources] at hoffered
  backed := by
    intro s hs
    exact h.backed s (hsources ▸ hs)
  written := hwritten

/-- Items with columns of the views keep a query coherent. -/
theorem Query.Coherent.project {ε : Type} {q r : Query} (h : q.Coherent)
    {items : List View → Except ε (List Expr)}
    (hitems : ∀ added, items q.views = .ok added →
      ∀ e ∈ added, ∀ c ∈ e.columns, FromViews q.views c)
    (hr : q.project items = .ok r) : r.Coherent := by
  obtain ⟨added, hadded, rfl⟩ := Query.exists_of_project hr
  -- A column of the longer projection is an old one, a new one, or in a predicate.
  refine h.update rfl fun c hc => ?_
  simp only [Select.columns, List.flatMap_append, List.mem_append] at hc
  obtain (hold | hnew) | hfilters := hc
  · exact h.written c (List.mem_append_left _ hold)
  · obtain ⟨e, he, hce⟩ := List.mem_flatMap.mp hnew
    exact hitems added hadded e he c hce
  · exact h.written c (List.mem_append_right _ hfilters)

/-- So does a predicate with columns of the views. -/
theorem Query.Coherent.filter {ε : Type} {q r : Query} (h : q.Coherent)
    {predicate : List View → Except ε Predicate}
    (hpredicate : ∀ added, predicate q.views = .ok added →
      ∀ c ∈ added.columns, FromViews q.views c)
    (hr : q.filter predicate = .ok r) : r.Coherent := by
  obtain ⟨added, hadded, rfl⟩ := Query.exists_of_filter hr
  refine h.update rfl fun c hc => ?_
  simp only [Select.columns, List.flatMap_append, List.mem_append, List.flatMap_singleton] at hc
  -- An item of the projection, an old predicate, or the new one.
  obtain hprojection | hold | hnew := hc
  · exact h.written c (List.mem_append_left _ hprojection)
  · exact h.written c (List.mem_append_right _ hold)
  · exact hpredicate added hadded c hnew

/-! ## §7 Regular queries -/

mutual

/-- A regular definition can be trusted under any alias. -/
theorem Definition.Regular.coherent {d : Definition} : d.Regular → d.Coherent
  | .plain t => ⟨Source.backed_base t, fun _ _ hc => View.mem_ofEntries hc⟩
  | .declared h => by
    refine ⟨Source.backed_base _, fun a c hc => ?_⟩
    obtain ⟨halias, hcolumn⟩ := View.mem_ofEntries hc
    -- The handles that the view is made of are the entries of the table.
    rw [Declaration.handles_of_declare h] at hcolumn
    exact ⟨halias, hcolumn⟩
  | .derived hq hstar a => hq.coherent.subquery hstar a

/-- A regular query is coherent, by induction on how it was built. -/
theorem Query.Regular.coherent {q : Query} : q.Regular → q.Coherent
  | .find hps => .find fun e he => (hps e he).coherent
  | .dynamic hes h => .dynamic (fun e he => (hes e he).coherent) h
  | .project hq hitems h => hq.coherent.project hitems h
  | .filter hq hpredicate h => hq.coherent.filter hpredicate h
  | .limit hq _ => hq.coherent.update rfl hq.coherent.written
  | .offset hq _ => hq.coherent.update rfl hq.coherent.written

end

/-- No reference of a regular query dangles: at every level, each column is written with the alias
of a source of that level which offers a column of that name. -/
theorem Query.Regular.reference_resolves {q : Query} (hq : q.Regular) {level : Select}
    (hlevel : IsLevel level q.statement) {aliasName name : String}
    (href : (aliasName, name) ∈ (level.outline .allSources).references) :
    ∃ s ∈ FromMode.allSources.visible level.sources,
      s.aliasName = aliasName ∧ name ∈ s.outputs :=
  hq.coherent.level_resolves hlevel (aliasName, name) href

/-! ## §8 A query that reads a query -/

instance (views : List View) (c : ColumnRef) : Decidable (FromViews views c) :=
  inferInstanceAs (Decidable (∃ v ∈ views, ∃ d ∈ v.columns,
    c.aliasName = d.aliasName ∧ c.column = d.column))

namespace Samples

/-- The column of an article's author, under a SQL name of its own. -/
def authorColumn : Column := .define "author_id" "Post" [.named "authorId"] 1

/-- Articles as they are declared, with a reserved column and a field that users have too. -/
def articles : DeclaredTable :=
  let entries := [("id", .define "id" "Post" [] 0), ("author_id", authorColumn),
    ("title", .define "title" "Post" [] 2), ("_revision", .define "_revision" "Post" [] 3)]
  ⟨⟨"Post", "Post", entries⟩, entries⟩

/-- Users as they are now. -/
def users : Table :=
  ⟨"User", "User", [("id", .plain "id" "User"), ("nickname", .plain "nickname" "User")]⟩

/-- Articles with their authors. -/
def authoredArticles : Query :=
  (Query.find (.two ⟨.declared articles, "P"⟩ ⟨.plain users, "U"⟩)).update fun s =>
    { s with filters := [⟨⟨"P", authorColumn, none⟩,
      .isIn false [.expr (.column ⟨"U", .plain "id" "User", none⟩)]⟩] }

/-- The authors of the articles. -/
def articleAuthors : Query :=
  (Query.find (.one (authoredArticles.subquery "D"))).update fun s =>
    { s with projection := [.call "DISTINCT" [.expr (.column ⟨"D", authorColumn, none⟩)]] }

end Samples

open Samples (articles users authoredArticles articleAuthors)

/-- The inner query reads two tables and tests columns of its own views. -/
theorem authoredArticles_regular : authoredArticles.Regular := by
  have hdeclared : Samples.post.declare none {} = .ok (articles, _) := rfl
  have hfind : (Query.find (.two ⟨.declared articles, "P"⟩ ⟨.plain users, "U"⟩)).Regular := by
    refine .find fun e he => ?_
    simp only [Participants.toList, List.mem_cons, List.not_mem_nil, or_false] at he
    obtain rfl | rfl := he
    · exact .declared hdeclared
    · exact .plain users
  have hfilter : (Query.find (.two ⟨.declared articles, "P"⟩ ⟨.plain users, "U"⟩)).filter
      (fun _ => Except.ok (ε := QueryError) _) = .ok authoredArticles := rfl
  refine .filter hfind ?_ hfilter
  rintro added ⟨⟩
  decide

/-- The outer query reads the inner one, and projects a column of that view. -/
theorem articleAuthors_regular : articleAuthors.Regular := by
  have hfind : (Query.find (.one (authoredArticles.subquery "D"))).Regular := by
    refine .find fun e he => ?_
    obtain rfl := List.mem_singleton.mp he
    exact .derived authoredArticles_regular rfl "D"
  have hproject : (Query.find (.one (authoredArticles.subquery "D"))).project
      (fun _ => Except.ok (ε := QueryError) _) = .ok articleAuthors := rfl
  refine .project hfind ?_ hproject
  rintro added ⟨⟩
  decide

/-- Both levels of `articleAuthors`: the outer reference carries the alias of the derived table and
the SQL name of the table's own column. -/
theorem references_of_articleAuthors_resolve :
    articleAuthors.Regular ∧ IsLevel authoredArticles.statement articleAuthors.statement ∧
      (∃ s ∈ FromMode.allSources.visible articleAuthors.statement.sources,
        s.aliasName = "D" ∧ "authorId" ∈ s.outputs) ∧
      ∃ s ∈ FromMode.allSources.visible authoredArticles.statement.sources,
        s.aliasName = "U" ∧ "id" ∈ s.outputs := by
  have hlevel : IsLevel authoredArticles.statement articleAuthors.statement :=
    .inner (List.mem_singleton.mpr rfl) (.top _)
  refine ⟨articleAuthors_regular, hlevel, ?_, ?_⟩
  · exact articleAuthors_regular.reference_resolves (.top _) (by decide)
  · exact articleAuthors_regular.reference_resolves hlevel (by decide)

end SqlSelect
