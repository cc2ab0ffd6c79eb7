import SqlSelect.Proofs.References

/-!
# Leaf Tables

The columns of a derived table are merged from the tables of its query, and some of these may have
been merged before, from the tables of a query further in.  All the merging in between leaves no
trace.  What a derived table offers is decided by the base tables at the leaves, read from left to
right, and each of its columns is the very column of the first leaf that has the field.

## Main definitions

- `Source.leaves`, `Select.leaves` — the base tables of a source or a query, at every depth
- `Query.Built`, `Definition.Built` — any query over tables and finished queries, under any aliases
- `Source.Shaped`, `Query.Shaped` — the invariant: a derived table has the merged columns of its
  query

## Main statements

- `Source.Shaped.mergesAs_leaves` — to a merge, a source is its leaves
- `Query.Built.shaped` — building keeps the invariant
- `Query.Built.derived_table_of_leaves` — the fields and the columns of a derived table, from the
  leaves alone
-/

namespace SqlSelect

/-! ## §1 Leaves -/

mutual

/-- The base tables of a source, from left to right through every query that it reads. -/
def Source.leaves : Source → List Table
  | .base t _ => [t]
  | .derived _ q _ => q.leaves

/-- The base tables of a query, from left to right, those of the sources that are not written
included. -/
def Select.leaves : Select → List Table
  | ⟨sources, _, _, _, _⟩ => sourceLeaves sources

def sourceLeaves : List Source → List Table
  | [] => []
  | s :: ss => s.leaves ++ sourceLeaves ss

end

theorem sourceLeaves_eq_flatMap (ss : List Source) :
    sourceLeaves ss = ss.flatMap Source.leaves := by
  induction ss with
  | nil => rfl
  | cons s ss ih => rw [sourceLeaves, List.flatMap_cons, ih]

theorem Select.leaves_eq_flatMap (q : Select) : q.leaves = q.sources.flatMap Source.leaves := by
  obtain ⟨sources, projection, filters, limit, offset⟩ := q
  exact sourceLeaves_eq_flatMap sources

/-! ## §2 Built queries -/

mutual

/-- What a query may read: any table, or a query that was built before. -/
inductive Definition.Built : Definition → Prop where
  | plain (t : Table) : Definition.Built (.plain t)
  | declared (d : DeclaredTable) : Definition.Built (.declared d)
  | derived {q : Query} (hq : Query.Built q) (a : String) :
      Definition.Built (q.subquery a).definition

/-- A query that is built in any way, over participants that go by any aliases. -/
inductive Query.Built : Query → Prop where
  | find {ps : Participants} (hps : ∀ e ∈ ps.toList, Definition.Built e.definition) :
      Query.Built (.find ps)
  | dynamic {es : List TableExpression} (hes : ∀ e ∈ es, Definition.Built e.definition)
      {q : Query} (h : Query.dynamic (es.map TableExpression.source) = .ok q) : Query.Built q
  | project {ε : Type} {q r : Query} (hq : Query.Built q)
      {items : List View → Except ε (List Expr)} (h : q.project items = .ok r) : Query.Built r
  | filter {ε : Type} {q r : Query} (hq : Query.Built q)
      {predicate : List View → Except ε Predicate} (h : q.filter predicate = .ok r) : Query.Built r
  | limit {q : Query} (hq : Query.Built q) (n : UInt64) : Query.Built (q.limit n)
  | offset {q : Query} (hq : Query.Built q) (n : UInt64) : Query.Built (q.offset n)

end

mutual

/-- A definition with regular columns is built in particular. -/
theorem Definition.Regular.built {d : Definition} : d.Regular → d.Built
  | .plain t => .plain t
  | .declared (d := d) _ => .declared d
  | .derived hq _ a => .derived hq.built a

/-- Where the columns of a query come from does not matter to its leaves. -/
theorem Query.Regular.built {q : Query} : q.Regular → q.Built
  | .find hps => .find fun e he => (hps e he).built
  | .dynamic hes h => .dynamic (fun e he => (hes e he).built) h
  | .project hq _ h => .project hq.built h
  | .filter hq _ h => .filter hq.built h
  | .limit hq n => .limit hq.built n
  | .offset hq n => .offset hq.built n

end

/-! ## §3 The invariant -/

/-- Every derived table has the columns that are merged from the sources of its query, at every
depth. -/
inductive Source.Shaped : Source → Prop where
  | base (t : Table) (a : String) : Source.Shaped (.base t a)
  | derived {q : Select} (hq : ∀ s ∈ q.sources, Source.Shaped s) (name a : String) :
      Source.Shaped (.derived (q.shape name) q a)

def Query.Shaped (q : Query) : Prop := ∀ s ∈ q.statement.sources, s.Shaped

/-- A definition whose source is shaped under any alias. -/
def Definition.Shaped (d : Definition) : Prop := ∀ a, (TableExpression.mk d a).source.Shaped

/-- If a merge cannot tell each source from its leaves, then it cannot tell the list of sources from
the list of all leaves. -/
theorem mergesAs_sourceLeaves {ss : List Source}
    (h : ∀ s ∈ ss, MergesAs s.table.entries (s.leaves.flatMap (·.entries))) :
    MergesAs ((ss.map Source.table).flatMap (·.entries))
      ((ss.flatMap Source.leaves).flatMap (·.entries)) := by
  rw [List.flatMap_map, List.flatMap_assoc]
  exact MergesAs.flatMap h

/-- To a merge, the columns of a source are those of its leaves. -/
theorem Source.Shaped.mergesAs_leaves {s : Source} (h : s.Shaped) :
    MergesAs s.table.entries (s.leaves.flatMap (·.entries)) := by
  -- The columns of a base table are its own.  Those of a derived one were merged once, from sources
  -- that are their leaves by hypothesis; merging them again changes nothing.
  induction h with
  | base t a => exact fun merged => by simp [Source.table, Source.leaves]
  | @derived q _ name a ih =>
    intro merged
    have hshape := Table.mergesAs_mergeEntries (q.sources.map Source.table) merged
    have hleaves := mergesAs_sourceLeaves ih merged
    -- Read from the query, the leaves of all its sources are its leaves.
    rw [← q.leaves_eq_flatMap] at hleaves
    exact hshape.trans hleaves

/-- The shape of a query is merged from its leaves. -/
theorem Query.Shaped.shape_eq_merged {q : Query} (h : q.Shaped) (name : String) :
    q.statement.shape name = Table.merged name q.statement.leaves := by
  have hleaves := mergesAs_sourceLeaves (fun s hs => (h s hs).mergesAs_leaves) []
  rw [← q.statement.leaves_eq_flatMap] at hleaves
  rw [Select.shape, Table.merged, Table.merged, Table.mergeEntries, Table.mergeEntries, hleaves]

/-! ## §4 What building preserves -/

/-- A query that becomes a table has the shape that the invariant asks for, by definition. -/
theorem Query.Shaped.subquery {q : Query} (h : q.Shaped) (a : String) :
    (q.subquery a).definition.Shaped := fun b => .derived h a b

/-- A query over shaped participants is shaped under whatever aliases they go by. -/
theorem Query.Shaped.find {ps : Participants} (h : ∀ e ∈ ps.toList, e.definition.Shaped) :
    (Query.find ps).Shaped :=
  List.forall_mem_map.mpr fun e he => h e he e.aliasName

/-- A query over a list of sources is as shaped as they are. -/
theorem Query.Shaped.dynamic {es : List TableExpression} (hes : ∀ e ∈ es, e.definition.Shaped)
    {q : Query} (h : Query.dynamic (es.map TableExpression.source) = .ok q) : q.Shaped := by
  -- A list of a length that is allowed gives the query over all of it.
  obtain rfl := Query.eq_of_dynamic h
  exact List.forall_mem_map.mpr fun e he => hes e he e.aliasName

theorem Query.Shaped.project {ε : Type} {q r : Query} (h : q.Shaped)
    {items : List View → Except ε (List Expr)} (hr : q.project items = .ok r) : r.Shaped := by
  obtain ⟨added, -, rfl⟩ := Query.exists_of_project hr
  exact h

theorem Query.Shaped.filter {ε : Type} {q r : Query} (h : q.Shaped)
    {predicate : List View → Except ε Predicate} (hr : q.filter predicate = .ok r) :
    r.Shaped := by
  obtain ⟨added, -, rfl⟩ := Query.exists_of_filter hr
  exact h

mutual

/-- Every definition is shaped: a table needs no shape, and a derived one gets its own. -/
theorem Definition.Built.shaped {d : Definition} : d.Built → d.Shaped
  | .plain t => fun a => .base t a
  | .declared d => fun a => .base d.table a
  | .derived hq a => hq.shaped.subquery a

/-- Every query is shaped, by induction on how it was built. -/
theorem Query.Built.shaped {q : Query} : q.Built → q.Shaped
  | .find hps => .find fun e he => (hps e he).shaped
  | .dynamic hes h => .dynamic (fun e he => (hes e he).shaped) h
  | .project hq h => hq.shaped.project h
  | .filter hq h => hq.shaped.filter h
  | .limit hq _ => hq.shaped
  | .offset hq _ => hq.shaped

end

/-! ## §5 Derived tables -/

/-- What a derived table offers, under any alias, depends on its leaves alone.  Its fields are those
of the leaves that are not reserved, as they first occur, and each column is that of the first leaf
which has the field.  How the leaves were grouped on the way does not matter. -/
theorem Query.Built.derived_table_of_leaves {q : Query} (hq : q.Built) (name a : String) :
    let source := (TableExpression.mk (q.subquery name).definition a).source
    source.table.fields =
        ((source.leaves.flatMap Table.fields).filter fun f => !isReserved f).eraseDups ∧
      (∀ f, source.table.column? f =
        if isReserved f then none else source.leaves.findSome? (·.column? f)) ∧
      source.table = Table.merged name source.leaves ∧
      ∀ (whole : String) (groups : List (String × List Table)),
        Table.merged whole (groups.map fun g => Table.merged g.1 g.2) =
          Table.merged whole (groups.flatMap (·.2)) := by
  intro source
  -- The invariant says all about the table; the rest is what a merge of any tables has.
  have htable : source.table = Table.merged name source.leaves := hq.shaped.shape_eq_merged name
  refine ⟨?_, fun f => ?_, htable, Table.merged_merged⟩
  · rw [htable]
    exact Table.fields_merged name source.leaves
  · rw [htable]
    exact Table.column?_merged name source.leaves f

namespace Samples

/-- Comments, which have two fields that articles have too, and a reserved one. -/
def comments : Table :=
  ⟨"Comment", "comments",
    [("title", .plain "title" "comments"), ("_revision", .plain "_revision" "comments"),
      ("id", .plain "id" "comments")]⟩

/-- Three comments beside the articles with their authors, which go by another alias here. -/
def commentedArticles : Query :=
  (Query.find (.two ⟨.plain comments, "C"⟩ ⟨(authoredArticles.subquery "D").definition, "A"⟩)).limit
    3

end Samples

open Samples (articles users comments commentedArticles)

/-- The query is built from a table and from a query that is built itself. -/
theorem commentedArticles_built : commentedArticles.Built := by
  refine .limit (.find fun e he => ?_) 3
  simp only [Participants.toList, List.mem_cons, List.not_mem_nil, or_false] at he
  rcases he with rfl | rfl
  · exact .plain comments
  · exact .derived authoredArticles_regular.built "D"

/-- Comments come first, and their columns win over those of the articles, which were merged with
the authors before.  The reserved columns stay behind. -/
theorem table_of_commentedArticles :
    let source := (TableExpression.mk (commentedArticles.subquery "X").definition "Y").source
    commentedArticles.Built ∧
      source.leaves = [comments, articles.table, users] ∧
      source.table.fields = ["title", "id", "author_id", "nickname"] ∧
      source.table.column? "title" = some (.plain "title" "comments") ∧
      source.table.column? "author_id" = some Samples.authorColumn ∧
      source.table.column? "_revision" = none := by
  intro source
  obtain ⟨hfields, hcolumn, -, -⟩ := commentedArticles_built.derived_table_of_leaves "X" "Y"
  refine ⟨commentedArticles_built, rfl, ?_, ?_, ?_, ?_⟩
  · exact hfields.trans (by decide)
  · exact (hcolumn "title").trans (by decide)
  · exact (hcolumn "author_id").trans (by decide)
  · exact (hcolumn "_revision").trans (by decide)

end SqlSelect
