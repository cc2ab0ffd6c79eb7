import SqlSelect.Proofs.Calls
import SqlSelect.Proofs.References

/-!
# Fixed and Dynamic Participants

A query over fixed participants makes their views anew for each call, and a declared table makes its
view from the handles that it keeps.  A dynamic query makes its views once, from the sources alone.
The views are the same, and no call can tell the two queries apart.

## Main definitions

- `Definition.Genuine` — a declared table comes out of a declaration
- `Query.Agree` — the same views and the same statement
- `Query.outcomes` — the error and the statement after each call of a run
- `TableExpression.unknownColumn?` — what is wrong with a field

## Main statements

- `TableExpression.view_eq_columns` — the view made from handles is that of all columns
- `Query.Agree.outcomes` — queries that agree have the same outcome call by call
- `Query.failure?_items_of_reads` — a call fails with the first field that is not there
- `Query.dynamic_agrees_with_find` — a dynamic query over the sources of fixed participants
-/

namespace SqlSelect

variable {ε : Type}

/-! ## §1 Views -/

/-- A definition that a program can have: a declared table comes out of a declaration. -/
def Definition.Genuine : Definition → Prop
  | .declared d => ∃ (declaration : Declaration) (name : Option String) (before after : Counters),
      declaration.declare name before = .ok (d, after)
  | _ => True

namespace TableExpression

/-- The view made from the handles of a declared table is that of all its columns. -/
theorem view_eq_columns {e : TableExpression} (h : e.definition.Genuine) : e.view = e.columns := by
  obtain ⟨definition, a⟩ := e
  cases definition with
  | plain t => rfl
  | declared d =>
    obtain ⟨declaration, name, before, after, hdeclare⟩ := h
    show View.ofEntries d.table.name a d.handles = View.ofEntries d.table.name a d.table.entries
    -- The handles of a declaration are the columns of its table, under the same fields.
    rw [Declaration.handles_of_declare hdeclare]
  | derived shape q => rfl

theorem view_source (e : TableExpression) :
    e.source.table.view e.source.aliasName = e.columns := by
  rw [e.table_source, e.aliasName_source]
  rfl

/-- A field of a table, looked up in the view of all columns. -/
theorem column_columns (e : TableExpression) (field : String) :
    e.columns.column field =
      match e.table.column? field with
      | some c => .ok ⟨e.aliasName, c, none⟩
      | none => .error (.unknownColumn e.table.name field) :=
  e.table.column_view e.aliasName field

/-- What is wrong with a field: the table has none of that name. -/
def unknownColumn? (e : TableExpression) (field : String) : Option StepError :=
  match e.table.column? field with
  | some _ => none
  | none => some (.query (.unknownColumn e.table.name field))

/-- In the view of all columns, what is wrong with a field is that the table lacks it. -/
theorem error?_columns (e : TableExpression) (field : String) :
    e.columns.error? field = e.unknownColumn? field := by
  rw [← View.failure?_column, column_columns, unknownColumn?]
  cases e.table.column? field <;> rfl

end TableExpression

/-! ## §2 Queries that agree -/

namespace Query

/-- The same to everyone who makes calls and looks at the statement. -/
structure Agree (q r : Query) : Prop where
  views : q.views = r.views
  statement : q.statement = r.statement

/-- What a run looks like from outside: the error of each call, if it fails, and the statement after
it. -/
def outcomes (q : Query) : List (BuildCall ε) → List (Option ε × Select)
  | [] => []
  | c :: cs => (failure? (q.call c), (q.attempt c).statement) :: (q.attempt c).outcomes cs

namespace Agree

variable {q r : Query}

theorem attempt (h : q.Agree r) (c : BuildCall ε) : (q.attempt c).Agree (r.attempt c) := by
  rw [q.attempt_eq_extend, r.attempt_eq_extend, h.views]
  exact ⟨h.views, congrArg (fun s => s.extend (additions r.views [c])) h.statement⟩

theorem attemptAll (h : q.Agree r) (cs : List (BuildCall ε)) :
    (q.attemptAll cs).Agree (r.attemptAll cs) := by
  induction cs generalizing q r with
  | nil => exact h
  | cons c cs ih => exact ih (h.attempt c)

/-- Queries that agree have the same outcome, call by call. -/
theorem outcomes (h : q.Agree r) (cs : List (BuildCall ε)) : q.outcomes cs = r.outcomes cs := by
  induction cs generalizing q r with
  | nil => rfl
  | cons c cs ih =>
    have hfailure : failure? (q.call c) = failure? (r.call c) := failure?_call_congr h.views c
    have hattempt : (q.attempt c).Agree (r.attempt c) := h.attempt c
    rw [Query.outcomes, Query.outcomes, hfailure, hattempt.statement, ih hattempt]

/-- Queries that agree render alike. -/
theorem render (h : q.Agree r) (mode : RenderMode) (settings : RenderSettings) :
    SqlSelect.render mode settings q = SqlSelect.render mode settings r :=
  -- A query renders as its statement does.
  congrArg (fun s : Select => SqlSelect.render mode settings s) h.statement

theorem subquery (h : q.Agree r) (a : String) : q.subquery a = r.subquery a :=
  congrArg (·.toTableExpression a) h.statement

end Agree

end Query

/-! ## §3 Fixed participants and their sources -/

/-- Fixed participants are as many as a dynamic query allows. -/
theorem Participants.length_toList (ps : Participants) :
    1 ≤ ps.toList.length ∧ ps.toList.length ≤ Query.maxSources := by
  cases ps <;> simp [Participants.toList, Query.maxSources]

namespace Query

section Participants

variable {ps : Participants}

/-- The views of fixed participants are those of all their columns. -/
theorem views_find (hps : ∀ e ∈ ps.toList, e.definition.Genuine) :
    (find ps).views = ps.toList.map TableExpression.columns :=
  List.map_congr_left fun e he => e.view_eq_columns (hps e he)

/-- The sources of one, two or three table expressions make a dynamic query, which agrees with the
query that finds them. -/
theorem exists_agree_find (hps : ∀ e ∈ ps.toList, e.definition.Genuine) :
    ∃ q, dynamic (ps.toList.map TableExpression.source) = .ok q ∧ q.Agree (find ps) := by
  have hlength : 1 ≤ (ps.toList.map TableExpression.source).length ∧
      (ps.toList.map TableExpression.source).length ≤ maxSources := by
    rw [List.length_map]
    exact ps.length_toList
  -- The statements are the same from the start, so only the views are left to compare.
  refine ⟨_, if_pos hlength, ?_, rfl⟩
  rw [views_find hps]
  show (ps.toList.map TableExpression.source).map _ = _
  rw [List.map_map]
  exact List.map_congr_left fun e _ => e.view_source

/-! ## §4 Fields that are not there -/

/-- Columns that are read as an index and a field of the view there. -/
def readLookups {n : Nat} (reads : List (Fin n × String)) : List Lookup :=
  reads.map fun r => .column (.view r.1 r.2)

/-- Of the reads from the views, the first one whose field the table does not have. -/
theorem findSome?_readLookups (hps : ∀ e ∈ ps.toList, e.definition.Genuine) (ws : Workspace)
    (reads : List (Fin ps.toList.length × String)) :
    (readLookups reads).findSome? (Lookup.error? ws (find ps).views) =
      reads.findSome? fun r => (ps.toList.get r.1).unknownColumn? r.2 := by
  -- The index of a participant is the index of its view, so every view that is read is there.
  have herror : ∀ r : Fin ps.toList.length × String,
      Lookup.error? ws (find ps).views (.column (.view r.1 r.2)) =
        (ps.toList.get r.1).unknownColumn? r.2 := by
    intro r
    have hview : (find ps).views[r.1.val]? = some (ps.toList.get r.1).columns := by
      rw [views_find hps, List.getElem?_map, List.getElem?_eq_getElem r.1.isLt]
      rfl
    simp only [Lookup.error?, hview]
    exact (ps.toList.get r.1).error?_columns r.2
  rw [readLookups, List.findSome?_map]
  exact congrArg (reads.findSome? ·) (funext herror)

section Reads

variable (hps : ∀ e ∈ ps.toList, e.definition.Genuine) (ws : Workspace)
  {reads : List (Fin ps.toList.length × String)} (before : List (BuildCall StepError))
include hps

/-- Projection items fail with the first field that the table does not have, at any point of a run. -/
theorem failure?_items_of_reads {items : List ExprTerm}
    (hitems : items.flatMap ExprTerm.lookups = readLookups reads) :
    failure? (((find ps).attemptAll before).call (.ofItems ws items)) =
      reads.findSome? fun r => (ps.toList.get r.1).unknownColumn? r.2 := by
  rw [failure?_ofItems, views_attemptAll, hitems, findSome?_readLookups hps]

/-- So does a predicate. -/
theorem failure?_predicate_of_reads {p : PredicateTerm} (hp : p.lookups = readLookups reads) :
    failure? (((find ps).attemptAll before).call (.ofPredicate ws p)) =
      reads.findSome? fun r => (ps.toList.get r.1).unknownColumn? r.2 := by
  rw [failure?_ofPredicate, views_attemptAll, hp, findSome?_readLookups hps]

end Reads

end Participants

/-! ## §5 The two builders -/

/-- Over one, two or three table expressions, a dynamic query over their sources cannot be told from
the query that finds them: each call of a run fails alike or leads to the same statement, and so to
the same rendering and the same subquery.  A call with terms fails with the first field, in reading
order, that its table does not have.  The views are those of all columns, however they are made. -/
theorem dynamic_agrees_with_find (ps : Participants)
    (hps : ∀ e ∈ ps.toList, e.definition.Genuine) :
    ∃ q, dynamic (ps.toList.map TableExpression.source) = .ok q ∧
      (∀ calls : List (BuildCall ε),
        q.outcomes calls = (find ps).outcomes calls ∧
          (q.attemptAll calls).statement = ((find ps).attemptAll calls).statement ∧
          (∀ mode settings, render mode settings (q.attemptAll calls) =
            render mode settings ((find ps).attemptAll calls)) ∧
          ∀ a, (q.attemptAll calls).subquery a = ((find ps).attemptAll calls).subquery a) ∧
      (∀ ws (before : List (BuildCall StepError)) (reads : List (Fin ps.toList.length × String)),
        (∀ items : List ExprTerm, items.flatMap ExprTerm.lookups = readLookups reads →
          failure? (((find ps).attemptAll before).call (.ofItems ws items)) =
            reads.findSome? fun r => (ps.toList.get r.1).unknownColumn? r.2) ∧
        ∀ p : PredicateTerm, p.lookups = readLookups reads →
          failure? (((find ps).attemptAll before).call (.ofPredicate ws p)) =
            reads.findSome? fun r => (ps.toList.get r.1).unknownColumn? r.2) ∧
      q.views = ps.toList.map TableExpression.columns ∧
      (find ps).views = ps.toList.map TableExpression.columns ∧
      ∀ e ∈ ps.toList, e.view = e.columns ∧
        e.source.table.view e.source.aliasName = e.columns ∧
        ∀ field, e.columns.column field =
          match e.table.column? field with
          | some c => .ok ⟨e.aliasName, c, none⟩
          | none => .error (.unknownColumn e.table.name field) := by
  obtain ⟨q, hq, hagree⟩ := exists_agree_find hps
  have hviews : (find ps).views = ps.toList.map TableExpression.columns := views_find hps
  refine ⟨q, hq, fun calls => ?_, fun ws before reads => ⟨?_, ?_⟩, hagree.views.trans hviews, hviews,
    fun e he => ⟨e.view_eq_columns (hps e he), e.view_source, e.column_columns⟩⟩
  · -- Agreement is kept call by call, and nothing but the views and the statement is looked at.
    have hrun : (q.attemptAll calls).Agree ((find ps).attemptAll calls) := hagree.attemptAll calls
    exact ⟨hagree.outcomes calls, hrun.statement, hrun.render, hrun.subquery⟩
  · exact fun items hitems => failure?_items_of_reads hps ws before hitems
  · exact fun p hp => failure?_predicate_of_reads hps ws before hp

end Query

/-! ## §6 Articles beside themselves -/

namespace Samples

/-- Articles twice, as they are declared, and a derived table. -/
def articlePairs : Participants :=
  .three ⟨.declared articles, "P"⟩ ⟨.declared articles, "Q"⟩ (authoredArticles.subquery "D")

/-- What is read of the pairs: the last field is not there. -/
def pairReads : List (Fin 3 × String) :=
  [(0, "author_id"), (2, "nickname"), (1, "votes")]

/-- A projection with these reads, two of them in a call. -/
def pairItems : List ExprTerm :=
  [.column ⟨.view 0 "author_id", some "author"⟩,
    .call "COALESCE" [.expr (.column ⟨.view 2 "nickname", none⟩),
      .expr (.named (.column ⟨.view 1 "votes", none⟩) "v")]]

def boundedPairs : List (BuildCall StepError) := [.limit 3, .ofItems {} pairItems, .offset 5]

end Samples

open Samples in
/-- The first field that is missing is one of the second participant, which goes by the name of its
table. -/
theorem dynamic_articlePairs_agrees :
    (∀ e ∈ articlePairs.toList, e.definition.Genuine) ∧
      (∃ q, Query.dynamic (articlePairs.toList.map TableExpression.source) = .ok q ∧
        q.outcomes boundedPairs = (Query.find articlePairs).outcomes boundedPairs) ∧
      failure? (((Query.find articlePairs).attemptAll boundedPairs).call (.ofItems {} pairItems)) =
        some (.query (.unknownColumn "Post" "votes")) := by
  have hdeclared : Samples.post.declare none {} = .ok (articles, _) := rfl
  have hgenuine : ∀ e ∈ articlePairs.toList, e.definition.Genuine := by
    simp only [articlePairs, Participants.toList, List.forall_mem_cons, List.not_mem_nil]
    exact ⟨⟨_, _, _, _, hdeclared⟩, ⟨_, _, _, _, hdeclared⟩, trivial, fun _ h => h.elim⟩
  obtain ⟨q, hq, hruns, hreads, -⟩ :=
    Query.dynamic_agrees_with_find (ε := StepError) articlePairs hgenuine
  refine ⟨hgenuine, ⟨q, hq, (hruns _).1⟩, ?_⟩
  exact (hreads {} boundedPairs pairReads).1 pairItems (by decide)

end SqlSelect
