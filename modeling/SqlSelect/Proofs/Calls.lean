import SqlSelect.Proofs.Lookups

/-!
# Runs of Calls

A query is built call by call.  Calls of four kinds add to it, and those that add something made from
the views can fail; a run goes on after a failure with the query as it was.  What comes out depends on
the successful calls alone, and between calls of different kinds not even on their order.

## Main definitions

- `BuildCall` — one call: projection items, a predicate, or a bound
- `Query.call`, `Query.attempt`, `Query.attemptAll` — a call that can fail, a call, and a run of calls
- `Additions` — what a run adds, kind by kind, and `additions` — that of the successful calls
- `Select.extend` — a statement with additions

## Main statements

- `Query.attempt_eq_extend` — one call makes the additions of that call
- `Query.attemptAll_eq_extend` — a run makes the additions of its calls
- `Query.statement_of_run` — the statement after a run, clause by clause
-/

namespace SqlSelect

variable {ε : Type}

/-! ## §1 Calls -/

/-- One call on a query that is being built.  Projection items and predicates are made from the views
of the query, and making them can fail. -/
inductive BuildCall (ε : Type) where
  | project (items : List View → Except ε (List Expr))
  | filter (predicate : List View → Except ε Predicate)
  | limit (n : UInt64)
  | offset (n : UInt64)

namespace Query

/-- The query after a call, or the error of the call. -/
def call (q : Query) : BuildCall ε → Except ε Query
  | .project items => q.project items
  | .filter predicate => q.filter predicate
  | .limit n => .ok (q.limit n)
  | .offset n => .ok (q.offset n)

/-- The query to go on with after a call: a failing one leaves it as it was. -/
def attempt (q : Query) (c : BuildCall ε) : Query :=
  match q.call c with
  | .ok r => r
  | .error _ => q

/-- The query after a run of calls. -/
def attemptAll (q : Query) (cs : List (BuildCall ε)) : Query := cs.foldl attempt q

/-- A projection fails as its items do, made from the views of the query. -/
theorem failure?_project (q : Query) (items : List View → Except ε (List Expr)) :
    failure? (q.call (.project items)) = failure? (items q.views) :=
  failure?_bind_pure _ _

/-- A filter fails as its predicate does. -/
theorem failure?_filter (q : Query) (predicate : List View → Except ε Predicate) :
    failure? (q.call (.filter predicate)) = failure? (predicate q.views) :=
  failure?_bind_pure _ _

/-- Whether a call fails depends on the views alone. -/
theorem failure?_call_congr {q r : Query} (h : q.views = r.views) (c : BuildCall ε) :
    failure? (q.call c) = failure? (r.call c) := by
  cases c with
  | project items => rw [failure?_project, failure?_project, h]
  | filter predicate => rw [failure?_filter, failure?_filter, h]
  -- Bounds are numbers, and setting them cannot fail.
  | limit n => rfl
  | offset n => rfl

/-- A call that fails leaves the query as it was. -/
theorem attempt_of_failure? {q : Query} {c : BuildCall ε} {e : ε}
    (h : failure? (q.call c) = some e) : q.attempt c = q := by
  unfold attempt
  cases hcall : q.call c with
  | ok r => rw [hcall] at h; cases h
  | error e => rfl

end Query

/-! ## §2 Additions -/

namespace BuildCall

/-- The items of a successful projection. -/
def items? (views : List View) : BuildCall ε → Option (List Expr)
  | project items => (items views).toOption
  | _ => none

/-- The predicate of a successful filter. -/
def predicate? (views : List View) : BuildCall ε → Option Predicate
  | filter predicate => (predicate views).toOption
  | _ => none

def limit? : BuildCall ε → Option UInt64
  | limit n => some n
  | _ => none

def offset? : BuildCall ε → Option UInt64
  | offset n => some n
  | _ => none

/-- The projection of terms, which look columns up in a workspace and in the views. -/
def ofItems (ws : Workspace) (items : List ExprTerm) : BuildCall StepError :=
  .project fun views => resolveItems ws views items

/-- The filter by a predicate term. -/
def ofPredicate (ws : Workspace) (p : PredicateTerm) : BuildCall StepError :=
  .filter fun views => p.resolve ws views

end BuildCall

/-- What is added to a query, kind by kind. -/
structure Additions where
  /-- The items of each projection. -/
  projections : List (List Expr)
  filters : List Predicate
  limit : Option UInt64
  offset : Option UInt64

namespace Additions

/-- Some additions after others: a later bound replaces an earlier one. -/
def append (a b : Additions) : Additions :=
  ⟨a.projections ++ b.projections, a.filters ++ b.filters, b.limit.or a.limit,
    b.offset.or a.offset⟩

end Additions

/-- What the successful calls of a run add: the items and predicates in their order, and the last
bound of each kind. -/
def additions (views : List View) (cs : List (BuildCall ε)) : Additions where
  projections := cs.filterMap (BuildCall.items? views)
  filters := cs.filterMap (BuildCall.predicate? views)
  limit := (cs.filterMap BuildCall.limit?).getLast?
  offset := (cs.filterMap BuildCall.offset?).getLast?

/-- The statement with additions.  A bound that is not added stays as it is. -/
def Select.extend (s : Select) (a : Additions) : Select :=
  ⟨s.sources, s.projection ++ a.projections.flatten, s.filters ++ a.filters, a.limit.or s.limit,
    a.offset.or s.offset⟩

theorem additions_append (views : List View) (cs ds : List (BuildCall ε)) :
    additions views (cs ++ ds) = (additions views cs).append (additions views ds) := by
  simp [additions, Additions.append, List.filterMap_append, List.getLast?_append]

theorem Select.extend_extend (s : Select) (a b : Additions) :
    (s.extend a).extend b = s.extend (a.append b) := by
  simp [Select.extend, Additions.append, List.append_assoc, Option.or_assoc]

theorem Select.extend_none (s : Select) : s.extend ⟨[], [], none, none⟩ = s := by
  obtain ⟨sources, projection, filters, limit, offset⟩ := s
  simp [Select.extend]

section Single

variable (views : List View)

/-- A projection adds its items if they can be made, and nothing else. -/
theorem additions_project (items : List View → Except ε (List Expr)) :
    additions views [.project items] = ⟨(items views).toOption.toList, [], none, none⟩ := by
  cases h : items views <;>
    simp [additions, BuildCall.items?, BuildCall.predicate?, BuildCall.limit?, BuildCall.offset?, h,
      Except.toOption]

/-- A filter adds its predicate if it can be made, and nothing else. -/
theorem additions_filter (predicate : List View → Except ε Predicate) :
    additions views [.filter predicate] = ⟨[], (predicate views).toOption.toList, none, none⟩ := by
  cases h : predicate views <;>
    simp [additions, BuildCall.items?, BuildCall.predicate?, BuildCall.limit?, BuildCall.offset?, h,
      Except.toOption]

end Single

/-! ## §3 One call, and a run -/

namespace Query

theorem views_update (q : Query) (change : Select → Select) : (q.update change).views = q.views :=
  rfl

theorem update_extend_none (q : Query) :
    (q.update fun s => s.extend ⟨[], [], none, none⟩) = q := by
  rw [update, Select.extend_none]

/-- One call makes the additions of that call: a failing one has none. -/
theorem attempt_eq_extend (q : Query) (c : BuildCall ε) :
    q.attempt c = q.update fun s => s.extend (additions q.views [c]) := by
  cases c with
  | project items =>
    rw [additions_project, attempt, call, project]
    cases items q.views with
    | ok added => simp [pure, Except.pure, bind, Except.bind, Except.toOption, Select.extend]
    -- Nothing is added, and adding nothing leaves the statement as it is.
    | error e => exact q.update_extend_none.symm
  | filter predicate =>
    rw [additions_filter, attempt, call, filter]
    cases predicate q.views with
    | ok added => simp [pure, Except.pure, bind, Except.bind, Except.toOption, Select.extend]
    | error e => exact q.update_extend_none.symm
  | limit n =>
    have hadditions : additions q.views [BuildCall.limit (ε := ε) n] = ⟨[], [], some n, none⟩ := rfl
    rw [hadditions]
    simp [attempt, call, limit, Select.extend]
  | offset n =>
    have hadditions : additions q.views [BuildCall.offset (ε := ε) n] = ⟨[], [], none, some n⟩ := rfl
    rw [hadditions]
    simp [attempt, call, offset, Select.extend]

/-- A run makes the additions of its calls. -/
theorem attemptAll_eq_extend (q : Query) (cs : List (BuildCall ε)) :
    q.attemptAll cs = q.update fun s => s.extend (additions q.views cs) := by
  induction cs generalizing q with
  | nil => exact q.update_extend_none.symm
  | cons c cs ih =>
    -- No call changes the views, so the rest of the run sees what the whole run sees.
    have hviews : (q.attempt c).views = q.views := by rw [q.attempt_eq_extend c, views_update]
    calc q.attemptAll (c :: cs)
        = (q.attempt c).attemptAll cs := rfl
      _ = (q.attempt c).update fun s => s.extend (additions q.views cs) := by rw [ih, hviews]
      _ = q.update fun s => s.extend (additions q.views (c :: cs)) := by
        rw [q.attempt_eq_extend c, update, update, update, Select.extend_extend, ← additions_append]
        rfl

theorem views_attemptAll (q : Query) (cs : List (BuildCall ε)) :
    (q.attemptAll cs).views = q.views := by
  rw [attemptAll_eq_extend, views_update]

/-- A failing call leaves no trace in a run, wherever in the run it is. -/
theorem attemptAll_of_failure? {q : Query} {c : BuildCall ε} {e : ε}
    (h : failure? (q.call c) = some e) (before after : List (BuildCall ε)) :
    q.attemptAll (before ++ c :: after) = q.attemptAll (before ++ after) := by
  -- The views are still the same when the call is made, so it fails there too.
  have hfails : failure? ((q.attemptAll before).call c) = some e :=
    (failure?_call_congr (q.views_attemptAll before) c).trans h
  have hskip : (q.attemptAll before).attempt c = q.attemptAll before := attempt_of_failure? hfails
  -- What comes after the call goes on from the same query in both runs.
  rw [attemptAll, attemptAll, List.foldl_append, List.foldl_append, List.foldl_cons]
  exact congrArg (after.foldl attempt) hskip

/-! ## §4 Calls with terms -/

variable (q : Query) (ws : Workspace)

/-- A projection of terms fails with the first of their lookups that does, whichever item of the list
it is in and however deep. -/
theorem failure?_ofItems (items : List ExprTerm) :
    failure? (q.call (.ofItems ws items)) =
      (items.flatMap ExprTerm.lookups).findSome? (Lookup.error? ws q.views) := by
  rw [BuildCall.ofItems, failure?_project, failure?_resolveItems]

/-- A filter by a term fails with the first of its lookups that does. -/
theorem failure?_ofPredicate (p : PredicateTerm) :
    failure? (q.call (.ofPredicate ws p)) = p.lookups.findSome? (Lookup.error? ws q.views) := by
  rw [BuildCall.ofPredicate, failure?_filter, p.failure?_resolve]

end Query

/-! ## §5 The order of calls -/

/-- A run of calls adds to each clause what the successful calls of its kind add, in their order, and
the last of the bounds; the sources and the scope with its views stay.  Runs that agree kind by kind
have one rendering, however they are interleaved.  A failing call might as well not be there, and a
call with terms fails as soon as one of its lookups does, at whatever depth. -/
theorem Query.statement_of_run (q : Query) (calls : List (BuildCall ε)) :
    let added := additions q.views calls
    (q.attemptAll calls).scope = q.scope ∧
      (q.attemptAll calls).statement =
        ⟨q.statement.sources, q.statement.projection ++ added.projections.flatten,
          q.statement.filters ++ added.filters, added.limit.or q.statement.limit,
          added.offset.or q.statement.offset⟩ ∧
      (∀ calls' : List (BuildCall ε), additions q.views calls' = added →
        ∀ mode settings,
          render mode settings (q.attemptAll calls') = render mode settings (q.attemptAll calls)) ∧
      (∀ before c after, (failure? (q.call c)).isSome →
        q.attemptAll (before ++ c :: after) = q.attemptAll (ε := ε) (before ++ after)) ∧
      (∀ ws items, ∀ l ∈ items.flatMap ExprTerm.lookups, (l.error? ws q.views).isSome →
        (failure? (q.call (.ofItems ws items))).isSome) ∧
      ∀ ws (p : PredicateTerm), ∀ l ∈ p.lookups, (l.error? ws q.views).isSome →
        (failure? (q.call (.ofPredicate ws p))).isSome := by
  intro added
  -- All clauses of the statement are read off the additions of the run.
  have hrun : q.attemptAll calls = q.update fun s => s.extend added := q.attemptAll_eq_extend calls
  refine ⟨?_, ?_, fun calls' hcalls mode settings => ?_, fun before c after hc => ?_,
    fun ws items l hl h => ?_, fun ws p l hl h => ?_⟩
  · rw [hrun]
    rfl
  · rw [hrun]
    rfl
  · rw [hrun, q.attemptAll_eq_extend calls', hcalls]
  · obtain ⟨e, he⟩ := Option.isSome_iff_exists.mp hc
    exact Query.attemptAll_of_failure? he before after
  · rw [Query.failure?_ofItems, List.findSome?_isSome_iff]
    exact ⟨l, hl, h⟩
  · rw [Query.failure?_ofPredicate, List.findSome?_isSome_iff]
    exact ⟨l, hl, h⟩

/-! ## §6 Two runs with one outcome -/

namespace Samples

/-- Users with a nickname. -/
def nicknamedUsers : Query :=
  .find (.one ⟨.plain ⟨"User", "User",
    [("id", .plain "id" "User"), ("nickname", .plain "nickname" "User")]⟩, "U"⟩)

def idTerm : ExprTerm := .column ⟨.view 0 "id", none⟩

/-- The items of a projection whose second item calls a function on a column that is not there. -/
def misspelledItems : List ExprTerm :=
  [idTerm, .named (.call "LOWER" [.expr (.column ⟨.view 0 "nick", none⟩)]) "n"]

/-- A predicate that compares with a column that is not there. -/
def misspelledTest : PredicateTerm :=
  ⟨⟨.view 0 "nickname", none⟩, .compare .eq (.expr (.column ⟨.view 0 "nick", none⟩))⟩

/-- Calls of which two fail, and two limits of which the last one counts. -/
def hesitantCalls : List (BuildCall StepError) :=
  [.limit 3, .ofItems {} [idTerm], .ofItems {} misspelledItems,
    .ofPredicate {} ⟨⟨.view 0 "nickname", none⟩, .isNull true⟩, .offset 5,
    .ofPredicate {} misspelledTest, .limit 10]

/-- The calls that count, in another order. -/
def settledCalls : List (BuildCall StepError) :=
  [.offset 5, .ofPredicate {} ⟨⟨.view 0 "nickname", none⟩, .isNull true⟩, .limit 10,
    .ofItems {} [idTerm]]

end Samples

open Samples in
/-- The failing projection adds nothing, not even its first item, and the two runs come out the
same. -/
theorem runs_on_nicknamedUsers :
    (failure? (nicknamedUsers.call (.ofItems {} misspelledItems))).isSome ∧
      (failure? (nicknamedUsers.call (.ofPredicate {} misspelledTest))).isSome ∧
      nicknamedUsers.attemptAll [.ofItems {} [idTerm], .ofItems {} misspelledItems] =
        nicknamedUsers.attemptAll [.ofItems {} [idTerm]] ∧
      ∀ mode settings, render mode settings (nicknamedUsers.attemptAll settledCalls) =
        render mode settings (nicknamedUsers.attemptAll hesitantCalls) := by
  obtain ⟨-, -, hsame, hskip, hitems, htests⟩ := nicknamedUsers.statement_of_run hesitantCalls
  have hfails : (failure? (nicknamedUsers.call (.ofItems {} misspelledItems))).isSome :=
    hitems {} misspelledItems (.column (.view 0 "nick")) (by decide) (by decide)
  have htest : (failure? (nicknamedUsers.call (.ofPredicate {} misspelledTest))).isSome :=
    htests {} misspelledTest (.column (.view 0 "nick")) (by decide) (by decide)
  have hadded : additions nicknamedUsers.views settledCalls =
      additions nicknamedUsers.views hesitantCalls := rfl
  exact ⟨hfails, htest, hskip [.ofItems {} [idTerm]] (.ofItems {} misspelledItems) [] hfails,
    hsame settledCalls hadded⟩

end SqlSelect
