import SqlSelect.Proofs.Literals
import SqlSelect.Proofs.References

/-!
# First Sources

A text that shows only the first source of each level is the full text of another query: the one
that has no other sources.  The arguments that such a text lacks are those of the literals inside
the sources that are not first at their level, and these can stand anywhere among the others.

## Main definitions

- `Select.head`, `Query.head` — a query with nothing but the first source at every level
- `PlacedLiteral`, `Select.placedLiterals` — all literals of a query, each with whether it is inside
  a source that is not first

## Main statements

- `Select.outline_head` — what is written of the first sources is all of what they leave
- `Query.render_firstOnly_eq_head` — the two renderings, and the arguments that make the difference
-/

namespace SqlSelect

/-! ## §1 Queries without further sources -/

mutual

def Source.head : Source → Source
  | .base t a => .base t a
  | .derived shape q a => .derived shape q.head a

/-- The query with the first source only, at its own level and inside that source. -/
def Select.head : Select → Select
  | ⟨sources, projection, filters, limit, offset⟩ =>
    ⟨headSources sources, projection, filters, limit, offset⟩

def headSources : List Source → List Source
  | [] => []
  | s :: _ => [s.head]

end

def Query.head (q : Query) : Query := q.update Select.head

mutual

/-- What is written of a first source is all of what it leaves. -/
theorem Source.origin_head : ∀ s : Source, s.head.origin .allSources = s.origin .firstOnly
  | .base _ _ => rfl
  | .derived _ q a => by
    rw [Source.head, Source.origin, Source.origin, q.outline_head]

/-- What is written of the first sources is everything there is without the others. -/
theorem Select.outline_head : ∀ q : Select, q.head.outline .allSources = q.outline .firstOnly
  | ⟨sources, projection, filters, limit, offset⟩ => by
    rw [Select.head, Select.outline, Select.outline, ← sourceOrigins_head sources]
    rfl

/-- Of a list of sources, only the first one is written or left. -/
theorem sourceOrigins_head : ∀ ss : List Source,
    sourceOrigins .allSources (headSources ss) =
      FromMode.firstOnly.visible (sourceOrigins .firstOnly ss)
  | [] => rfl
  | s :: _ => by
    rw [headSources, sourceOrigins, s.origin_head]
    rfl

end

/-! ## §2 Queries with one source at each level -/

/-- No level of the query has a second source. -/
def Select.SingleSourced (q : Select) : Prop := ∀ level, IsLevel level q → level.sources.length ≤ 1

mutual

/-- A source without further sources inside is its own head. -/
theorem Source.head_eq_self : ∀ s : Source, (∀ q, s.query? = some q → q.SingleSourced) → s.head = s
  | .base _ _, _ => rfl
  | .derived _ q _, h => by rw [Source.head, q.head_eq_self (h q rfl)]

/-- A query without further sources is its own head. -/
theorem Select.head_eq_self : ∀ q : Select, q.SingleSourced → q.head = q
  | ⟨sources, projection, filters, limit, offset⟩, h => by
    have htop : sources.length ≤ 1 := h _ (.top _)
    -- The levels inside a source are levels of the query.
    have hinner : ∀ s ∈ sources, ∀ q, s.query? = some q → q.SingleSourced := by
      intro s hs q hq level hlevel
      cases s with
      | base t a => cases hq
      | derived shape inner a =>
        cases hq
        exact h level (.inner hs hlevel)
    -- The clauses of a head are those of the query, and its one source is its own head.
    rw [Select.head, headSources_eq_self sources htop hinner]

/-- A list of one source at most is its own head, if the source is. -/
theorem headSources_eq_self : ∀ ss : List Source, ss.length ≤ 1 →
    (∀ s ∈ ss, ∀ q, s.query? = some q → q.SingleSourced) → headSources ss = ss
  | [], _, _ => rfl
  | [s], _, h => by rw [headSources, s.head_eq_self (h s (List.mem_singleton.mpr rfl))]
  | _ :: _ :: _, hlength, _ => by simp at hlength

end

mutual

/-- The query inside a head has no further sources. -/
theorem Source.singleSourced_head : ∀ (s : Source) (q : Select), s.head.query? = some q →
    q.SingleSourced
  | .base _ _, _, h => nomatch h
  | .derived _ inner _, q, h => by
    obtain rfl : inner.head = q := Option.some.inj h
    exact inner.singleSourced_head

/-- No level of a head has a second source. -/
theorem Select.singleSourced_head : ∀ q : Select, q.head.SingleSourced
  | ⟨[], projection, filters, limit, offset⟩, level, hlevel => by
    cases hlevel with
    | top => exact Nat.zero_le 1
    | inner hsource _ => exact absurd hsource List.not_mem_nil
  | ⟨s :: _, projection, filters, limit, offset⟩, level, hlevel => by
    cases hlevel with
    | top => exact Nat.le_refl 1
    | inner hsource hinner =>
      -- Further in, the level belongs to the one source that is left.
      have hs := List.mem_singleton.mp hsource
      exact s.singleSourced_head _ (by rw [← hs]; rfl) _ hinner

end

/-! ## §3 Literals inside further sources -/

/-- A literal of a query, and whether a source that it is inside of is not the first of its
level. -/
structure PlacedLiteral where
  value : Value
  omitted : Bool

mutual

def Source.placedLiterals (omitted : Bool) : Source → List PlacedLiteral
  | .base _ _ => []
  | .derived _ q _ => q.placedLiterals omitted

/-- The literals of a query in reading order, those of all its sources included; `omitted` says
whether the query itself is inside a source that is not first. -/
def Select.placedLiterals (omitted : Bool) : Select → List PlacedLiteral
  | ⟨sources, projection, filters, _, _⟩ =>
    (projection.flatMap Expr.literals).map (⟨·, omitted⟩) ++ placedSourceLiterals omitted sources ++
      (filters.flatMap Predicate.literals).map (⟨·, omitted⟩)

/-- The first source is in the place of its query, and all others are omitted. -/
def placedSourceLiterals (omitted : Bool) : List Source → List PlacedLiteral
  | [] => []
  | s :: ss => s.placedLiterals omitted ++ placedSourceLiterals true ss

end

mutual

theorem Source.values_placedLiterals (omitted : Bool) : ∀ s : Source,
    (s.placedLiterals omitted).map PlacedLiteral.value = s.literals .allSources
  | .base _ _ => rfl
  | .derived _ q _ => q.values_placedLiterals omitted

/-- The placed literals of a query are all its literals, in reading order. -/
theorem Select.values_placedLiterals (omitted : Bool) : ∀ q : Select,
    (q.placedLiterals omitted).map PlacedLiteral.value = q.literals .allSources
  | ⟨sources, projection, filters, limit, offset⟩ => by
    -- The place of a literal does not touch its value.
    have hvalues : ∀ vs : List Value,
        (vs.map (PlacedLiteral.mk · omitted)).map PlacedLiteral.value = vs := by
      intro vs
      rw [List.map_map]
      exact List.map_id vs
    rw [Select.placedLiterals, List.map_append, List.map_append, hvalues, hvalues,
      values_placedSourceLiterals omitted sources]
    rfl

/-- So are those of all its sources. -/
theorem values_placedSourceLiterals (omitted : Bool) : ∀ ss : List Source,
    (placedSourceLiterals omitted ss).map PlacedLiteral.value = sourceLiterals .allSources ss
  | [] => rfl
  | s :: ss => by
    rw [placedSourceLiterals, List.map_append, s.values_placedLiterals omitted,
      values_placedSourceLiterals true ss]
    rfl

end

/-- The literals that are not omitted. -/
def keptLiterals (ps : List PlacedLiteral) : List Value :=
  (ps.filter fun p => !p.omitted).map PlacedLiteral.value

theorem keptLiterals_append (ps qs : List PlacedLiteral) :
    keptLiterals (ps ++ qs) = keptLiterals ps ++ keptLiterals qs := by
  simp [keptLiterals]

theorem keptLiterals_map (vs : List Value) (omitted : Bool) :
    keptLiterals (vs.map (⟨·, omitted⟩)) = if omitted then [] else vs := by
  rw [keptLiterals, List.filter_map, List.map_map]
  cases omitted <;> simp [Function.comp_def]

/-- Inside a source that is omitted only omitted literals stand. -/
theorem kept_ite (omitted : Bool) (vs ws : List Value) :
    (if omitted then [] else vs) ++ (if omitted then [] else ws) =
      if omitted then [] else vs ++ ws := by
  cases omitted <;> rfl

mutual

/-- Of a first source, the literals that are written are kept. -/
theorem Source.keptLiterals_placed (omitted : Bool) : ∀ s : Source,
    keptLiterals (s.placedLiterals omitted) = if omitted then [] else s.literals .firstOnly
  | .base _ _ => by cases omitted <;> rfl
  | .derived _ q _ => q.keptLiterals_placed omitted

/-- So they are of a query that is not omitted; of one that is, nothing is kept. -/
theorem Select.keptLiterals_placed (omitted : Bool) : ∀ q : Select,
    keptLiterals (q.placedLiterals omitted) = if omitted then [] else q.literals .firstOnly
  | ⟨sources, projection, filters, limit, offset⟩ => by
    rw [Select.placedLiterals, keptLiterals_append, keptLiterals_append, keptLiterals_map,
      keptLiterals_map, keptLiterals_placedSource omitted sources, kept_ite, kept_ite]
    rfl

theorem keptLiterals_placedSource (omitted : Bool) : ∀ ss : List Source,
    keptLiterals (placedSourceLiterals omitted ss) =
      if omitted then [] else sourceLiterals .firstOnly ss
  | [] => by cases omitted <;> rfl
  | s :: ss => by
    -- Nothing is kept of the further sources, whatever is kept of the first.
    have hfirst := s.keptLiterals_placed omitted
    have hrest : keptLiterals (placedSourceLiterals true ss) = [] :=
      keptLiterals_placedSource true ss
    rw [placedSourceLiterals, keptLiterals_append, hfirst, hrest, sourceLiterals,
      List.append_nil, List.append_nil]

end

/-! ## §4 Renderings -/

/-- The literals of a query with all its sources, in reading order. -/
def Query.placedLiterals (q : Query) : List PlacedLiteral := q.statement.placedLiterals false

/-- A rendering with the first sources only is the full rendering of the query that has no others.
Of the arguments that a full statement binds it binds, in their order, those whose literals are
inside no further source; and where there are no further sources nothing is lost. -/
theorem Query.render_firstOnly_eq_head (q : Query) (mode : RenderMode) (pretty : Bool) :
    render mode ⟨pretty, .firstOnly⟩ q = render mode ⟨pretty, .allSources⟩ q.head ∧
      (render .statement ⟨pretty, .allSources⟩ q).args =
        q.placedLiterals.map PlacedLiteral.value ∧
      (render .statement ⟨pretty, .firstOnly⟩ q).args =
        (q.placedLiterals.filter fun p => !p.omitted).map PlacedLiteral.value ∧
      (render .statement ⟨pretty, .firstOnly⟩ q).args.Sublist
        (render .statement ⟨pretty, .allSources⟩ q).args ∧
      (q.statement.SingleSourced →
        render mode ⟨pretty, .firstOnly⟩ q = render mode ⟨pretty, .allSources⟩ q) := by
  have hhead : render mode ⟨pretty, .firstOnly⟩ q = render mode ⟨pretty, .allSources⟩ q.head := by
    have hfirst := render_eq_layout (.query q) mode ⟨pretty, .firstOnly⟩
    have hall := render_eq_layout (.query q.head) mode ⟨pretty, .allSources⟩
    have houtline : (q.head.statement.outline .allSources) = q.statement.outline .firstOnly :=
      q.statement.outline_head
    -- The two renderings are made from one outline.
    simp only [Node.fragment, houtline] at hfirst hall
    exact hfirst.trans hall.symm
  have hall : (render .statement ⟨pretty, .allSources⟩ q).args =
      q.placedLiterals.map PlacedLiteral.value :=
    ((Node.query q).args_eq_literals ⟨pretty, .allSources⟩).trans
      (q.statement.values_placedLiterals false).symm
  have hfirst : (render .statement ⟨pretty, .firstOnly⟩ q).args =
      (q.placedLiterals.filter fun p => !p.omitted).map PlacedLiteral.value :=
    ((Node.query q).args_eq_literals ⟨pretty, .firstOnly⟩).trans
      (q.statement.keptLiterals_placed false).symm
  refine ⟨hhead, hall, hfirst, ?_, fun hsingle => ?_⟩
  · rw [hall, hfirst]
    exact List.filter_sublist.map _
  · have hself : q.head = q := by
      show Query.mk q.scope q.statement.head = q
      rw [q.statement.head_eq_self hsingle]
    rw [hhead, hself]

namespace Samples

/-- The articles under a title. -/
def articlesUnder (title : Value) : Select :=
  ⟨[.base ⟨"Post", "posts", []⟩ "P"], [],
    [⟨⟨"P", .plain "title" "posts", none⟩, .compare .eq (.literal title)⟩], none, none⟩

/-- Articles of three levels, with a literal in each clause that can hold one. -/
def articlesBeside : Query :=
  let shape : Table := ⟨"D", "D", []⟩
  let middle : Select :=
    { articlesUnder (.bigint 3) with
      sources := [.derived shape (articlesUnder (.bigint 1)) "P",
        .derived shape (articlesUnder (.bigint 2)) "Q"] }
  let outer : Select :=
    { articlesUnder (.bigint 5) with
      sources := [.derived shape middle "P", .derived shape (articlesUnder (.bigint 4)) "Q"]
      projection := [.literal (.bigint 0)] }
  ⟨.dynamic [], outer⟩

end Samples

open Samples (articlesBeside) in
/-- The literals of both further sources are missing, from the middle of the arguments; the head of
the query has no further sources, so its two renderings agree. -/
theorem firstOnly_args_of_articlesBeside :
    (render .statement ⟨true, .allSources⟩ articlesBeside).args =
        [.bigint 0, .bigint 1, .bigint 2, .bigint 3, .bigint 4, .bigint 5] ∧
      (render .statement ⟨true, .firstOnly⟩ articlesBeside).args =
        [.bigint 0, .bigint 1, .bigint 3, .bigint 5] ∧
      articlesBeside.head.statement.SingleSourced ∧
      render .literal ⟨true, .firstOnly⟩ articlesBeside.head =
        render .literal ⟨true, .allSources⟩ articlesBeside.head := by
  have hsingle : articlesBeside.head.statement.SingleSourced :=
    articlesBeside.statement.singleSourced_head
  obtain ⟨-, hall, hfirst, -, -⟩ := articlesBeside.render_firstOnly_eq_head .statement true
  obtain ⟨-, -, -, -, hagree⟩ := articlesBeside.head.render_firstOnly_eq_head .literal true
  exact ⟨hall, hfirst, hsingle, hagree hsingle⟩

end SqlSelect
