import SqlSelect.Proofs.Literals
import SqlSelect.Proofs.Modes
import SqlSelect.Proofs.Texts

/-!
# Placeholders

A statement binds every literal of its query once, in reading order: those of the projection, then
the arguments of each inner query that is written, then those of the filters.  Nothing else of a query
is bound.  In the text there is one question mark for each argument, as long as no name brings in one
of its own.

## Main definitions

- `Source.args` — the arguments of the query that a source reads

## Main statements

- `Select.args_eq_append` — the arguments of a query, clause by clause
- `Node.count_placeholders` — as many question marks as arguments
- `Select.args_in_reading_order` — the arguments of a query at any depth, and its placeholders
-/

namespace SqlSelect

open Chunk (text slot separator)

/-! ## §1 Arguments, clause by clause -/

/-- The arguments of the query that a source reads, if it reads one. -/
def Source.args (settings : RenderSettings) (s : Source) : List Value :=
  match s.query? with
  | some q => (render .statement settings q).args
  | none => []

/-- The arguments of a query are its literals. -/
theorem Select.args_eq_literals (q : Select) (settings : RenderSettings) :
    (render .statement settings q).args = q.literals settings.fromMode :=
  (Node.select q).args_eq_literals settings

/-- A source adds the arguments of its query, and a table adds none. -/
theorem Source.literals_eq_args (s : Source) (settings : RenderSettings) :
    s.literals settings.fromMode = s.args settings := by
  cases s with
  | base t a => rfl
  | derived shape q a => exact (q.args_eq_literals settings).symm

/-- The arguments of a query are those of its clauses, one clause after another. -/
theorem Select.args_eq_append (q : Select) (settings : RenderSettings) :
    (render .statement settings q).args =
      q.projection.flatMap Expr.literals ++
        (settings.fromMode.visible q.sources).flatMap (Source.args settings) ++
        q.filters.flatMap Predicate.literals := by
  -- A source that is written has the arguments of its query, so these stand where the source does.
  have hsources : Source.literals settings.fromMode = Source.args settings :=
    funext fun s => s.literals_eq_args settings
  rw [q.args_eq_literals, ← hsources, ← sourceLiterals_eq_flatMap]
  obtain ⟨sources, projection, filters, limit, offset⟩ := q
  rfl

/-! ## §2 Question marks -/

/-- Where no text has a question mark in it, the only ones are the placeholders of the slots. -/
theorem Chunk.count_join_statementText {ts : List Chunk}
    (h : ∀ t ∈ ts, t.Holds fun s => '?' ∉ s.toList) :
    (String.join (ts.map statementText)).toList.count '?' = (slots ts).length := by
  induction ts with
  | nil => rfl
  | cons t ts ih =>
    have hrest := ih fun u hu => h u (List.mem_cons_of_mem _ hu)
    have hhead := h t (List.mem_cons_self ..)
    rw [List.map_cons, String.join_cons, String.toList_append, List.count_append, hrest]
    -- A slot is one question mark, and anything else has none.
    cases t with
    | text s =>
      have hnone : s.toList.count '?' = 0 := List.count_eq_zero.mpr hhead
      rw [statementText, hnone, Nat.zero_add]
      rfl
    | slot v =>
      have hone : (slot v).statementText.toList.count '?' = 1 := by
        show "?".toList.count '?' = 1
        decide
      rw [hone, Nat.add_comm]
      rfl
    | separator =>
      have hnone : separator.statementText.toList.count '?' = 0 := by decide
      rw [hnone, Nat.zero_add]
      rfl

/-- No name in the fragment has a question mark in it. -/
def Fragment.Unquestioned (f : Fragment) : Prop := ∀ s ∈ f.names, '?' ∉ s.toList

instance (f : Fragment) : Decidable f.Unquestioned :=
  inferInstanceAs (Decidable (∀ s ∈ f.names, '?' ∉ s.toList))

/-- The text of a statement has as many question marks as there are arguments. -/
theorem Node.count_placeholders {n : Node} {settings : RenderSettings}
    (h : (n.fragment settings.fromMode).Unquestioned) :
    (render .statement settings n).sql.toList.count '?' =
      (render .statement settings n).args.length := by
  have hfixed : FixedHold fun s => '?' ∉ s.toList := fun s hs => hs.plain.2
  have hbreak := Mark.not_mem_newline (show '?' ≠ _ by decide) (by decide) settings.pretty 0
  -- No text in the chunks has a question mark in it: not the fixed ones, not the names, not the
  -- line ends.
  have hchunks : ∀ t ∈ n.chunks settings, t.Holds fun s => '?' ∉ s.toList :=
    (Fragment.holds hfixed _ h).chunks_of_breaks 0 hbreak
  rw [render_statement]
  exact Chunk.count_join_statementText hchunks

/-! ## §3 Queries -/

/-- The arguments of a query are the literals of its projection items, then the arguments of the query
behind each source that is written, and then the literals of its filters, in reading order.  The rule
is the same for the inner queries, as for every `Select`, and a finished query is its statement.
Nothing but literals is bound, and layout has no say in it.  Where no name that is written has a
question mark in it, the question marks of the text are the placeholders of the arguments. -/
theorem Select.args_in_reading_order (q : Select) (settings : RenderSettings) :
    (render .statement settings q).args =
        q.projection.flatMap Expr.literals ++
          (settings.fromMode.visible q.sources).flatMap (Source.args settings) ++
          q.filters.flatMap Predicate.literals ∧
      (∀ pretty, (render .statement ⟨pretty, settings.fromMode⟩ q).args =
        (render .statement settings q).args) ∧
      (∀ built : Query, built.statement = q →
        render .statement settings built = render .statement settings q) ∧
      ((∀ s ∈ (q.outline settings.fromMode).names, '?' ∉ s.toList) →
        (render .statement settings q).sql.toList.count '?' =
          (render .statement settings q).args.length) := by
  refine ⟨q.args_eq_append settings, fun pretty => ?_, fun built hbuilt => ?_, fun hnames => ?_⟩
  · -- Layout is not among what decides the literals.
    rw [q.args_eq_literals, q.args_eq_literals]
  · subst hbuilt
    rfl
  · exact Node.count_placeholders (n := .select q) hnames

/-! ## §4 A query with a literal in every clause -/

namespace Samples

/-- The newest articles under some titles. -/
def articlesTitledEither : Select where
  sources := [.base ⟨"Post", "posts", []⟩ "P"]
  projection := [.literal (.integer 1)]
  filters := [⟨⟨"P", .plain "title" "posts", none⟩,
    .isIn false [.literal (.text "why?"), .expr (.aliased (.literal (.text "how?")) "t")]⟩]
  limit := some 3
  offset := none

/-- What the ranks of these articles are, in a call under an output alias, if there is a rank and it
is large enough. -/
def rankedArticles : Select where
  sources := [.derived ⟨"D", "D", []⟩ articlesTitledEither "D", .base ⟨"User", "users", []⟩ "U"]
  projection := [
    .column ⟨"U", .define "id" "users" [.default (.bigint 5)] 0, none⟩,
    .aliased (.call "COALESCE" [.expr (.column ⟨"D", .plain "rank" "posts", none⟩),
      .literal (.boolean false)]) "r"]
  filters := [
    ⟨⟨"D", .plain "rank" "posts", none⟩, .isNull true⟩,
    ⟨⟨"D", .plain "rank" "posts", none⟩, .compare .gt (.literal (.integer 7))⟩]
  limit := none
  offset := some 2

end Samples

open Samples (rankedArticles) in
/-- The inner query stands between the call and the filters.  The default of a column is not bound, a
null test has nothing to bind, and the question marks in the titles stay out of the text. -/
theorem args_of_rankedArticles :
    (render .statement ⟨true, .allSources⟩ rankedArticles).args =
        [.boolean false, .integer 1, .text "why?", .text "how?", .integer 7] ∧
      (∀ s ∈ (rankedArticles.outline .allSources).names, '?' ∉ s.toList) ∧
      (render .statement ⟨true, .allSources⟩ rankedArticles).sql.toList.count '?' = 5 := by
  obtain ⟨hargs, -, -, hcount⟩ := rankedArticles.args_in_reading_order ⟨true, .allSources⟩
  have hlist : (render .statement ⟨true, .allSources⟩ rankedArticles).args =
      [.boolean false, .integer 1, .text "why?", .text "how?", .integer 7] := hargs.trans (by decide)
  have hnames : ∀ s ∈ (rankedArticles.outline .allSources).names, '?' ∉ s.toList := by decide
  refine ⟨hlist, hnames, ?_⟩
  rw [hcount hnames, hlist]
  rfl

end SqlSelect
