import SqlSelect.Proofs.Drawing
import SqlSelect.Proofs.Texts

/-!
# Lines

A query has the same lines whether its text is pretty or not.  A pretty text ends each line and
indents the next by its depth; another text puts them all on one line, with a space where a clause
begins.  The depth of a line is the number of derived sources that enclose it.

## Main definitions

- `Line`, `Lines` — a line with its depth, and lines with the kinds of break between them
- `Lines.pretty`, `Lines.compact` — the two texts of lines
- `Query.lines` — the lines of a query
- `Outline.lineDepths` — how many derived sources enclose each line that begins in a query
- `shiftLines` — every line of a text moved to the right

## Main statements

- `Layout.concat_chunks` — a layout and its lines have the same texts
- `Outline.depths_layout` — the depth of a line counts the sources around it
- `Query.render_eq_lines` — both texts of a query come from the same lines
-/

namespace SqlSelect

open Chunk (text slot separator)

/-! ## §1 Lines -/

/-- A line: how deep it is nested, and what is written on it. -/
structure Line where
  depth : Nat
  chunks : List Chunk

/-- What is written on the line, without its indentation. -/
def Line.text (mode : RenderMode) (l : Line) : String := Chunk.concat mode l.chunks

/-- One line or more, with the kind of break before each but the first. -/
structure Lines where
  first : Line
  rest : List (LineEnd × Line)

namespace Lines

/-- All lines. -/
def all (ls : Lines) : List Line := ls.first :: ls.rest.map Prod.snd

def last (ls : Lines) : Line := (ls.rest.map Prod.snd).getLast?.getD ls.first

/-- The lines one below the other, each behind four spaces for each level. -/
def pretty (mode : RenderMode) (ls : Lines) : String :=
  "\n".intercalate (ls.all.map fun l => blanks (4 * l.depth) ++ l.text mode)

/-- The lines one behind the other, with a gap where there is one at the break. -/
def compact (mode : RenderMode) (ls : Lines) : String :=
  ls.first.text mode ++ String.join (ls.rest.map fun (e, l) => e.gap ++ l.text mode)

/-- Put a chunk at the front of the first line. -/
def cons (t : Chunk) (ls : Lines) : Lines := { ls with first.chunks := t :: ls.first.chunks }

/-- Put an empty line before the others. -/
def newline (depth : Nat) (e : LineEnd) (ls : Lines) : Lines :=
  ⟨⟨depth, []⟩, (e, ls.first) :: ls.rest⟩

/-- The lines with a text between any two of them, which knows the break and the depth that follows.
-/
def joined (mode : RenderMode) (between : LineEnd → Nat → String) (ls : Lines) : String :=
  ls.first.text mode ++ String.join (ls.rest.map fun (e, l) => between e l.depth ++ l.text mode)

/-- A chunk at the front of the first line is written first. -/
theorem joined_cons (mode : RenderMode) (between : LineEnd → Nat → String) (t : Chunk)
    (ls : Lines) : (ls.cons t).joined mode between = t.written mode ++ ls.joined mode between := by
  simp [joined, cons, Line.text, String.append_assoc]

theorem joined_newline (mode : RenderMode) (between : LineEnd → Nat → String) (depth : Nat)
    (e : LineEnd) (ls : Lines) :
    (ls.newline depth e).joined mode between =
      between e ls.first.depth ++ ls.joined mode between := by
  simp [joined, newline, Line.text, String.append_assoc]

/-- The compact text joins the lines with the gaps. -/
theorem compact_eq_joined (mode : RenderMode) (ls : Lines) :
    ls.compact mode = ls.joined mode fun e _ => e.gap := rfl

/-- Joining with a separator puts it before every part but the first. -/
theorem intercalate_eq_join (sep s : String) (ss : List String) :
    sep.intercalate (s :: ss) = s ++ String.join (ss.map fun t => sep ++ t) := by
  induction ss generalizing s with
  | nil => simp
  -- The separator goes from the front part to the one after it.
  | cons t ss ih => rw [String.intercalate_cons_cons, ih, List.map_cons, String.join_cons,
      String.append_assoc, String.append_assoc]

/-- The pretty text joins the lines with line ends and indentation; only the first line is indented
without a line end before it. -/
theorem pretty_eq_joined (mode : RenderMode) (ls : Lines) :
    ls.pretty mode = blanks (4 * ls.first.depth) ++
      ls.joined mode fun _ depth => "\n" ++ blanks (4 * depth) := by
  -- Each line but the first brings the line end before it along.
  rw [pretty, all, List.map_cons, intercalate_eq_join, joined, String.append_assoc, List.map_map,
    List.map_map]
  congr 3

end Lines

/-- The line `k` levels deeper. -/
def Line.moved (k : Nat) (l : Line) : Line := { l with depth := l.depth + k }

/-- All lines but the first `k` levels deeper, and the first one too if `atStart` says so. -/
def Lines.moved (k : Nat) (atStart : Bool) (ls : Lines) : Lines :=
  ⟨if atStart then ls.first.moved k else ls.first, ls.rest.map fun (e, l) => (e, l.moved k)⟩

theorem Lines.moved_zero (atStart : Bool) (ls : Lines) : ls.moved 0 atStart = ls := by
  cases atStart <;> simp [moved, Line.moved]

theorem Lines.moved_cons (k : Nat) (atStart : Bool) (t : Chunk) (ls : Lines) :
    (ls.cons t).moved k atStart = (ls.moved k atStart).cons t := by
  cases atStart <;> rfl

/-- The lines of a layout that starts at a depth. -/
def Layout.lines (depth : Nat) : List Mark → Lines
  | [] => ⟨⟨depth, []⟩, []⟩
  | .chunk t :: ms => (Layout.lines depth ms).cons t
  | .newline e next :: ms => (Layout.lines next ms).newline depth e

namespace Layout

/-- The first line is where the layout starts. -/
theorem depth_first_lines (depth : Nat) (ms : List Mark) :
    (lines depth ms).first.depth = depth := by
  induction ms with
  | nil => rfl
  | cons m ms ih =>
    cases m with
    | chunk t => exact ih
    | newline e next => rfl

/-- What the settings put at a line end. -/
def between (pretty : Bool) (e : LineEnd) (depth : Nat) : String :=
  if pretty then "\n" ++ blanks (4 * depth) else e.gap

/-- A layout that starts `base` levels deeper has the text of its lines, moved as far and joined as
the settings say. -/
theorem concat_chunks_moved (mode : RenderMode) (pretty : Bool) (base depth : Nat) (atStart : Bool)
    (ms : List Mark) :
    Chunk.concat mode (chunks pretty base ms) =
      ((lines depth ms).moved base atStart).joined mode (between pretty) := by
  induction ms generalizing depth atStart with
  | nil => cases atStart <;> simp [lines, Lines.moved, Line.moved, Lines.joined, Line.text]
  | cons m ms ih =>
    rw [chunks_cons, Chunk.concat_append]
    cases m with
    -- A chunk goes on with the line, so it is the same line that may be moved.
    | chunk t =>
      rw [ih depth atStart, lines, Lines.moved_cons, Lines.joined_cons]
      simp [Mark.chunks]
    | newline e next =>
      -- The line that begins here is moved with the rest of the layout, whatever came before it.
      have hmoved : ((lines next ms).newline depth e).moved base atStart =
          ((lines next ms).moved base true).newline (if atStart then depth + base else depth) e := by
        cases atStart <;> rfl
      have hfirst : ((lines next ms).moved base true).first.depth = base + next := by
        simp [Lines.moved, Line.moved, depth_first_lines, Nat.add_comm]
      rw [ih next true, lines, hmoved, Lines.joined_newline, hfirst]
      cases pretty <;> simp [Mark.chunks, between]

theorem concat_chunks (mode : RenderMode) (pretty : Bool) (depth : Nat) (ms : List Mark) :
    Chunk.concat mode (chunks pretty 0 ms) = (lines depth ms).joined mode (between pretty) := by
  rw [concat_chunks_moved mode pretty 0 depth true, Lines.moved_zero]

/-- The depths of the lines that begin in a layout. -/
def depths (ms : List Mark) : List Nat :=
  ms.filterMap fun
    | .chunk _ => none
    | .newline _ depth => some depth

/-- The lines of a layout are the one it starts on and those that begin in it. -/
theorem depths_lines (depth : Nat) (ms : List Mark) :
    (lines depth ms).all.map Line.depth = depth :: depths ms := by
  induction ms generalizing depth with
  | nil => rfl
  | cons m ms ih =>
    cases m with
    | chunk t => exact ih depth
    | newline e next =>
      -- A line end closes the line so far, which is empty here, and begins one at its own depth.
      have hrest : (lines depth (.newline e next :: ms)).all =
          ⟨depth, []⟩ :: (lines next ms).all := rfl
      rw [hrest, List.map_cons, ih next]
      rfl

@[simp]
theorem depths_append (ms ns : List Mark) : depths (ms ++ ns) = depths ms ++ depths ns := by
  simp [depths]

@[simp]
theorem depths_inline (ts : List Chunk) : depths (inline ts) = [] := by
  simp [depths, inline]

@[simp]
theorem depths_newline (e : LineEnd) (depth : Nat) (ms : List Mark) :
    depths (.newline e depth :: ms) = depth :: depths ms := rfl

@[simp]
theorem depths_deeper (ms : List Mark) : depths (ms.map .deeper) = (depths ms).map (· + 1) := by
  rw [depths, depths, List.filterMap_map, List.map_filterMap]
  congr 1
  funext m
  cases m <;> rfl

/-- What stands between the parts of a line begins no line. -/
theorem depths_intercalate {sep : List Mark} (hsep : depths sep = []) (parts : List (List Mark)) :
    depths (sep.intercalate parts) = parts.flatMap depths :=
  filterMap_intercalate hsep parts

end Layout

/-! ## §2 Depth -/

mutual

/-- The depths of the lines that begin inside a source, with `n` sources around it: one more for the
lines of an inner query, and `n` again for the line that closes it. -/
def Origin.lineDepths (n : Nat) : Origin → List Nat
  | .table _ _ => []
  | .derived q _ => (n + 1) :: q.lineDepths (n + 1) ++ [n]

/-- The depths of the lines that begin inside a query, with `n` sources around it: one line for each
clause that is there, and those that begin inside its sources. -/
def Outline.lineDepths (n : Nat) : Outline → List Nat
  | ⟨origins, _, conditions, limit, offset⟩ =>
    [n] ++ originLineDepths n origins ++ (if conditions.isEmpty then [] else [n]) ++
      (if limit.isSome then [n] else []) ++ (if offset.isSome then [n] else [])

def originLineDepths (n : Nat) : List Origin → List Nat
  | [] => []
  | o :: os => o.lineDepths n ++ originLineDepths n os

end

theorem Outline.depths_conditionLayout (conditions : List Condition) :
    Layout.depths (conditionLayout conditions) = if conditions.isEmpty then [] else [0] := by
  rw [conditionLayout]
  split
  · rfl
  · rw [clauseLayout, Layout.depths_newline, Layout.depths_inline]

/-- A bound is one line, or none. -/
theorem Outline.depths_boundLayout (keyword : String) (bound : Option UInt64) :
    Layout.depths (boundLayout keyword bound) = if bound.isSome then [0] else [] := by
  cases bound <;> rfl

mutual

/-- The depth of a line that begins in a source is the number of sources around it. -/
theorem Origin.depths_layout (n : Nat) : ∀ o : Origin,
    (Layout.depths o.layout).map (· + n) = o.lineDepths n
  | .table name a => by
    rw [Origin.layout, Layout.depths_inline]
    rfl
  | .derived q a => by
    -- What is one level deeper in the layout has one more source around it.
    have hinner := q.depths_layout (n + 1)
    rw [Origin.layout, Origin.lineDepths, ← hinner]
    simp [Nat.add_comm, Nat.add_left_comm, Function.comp_def]

/-- The depth of a line that begins in a query is the number of sources around it. -/
theorem Outline.depths_layout (n : Nat) : ∀ q : Outline,
    (Layout.depths q.layout).map (· + n) = q.lineDepths n
  | ⟨origins, items, conditions, limit, offset⟩ => by
    have horigins := originLayouts_depths n origins
    have hsep : Layout.depths (inline [text ", "]) = [] := Layout.depths_inline _
    -- Only the sources have lines of another depth; a clause is as deep as its query.
    rw [Outline.layout, Outline.lineDepths, ← horigins]
    simp only [clauseLayout, Layout.depths_append, Layout.depths_inline, Layout.depths_newline,
      Layout.depths_intercalate hsep, Outline.depths_conditionLayout, Outline.depths_boundLayout,
      List.map_append, List.nil_append, apply_ite (List.map fun d => d + n), List.map_cons,
      List.map_nil, Nat.zero_add]

/-- So it is in each source of a list. -/
theorem originLayouts_depths (n : Nat) : ∀ os : List Origin,
    ((originLayouts os).flatMap Layout.depths).map (· + n) = originLineDepths n os
  | [] => rfl
  | o :: os => by
    rw [originLayouts, List.flatMap_cons, List.map_append, o.depths_layout n,
      originLayouts_depths n os]
    rfl

end

/-- A list of depths that is empty, or comes back to `n`. -/
def ReturnsTo (n : Nat) (ds : List Nat) : Prop := ∀ d ∈ ds.getLast?, d = n

/-- What comes back twice comes back at the end. -/
theorem ReturnsTo.append {n : Nat} {ds es : List Nat} (hd : ReturnsTo n ds)
    (he : ReturnsTo n es) : ReturnsTo n (ds ++ es) := by
  intro d h
  rw [List.getLast?_append] at h
  cases hlast : es.getLast? with
  -- Nothing is appended, so the last depth is that of the first list.
  | none =>
    rw [hlast] at h
    exact hd d h
  | some e =>
    rw [hlast] at h
    exact he d (hlast ▸ h)

theorem ReturnsTo.append_singleton (n : Nat) (ds : List Nat) : ReturnsTo n (ds ++ [n]) := by
  intro d h
  simpa using h.symm

theorem ReturnsTo.ite (n : Nat) (c : Bool) : ReturnsTo n (if c then [n] else []) := by
  cases c with
  | false => exact nofun
  | true => exact .append_singleton n []

/-- After a source, lines are as deep as before it. -/
theorem Origin.lineDepths_returns (n : Nat) (o : Origin) : ReturnsTo n (o.lineDepths n) := by
  cases o with
  | table name a => exact nofun
  | derived q a => exact .append_singleton n _

theorem originLineDepths_return (n : Nat) (os : List Origin) :
    ReturnsTo n (originLineDepths n os) := by
  induction os with
  | nil => exact nofun
  | cons o os ih => exact (o.lineDepths_returns n).append ih

/-- The last line of a query is as deep as its first. -/
theorem Outline.lineDepths_returns (n : Nat) (q : Outline) : ReturnsTo n (q.lineDepths n) := by
  obtain ⟨origins, items, conditions, limit, offset⟩ := q
  have hfrom : ReturnsTo n ([n] ++ originLineDepths n origins) :=
    (ReturnsTo.append_singleton n []).append (originLineDepths_return n origins)
  have hwhere : ReturnsTo n (if conditions.isEmpty then [] else [n]) := by
    cases conditions with
    | nil => exact nofun
    | cons c cs => exact .append_singleton n []
  -- The clauses come one after another, and each comes back to the depth of the query.
  exact ((hfrom.append hwhere).append (.ite n limit.isSome)).append (.ite n offset.isSome)

theorem Lines.depth_last (ls : Lines) :
    (ls.all.map Line.depth).getLast? = some ls.last.depth := by
  rw [all, List.getLast?_map, List.getLast?_cons]
  rfl

/-! ## §3 Shifted lines -/

/-- Four more spaces after a line end. -/
def shiftChar (c : Char) : List Char :=
  if c = '\n' then '\n' :: List.replicate 4 ' ' else [c]

/-- Four more spaces at the start of each line of a text. -/
def shiftLines (s : String) : String :=
  blanks 4 ++ String.ofList (s.toList.flatMap shiftChar)

/-- A text without line ends is not shifted. -/
theorem flatMap_shiftChar {cs : List Char} (h : '\n' ∉ cs) : cs.flatMap shiftChar = cs := by
  induction cs with
  | nil => rfl
  | cons c cs ih =>
    obtain ⟨hc, hcs⟩ : '\n' ≠ c ∧ '\n' ∉ cs := by simpa using h
    -- The head is no line end, so it stands for itself.
    rw [List.flatMap_cons, ih hcs, shiftChar, if_neg (Ne.symm hc)]
    rfl

/-- One level more is four spaces more. -/
theorem toList_blanks_succ (depth : Nat) :
    (blanks (4 * (depth + 1))).toList = List.replicate 4 ' ' ++ (blanks (4 * depth)).toList := by
  have hspaces : 4 * (depth + 1) = 4 + 4 * depth := by omega
  simp only [blanks, String.toList_ofList, hspaces, List.replicate_append_replicate]

/-- Spaces are no line ends. -/
theorem newline_not_mem_blanks (n : Nat) : '\n' ∉ (blanks n).toList := by
  simp [blanks, List.mem_replicate]

/-- A layout that starts one level deeper has the same text, shifted at each line end. -/
theorem Layout.concat_chunks_succ {mode : RenderMode} {ms : List Mark}
    (hms : ∀ t, Mark.chunk t ∈ ms → '\n' ∉ (t.written mode).toList) (base : Nat) :
    (Chunk.concat mode (chunks true (base + 1) ms)).toList =
      (Chunk.concat mode (chunks true base ms)).toList.flatMap shiftChar := by
  induction ms with
  | nil => simp
  | cons m ms ih =>
    have hih := ih fun t ht => hms t (List.mem_cons_of_mem _ ht)
    rw [chunks_cons, chunks_cons, Chunk.concat_append, Chunk.concat_append, String.toList_append,
      String.toList_append, List.flatMap_append, hih]
    congr 1
    cases m with
    | chunk t =>
      have ht := hms t (List.mem_cons_self ..)
      simpa [Mark.chunks] using (flatMap_shiftChar ht).symm
    | newline e depth =>
      -- The line end is shifted to itself and four spaces, which the deeper line begins with.
      have hdepth : base + 1 + depth = base + depth + 1 := by omega
      have hspaces := flatMap_shiftChar (newline_not_mem_blanks (4 * (base + depth)))
      have hbreak : shiftChar '\n' = '\n' :: List.replicate 4 ' ' := rfl
      simp [Mark.chunks, hdepth, toList_blanks_succ (base + depth), hspaces, hbreak]

/-! ## §4 Queries -/

/-- The lines of a query with the sources that are written. -/
def Query.lines (mode : FromMode) (q : Query) : Lines :=
  Layout.lines 0 (q.statement.outline mode).layout

/-- A rendering of a query is the text of its lines, joined as the settings say. -/
theorem Query.render_eq (q : Query) (mode : RenderMode) (settings : RenderSettings) :
    render mode settings q =
      ⟨(q.lines settings.fromMode).joined mode (Layout.between settings.pretty),
        if mode = .literal then []
        else Layout.values (q.statement.outline settings.fromMode).layout⟩ := by
  rw [Query.lines, ← Layout.concat_chunks]
  exact render_eq_layout (.query q) mode settings

/-- The pretty text of a query is that of its lines, the first of which is not indented. -/
theorem Query.render_pretty (q : Query) (mode : RenderMode) (fromMode : FromMode) :
    (render mode ⟨true, fromMode⟩ q).sql = (q.lines fromMode).pretty mode := by
  have hfirst : (q.lines fromMode).first.depth = 0 := Layout.depth_first_lines 0 _
  rw [q.render_eq, Lines.pretty_eq_joined, hfirst, Nat.mul_zero, blanks_zero, String.empty_append]
  rfl

/-- The other text of a query has the same lines with their gaps. -/
theorem Query.render_compact (q : Query) (mode : RenderMode) (fromMode : FromMode) :
    (render mode ⟨false, fromMode⟩ q).sql = (q.lines fromMode).compact mode := by
  rw [q.render_eq, Lines.compact_eq_joined]
  rfl

/-- The depths of the lines of a query, of which the first is zero. -/
theorem Query.depths_lines (q : Query) (fromMode : FromMode) :
    (q.lines fromMode).all.map Line.depth =
      0 :: (q.statement.outline fromMode).lineDepths 0 := by
  rw [Query.lines, Layout.depths_lines, ← Outline.depths_layout]
  simp

/-- No text that a query is made of has a line end in it: neither the names nor, where values are
written, their literals. -/
structure Query.OneLiners (mode : RenderMode) (fromMode : FromMode) (q : Query) : Prop where
  names : ∀ s ∈ (q.statement.outline fromMode).names, '\n' ∉ s.toList
  literals : mode = .literal →
    ∀ v ∈ (render .statement ⟨true, fromMode⟩ q).args, '\n' ∉ v.literal.toList

/-- No chunk of such a query is written with a line end in it, a value no more than a text. -/
theorem Query.OneLiners.written {q : Query} {mode : RenderMode} {fromMode : FromMode}
    (h : q.OneLiners mode fromMode) {t : Chunk}
    (ht : .chunk t ∈ (q.statement.outline fromMode).layout) :
    '\n' ∉ (t.written mode).toList := by
  have htexts : Layout.Holds (fun s => '\n' ∉ s.toList) (q.statement.outline fromMode).layout :=
    Outline.holds (fun s hs => hs.plain.1) _ h.names
  cases t with
  | text s =>
    rw [Chunk.written_text]
    exact htexts _ ht
  | slot v =>
    cases mode with
    | statement =>
      have hmark : '\n' ∉ "?".toList := by decide
      exact hmark
    | literal =>
      -- A value that is written is one that a statement binds.
      refine h.literals rfl v ?_
      rw [q.render_eq]
      exact List.mem_filterMap.mpr ⟨_, ht, rfl⟩
  | separator =>
    have hcommas : '\n' ∉ ",".toList ∧ '\n' ∉ ", ".toList := by decide
    cases mode with
    | statement => exact hcommas.1
    | literal => exact hcommas.2

/-- On lines of its own, a derived source is the shifted text of its query in parentheses. -/
theorem Query.OneLiners.render_derived {q : Query} {mode : RenderMode} {fromMode : FromMode}
    (h : q.OneLiners mode fromMode) (shape : Table) (a : String) :
    (render mode ⟨true, fromMode⟩ (Source.derived shape q.statement a)).sql =
      "(\n" ++ shiftLines (render mode ⟨true, fromMode⟩ q).sql ++ "\n) AS " ++ a := by
  have hquery : (render mode ⟨true, fromMode⟩ q).sql =
      Chunk.concat mode (Layout.chunks true 0 (q.statement.outline fromMode).layout) :=
    congrArg Rendered.sql (render_eq_layout (.query q) mode ⟨true, fromMode⟩)
  have hsource : (render mode ⟨true, fromMode⟩ (Source.derived shape q.statement a)).sql =
      Chunk.concat mode (Layout.chunks true 0
        (Origin.derived (q.statement.outline fromMode) a).layout) :=
    congrArg Rendered.sql
      (render_eq_layout (.source (.derived shape q.statement a)) mode ⟨true, fromMode⟩)
  -- The inner lines start one level deeper, which is the shift.
  have hshift : blanks 4 ++
      Chunk.concat mode (Layout.chunks true 1 (q.statement.outline fromMode).layout) =
        shiftLines (render mode ⟨true, fromMode⟩ q).sql := by
    rw [hquery, shiftLines, ← Layout.concat_chunks_succ (fun t ht => h.written ht) 0,
      String.ofList_toList]
  have hparts : Chunk.concat mode (Layout.chunks true 0
      (Origin.derived (q.statement.outline fromMode) a).layout) =
        "(" ++ ("\n" ++ (blanks 4 ++
          (Chunk.concat mode (Layout.chunks true 1 (q.statement.outline fromMode).layout) ++
            ("\n" ++ (")" ++ (" AS " ++ a)))))) := by
    simp [Origin.layout, inline, aliasChunks, Mark.chunks, Layout.chunks_deeper]
  have hopen : "(\n" = "(" ++ "\n" := by decide
  have hclose : "\n) AS " = "\n" ++ (")" ++ " AS ") := by decide
  rw [hsource, hparts, ← hshift, hopen, hclose]
  simp only [String.append_assoc]

/-- A query has the same lines, with the same arguments, in a pretty text and in one that is not:
the line breaks of the one are the gaps of the other.  A line is as deep as there are derived
sources around it, and the text of a derived source is that of its query, shifted. -/
theorem Query.render_eq_lines (q : Query) (mode : RenderMode) (fromMode : FromMode) :
    (render mode ⟨true, fromMode⟩ q).sql = (q.lines fromMode).pretty mode ∧
      (render mode ⟨false, fromMode⟩ q).sql = (q.lines fromMode).compact mode ∧
      (render mode ⟨true, fromMode⟩ q).args = (render mode ⟨false, fromMode⟩ q).args ∧
      (q.lines fromMode).all.map Line.depth =
        0 :: (q.statement.outline fromMode).lineDepths 0 ∧
      (q.lines fromMode).first.depth = 0 ∧
      (q.lines fromMode).last.depth = 0 ∧
      (q.OneLiners mode fromMode → ∀ shape a,
        (render mode ⟨true, fromMode⟩ (Source.derived shape q.statement a)).sql =
          "(\n" ++ shiftLines (render mode ⟨true, fromMode⟩ q).sql ++ "\n) AS " ++ a) := by
  refine ⟨q.render_pretty mode fromMode, q.render_compact mode fromMode, ?_,
    q.depths_lines fromMode, Layout.depth_first_lines 0 _, ?_, fun h => h.render_derived⟩
  · rw [q.render_eq, q.render_eq]
  · -- The depths of the lines come back to zero, and the last of them is the last line's.
    have hlast := (q.lines fromMode).depth_last
    rw [q.depths_lines] at hlast
    have hreturns : ReturnsTo 0 ([0] ++ (q.statement.outline fromMode).lineDepths 0) :=
      (ReturnsTo.append_singleton 0 []).append (Outline.lineDepths_returns 0 _)
    exact hreturns _ hlast

/-- The first articles with a title like a pattern, beside the users. -/
def Samples.articlesLike : Query :=
  let inner := (Query.find (.one ⟨.plain ⟨"Post", "posts", []⟩, "P"⟩)).update fun s =>
    { s with filters := [⟨⟨"P", .plain "title" "posts", none⟩,
      .compare .like (.literal (.text "it's%"))⟩] }
  (Query.find (.two (inner.subquery "D") ⟨.plain ⟨"User", "users", []⟩, "U"⟩)).update fun s =>
    { s with limit := some 10 }

open Samples (articlesLike) in
/-- Three of the seven lines are inside the derived source; as a source itself, the query is shifted
as a whole. -/
theorem render_articlesLike_shifted :
    articlesLike.OneLiners .literal .allSources ∧
      (articlesLike.lines .allSources).all.map Line.depth = [0, 0, 1, 1, 1, 0, 0] ∧
      (render .literal ⟨true, .allSources⟩ (articlesLike.subquery "E")).sql =
        "(\n" ++ shiftLines (render .literal ⟨true, .allSources⟩ articlesLike).sql ++ "\n) AS " ++
          "E" := by
  have hplain : articlesLike.OneLiners .literal .allSources := ⟨by decide, fun _ => by decide⟩
  obtain ⟨-, -, -, hdepths, -, -, hsource⟩ :=
    articlesLike.render_eq_lines .literal .allSources
  exact ⟨hplain, by rw [hdepths]; rfl, hsource hplain _ "E"⟩

end SqlSelect
