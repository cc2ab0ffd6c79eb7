import SqlSelect.Proofs.Outline

/-!
# Layouts

The layout of an outline is its text before two things are decided: what stands for a value, and
whether the text is pretty.  The first is the mode's business, so a text is made of chunks; the
second is the settings' business, so a layout is made of marks, which are chunks and line ends.

## Main definitions

- `Chunk` — a text, a place for a value, or what stands between the members of an operand list
- `Mark` — a chunk, or a line end with the depth of the line that it starts
- `Outline.layout`, `Fragment.layout` — the marks of an outline
- `Layout.chunks`, `Layout.values` — the chunks of marks once the settings are known, and the values
  in the slots

## Main statements

- `Layout.slots_chunks` — settings do not touch the values
-/

namespace SqlSelect

/-! ## §1 Chunks -/

/-- A piece of text whose form may depend on the mode. -/
inductive Chunk where
  | text (s : String)
  /-- A place for a value. -/
  | slot (v : Value)
  /-- What stands between the members of an operand list. -/
  | separator
  deriving DecidableEq

namespace Chunk

/-- What a chunk leaves in a statement, where a value is a placeholder. -/
def statementText : Chunk → String
  | text s => s
  | slot _ => "?"
  | separator => ","

/-- What a chunk leaves in a literal text, where a value is its literal. -/
def literalText : Chunk → String
  | text s => s
  | slot v => v.literal
  | separator => ", "

def written : RenderMode → Chunk → String
  | .literal, t => t.literalText
  | .statement, t => t.statementText

def value? : Chunk → Option Value
  | slot v => some v
  | _ => none

/-- The values in the slots, in order. -/
def slots (ts : List Chunk) : List Value := ts.filterMap value?

/-- Joined chunks hold their values one after another, in either mode. -/
@[simp]
theorem slots_append (ts us : List Chunk) : slots (ts ++ us) = slots ts ++ slots us := by
  simp [slots]

/-- The text of chunks in a mode. -/
def concat (mode : RenderMode) (ts : List Chunk) : String := String.join (ts.map (written mode))

@[simp]
theorem concat_nil (mode : RenderMode) : concat mode [] = "" := by simp [concat]

@[simp]
theorem concat_cons (mode : RenderMode) (t : Chunk) (ts : List Chunk) :
    concat mode (t :: ts) = t.written mode ++ concat mode ts := by simp [concat]

/-- The text of joined chunks is the joined texts. -/
@[simp]
theorem concat_append (mode : RenderMode) (ts us : List Chunk) :
    concat mode (ts ++ us) = concat mode ts ++ concat mode us := by simp [concat]

@[simp]
theorem written_text (mode : RenderMode) (s : String) : (text s).written mode = s := by
  cases mode <;> rfl

end Chunk

open Chunk (text slot separator)

/-- Replacing every element of a joined list replaces those of the separator and of the parts. -/
theorem flatMap_intercalate {α β : Type} (f : α → List β) (sep : List α)
    (parts : List (List α)) :
    (sep.intercalate parts).flatMap f =
      (sep.flatMap f).intercalate (parts.map fun part => part.flatMap f) := by
  induction parts with
  | nil => simp
  | cons part rest ih =>
    -- A separator stands only between two parts, so the rest is split once more.
    cases rest with
    | nil => simp
    | cons next rest =>
      simp only [List.map_cons, List.intercalate_cons_cons, List.flatMap_append] at ih ⊢
      rw [ih]

/-- What picks nothing from the separator picks its values from the parts, one after another. -/
theorem filterMap_intercalate {α β : Type} {f : α → Option β} {sep : List α}
    (hsep : sep.filterMap f = []) (parts : List (List α)) :
    (sep.intercalate parts).filterMap f = parts.flatMap fun part => part.filterMap f := by
  induction parts with
  | nil => simp
  | cons part rest ih =>
    cases rest with
    | nil => simp
    | cons next rest =>
      -- One part and one separator are taken off, and the separator gives nothing.
      rw [List.intercalate_cons_cons, List.filterMap_append, List.filterMap_append, hsep, ih]
      simp

/-- Membership in a joined list is membership in the separator or in a part. -/
theorem mem_part_of_mem_intercalate {α : Type} {x : α} {sep : List α} {parts : List (List α)}
    (h : x ∈ sep.intercalate parts) : x ∈ sep ∨ ∃ part ∈ parts, x ∈ part := by
  induction parts with
  | nil => simp at h
  | cons part rest ih =>
    cases rest with
    | nil => exact .inr ⟨part, by simp, by simpa using h⟩
    | cons next rest =>
      simp only [List.intercalate_cons_cons, List.mem_append] at h
      -- The element is in the first part, in the separator after it, or further on.
      obtain (h | h) | h := h
      · exact .inr ⟨part, by simp, h⟩
      · exact .inl h
      · obtain h | ⟨p, hp, hx⟩ := ih h
        · exact .inl h
        · exact .inr ⟨p, List.mem_cons_of_mem _ hp, hx⟩

/-! ## §2 Chunks of expressions and predicates -/

/-- An output alias, or the alias of a source. -/
def aliasChunks (a : String) : List Chunk := [text " AS ", text a]

/-- An operand list, without the parentheses around it. -/
def joinOperands (operands : List (List Chunk)) : List Chunk := [separator].intercalate operands

mutual

def Bare.chunks : Bare → List Chunk
  | .column qualifier name => [text qualifier, text ".", text name]
  | .call name args => [text name, text "("] ++ joinOperands (bareChunks args) ++ [text ")"]
  | .literal v => [slot v]

def bareChunks : List Bare → List (List Chunk)
  | [] => []
  | b :: bs => b.chunks :: bareChunks bs

end

def Item.chunks (i : Item) : List Chunk :=
  i.bare.chunks ++
    match i.output with
    | some a => aliasChunks a
    | none => []

def Test.chunks : Test → List Chunk
  | compare op operand => [text op.symbol, text " "] ++ operand.chunks
  | isIn negated operands =>
    [text (if negated then "NOT IN(" else "IN(")] ++ joinOperands (bareChunks operands) ++
      [text ")"]
  | isNull negated => [text (if negated then "IS NOT NULL" else "IS NULL")]
  | call name args => (Bare.call name args).chunks

def Condition.chunks (c : Condition) : List Chunk :=
  [text c.qualifier, text ".", text c.name, text " "] ++ c.test.chunks

/-- Each operand of a list is written on its own; the recursion is there for termination only. -/
theorem bareChunks_eq_map (bs : List Bare) : bareChunks bs = bs.map Bare.chunks := by
  induction bs with
  | nil => rfl
  | cons b bs ih => rw [bareChunks, List.map_cons, ih]

/-! ## §3 Marks -/

/-- A text of `n` spaces. -/
def blanks (n : Nat) : String := String.ofList (List.replicate n ' ')

@[simp]
theorem blanks_zero : blanks 0 = "" := rfl

/-- A writer indents by four spaces for each level. -/
@[simp]
theorem Writer.indentation_eq_blanks (depth : Nat) : indentation depth = blanks (4 * depth) := rfl

/-- Why a line ends. -/
inductive LineEnd where
  /-- A clause begins; a text that is not pretty has a space here. -/
  | clause
  /-- A derived source opens or closes; a text that is not pretty has nothing here. -/
  | soft
  deriving DecidableEq

/-- What a line end leaves in a text that is not pretty. -/
def LineEnd.gap : LineEnd → String
  | clause => " "
  | soft => ""

/-- An element of a layout. -/
inductive Mark where
  | chunk (t : Chunk)
  /-- The end of a line, and the depth of the line after it. -/
  | newline (lineEnd : LineEnd) (depth : Nat)

namespace Mark

/-- The mark one level deeper. -/
def deeper : Mark → Mark
  | chunk t => chunk t
  | newline lineEnd depth => newline lineEnd (depth + 1)

/-- The value in a mark. -/
def value? : Mark → Option Value
  | chunk t => t.value?
  | newline _ _ => none

/-- The chunks of a mark, in a layout that starts at the depth `base`.  A line end of a pretty text
is followed by four spaces for each level of the next line. -/
def chunks (pretty : Bool) (base : Nat) : Mark → List Chunk
  | chunk t => [t]
  | newline lineEnd depth =>
    if pretty then [text "\n", text (blanks (4 * (base + depth)))] else [text lineEnd.gap]

end Mark

namespace Layout

/-- The chunks of a layout that starts at the depth `base`. -/
def chunks (pretty : Bool) (base : Nat) (ms : List Mark) : List Chunk :=
  ms.flatMap (Mark.chunks pretty base)

@[simp]
theorem chunks_nil (pretty : Bool) (base : Nat) : chunks pretty base [] = [] := rfl

@[simp]
theorem chunks_cons (pretty : Bool) (base : Nat) (m : Mark) (ms : List Mark) :
    chunks pretty base (m :: ms) = m.chunks pretty base ++ chunks pretty base ms := rfl

/-- Each mark of a layout is written on its own, so that layouts can be cut anywhere. -/
@[simp]
theorem chunks_append (pretty : Bool) (base : Nat) (ms ns : List Mark) :
    chunks pretty base (ms ++ ns) = chunks pretty base ms ++ chunks pretty base ns := by
  simp [chunks]

def values (ms : List Mark) : List Value := ms.filterMap Mark.value?

@[simp]
theorem values_nil : values [] = [] := rfl

@[simp]
theorem values_cons (m : Mark) (ms : List Mark) :
    values (m :: ms) = m.value?.toList ++ values ms := by
  cases h : m.value? <;> simp [values, h]

/-- The values of joined layouts stand one after another. -/
@[simp]
theorem values_append (ms ns : List Mark) : values (ms ++ ns) = values ms ++ values ns := by
  simp [values]

/-- Depth is a matter of line ends, which have no value. -/
@[simp]
theorem values_deeper (ms : List Mark) : values (ms.map Mark.deeper) = values ms := by
  rw [values, values, List.filterMap_map]
  -- Mark by mark: only the depth of a line end changes.
  congr 1
  funext m
  cases m <;> rfl

/-- Settings do not touch the values. -/
theorem slots_chunks (pretty : Bool) (base : Nat) (ms : List Mark) :
    Chunk.slots (chunks pretty base ms) = values ms := by
  induction ms with
  | nil => rfl
  | cons m ms ih =>
    rw [chunks_cons, Chunk.slots_append, ih]
    cases m with
    -- A chunk stands for itself; a line end becomes texts, which have no slot.
    | chunk t => cases t <;> simp [Mark.chunks, Mark.value?, Chunk.slots, Chunk.value?]
    | newline lineEnd depth =>
      cases pretty <;> simp [Mark.chunks, Mark.value?, Chunk.slots, Chunk.value?]

/-- Going one level deeper moves the start of the layout. -/
theorem chunks_deeper (pretty : Bool) (base : Nat) (ms : List Mark) :
    chunks pretty base (ms.map Mark.deeper) = chunks pretty (base + 1) ms := by
  rw [chunks, chunks, List.flatMap_map]
  congr 1
  funext m
  cases m with
  | chunk t => rfl
  | newline lineEnd depth =>
    -- The level can be counted on the line end or on the start of the layout.
    have hdepth : base + (depth + 1) = base + 1 + depth := by omega
    simp only [Mark.deeper, Mark.chunks, hdepth]

end Layout

/-! ## §4 Layouts of sources and queries -/

/-- Chunks on the line that has begun. -/
def inline (ts : List Chunk) : List Mark := ts.map .chunk

/-- Chunks on one line come back as they are, whatever the settings. -/
theorem Layout.chunks_inline (pretty : Bool) (base : Nat) (ts : List Chunk) :
    chunks pretty base (inline ts) = ts := by
  rw [chunks, inline, List.flatMap_map]
  exact List.flatMap_singleton' ts

/-- A clause on a line of its own. -/
def clauseLayout (ts : List Chunk) : List Mark := .newline .clause 0 :: inline ts

namespace Outline

def itemChunks (items : List Item) : List Chunk :=
  if items.isEmpty then [text "*"] else [text ", "].intercalate (items.map Item.chunks)

def conditionLayout (conditions : List Condition) : List Mark :=
  if conditions.isEmpty then []
  else
    clauseLayout (text "WHERE " :: [text " AND "].intercalate (conditions.map Condition.chunks))

/-- A bound on the rows, if there is one. -/
def boundLayout (keyword : String) : Option UInt64 → List Mark
  | some n => clauseLayout [text (keyword ++ " " ++ toString n.toNat)]
  | none => []

end Outline

mutual

/-- The layout of a source.  A derived one opens and closes its parentheses on lines of its own
depth, and everything between them is one level deeper. -/
def Origin.layout : Origin → List Mark
  | .table name a => inline (text name :: aliasChunks a)
  | .derived q a =>
    inline [text "("] ++ .newline .soft 1 :: q.layout.map .deeper ++
      .newline .soft 0 :: inline (text ")" :: aliasChunks a)

/-- The layout of a query: each clause begins a line. -/
def Outline.layout : Outline → List Mark
  | ⟨origins, items, conditions, limit, offset⟩ =>
    inline (text "SELECT " :: Outline.itemChunks items) ++ clauseLayout [text "FROM "] ++
      (inline [text ", "]).intercalate (originLayouts origins) ++
      Outline.conditionLayout conditions ++
      Outline.boundLayout "LIMIT" limit ++
      Outline.boundLayout "OFFSET" offset

def originLayouts : List Origin → List (List Mark)
  | [] => []
  | o :: os => o.layout :: originLayouts os

end

def Fragment.layout : Fragment → List Mark
  | bare b => inline b.chunks
  | item i => inline i.chunks
  | test t => inline t.chunks
  | condition c => inline c.chunks
  | origin o => o.layout
  | outline q => q.layout

theorem originLayouts_eq_map (os : List Origin) : originLayouts os = os.map Origin.layout := by
  induction os with
  | nil => rfl
  | cons o os ih => rw [originLayouts, List.map_cons, ih]

end SqlSelect
