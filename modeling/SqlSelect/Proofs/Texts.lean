import SqlSelect.Proofs.Layout

/-!
# The Texts in a Layout

Every text that a layout is made of is either one of the language, which is the same for all
queries, or a name.  So a property that the language's own texts have carries over from the names of
a query to all of its text.

## Main definitions

- `fixedTexts`, `FixedText` — the language's own texts, with the bounds of a query
- `Layout.Holds` — a property of every text of a layout

## Main statements

- `Outline.holds`, `Fragment.holds` — a property of fixed texts and of names holds of every text of a
  query, and of any renderable thing
- `FixedText.not_mem` — a character that the language does not write can only come from a name
- `FixedText.plain` — fixed texts have neither a line end nor a question mark in them
- `Mark.not_mem_newline` — laying a text out brings in line ends and spaces, and nothing else
-/

namespace SqlSelect

open Chunk (text slot separator)

/-! ## §1 Fixed texts -/

/-- The words and marks of the language. -/
def fixedTexts : List String :=
  ["SELECT ", "*", ", ", "FROM ", "WHERE ", " AND ", " AS ", "(", ")", ".", " ", "IN(", "NOT IN(",
    "IS NULL", "IS NOT NULL", "=", "!=", ">", ">=", "<", "<=", "LIKE"]

/-- The texts that no name of a query changes. -/
inductive FixedText : String → Prop where
  | word {s : String} (h : s ∈ fixedTexts) : FixedText s
  | bound {keyword : String} (h : keyword ∈ ["LIMIT", "OFFSET"]) (n : UInt64) :
      FixedText (keyword ++ " " ++ toString n.toNat)

/-! ## §2 Properties of all texts -/

/-- The text of a chunk, if it is one, satisfies `P`. -/
def Chunk.Holds (P : String → Prop) : Chunk → Prop
  | text s => P s
  | _ => True

/-- Every text of a layout satisfies `P`. -/
def Layout.Holds (P : String → Prop) (ms : List Mark) : Prop :=
  ∀ t, Mark.chunk t ∈ ms → t.Holds P

section Texts

variable {P : String → Prop}

/-- What holds of the texts of a separator and of the parts holds of those of the joined chunks. -/
theorem Chunk.Holds.intercalate {sep : List Chunk} {parts : List (List Chunk)}
    (hsep : ∀ t ∈ sep, t.Holds P) (hparts : ∀ part ∈ parts, ∀ t ∈ part, t.Holds P) :
    ∀ t ∈ sep.intercalate parts, t.Holds P := by
  intro t ht
  -- Each text of the joined list comes from the separator or from one of the parts.
  obtain ht | ⟨part, hpart, ht⟩ := mem_part_of_mem_intercalate ht
  · exact hsep t ht
  · exact hparts part hpart t ht

/-- A layout on one line has the texts of its chunks. -/
theorem Layout.holds_inline {ts : List Chunk} (h : ∀ t ∈ ts, t.Holds P) :
    Layout.Holds P (inline ts) := by
  intro t ht
  obtain ⟨u, hu, huv⟩ := List.mem_map.mp ht
  exact Mark.chunk.inj huv ▸ h u hu

theorem Layout.Holds.append {ms ns : List Mark} (hm : Layout.Holds P ms)
    (hn : Layout.Holds P ns) : Layout.Holds P (ms ++ ns) := by
  intro t ht
  exact (List.mem_append.mp ht).elim (hm t) (hn t)

/-- What holds of the texts of a separator and of the parts holds of those of the joined layouts. -/
theorem Layout.Holds.intercalate {sep : List Mark} {parts : List (List Mark)}
    (hsep : Layout.Holds P sep) (hparts : ∀ part ∈ parts, Layout.Holds P part) :
    Layout.Holds P (sep.intercalate parts) := by
  intro t ht
  obtain ht | ⟨part, hpart, ht⟩ := mem_part_of_mem_intercalate ht
  · exact hsep t ht
  · exact hparts part hpart t ht

/-- A line end is no text until the settings are known. -/
theorem Layout.Holds.newline {ms : List Mark} (h : Layout.Holds P ms) (lineEnd : LineEnd)
    (depth : Nat) : Layout.Holds P (.newline lineEnd depth :: ms) := by
  intro t ht
  exact h t (by simpa using ht)

/-- Depth is no matter of texts. -/
theorem Layout.Holds.deeper {ms : List Mark} (h : Layout.Holds P ms) :
    Layout.Holds P (ms.map .deeper) := by
  intro t ht
  obtain ⟨m, hm, hdeeper⟩ := List.mem_map.mp ht
  -- A line end stays a line end, so the chunk was there before.
  cases m with
  | chunk u => exact Mark.chunk.inj hdeeper ▸ h u hm
  | newline lineEnd depth => simp [Mark.deeper] at hdeeper

/-- `P` holds of the texts that no name changes. -/
def FixedHold (P : String → Prop) : Prop := ∀ s, FixedText s → P s

theorem FixedHold.word {s : String} (hfixed : FixedHold P) (h : s ∈ fixedTexts) : P s :=
  hfixed s (.word h)

mutual

/-- The texts of an expression are fixed ones and its names. -/
theorem Bare.holds (hfixed : FixedHold P) : ∀ b : Bare, (∀ s ∈ b.names, P s) →
    ∀ t ∈ b.chunks, t.Holds P
  | .column qualifier name, h => by
    have hdot : P "." := hfixed.word (by decide)
    simpa [Bare.chunks, Chunk.Holds, hdot, Bare.names] using h
  | .call name args, h => by
    -- The parentheses are fixed, and what stands between them has been shown for the operands.
    have hopen : P "(" := hfixed.word (by decide)
    have hclose : P ")" := hfixed.word (by decide)
    have hname : P name := h name (by simp [Bare.names])
    have hargs := bares_hold hfixed args fun s hs => h s (by simp [Bare.names, hs])
    have hjoined : ∀ t ∈ joinOperands (bareChunks args), t.Holds P :=
      Chunk.Holds.intercalate (by simp [Chunk.Holds]) hargs
    simp only [Bare.chunks, List.forall_mem_append, List.forall_mem_cons]
    exact ⟨⟨⟨hname, hopen, by simp⟩, hjoined⟩, hclose, by simp⟩
  | .literal v, _ => by simp [Bare.chunks, Chunk.Holds]

/-- The texts of operands are fixed ones and their names. -/
theorem bares_hold (hfixed : FixedHold P) : ∀ bs : List Bare, (∀ s ∈ bareNames bs, P s) →
    ∀ part ∈ bareChunks bs, ∀ t ∈ part, t.Holds P
  | [], _ => fun _ h => absurd h List.not_mem_nil
  | b :: bs, h => List.forall_mem_cons.mpr
    ⟨b.holds hfixed fun s hs => h s (by simp [bareNames, hs]),
      bares_hold hfixed bs fun s hs => h s (by simp [bareNames, hs])⟩

end

/-- The texts of an item are fixed ones and its names, the output alias included. -/
theorem Item.holds (hfixed : FixedHold P) (i : Item) (h : ∀ s ∈ i.names, P s) :
    ∀ t ∈ i.chunks, t.Holds P := by
  obtain ⟨b, output⟩ := i
  have hbare := b.holds hfixed fun s hs => h s (by simp [Item.names, hs])
  have has : P " AS " := hfixed.word (by decide)
  cases output with
  | none => simpa [Item.chunks] using hbare
  | some a =>
    have ha : P a := h a (by simp [Item.names])
    simp only [Item.chunks, aliasChunks, List.forall_mem_append, List.forall_mem_cons]
    exact ⟨hbare, has, ha, by simp⟩

/-- The texts of an operation are its own words and its names. -/
theorem Test.holds (hfixed : FixedHold P) (t : Test) (h : ∀ s ∈ t.names, P s) :
    ∀ u ∈ t.chunks, u.Holds P := by
  cases t with
  | compare op operand =>
    -- Each operator has its own fixed words; only a call has a name in their place.
    have hop : P op.symbol := hfixed.word (by cases op <;> decide)
    have hspace : P " " := hfixed.word (by decide)
    simp only [Test.chunks, List.forall_mem_append, List.forall_mem_cons]
    exact ⟨⟨hop, hspace, by simp⟩, operand.holds hfixed h⟩
  | isIn negated operands =>
    have hopen : P (if negated then "NOT IN(" else "IN(") :=
      hfixed.word (by cases negated <;> decide)
    have hclose : P ")" := hfixed.word (by decide)
    have hjoined : ∀ u ∈ joinOperands (bareChunks operands), u.Holds P :=
      Chunk.Holds.intercalate (by simp [Chunk.Holds]) (bares_hold hfixed operands h)
    simp only [Test.chunks, List.forall_mem_append, List.forall_mem_cons]
    exact ⟨⟨⟨hopen, by simp⟩, hjoined⟩, hclose, by simp⟩
  | isNull negated =>
    have hnull : P (if negated then "IS NOT NULL" else "IS NULL") :=
      hfixed.word (by cases negated <;> decide)
    simpa [Test.chunks, Chunk.Holds] using hnull
  | call name args => exact (Bare.call name args).holds hfixed h

/-- The texts of a predicate are fixed ones and its names. -/
theorem Condition.holds (hfixed : FixedHold P) (c : Condition) (h : ∀ s ∈ c.names, P s) :
    ∀ t ∈ c.chunks, t.Holds P := by
  have hqualifier : P c.qualifier := h _ (by simp [Condition.names])
  have hname : P c.name := h _ (by simp [Condition.names])
  have hdot : P "." := hfixed.word (by decide)
  have hspace : P " " := hfixed.word (by decide)
  have htest := c.test.holds hfixed fun s hs => h s (by simp [Condition.names, hs])
  simp only [Condition.chunks, List.forall_mem_append, List.forall_mem_cons]
  exact ⟨⟨hqualifier, hdot, hname, hspace, by simp⟩, htest⟩

/-- The texts of a projection are fixed ones and the names of its items. -/
theorem Outline.itemChunks_hold (hfixed : FixedHold P) (items : List Item)
    (h : ∀ s ∈ items.flatMap Item.names, P s) : ∀ t ∈ Outline.itemChunks items, t.Holds P := by
  have hstar : P "*" := hfixed.word (by decide)
  have hcomma : P ", " := hfixed.word (by decide)
  rw [Outline.itemChunks]
  split
  · simpa [Chunk.Holds] using hstar
  · refine Chunk.Holds.intercalate (by simpa [Chunk.Holds] using hcomma) ?_
    simp only [List.forall_mem_map]
    exact fun i hi => i.holds hfixed fun s hs => h s (List.mem_flatMap.mpr ⟨i, hi, hs⟩)

/-- The texts of the filters are fixed ones and their names. -/
theorem Outline.conditionLayout_holds (hfixed : FixedHold P) (conditions : List Condition)
    (h : ∀ s ∈ conditions.flatMap Condition.names, P s) :
    Layout.Holds P (Outline.conditionLayout conditions) := by
  have hand : P " AND " := hfixed.word (by decide)
  rw [Outline.conditionLayout]
  split
  · exact fun t ht => absurd ht List.not_mem_nil
  · -- Filters that are there begin with a line end and the keyword.
    have hwhere : (text "WHERE ").Holds P := hfixed.word (by decide)
    refine (Layout.holds_inline (List.forall_mem_cons.mpr ⟨hwhere, ?_⟩)).newline _ _
    refine Chunk.Holds.intercalate (by simpa [Chunk.Holds] using hand) ?_
    simp only [List.forall_mem_map]
    exact fun c hc => c.holds hfixed fun s hs => h s (List.mem_flatMap.mpr ⟨c, hc, hs⟩)

/-- A bound is a fixed text, whatever its number is. -/
theorem Outline.boundLayout_holds (hfixed : FixedHold P) {keyword : String}
    (hkeyword : keyword ∈ ["LIMIT", "OFFSET"]) (bound : Option UInt64) :
    Layout.Holds P (Outline.boundLayout keyword bound) := by
  cases bound with
  | none => exact fun t ht => absurd ht List.not_mem_nil
  | some n =>
    have hbound : (text (keyword ++ " " ++ toString n.toNat)).Holds P :=
      hfixed _ (.bound hkeyword n)
    exact (Layout.holds_inline (List.forall_mem_cons.mpr ⟨hbound, by simp⟩)).newline _ _

mutual

/-- The texts of a source are fixed ones and its names. -/
theorem Origin.holds (hfixed : FixedHold P) : ∀ o : Origin, (∀ s ∈ o.names, P s) →
    Layout.Holds P o.layout
  | .table name a, h => by
    have hname : P name := h name (by simp [Origin.names])
    have has : P " AS " := hfixed.word (by decide)
    have ha : P a := h a (by simp [Origin.names])
    apply Layout.holds_inline
    simp only [aliasChunks, List.forall_mem_cons]
    exact ⟨hname, has, ha, by simp⟩
  | .derived q a, h => by
    have hopen : P "(" := hfixed.word (by decide)
    have hclose : P ")" := hfixed.word (by decide)
    have has : P " AS " := hfixed.word (by decide)
    have ha : P a := h a (by simp [Origin.names])
    -- The texts of the inner query stay the same one level deeper.
    have hinner := q.holds hfixed fun s hs => h s (by simp [Origin.names, hs])
    have hbegin : Layout.Holds P (inline [text "("]) :=
      Layout.holds_inline (List.forall_mem_cons.mpr ⟨hopen, by simp⟩)
    have hend : Layout.Holds P (inline (text ")" :: aliasChunks a)) := by
      apply Layout.holds_inline
      simp only [aliasChunks, List.forall_mem_cons]
      exact ⟨hclose, has, ha, by simp⟩
    exact (hbegin.append (hinner.deeper.newline _ _)).append (hend.newline _ _)

/-- The texts of a query are fixed ones and its names. -/
theorem Outline.holds (hfixed : FixedHold P) : ∀ q : Outline, (∀ s ∈ q.names, P s) →
    Layout.Holds P q.layout
  | ⟨origins, items, conditions, limit, offset⟩, h => by
    simp only [Outline.names, List.forall_mem_append] at h
    obtain ⟨⟨hitems, horigins⟩, hconditions⟩ := h
    have hselect : (text "SELECT ").Holds P := hfixed.word (by decide)
    have hcomma : (text ", ").Holds P := hfixed.word (by decide)
    have hfrom : (text "FROM ").Holds P := hfixed.word (by decide)
    have hprojection : Layout.Holds P (inline (text "SELECT " :: Outline.itemChunks items)) :=
      Layout.holds_inline
        (List.forall_mem_cons.mpr ⟨hselect, Outline.itemChunks_hold hfixed items hitems⟩)
    have hclause : Layout.Holds P (clauseLayout [text "FROM "]) :=
      (Layout.holds_inline (by simpa using hfrom)).newline _ _
    have hsources : Layout.Holds P ((inline [text ", "]).intercalate (originLayouts origins)) :=
      (Layout.holds_inline (by simpa using hcomma)).intercalate
        (origins_hold hfixed origins horigins)
    -- The clauses follow each other, and each has texts of the one kind or of the other.
    exact ((((hprojection.append hclause).append hsources).append
      (Outline.conditionLayout_holds hfixed conditions hconditions)).append
      (Outline.boundLayout_holds hfixed (by decide) limit)).append
      (Outline.boundLayout_holds hfixed (by decide) offset)

/-- The texts of sources are fixed ones and their names. -/
theorem origins_hold (hfixed : FixedHold P) : ∀ os : List Origin, (∀ s ∈ originNames os, P s) →
    ∀ part ∈ originLayouts os, Layout.Holds P part
  | [], _ => fun _ h => absurd h List.not_mem_nil
  | o :: os, h => List.forall_mem_cons.mpr
    ⟨o.holds hfixed fun s hs => h s (by simp [originNames, hs]),
      origins_hold hfixed os fun s hs => h s (by simp [originNames, hs])⟩

end

/-- The texts of any renderable thing are fixed ones and its names. -/
theorem Fragment.holds (hfixed : FixedHold P) (f : Fragment) (h : ∀ s ∈ f.names, P s) :
    Layout.Holds P f.layout := by
  cases f with
  | bare b => exact Layout.holds_inline (b.holds hfixed h)
  | item i => exact Layout.holds_inline (i.holds hfixed h)
  | test t => exact Layout.holds_inline (t.holds hfixed h)
  | condition c => exact Layout.holds_inline (c.holds hfixed h)
  | origin o => exact o.holds hfixed h
  | outline q => exact q.holds hfixed h

/-- What holds of the texts of a layout, and of those that line ends become, holds of all texts. -/
theorem Layout.Holds.chunks_of_breaks {ms : List Mark} {pretty : Bool} (h : Layout.Holds P ms)
    (base : Nat)
    (hbreak : ∀ e depth, ∀ t ∈ (Mark.newline e depth).chunks pretty base, t.Holds P) :
    ∀ t ∈ Layout.chunks pretty base ms, t.Holds P := by
  intro t ht
  obtain ⟨m, hm, htm⟩ := List.mem_flatMap.mp ht
  -- A chunk comes from the layout, a line end from the settings.
  cases m with
  | chunk u =>
    obtain rfl := List.mem_singleton.mp htm
    exact h t hm
  | newline e depth => exact hbreak e depth t htm

end Texts

/-! ## §3 Plain texts -/

/-- The text has neither a line end nor a question mark in it. -/
def PlainText (s : String) : Prop := '\n' ∉ s.toList ∧ '?' ∉ s.toList

/-- A number is written in digits only. -/
theorem isDigit_of_mem_toString {n : Nat} {c : Char} (hc : c ∈ (toString n).toList) :
    c.isDigit = true := by
  rw [Nat.toString_eq_repr, Nat.toList_repr] at hc
  exact Nat.isDigit_of_mem_toDigits (by decide) (by decide) hc

/-- A character that is no digit, and in none of the language's words, is in no fixed text. -/
theorem FixedText.not_mem {c : Char} (hwords : ∀ s ∈ fixedTexts, c ∉ s.toList)
    (hkeywords : ∀ keyword ∈ ["LIMIT", "OFFSET"], c ∉ (keyword ++ " ").toList)
    (hdigit : c.isDigit = false) {s : String} (h : FixedText s) : c ∉ s.toList := by
  cases h with
  | word h => exact hwords s h
  -- The character is in the keyword, or it is one of the digits.
  | bound h n =>
    intro hc
    rw [String.toList_append] at hc
    obtain hc | hc := List.mem_append.mp hc
    · exact hkeywords _ h hc
    · rw [isDigit_of_mem_toString hc] at hdigit
      cases hdigit

/-- Nothing but a name can bring a line end or a question mark into a text. -/
theorem FixedText.plain {s : String} (h : FixedText s) : PlainText s :=
  ⟨h.not_mem (by decide) (by decide) (by decide), h.not_mem (by decide) (by decide) (by decide)⟩

/-- What a line end becomes has only a line end and spaces in it. -/
theorem Mark.not_mem_newline {c : Char} (hend : c ≠ '\n') (hspace : c ≠ ' ') (pretty : Bool)
    (base : Nat) (e : LineEnd) (depth : Nat) :
    ∀ t ∈ (Mark.newline e depth).chunks pretty base, t.Holds fun s => c ∉ s.toList := by
  have hgap : c ∉ e.gap.toList := by cases e <;> simp [LineEnd.gap, hspace]
  have hline : c ∉ "\n".toList := by simp [hend]
  have hspaces : c ∉ (blanks (4 * (base + depth))).toList := by
    intro hmem
    rw [blanks, String.toList_ofList] at hmem
    exact hspace (List.eq_of_mem_replicate hmem)
  intro t ht
  -- On one line there is the gap; on lines of their own, a line end and spaces.
  cases pretty with
  | false =>
    obtain rfl := List.mem_singleton.mp ht
    exact hgap
  | true =>
    simp only [Mark.chunks, if_pos, List.mem_cons, List.not_mem_nil, or_false] at ht
    rcases ht with rfl | rfl
    · exact hline
    · exact hspaces

end SqlSelect
