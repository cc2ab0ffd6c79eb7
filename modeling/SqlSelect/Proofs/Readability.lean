import SqlSelect.Proofs.Drawing
import SqlSelect.Proofs.Glyphs

/-!
# Statements Can Be Read Back

Where every name is a word, a statement on one line, together with its arguments, determines what
was written.  Each kind of fragment is a code: it can be told from the others of its kind by its
front, and where it ends by what may follow it.

- A column and a call begin with a name, and differ in the character behind it.
- An operation that is a call begins with a name and a parenthesis, as does a membership test; this
  is why no such call may have the name `IN`.
- A clause begins with a keyword that nothing before it can go on with.

## Main definitions

- `Outline.Legible` — every name is a word, and no operation calls `IN`

## Main statements

- `Bare.recognised`, `Test.recognised`, `Outline.recognised` — what can be read back
- `outline_eq_of_render_eq` — queries with one statement and the same arguments have one outline
-/

namespace SqlSelect

open Chunk (text slot separator)

/-! ## §1 Expressions -/

/-- Nothing but the end of what is inside can stand in front of a parenthesis that closes it. -/
theorem follows_close (r : List Glyph) : Follows [.close] (.char ')' :: r) :=
  .of_mem (List.mem_singleton.mpr rfl) r

def Bare.glyphs (b : Bare) : List Glyph := b.chunks.flatMap Chunk.glyphs

/-- Every name in the expression is a word. -/
def Bare.Named (b : Bare) : Prop := ∀ s ∈ b.names, IsName s

namespace Bare

theorem glyphs_column (qualifier name : String) :
    (column qualifier name).glyphs = textGlyphs qualifier ++ .char '.' :: textGlyphs name := by
  simp [glyphs, chunks, Chunk.glyphs, textGlyphs]

theorem glyphs_literal (v : Value) : (literal v).glyphs = [.value v] := by
  simp [glyphs, chunks, Chunk.glyphs]

/-- In a statement the operands of a list stand between commas. -/
theorem flatMap_joinOperands (bs : List Bare) :
    (joinOperands (bareChunks bs)).flatMap Chunk.glyphs =
      [.char ','].intercalate (bs.map glyphs) := by
  rw [joinOperands, flatMap_intercalate, bareChunks_eq_map, List.map_map]
  rfl

/-- A call is a name with its operands in parentheses. -/
theorem glyphs_call (name : String) (args : List Bare) :
    (call name args).glyphs =
      textGlyphs name ++
        .char '(' :: ([.char ','].intercalate (args.map glyphs) ++ [.char ')']) := by
  rw [← flatMap_joinOperands]
  simp [glyphs, chunks, Chunk.glyphs, textGlyphs]

/-- If all names in a list of operands are words, then so are those of each operand. -/
theorem Named.of_bareNames {bs : List Bare} (h : ∀ s ∈ bareNames bs, IsName s) :
    ∀ b ∈ bs, b.Named := by
  intro b hb s hs
  rw [bareNames_eq_flatMap] at h
  exact h s (List.mem_flatMap.mpr ⟨b, hb, hs⟩)

theorem Named.column {qualifier name : String} (h : (column qualifier name).Named) :
    IsName qualifier ∧ IsName name :=
  ⟨h _ (List.mem_cons_self ..), h _ (List.mem_cons_of_mem _ (List.mem_cons_self ..))⟩

theorem Named.call {name : String} {args : List Bare} (h : (call name args).Named) :
    IsName name :=
  h _ (List.mem_cons_self ..)

theorem Named.args {name : String} {args : List Bare} (h : (Bare.call name args).Named) :
    ∀ b ∈ args, b.Named :=
  of_bareNames fun s hs => h s (List.mem_cons_of_mem _ hs)

/-- An expression begins with a name or with a value. -/
theorem opens {b : Bare} (hb : b.Named) : Opens b.glyphs := by
  cases b with
  | column qualifier name =>
    rw [glyphs_column]
    exact hb.column.1.opens.append _
  | call name args =>
    rw [glyphs_call]
    exact hb.call.opens.append _
  | literal v =>
    rw [glyphs_literal]
    exact ⟨.value v, [], rfl, nofun⟩

/-- The members of an operand list are set apart by commas, and the parenthesis closes it. -/
theorem separates_args : Separates [.char ','] EndsName (Follows [.close]) where
  ends_sep := endsName_char rfl
  ends_stop _ hr := hr.endsName
  -- A list stops at the end of the row or at the parenthesis, and neither begins with a comma.
  sep_ne_stop := by
    rintro r s (rfl | ⟨k, hk, t, rfl⟩) h
    · cases h
    · obtain rfl := List.mem_singleton.mp hk
      simp [Boundary.glyphs, Boundary.text, textGlyphs] at h
  stop_not_opens _ hr := hr.not_opens

/-- An operand list can be read back up to the parenthesis that closes it. -/
theorem args_recognised {args : List Bare}
    (hargs : ∀ b ∈ args, Recognised glyphs Named EndsName b) (hnamed : ∀ b ∈ args, b.Named)
    {args' : List Bare} (hnamed' : ∀ b ∈ args', b.Named) {r s : List Glyph}
    (h : [.char ','].intercalate (args.map glyphs) ++ .char ')' :: r =
      [.char ','].intercalate (args'.map glyphs) ++ .char ')' :: s) : args = args' ∧ r = s := by
  obtain ⟨hlists, hrs⟩ := Recognised.intercalate separates_args (fun _ => opens) hargs hnamed
    args' _ _ hnamed' (follows_close r) (follows_close s) h
  exact ⟨hlists, (List.cons.inj hrs).2⟩

end Bare

mutual

/-- An expression can be read back. -/
theorem Bare.recognised : ∀ b : Bare, b.Named → Recognised Bare.glyphs Bare.Named EndsName b
  | .column qualifier name, hb => by
    intro b' r s hb' hr hs h
    obtain ⟨hqualifier, hname⟩ := hb.column
    cases b' with
    | column qualifier' name' =>
      obtain ⟨hqualifier', hname'⟩ := hb'.column
      simp only [Bare.glyphs_column, List.append_assoc, List.cons_append] at h
      obtain ⟨rfl, -, hrest⟩ := name_append_char_inj hqualifier hqualifier' rfl rfl h
      obtain ⟨rfl, hrs⟩ := name_append_inj hname hname' hr hs hrest
      exact ⟨rfl, hrs⟩
    | call name' args' =>
      -- Both begin with a name, and the character behind it differs.
      have hname' : IsName name' := hb'.call
      simp only [Bare.glyphs_column, Bare.glyphs_call, List.append_assoc, List.cons_append] at h
      obtain ⟨-, hdot, -⟩ := name_append_char_inj hqualifier hname' rfl rfl h
      exact absurd hdot (by decide)
    -- One begins with a name and the other is a value.
    | literal v =>
      simp only [Bare.glyphs_column, Bare.glyphs_literal, List.append_assoc] at h
      exact absurd h (hqualifier.ne_value v _ _)
  | .call name args, hb => by
    intro b' r s hb' hr hs h
    have hname : IsName name := hb.call
    cases b' with
    | column qualifier' name' =>
      have hqualifier' : IsName qualifier' := hb'.column.1
      simp only [Bare.glyphs_column, Bare.glyphs_call, List.append_assoc, List.cons_append] at h
      obtain ⟨-, hparen, -⟩ := name_append_char_inj hname hqualifier' rfl rfl h
      exact absurd hparen (by decide)
    | call name' args' =>
      have hname' : IsName name' := hb'.call
      simp only [Bare.glyphs_call, List.append_assoc, List.cons_append, List.nil_append] at h
      obtain ⟨rfl, -, hrest⟩ := name_append_char_inj hname hname' rfl rfl h
      obtain ⟨rfl, hrs⟩ := Bare.args_recognised (bares_recognised args hb.args) hb.args hb'.args
        hrest
      exact ⟨rfl, hrs⟩
    | literal v =>
      simp only [Bare.glyphs_call, Bare.glyphs_literal, List.append_assoc] at h
      exact absurd h (hname.ne_value v _ _)
  | .literal v, _ => by
    intro b' r s hb' hr hs h
    cases b' with
    | column qualifier' name' =>
      have hqualifier' : IsName qualifier' := hb'.column.1
      simp only [Bare.glyphs_column, Bare.glyphs_literal, List.append_assoc] at h
      exact absurd h.symm (hqualifier'.ne_value v _ _)
    | call name' args' =>
      have hname' : IsName name' := hb'.call
      simp only [Bare.glyphs_call, Bare.glyphs_literal, List.append_assoc] at h
      exact absurd h.symm (hname'.ne_value v _ _)
    | literal v' =>
      simp only [Bare.glyphs_literal, List.cons_append, List.nil_append, List.cons.injEq,
        Glyph.value.injEq] at h
      obtain ⟨rfl, hrs⟩ := h
      exact ⟨rfl, hrs⟩

/-- So can each operand of a list. -/
theorem bares_recognised : ∀ bs : List Bare, (∀ b ∈ bs, b.Named) →
    ∀ b ∈ bs, Recognised Bare.glyphs Bare.Named EndsName b
  | [], _ => fun _ hb => absurd hb List.not_mem_nil
  | b :: bs, h => List.forall_mem_cons.mpr
    ⟨b.recognised (h b (List.mem_cons_self ..)),
      bares_recognised bs fun b hb => h b (List.mem_cons_of_mem _ hb)⟩

end

/-! ## §2 Projection items -/

/-- The glyphs of an output alias, or of the alias of a source. -/
def aliasGlyphs (a : String) : List Glyph := Boundary.aliasWord.glyphs ++ textGlyphs a

theorem flatMap_aliasChunks (a : String) :
    (aliasChunks a).flatMap Chunk.glyphs = aliasGlyphs a := by
  simp [aliasChunks, aliasGlyphs, Chunk.glyphs, Boundary.glyphs, Boundary.text]

/-- A name ends in front of the keyword of an alias. -/
theorem endsName_aliasGlyphs (a : String) (r : List Glyph) : EndsName (aliasGlyphs a ++ r) := by
  rw [aliasGlyphs, List.append_assoc]
  exact (Follows.of_mem (List.mem_singleton.mpr rfl) _).endsName

/-- After ` AS `, the alias can be read back. -/
theorem aliasGlyphs_append_inj {a b : String} {r s : List Glyph} (ha : IsName a) (hb : IsName b)
    (hr : EndsName r) (hs : EndsName s) (h : aliasGlyphs a ++ r = aliasGlyphs b ++ s) :
    a = b ∧ r = s := by
  rw [aliasGlyphs, aliasGlyphs, List.append_assoc, List.append_assoc] at h
  exact name_append_inj ha hb hr hs (List.append_cancel_left h)

namespace Item

def glyphs (i : Item) : List Glyph := i.chunks.flatMap Chunk.glyphs

/-- Every name in the item is a word. -/
def Named (i : Item) : Prop := ∀ s ∈ i.names, IsName s

theorem glyphs_none (b : Bare) : (⟨b, none⟩ : Item).glyphs = b.glyphs := by
  simp [glyphs, chunks, Bare.glyphs]

theorem glyphs_some (b : Bare) (a : String) :
    (⟨b, some a⟩ : Item).glyphs = b.glyphs ++ aliasGlyphs a := by
  rw [glyphs, chunks, List.flatMap_append, flatMap_aliasChunks]
  rfl

theorem Named.bare {i : Item} (h : i.Named) : i.bare.Named := by
  intro s hs
  exact h s (List.mem_append_left _ hs)

theorem Named.output {b : Bare} {a : String} (h : (⟨b, some a⟩ : Item).Named) : IsName a :=
  h a (by simp [names])

/-- An item begins as its expression does. -/
theorem opens {i : Item} (hi : i.Named) : Opens i.glyphs := by
  obtain ⟨b, output⟩ := i
  cases output with
  | none =>
    rw [glyphs_none]
    exact Bare.opens hi.bare
  | some a =>
    rw [glyphs_some]
    exact (Bare.opens hi.bare).append _

/-- A projection item can be read back where another item or the sources follow. -/
theorem recognised {i : Item} (hi : i.Named) :
    Recognised glyphs Named (Follows [.comma, .fromWord]) i := by
  intro j r s hj hr hs h
  obtain ⟨b, output⟩ := i
  obtain ⟨b', output'⟩ := j
  have hb := b.recognised hi.bare b'
  have hendr : EndsName r := hr.endsName
  have hends : EndsName s := hs.endsName
  cases output with
  | none =>
    cases output' with
    | none =>
      rw [glyphs_none, glyphs_none] at h
      obtain ⟨rfl, hrs⟩ := hb r s hj.bare hendr hends h
      exact ⟨rfl, hrs⟩
    | some a' =>
      -- The expressions agree, so one item would end where the other has its output alias.
      rw [glyphs_none, glyphs_some, List.append_assoc] at h
      obtain ⟨-, hrs⟩ := hb r _ hj.bare hendr (endsName_aliasGlyphs a' s) h
      rw [aliasGlyphs, List.append_assoc] at hrs
      exact absurd hrs (hr.ne_boundary (by decide) _)
  | some a =>
    cases output' with
    | none =>
      rw [glyphs_none, glyphs_some, List.append_assoc] at h
      obtain ⟨-, hrs⟩ := hb _ s hj.bare (endsName_aliasGlyphs a r) hends h
      rw [aliasGlyphs, List.append_assoc] at hrs
      exact absurd hrs.symm (hs.ne_boundary (by decide) _)
    | some a' =>
      rw [glyphs_some, glyphs_some, List.append_assoc, List.append_assoc] at h
      obtain ⟨rfl, hrest⟩ := hb _ _ hj.bare (endsName_aliasGlyphs a r) (endsName_aliasGlyphs a' s) h
      obtain ⟨rfl, hrs⟩ := aliasGlyphs_append_inj hi.output hj.output hendr hends hrest
      exact ⟨rfl, hrs⟩

end Item

/-! ## §3 Operations -/

/-- What an operation that is no call does with its operands. -/
inductive Operator where
  | compare (op : Comparison)
  | isIn (negated : Bool)
  | isNull (negated : Bool)
  deriving DecidableEq

namespace Operator

/-- What an operation begins with. -/
def text : Operator → String
  | compare op => op.symbol ++ " "
  | isIn negated => if negated then "NOT IN(" else "IN("
  | isNull negated => if negated then "IS NOT NULL" else "IS NULL"

def glyphs (k : Operator) : List Glyph := textGlyphs k.text

/-- Every operator. -/
def all : List Operator :=
  [compare .eq, compare .ne, compare .gt, compare .gte, compare .lt, compare .lte, compare .like,
    isIn false, isIn true, isNull false, isNull true]

theorem mem_all (k : Operator) : k ∈ all := by
  cases k with
  | compare op => cases op <;> decide
  | isIn negated => cases negated <;> decide
  | isNull negated => cases negated <;> decide

/-- No operator is the beginning of another one, though `<` is one of `<=`: it has a space behind
it. -/
theorem prefixFree : PrefixFree glyphs := by
  have hall : ∀ k ∈ all, ∀ l ∈ all, k.glyphs <+: l.glyphs → k = l := by decide
  intro k l
  exact hall k k.mem_all l l.mem_all

/-- The only operator that begins as a call does is the membership test. -/
theorem name_eq_of_call {k : Operator} {name : String} (hname : IsName name) {r s : List Glyph}
    (h : textGlyphs name ++ .char '(' :: r = k.glyphs ++ s) : name = "IN" := by
  -- It is a word, perhaps an empty one, and a character that ends the word.
  have hall : ∀ k ∈ all, (k.text.toList.dropWhile isNameChar).head?.any (fun c =>
      !isNameChar c && (c != '(' || k.text.toList.takeWhile isNameChar == "IN".toList)) := by
    decide
  obtain ⟨c, hc, hcheck⟩ := (Option.any_eq_true ..).mp (hall k k.mem_all)
  simp only [Bool.and_eq_true, Bool.not_eq_true', Bool.or_eq_true, bne_iff_ne, beq_iff_eq] at hcheck
  obtain ⟨hend, hin⟩ := hcheck
  obtain ⟨cs, hcs⟩ := List.head?_eq_some_iff.mp hc
  have hsplit : k.glyphs =
      (k.text.toList.takeWhile isNameChar).map .char ++ .char c :: cs.map .char := by
    rw [glyphs, textGlyphs, ← List.map_cons, ← hcs, ← List.map_append,
      List.takeWhile_append_dropWhile]
  have hword : ∀ d ∈ k.text.toList.takeWhile isNameChar, isNameChar d = true :=
    List.all_eq_true.mp List.all_takeWhile
  -- The two words at the front are the same, and so are the characters behind them.
  rw [hsplit, List.append_assoc] at h
  obtain ⟨hchars, hrest⟩ := nameChars_append_inj hname.chars hword
    (endsName_char (by decide) r) (endsName_char hend _) h
  have hparen : c = '(' := by
    simpa using (List.cons.inj hrest).1.symm
  obtain hne | hin := hin
  · exact absurd hparen hne
  · exact String.toList_inj.mp (hchars.trans hin)

end Operator

namespace Test

/-- The glyphs of an operation. -/
def glyphs (t : Test) : List Glyph := t.chunks.flatMap Chunk.glyphs

/-- Every name in the operation is a word, and it is no call of `IN`. -/
structure Legible (t : Test) : Prop where
  named : ∀ s ∈ t.names, IsName s
  call_ne : t.call? ≠ some "IN"

/-- A comparison begins with its symbol and a space. -/
theorem glyphs_compare (op : Comparison) (operand : Bare) :
    (compare op operand).glyphs = (Operator.compare op).glyphs ++ operand.glyphs := by
  simp [glyphs, chunks, Chunk.glyphs, Operator.glyphs, Operator.text, Bare.glyphs]

theorem glyphs_isIn (negated : Bool) (operands : List Bare) :
    (isIn negated operands).glyphs = (Operator.isIn negated).glyphs ++
      ([.char ','].intercalate (operands.map Bare.glyphs) ++ [.char ')']) := by
  rw [← Bare.flatMap_joinOperands]
  simp [glyphs, chunks, Chunk.glyphs, Operator.glyphs, Operator.text, textGlyphs]

/-- A test for null is its words. -/
theorem glyphs_isNull (negated : Bool) :
    (isNull negated).glyphs = (Operator.isNull negated).glyphs := by
  simp [glyphs, chunks, Chunk.glyphs, Operator.glyphs, Operator.text]

theorem glyphs_call (name : String) (args : List Bare) :
    (call name args).glyphs = (Bare.call name args).glyphs := rfl

/-- The operator of an operation that is no call. -/
def operator? : Test → Option Operator
  | compare op _ => some (.compare op)
  | isIn negated _ => some (.isIn negated)
  | isNull negated => some (.isNull negated)
  | call _ _ => none

/-- What an operation begins with that is no call. -/
theorem exists_glyphs_eq {t : Test} {k : Operator} (ht : t.operator? = some k) :
    ∃ rest, t.glyphs = k.glyphs ++ rest := by
  cases t with
  | compare op operand =>
    cases ht
    exact ⟨_, glyphs_compare op operand⟩
  | isIn negated operands =>
    cases ht
    exact ⟨_, glyphs_isIn negated operands⟩
  | isNull negated =>
    cases ht
    exact ⟨[], by rw [glyphs_isNull, List.append_nil]⟩
  | call name args => cases ht

/-- Two operations at the front of one row have the same operator, if none is a call. -/
theorem operator_eq {t u : Test} {k l : Operator} (ht : t.operator? = some k)
    (hu : u.operator? = some l) {r s : List Glyph} (h : t.glyphs ++ r = u.glyphs ++ s) : k = l := by
  obtain ⟨x, hx⟩ := exists_glyphs_eq ht
  obtain ⟨y, hy⟩ := exists_glyphs_eq hu
  rw [hx, hy, List.append_assoc, List.append_assoc] at h
  -- Both operators stand at the front of one row, which has room for one.
  exact (Operator.prefixFree.append_inj h).1

/-- A call other than of `IN` does not begin as an operator does. -/
theorem call_ne_operator {name : String} {args : List Bare} (hcall : (call name args).Legible)
    {u : Test} {k : Operator} (hu : u.operator? = some k) (r s : List Glyph) :
    (call name args).glyphs ++ r ≠ u.glyphs ++ s := by
  intro h
  have hname : IsName name := hcall.named _ (List.mem_cons_self ..)
  obtain ⟨y, hy⟩ := exists_glyphs_eq hu
  rw [glyphs_call, Bare.glyphs_call, hy, List.append_assoc, List.append_assoc] at h
  -- The operator begins with a word and a parenthesis too, which leaves one word.
  have hin : name = "IN" := Operator.name_eq_of_call hname h
  exact hcall.call_ne (by rw [call?, hin])

/-- An operation can be read back. -/
theorem recognised {t : Test} (ht : t.Legible) : Recognised glyphs Legible EndsName t := by
  intro u r s hu hr hs h
  -- Operators that differ do not begin alike, and a call begins like none of them.
  cases t with
  | compare op operand =>
    cases u with
    | compare op' operand' =>
      simp only [glyphs_compare, List.append_assoc] at h
      obtain ⟨hop, hrest⟩ := Operator.prefixFree.append_inj h
      obtain ⟨rfl, hrs⟩ := operand.recognised ht.named _ _ _ hu.named hr hs hrest
      cases hop
      exact ⟨rfl, hrs⟩
    | isIn negated operands => cases operator_eq rfl rfl h
    | isNull negated => cases operator_eq rfl rfl h
    | call name args => exact absurd h.symm (call_ne_operator hu rfl _ _)
  | isIn negated operands =>
    cases u with
    | compare op operand => cases operator_eq rfl rfl h
    | isIn negated' operands' =>
      simp only [glyphs_isIn, List.append_assoc, List.cons_append, List.nil_append] at h
      obtain ⟨hnegated, hrest⟩ := Operator.prefixFree.append_inj h
      have hoperands : ∀ b ∈ operands, b.Named := Bare.Named.of_bareNames ht.named
      obtain ⟨rfl, hrs⟩ := Bare.args_recognised (bares_recognised operands hoperands) hoperands
        (Bare.Named.of_bareNames hu.named) hrest
      cases hnegated
      exact ⟨rfl, hrs⟩
    | isNull negated' => cases operator_eq rfl rfl h
    | call name args => exact absurd h.symm (call_ne_operator hu rfl _ _)
  | isNull negated =>
    cases u with
    | compare op operand => cases operator_eq rfl rfl h
    | isIn negated' operands => cases operator_eq rfl rfl h
    | isNull negated' =>
      simp only [glyphs_isNull] at h
      obtain ⟨hnegated, hrs⟩ := Operator.prefixFree.append_inj h
      cases hnegated
      exact ⟨rfl, hrs⟩
    | call name args => exact absurd h.symm (call_ne_operator hu rfl _ _)
  | call name args =>
    cases u with
    | compare op operand => exact absurd h (call_ne_operator ht rfl _ _)
    | isIn negated operands => exact absurd h (call_ne_operator ht rfl _ _)
    | isNull negated => exact absurd h (call_ne_operator ht rfl _ _)
    | call name' args' =>
      obtain ⟨hcall, hrs⟩ := (Bare.call name args).recognised ht.named (.call name' args') r s
        hu.named hr hs h
      cases hcall
      exact ⟨rfl, hrs⟩

end Test

-- Without the condition on calls, a call of `IN` and a membership test would look the same.
example : (Test.call "IN" [.literal .null]).glyphs = (Test.isIn false [.literal .null]).glyphs := by
  decide

/-! ## §4 Predicates -/

namespace Condition

/-- The glyphs of a predicate. -/
def glyphs (c : Condition) : List Glyph := c.chunks.flatMap Chunk.glyphs

/-- Every name in the predicate is a word, and its operation is no call of `IN`. -/
structure Legible (c : Condition) : Prop where
  named : ∀ s ∈ c.names, IsName s
  call_ne : c.test.call? ≠ some "IN"

theorem Legible.qualifier {c : Condition} (h : c.Legible) : IsName c.qualifier :=
  h.named _ (List.mem_cons_self ..)

theorem Legible.name {c : Condition} (h : c.Legible) : IsName c.name :=
  h.named _ (List.mem_cons_of_mem _ (List.mem_cons_self ..))

theorem Legible.test {c : Condition} (h : c.Legible) : c.test.Legible where
  named s hs := h.named s (by simp [names, hs])
  call_ne := h.call_ne

theorem glyphs_eq (c : Condition) :
    c.glyphs = textGlyphs c.qualifier ++ .char '.' :: (textGlyphs c.name ++ .char ' ' ::
      c.test.glyphs) := by
  simp [glyphs, chunks, Chunk.glyphs, textGlyphs, Test.glyphs]

/-- A predicate begins with the qualifier of its column. -/
theorem opens {c : Condition} (hc : c.Legible) : Opens c.glyphs := by
  rw [glyphs_eq]
  exact hc.qualifier.opens.append _

/-- A predicate can be read back. -/
theorem recognised {c : Condition} (hc : c.Legible) : Recognised glyphs Legible EndsName c := by
  intro d r s hd hr hs h
  obtain ⟨qualifier, name, test⟩ := c
  obtain ⟨qualifier', name', test'⟩ := d
  simp only [glyphs_eq, List.append_assoc, List.cons_append] at h
  -- The two names end at the dot and at the space, and then the tests are compared.
  obtain ⟨rfl, -, hafter⟩ := name_append_char_inj hc.qualifier hd.qualifier rfl rfl h
  obtain ⟨rfl, -, htest⟩ := name_append_char_inj hc.name hd.name rfl rfl hafter
  obtain ⟨rfl, hrs⟩ := Test.recognised hc.test test' r s hd.test hr hs htest
  exact ⟨rfl, hrs⟩

end Condition

/-! ## §5 Clauses -/

def itemGlyphs (items : List Item) : List Glyph := (Outline.itemChunks items).flatMap Chunk.glyphs

def conditionGlyphs (conditions : List Condition) : List Glyph :=
  Layout.glyphs (Outline.conditionLayout conditions)

def boundGlyphs (keyword : String) (bound : Option UInt64) : List Glyph :=
  Layout.glyphs (Outline.boundLayout keyword bound)

/-- An empty projection is a star. -/
theorem itemGlyphs_nil : itemGlyphs [] = [.char '*'] := by
  simp [itemGlyphs, Outline.itemChunks, Chunk.glyphs, textGlyphs]

/-- Items stand between commas. -/
theorem itemGlyphs_cons (i : Item) (items : List Item) :
    itemGlyphs (i :: items) =
      Boundary.comma.glyphs.intercalate ((i :: items).map Item.glyphs) := by
  have hparts : ((i :: items).map Item.chunks).map (fun part => part.flatMap Chunk.glyphs) =
      (i :: items).map Item.glyphs := List.map_map
  have hsep : [text ", "].flatMap Chunk.glyphs = Boundary.comma.glyphs :=
    List.flatMap_singleton ..
  calc itemGlyphs (i :: items)
      = ([text ", "].intercalate ((i :: items).map Item.chunks)).flatMap Chunk.glyphs := rfl
    _ = Boundary.comma.glyphs.intercalate ((i :: items).map Item.glyphs) := by
        rw [flatMap_intercalate, hparts, hsep]

theorem conditionGlyphs_nil : conditionGlyphs [] = [] := rfl

/-- Filters stand behind their keyword, with another keyword between any two. -/
theorem conditionGlyphs_cons (c : Condition) (conditions : List Condition) :
    conditionGlyphs (c :: conditions) = Boundary.whereWord.glyphs ++
      Boundary.andWord.glyphs.intercalate ((c :: conditions).map Condition.glyphs) := by
  have hparts : ((c :: conditions).map Condition.chunks).map
      (fun part => part.flatMap Chunk.glyphs) = (c :: conditions).map Condition.glyphs :=
    List.map_map
  have hsep : [text " AND "].flatMap Chunk.glyphs = Boundary.andWord.glyphs :=
    List.flatMap_singleton ..
  -- The gap in front of the keyword belongs to the line end, so that it comes from elsewhere.
  have hkeyword : Boundary.whereWord.glyphs = textGlyphs " " ++ textGlyphs "WHERE " := by decide
  calc conditionGlyphs (c :: conditions)
      = textGlyphs " " ++ Layout.glyphs (inline (text "WHERE " ::
          [text " AND "].intercalate ((c :: conditions).map Condition.chunks))) := rfl
    _ = Boundary.whereWord.glyphs ++
          Boundary.andWord.glyphs.intercalate ((c :: conditions).map Condition.glyphs) := by
        rw [Layout.glyphs_inline, List.flatMap_cons, flatMap_intercalate, hparts, hsep, hkeyword,
          List.append_assoc]
        rfl

theorem boundGlyphs_none (keyword : String) : boundGlyphs keyword none = [] := rfl

theorem boundGlyphs_some {keyword : String} {k : Boundary}
    (hkeyword : " " ++ keyword ++ " " = k.text) (n : UInt64) :
    boundGlyphs keyword (some n) = k.glyphs ++ textGlyphs (toString n.toNat) := by
  rw [Boundary.glyphs, ← hkeyword]
  simp [boundGlyphs, Outline.boundLayout, clauseLayout, Mark.glyphs, LineEnd.gap, Chunk.glyphs]

/-- A projection can be read back in front of the sources. -/
theorem items_recognised {items items' : List Item} (hitems : ∀ i ∈ items, i.Named)
    (hitems' : ∀ i ∈ items', i.Named) {r s : List Glyph} (hr : Follows [.fromWord] r)
    (hs : Follows [.fromWord] s) (h : itemGlyphs items ++ r = itemGlyphs items' ++ s) :
    items = items' ∧ r = s := by
  -- A star is no item.
  have hstar : ∀ (i : Item) (is : List Item) (t u : List Glyph), i.Named →
      .char '*' :: t ≠ itemGlyphs (i :: is) ++ u := by
    intro i is t u hi heq
    rw [itemGlyphs_cons, List.map_cons, intercalate_cons_append] at heq
    obtain ⟨g, rest, hg, hopens⟩ := (Item.opens hi).append (afterMember Boundary.comma.glyphs _ u)
    rw [hg] at heq
    exact absurd (hopens '*' (List.cons.inj heq).1.symm) (by decide)
  cases items with
  | nil =>
    cases items' with
    | nil =>
      rw [itemGlyphs_nil] at h
      exact ⟨rfl, (List.cons.inj h).2⟩
    | cons i' is' =>
      rw [itemGlyphs_nil] at h
      exact absurd h (hstar i' is' r s (hitems' i' (List.mem_cons_self ..)))
  | cons i is =>
    cases items' with
    | nil =>
      rw [itemGlyphs_nil] at h
      exact absurd h.symm (hstar i is s r (hitems i (List.mem_cons_self ..)))
    | cons i' is' =>
      have hcomma : Boundary.comma ∉ [Boundary.fromWord] := by decide
      rw [itemGlyphs_cons, itemGlyphs_cons] at h
      exact Recognised.intercalate (Boundary.separates hcomma) (fun _ => Item.opens)
        (fun i hi => Item.recognised (hitems i hi)) hitems _ r s hitems' hr hs h

/-- The predicates can be read back in front of the bounds. -/
theorem conditions_recognised {conditions conditions' : List Condition}
    (hconditions : ∀ c ∈ conditions, c.Legible) (hconditions' : ∀ c ∈ conditions', c.Legible)
    {r s : List Glyph} (hr : Follows [.limitWord, .offsetWord, .close] r)
    (hs : Follows [.limitWord, .offsetWord, .close] s)
    (h : conditionGlyphs conditions ++ r = conditionGlyphs conditions' ++ s) :
    conditions = conditions' ∧ r = s := by
  cases conditions with
  | nil =>
    cases conditions' with
    | nil => exact ⟨rfl, h⟩
    | cons c' cs' =>
      rw [conditionGlyphs_nil, conditionGlyphs_cons, List.append_assoc] at h
      -- One list has ended where the keyword of the other follows.
      exact absurd h (hr.ne_boundary (by decide) _)
  | cons c cs =>
    cases conditions' with
    | nil =>
      rw [conditionGlyphs_nil, conditionGlyphs_cons, List.append_assoc] at h
      exact absurd h.symm (hs.ne_boundary (by decide) _)
    | cons c' cs' =>
      have hand : Boundary.andWord ∉ [Boundary.limitWord, .offsetWord, .close] := by decide
      rw [conditionGlyphs_cons, conditionGlyphs_cons, List.append_assoc, List.append_assoc] at h
      exact Recognised.intercalate (Boundary.separates hand) (fun _ => Condition.opens)
        (fun c hc => (Condition.recognised (hconditions c hc)).mono fun _ hr => hr.endsName)
        hconditions _ r s hconditions' hr hs (List.append_cancel_left h)

/-- A bound can be read back where its keyword does not follow. -/
theorem bound_append_inj {keyword : String} {k : Boundary}
    (hkeyword : " " ++ keyword ++ " " = k.text) {ks : List Boundary} (hk : k ∉ ks)
    {m n : Option UInt64} {r s : List Glyph} (hr : Follows ks r) (hs : Follows ks s)
    (h : boundGlyphs keyword m ++ r = boundGlyphs keyword n ++ s) : m = n ∧ r = s := by
  cases m with
  | none =>
    cases n with
    | none => exact ⟨rfl, h⟩
    | some n =>
      rw [boundGlyphs_none, boundGlyphs_some hkeyword, List.append_assoc] at h
      exact absurd h (hr.ne_boundary hk _)
  | some m =>
    cases n with
    | none =>
      rw [boundGlyphs_none, boundGlyphs_some hkeyword, List.append_assoc] at h
      exact absurd h.symm (hs.ne_boundary hk _)
    | some n =>
      rw [boundGlyphs_some hkeyword, boundGlyphs_some hkeyword, List.append_assoc,
        List.append_assoc] at h
      -- The digits end where another clause or a parenthesis follows.
      obtain ⟨hdigits, hrs⟩ := name_append_inj (isName_toString _) (isName_toString _)
        hr.endsName hs.endsName (List.append_cancel_left h)
      exact ⟨by rw [UInt64.toNat_inj.mp (toString_nat_inj hdigits)], hrs⟩

/-- Where a bound may be missing, its keyword follows, or what would follow anyway. -/
theorem Follows.bound {keyword : String} {k : Boundary}
    (hkeyword : " " ++ keyword ++ " " = k.text) (bound : Option UInt64) {ks : List Boundary}
    {r : List Glyph} (h : Follows ks r) : Follows (k :: ks) (boundGlyphs keyword bound ++ r) := by
  cases bound with
  | none => exact h.mono fun k hk => List.mem_cons_of_mem _ hk
  | some n =>
    rw [boundGlyphs_some hkeyword, List.append_assoc]
    exact .of_mem (List.mem_cons_self ..) _

/-- So it is with the filters. -/
theorem Follows.conditions (conditions : List Condition) {ks : List Boundary} {r : List Glyph}
    (h : Follows ks r) : Follows (.whereWord :: ks) (conditionGlyphs conditions ++ r) := by
  cases conditions with
  | nil => exact h.mono fun k hk => List.mem_cons_of_mem _ hk
  | cons c cs =>
    rw [conditionGlyphs_cons, List.append_assoc]
    exact .of_mem (List.mem_cons_self ..) _

/-! ## §6 Sources and queries -/

def Origin.glyphs (o : Origin) : List Glyph := Layout.glyphs o.layout

def Outline.glyphs (q : Outline) : List Glyph := Layout.glyphs q.layout

/-- Every name in the source is a word, and no operation in it calls `IN`. -/
structure Origin.Legible (o : Origin) : Prop where
  named : ∀ s ∈ o.names, IsName s
  calls : "IN" ∉ o.calls

/-- Every name in the query is a word, and no operation in it calls `IN`, at any depth. -/
structure Outline.Legible (q : Outline) : Prop where
  named : ∀ s ∈ q.names, IsName s
  calls : "IN" ∉ q.calls

theorem Origin.glyphs_table (name a : String) :
    (table name a).glyphs = textGlyphs name ++ aliasGlyphs a := by
  rw [← flatMap_aliasChunks, glyphs, layout, Layout.glyphs_inline]
  rfl

theorem Origin.glyphs_derived (q : Outline) (a : String) :
    (derived q a).glyphs = .char '(' :: (q.glyphs ++ .char ')' :: aliasGlyphs a) := by
  rw [← flatMap_aliasChunks]
  simp [glyphs, layout, Outline.glyphs, Mark.glyphs, LineEnd.gap, Chunk.glyphs, textGlyphs]

/-- A query is its clauses, each behind its keyword, in one order. -/
theorem Outline.glyphs_eq (origins : List Origin) (items : List Item)
    (conditions : List Condition) (limit offset : Option UInt64) :
    glyphs ⟨origins, items, conditions, limit, offset⟩ =
      textGlyphs "SELECT " ++ (itemGlyphs items ++ (Boundary.fromWord.glyphs ++
        (Boundary.comma.glyphs.intercalate (origins.map Origin.glyphs) ++
          (conditionGlyphs conditions ++
            (boundGlyphs "LIMIT" limit ++ boundGlyphs "OFFSET" offset))))) := by
  have horigins : Layout.glyphs ((inline [text ", "]).intercalate (originLayouts origins)) =
      Boundary.comma.glyphs.intercalate (origins.map Origin.glyphs) := by
    rw [Layout.glyphs, flatMap_intercalate, originLayouts_eq_map, List.map_map]
    rfl
  -- Here, too, a boundary is a gap and a keyword.
  have hfrom : Boundary.fromWord.glyphs = textGlyphs " " ++ textGlyphs "FROM " := by decide
  rw [glyphs, layout, hfrom]
  simp [horigins, clauseLayout, Mark.glyphs, LineEnd.gap, Chunk.glyphs, itemGlyphs,
    conditionGlyphs, boundGlyphs]

/-- The items of a legible query are legible. -/
theorem Outline.Legible.items {q : Outline} (h : q.Legible) : ∀ i ∈ q.items, i.Named := by
  obtain ⟨origins, items, conditions, limit, offset⟩ := q
  intro i hi s hs
  refine h.named s ?_
  simp only [Outline.names, List.mem_append, List.mem_flatMap]
  exact .inl (.inl ⟨i, hi, hs⟩)

/-- So are its sources. -/
theorem Outline.Legible.origins {q : Outline} (h : q.Legible) : ∀ o ∈ q.origins, o.Legible := by
  obtain ⟨origins, items, conditions, limit, offset⟩ := q
  intro o ho
  -- Its names and its calls are some of those of the query.
  refine ⟨fun s hs => h.named s ?_, fun hin => h.calls ?_⟩
  · simp only [Outline.names, originNames_eq_flatMap, List.mem_append, List.mem_flatMap]
    exact .inl (.inr ⟨o, ho, hs⟩)
  · simp only [Outline.calls, originCalls_eq_flatMap, List.mem_append, List.mem_flatMap]
    exact .inl ⟨o, ho, hin⟩

/-- So are its predicates. -/
theorem Outline.Legible.conditions {q : Outline} (h : q.Legible) :
    ∀ c ∈ q.conditions, c.Legible := by
  obtain ⟨origins, items, conditions, limit, offset⟩ := q
  intro c hc
  refine ⟨fun s hs => h.named s ?_, fun hin => h.calls ?_⟩
  · simp only [Outline.names, List.mem_append, List.mem_flatMap]
    exact .inr ⟨c, hc, hs⟩
  · simp only [Outline.calls, List.mem_append, List.mem_filterMap]
    exact .inr ⟨c, hc, hin⟩

theorem Origin.Legible.table {name a : String} (h : (Origin.table name a).Legible) :
    IsName name ∧ IsName a :=
  ⟨h.named _ (List.mem_cons_self ..), h.named _ (List.mem_cons_of_mem _ (List.mem_cons_self ..))⟩

theorem Origin.Legible.derived {q : Outline} {a : String} (h : (Origin.derived q a).Legible) :
    IsName a :=
  h.named _ (List.mem_cons_self ..)

/-- The query of a legible source is legible. -/
theorem Origin.Legible.inner {q : Outline} {a : String} (h : (Origin.derived q a).Legible) :
    q.Legible where
  named s hs := h.named s (by simp [Origin.names, hs])
  calls := h.calls

/-- A source begins with a name or with a parenthesis. -/
theorem Origin.opens {o : Origin} (ho : o.Legible) : Opens o.glyphs := by
  cases o with
  | table name a =>
    rw [Origin.glyphs_table]
    exact ho.table.1.opens.append _
  | derived q a =>
    rw [Origin.glyphs_derived]
    refine ⟨.char '(', _, rfl, ?_⟩
    rintro c ⟨⟩
    decide

mutual

/-- A source can be read back. -/
theorem Origin.recognised : ∀ o : Origin, o.Legible →
    Recognised Origin.glyphs Origin.Legible EndsName o
  | .table name a, ho => by
    intro o' r s ho' hr hs h
    obtain ⟨hname, ha⟩ := ho.table
    cases o' with
    | table name' a' =>
      obtain ⟨hname', ha'⟩ := ho'.table
      rw [Origin.glyphs_table, Origin.glyphs_table, List.append_assoc, List.append_assoc] at h
      obtain ⟨rfl, halias⟩ := name_append_inj hname hname' (endsName_aliasGlyphs a r)
        (endsName_aliasGlyphs a' s) h
      obtain ⟨rfl, hrs⟩ := aliasGlyphs_append_inj ha ha' hr hs halias
      exact ⟨rfl, hrs⟩
    | derived q' a' =>
      rw [Origin.glyphs_table, Origin.glyphs_derived, List.append_assoc] at h
      -- A name does not begin with a parenthesis.
      exact absurd h (hname.ne_char (by decide) _ _)
  | .derived q a, ho => by
    intro o' r s ho' hr hs h
    cases o' with
    | table name' a' =>
      rw [Origin.glyphs_table, Origin.glyphs_derived, List.append_assoc] at h
      exact absurd h.symm (ho'.table.1.ne_char (by decide) _ _)
    | derived q' a' =>
      -- The inner query ends at its own parenthesis, whatever parentheses it has inside.
      simp only [Origin.glyphs_derived, List.append_assoc, List.cons_append] at h
      obtain ⟨rfl, hafter⟩ := q.recognised ho.inner q' _ _ ho'.inner (follows_close _)
        (follows_close _) (List.cons.inj h).2
      obtain ⟨rfl, hrs⟩ := aliasGlyphs_append_inj ho.derived ho'.derived hr hs
        (List.cons.inj hafter).2
      exact ⟨rfl, hrs⟩

/-- A query can be read back at the end, or in front of the parenthesis that closes it. -/
theorem Outline.recognised : ∀ q : Outline, q.Legible →
    Recognised Outline.glyphs Outline.Legible (Follows [.close]) q
  | ⟨origins, items, conditions, limit, offset⟩, hq => by
    intro q' r s hq' hr hs h
    obtain ⟨origins', items', conditions', limit', offset'⟩ := q'
    -- What may follow is known from the last clause to the first.
    have hlimitText : " " ++ "LIMIT" ++ " " = Boundary.limitWord.text := by decide
    have hoffsetText : " " ++ "OFFSET" ++ " " = Boundary.offsetWord.text := by decide
    have hoffset := hr.bound hoffsetText offset
    have hoffset' := hs.bound hoffsetText offset'
    have hlimit := hoffset.bound hlimitText limit
    have hlimit' := hoffset'.bound hlimitText limit'
    have hwhere := hlimit.conditions conditions
    have hwhere' := hlimit'.conditions conditions'
    have hfrom : ∀ t, Follows [.fromWord] (Boundary.fromWord.glyphs ++ t) :=
      .of_mem (List.mem_singleton.mpr rfl)
    have hcomma : Boundary.comma ∉ [Boundary.whereWord, .limitWord, .offsetWord, .close] := by
      decide
    -- Then the clauses are read from the first to the last.
    simp only [Outline.glyphs_eq, List.append_assoc] at h
    obtain ⟨rfl, h₁⟩ := items_recognised hq.items hq'.items (hfrom _) (hfrom _)
      (List.append_cancel_left h)
    obtain ⟨rfl, h₂⟩ := Recognised.intercalate (Boundary.separates hcomma) (fun _ => Origin.opens)
      (fun o ho => (origins_recognised origins hq.origins o ho).mono fun _ hr => hr.endsName)
      hq.origins origins' _ _ hq'.origins hwhere hwhere' (List.append_cancel_left h₁)
    obtain ⟨rfl, h₃⟩ := conditions_recognised hq.conditions hq'.conditions hlimit hlimit' h₂
    obtain ⟨rfl, h₄⟩ := bound_append_inj hlimitText (by decide) hoffset hoffset' h₃
    obtain ⟨rfl, hrs⟩ := bound_append_inj hoffsetText (by decide) hr hs h₄
    exact ⟨rfl, hrs⟩

/-- Each source of a list can be read back. -/
theorem origins_recognised : ∀ os : List Origin, (∀ o ∈ os, o.Legible) →
    ∀ o ∈ os, Recognised Origin.glyphs Origin.Legible EndsName o
  | [], _ => fun _ ho => absurd ho List.not_mem_nil
  | o :: os, h => List.forall_mem_cons.mpr
    ⟨o.recognised (h o (List.mem_cons_self ..)),
      origins_recognised os fun o ho => h o (List.mem_cons_of_mem _ ho)⟩

end

/-! ## §7 Statements -/

instance (q : Outline) : Decidable q.Legible :=
  decidable_of_iff ((∀ s ∈ q.names, IsName s) ∧ "IN" ∉ q.calls)
    ⟨fun h => ⟨h.1, h.2⟩, fun h => ⟨h.named, h.calls⟩⟩

/-- A statement on one line with its arguments filled in is the glyphs of what was written. -/
theorem fill_render {q : Query} {mode : FromMode} (h : (q.statement.outline mode).Legible) :
    fill (render .statement ⟨false, mode⟩ q).sql.toList (render .statement ⟨false, mode⟩ q).args =
      (q.statement.outline mode).glyphs := by
  have htexts : Layout.Holds (fun s => '?' ∉ s.toList) (q.statement.outline mode).layout :=
    Outline.holds (fun s hs => hs.plain.2) _ fun s hs => (h.named s hs).not_mem
  -- Nor does a gap between clauses have a question mark in it.
  have hgap : ∀ e : LineEnd, '?' ∉ e.gap.toList := by
    intro e
    cases e <;> decide
  have hrender : render .statement ⟨false, mode⟩ q =
      ⟨Chunk.concat .statement (Layout.chunks false 0 (q.statement.outline mode).layout),
        Chunk.slots (Layout.chunks false 0 (q.statement.outline mode).layout)⟩ := by
    rw [Layout.slots_chunks]
    exact render_eq_layout (.query q) .statement ⟨false, mode⟩
  rw [hrender, fill_concat (htexts.chunks hgap 0), Layout.flatMap_chunks]
  rfl

/-- Two legible queries with the same statement and the same arguments were written from the same
outline: the same items, sources, predicates and bounds, at every depth. -/
theorem outline_eq_of_render_eq {p q : Query} (hp : (p.statement.outline .allSources).Legible)
    (hq : (q.statement.outline .allSources).Legible)
    (hsql : (render .statement ⟨false, .allSources⟩ p).sql =
      (render .statement ⟨false, .allSources⟩ q).sql)
    (hargs : (render .statement ⟨false, .allSources⟩ p).args =
      (render .statement ⟨false, .allSources⟩ q).args) :
    p.statement.outline .allSources = q.statement.outline .allSources := by
  have hend : Follows [.close] [] := .inl rfl
  -- Filling the arguments into the text gives the glyphs, which can be read back.
  have hglyphs : (p.statement.outline .allSources).glyphs =
      (q.statement.outline .allSources).glyphs := by
    rw [← fill_render hp, ← fill_render hq, hsql, hargs]
  exact (Outline.recognised _ hp _ [] [] hq hend hend (by rw [hglyphs])).1

/-- The articles with a title among `operands`, read from an inner query. -/
def Samples.articlesTitled (title : Column) (operands : List Operand) : Query :=
  let inner := (Query.find (.one ⟨.plain ⟨"Post", "posts", [("title", title)]⟩, "P"⟩)).update fun s =>
    { s with filters := [⟨⟨"P", title, none⟩, .isIn false operands⟩], limit := some 10 }
  (Query.find (.one (inner.subquery "D"))).update fun s =>
    { s with projection :=
      [.aliased (.call "LOWER" [.expr (.column ⟨"D", title, some "t"⟩)]) "low"] }

open Samples (articlesTitled) in
/-- Metadata of a column, and how a value became an operand, are not written: these two queries have
one statement, and one outline. -/
theorem outline_of_articlesTitled_eq :
    ((articlesTitled ⟨"title", "title", "Post", false, none, none⟩
        [.literal (.text "a"), .literal .null]).statement.outline .allSources).Legible ∧
      (articlesTitled ⟨"title", "title", "Post", false, none, none⟩
        [.literal (.text "a"), .literal .null]).statement.outline .allSources =
      (articlesTitled ⟨"heading", "title", "Post", true, none, some "c"⟩
        [.literal (.text "a"), .expr (.aliased (.literal .null) "n")]).statement.outline
          .allSources :=
  ⟨by decide, outline_eq_of_render_eq (by decide) (by decide) (by decide) (by decide)⟩

end SqlSelect
