import SqlSelect.Proofs.Drawing

/-!
# The Two Modes

A literal text and a statement are two ways to write down the same chunks.  The chunks depend on the
node and the settings, and not on the mode: a mode says only what a slot and a separator look like,
and whether the values of the slots are bound.

## Main definitions

- `Node.chunks` — the chunks of a node

## Main statements

- `render_statement_and_literal` — both texts are the same chunks, and the statement binds the
  values of their slots in order
-/

namespace SqlSelect

open Chunk (text slot separator)

/-! ## §1 The chunks of a node -/

/-- The chunks of a node, whatever the mode. -/
def Node.chunks (settings : RenderSettings) (n : Node) : List Chunk :=
  Layout.chunks settings.pretty 0 (n.fragment settings.fromMode).layout

/-- A statement is the chunks of a node with placeholders, and binds their values. -/
theorem render_statement (settings : RenderSettings) (n : Node) :
    render .statement settings n =
      ⟨String.join ((n.chunks settings).map Chunk.statementText),
        Chunk.slots (n.chunks settings)⟩ := by
  rw [render_eq_layout, Node.chunks, Layout.slots_chunks]
  rfl

/-- A literal text is the same chunks with literals, and binds nothing. -/
theorem render_literal (settings : RenderSettings) (n : Node) :
    render .literal settings n =
      ⟨String.join ((n.chunks settings).map Chunk.literalText), []⟩ := by
  rw [render_eq_layout, Node.chunks]
  rfl

/-! ## §2 Places and values -/

/-- The value in a slot is bound after the values of the slots before it. -/
theorem Chunk.slots_at (before after : List Chunk) (v : Value) :
    (slots (before ++ slot v :: after))[(slots before).length]? = some v := by
  have hslots : slots (before ++ slot v :: after) = slots before ++ v :: slots after := by
    rw [slots_append]
    rfl
  rw [hslots, List.getElem?_append_right (Nat.le_refl _), Nat.sub_self]
  rfl

/-- A statement and a literal text are the same chunks.  A slot is a placeholder in the one and the
value's literal in the other, and the statement binds at each placeholder the value of its slot. -/
theorem render_statement_and_literal (settings : RenderSettings) (n : Node) :
    (render .statement settings n).sql =
        String.join ((n.chunks settings).map Chunk.statementText) ∧
      (render .literal settings n).sql =
        String.join ((n.chunks settings).map Chunk.literalText) ∧
      (render .statement settings n).args = Chunk.slots (n.chunks settings) ∧
      (render .literal settings n).args = [] ∧
      ∀ before v after, n.chunks settings = before ++ slot v :: after →
        (render .statement settings n).args[(Chunk.slots before).length]? = some v := by
  have hstatement := render_statement settings n
  have hliteral := render_literal settings n
  refine ⟨?_, ?_, ?_, ?_, ?_⟩
  · rw [hstatement]
  · rw [hliteral]
  · rw [hstatement]
  · rw [hliteral]
  · intro before v after hsplit
    -- The arguments are the slots of the same chunks, so the place in the text gives the index.
    rw [hstatement, hsplit]
    exact Chunk.slots_at before after v

/-- A constant and the articles of two authors, who are asked for in an inner query. -/
def constantAndArticles : Select where
  sources := [
    .derived ⟨"A", "A", []⟩
      ⟨[.base ⟨"Post", "posts", []⟩ "P"], [],
        [⟨⟨"P", .plain "author" "posts", none⟩,
          .isIn false [.literal (.text "Ann"), .literal (.text "Bob")]⟩], none, none⟩
      "A"]
  projection := [.literal (.boolean true)]
  filters := []
  limit := some 3
  offset := none

/-- The third placeholder of this statement stands behind a list separator of the inner query, and
is bound to the value of its own slot. -/
theorem third_placeholder_of_constantAndArticles :
    ∃ before after,
      (Node.select constantAndArticles).chunks ⟨true, .allSources⟩ =
        before ++ slot (.text "Bob") :: after ∧
      Chunk.slots before = [.boolean true, .text "Ann"] ∧
      (render .statement ⟨true, .allSources⟩ (Node.select constantAndArticles)).args[2]? =
        some (.text "Bob") := by
  have hsplit : (Node.select constantAndArticles).chunks ⟨true, .allSources⟩ =
      ((Node.select constantAndArticles).chunks ⟨true, .allSources⟩).take 26 ++
        slot (.text "Bob") ::
        ((Node.select constantAndArticles).chunks ⟨true, .allSources⟩).drop 27 := by decide
  obtain ⟨-, -, -, -, hbound⟩ :=
    render_statement_and_literal ⟨true, .allSources⟩ (Node.select constantAndArticles)
  exact ⟨_, _, hsplit, by decide, hbound _ _ _ hsplit⟩

end SqlSelect
