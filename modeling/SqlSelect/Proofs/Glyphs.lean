import SqlSelect.Proofs.Texts

/-!
# Glyphs

A statement and its arguments together are one row of glyphs: the characters of the text, with the
bound value in the place of each placeholder.  Where no text has a question mark in it, the row can
be made from the rendering alone, so what can be read off the row can be read off the rendering.

A piece of such a row can be told apart from what follows it if the writer of the piece keeps to a
code: the piece, and the place where it ends, are the only ones possible.

## Main definitions

- `Glyph` — a character or a value
- `Chunk.glyphs`, `Layout.glyphs` — the glyphs of a chunk, and of a layout on one line
- `fill` — from a text and its arguments to glyphs
- `Recognised` — a thing can be read back from the front of a row of glyphs
- `IsName` — words of letters, digits and underscores
- `Boundary`, `Follows` — what stands between parts, and a row that goes on with it

## Main statements

- `fill_concat` — a statement with its arguments filled in is the glyphs of its chunks
- `name_append_inj` — a word ends where the first other glyph stands
- `PrefixFree.append_inj` — a prefix code can be read off the front of a row
- `Recognised.intercalate` — what can be read one by one can be read as a list
-/

namespace SqlSelect

open Chunk (text slot separator)

/-! ## §1 Rows of glyphs -/

/-- A character of a text, or a value in the place of a placeholder. -/
inductive Glyph where
  | char (c : Char)
  | value (v : Value)
  deriving DecidableEq

/-- The characters of a text. -/
def textGlyphs (s : String) : List Glyph := s.toList.map .char

def Chunk.glyphs : Chunk → List Glyph
  | text s => textGlyphs s
  | slot v => [.value v]
  | separator => [.char ',']

/-- The glyphs of a mark in a text that is not pretty. -/
def Mark.glyphs : Mark → List Glyph
  | chunk t => t.glyphs
  | newline lineEnd _ => textGlyphs lineEnd.gap

def Layout.glyphs (ms : List Mark) : List Glyph := ms.flatMap Mark.glyphs

/-- A text with each placeholder replaced by the next of the values. -/
def fill : List Char → List Value → List Glyph
  | [], _ => []
  | c :: cs, vs =>
    match decide (c = '?'), vs with
    | true, v :: rest => .value v :: fill cs rest
    | _, _ => .char c :: fill cs vs

theorem fill_place (cs : List Char) (v : Value) (vs : List Value) :
    fill ('?' :: cs) (v :: vs) = .value v :: fill cs vs := rfl

/-- A text without placeholders takes no value. -/
theorem fill_plain {s : List Char} (hs : '?' ∉ s) (cs : List Char) (vs : List Value) :
    fill (s ++ cs) vs = s.map .char ++ fill cs vs := by
  induction s with
  | nil => rfl
  | cons c s ih =>
    obtain ⟨hc, hrest⟩ : '?' ≠ c ∧ '?' ∉ s := by simpa using hs
    -- No value is taken here, so the arguments are the same for the rest.
    have hstep : fill (c :: (s ++ cs)) vs = .char c :: fill (s ++ cs) vs := by
      rw [fill]
      simp [Ne.symm hc]
    rw [List.cons_append, hstep, ih hrest]
    rfl

/-- Filling in the arguments of a statement gives the glyphs of its chunks. -/
theorem fill_concat {ts : List Chunk} (hts : ∀ t ∈ ts, t.Holds fun s => '?' ∉ s.toList) :
    fill (Chunk.concat .statement ts).toList (Chunk.slots ts) = ts.flatMap Chunk.glyphs := by
  induction ts with
  | nil => rfl
  | cons t ts ih =>
    obtain ⟨ht, hrest⟩ := List.forall_mem_cons.mp hts
    have hih := ih hrest
    rw [Chunk.concat_cons, String.toList_append, List.flatMap_cons, ← hih]
    cases t with
    | text s => exact fill_plain ht _ _
    | slot v =>
      have hplace : ((slot v).written .statement).toList = ['?'] := by
        simp [Chunk.written, Chunk.statementText]
      rw [hplace]
      exact fill_place _ v _
    -- Between operands stands a comma, which is no placeholder.
    | separator =>
      have hcomma : '?' ∉ ",".toList := by decide
      exact fill_plain hcomma _ _

/-- The glyphs of a layout that is not pretty can be read from its chunks, wherever it starts. -/
theorem Layout.flatMap_chunks (base : Nat) (ms : List Mark) :
    (Layout.chunks false base ms).flatMap Chunk.glyphs = Layout.glyphs ms := by
  rw [Layout.chunks, List.flatMap_assoc]
  congr 1
  funext m
  cases m <;> simp [Mark.chunks, Mark.glyphs, Chunk.glyphs]

/-- What holds of the texts of a layout and of the gaps holds of its chunks on one line. -/
theorem Layout.Holds.chunks {P : String → Prop} {ms : List Mark} (h : Layout.Holds P ms)
    (hgap : ∀ e : LineEnd, P e.gap) (base : Nat) :
    ∀ t ∈ Layout.chunks false base ms, t.Holds P := by
  refine h.chunks_of_breaks base fun e depth t ht => ?_
  obtain rfl := List.mem_singleton.mp ht
  exact hgap e

@[simp]
theorem Layout.glyphs_append (ms ns : List Mark) :
    Layout.glyphs (ms ++ ns) = Layout.glyphs ms ++ Layout.glyphs ns := by
  simp [Layout.glyphs]

@[simp]
theorem Layout.glyphs_cons (m : Mark) (ms : List Mark) :
    Layout.glyphs (m :: ms) = m.glyphs ++ Layout.glyphs ms := rfl

@[simp]
theorem Layout.glyphs_inline (ts : List Chunk) :
    Layout.glyphs (inline ts) = ts.flatMap Chunk.glyphs := by
  rw [inline, Layout.glyphs, List.flatMap_map]
  rfl

/-- On one line, depth is not to be seen. -/
@[simp]
theorem Layout.glyphs_deeper (ms : List Mark) :
    Layout.glyphs (ms.map .deeper) = Layout.glyphs ms := by
  rw [Layout.glyphs, Layout.glyphs, List.flatMap_map]
  congr 1
  funext m
  cases m <;> rfl

@[simp]
theorem textGlyphs_append (s t : String) : textGlyphs (s ++ t) = textGlyphs s ++ textGlyphs t := by
  simp [textGlyphs]

/-! ## §2 Names -/

/-- Letters and digits of ASCII, and the underscore. -/
def isNameChar (c : Char) : Bool := c.isAlphanum || c == '_'

/-- A word that can be told from the language's own marks. -/
structure IsName (s : String) : Prop where
  nonempty : s ≠ ""
  chars : ∀ c ∈ s.toList, isNameChar c = true

instance (s : String) : Decidable (IsName s) :=
  decidable_of_iff (s ≠ "" ∧ s.toList.all isNameChar = true)
    ⟨fun h => ⟨h.1, List.all_eq_true.mp h.2⟩, fun h => ⟨h.nonempty, List.all_eq_true.mpr h.chars⟩⟩

/-- A name has no question mark in it. -/
theorem IsName.not_mem {s : String} (h : IsName s) : '?' ∉ s.toList :=
  fun hmem => absurd (h.chars '?' hmem) (by decide)

/-- No name goes on into the row. -/
def EndsName (r : List Glyph) : Prop := ∀ c rest, r = .char c :: rest → isNameChar c = false

/-- A name ends where the row does. -/
theorem endsName_nil : EndsName [] := nofun

theorem endsName_char {c : Char} (hc : isNameChar c = false) (r : List Glyph) :
    EndsName (.char c :: r) := by
  rintro d rest h
  obtain ⟨rfl, -⟩ : c = d ∧ r = rest := by simpa using h
  exact hc

/-- Two runs of name characters that end where no name goes on are the same run. -/
theorem nameChars_append_inj {cs ds : List Char} {r s : List Glyph}
    (hcs : ∀ c ∈ cs, isNameChar c = true) (hds : ∀ d ∈ ds, isNameChar d = true)
    (hr : EndsName r) (hs : EndsName s)
    (h : cs.map Glyph.char ++ r = ds.map Glyph.char ++ s) : cs = ds ∧ r = s := by
  induction cs generalizing ds with
  | nil =>
    cases ds with
    | nil => exact ⟨rfl, h⟩
    | cons d ds =>
      -- The other run goes on where this one has ended.
      have hgoes := hds d (List.mem_cons_self ..)
      have hends := hr d _ h
      rw [hends] at hgoes
      cases hgoes
  | cons c cs ih =>
    cases ds with
    | nil =>
      have hgoes := hcs c (List.mem_cons_self ..)
      have hends := hs c _ h.symm
      rw [hends] at hgoes
      cases hgoes
    | cons d ds =>
      simp only [List.map_cons, List.cons_append, List.cons.injEq, Glyph.char.injEq] at h
      obtain ⟨rfl, hrest⟩ := h
      obtain ⟨rfl, hrs⟩ := ih (fun c hc => hcs c (List.mem_cons_of_mem _ hc))
        (fun d hd => hds d (List.mem_cons_of_mem _ hd)) hrest
      exact ⟨rfl, hrs⟩

/-- A name ends where the first other glyph stands. -/
theorem name_append_inj {a b : String} {r s : List Glyph} (ha : IsName a) (hb : IsName b)
    (hr : EndsName r) (hs : EndsName s) (h : textGlyphs a ++ r = textGlyphs b ++ s) :
    a = b ∧ r = s := by
  obtain ⟨hab, hrs⟩ := nameChars_append_inj ha.chars hb.chars hr hs h
  exact ⟨String.toList_inj.mp hab, hrs⟩

/-- A name ends in front of a character that no name has. -/
theorem name_append_char_inj {a b : String} {c d : Char} {r s : List Glyph} (ha : IsName a)
    (hb : IsName b) (hc : isNameChar c = false) (hd : isNameChar d = false)
    (h : textGlyphs a ++ .char c :: r = textGlyphs b ++ .char d :: s) : a = b ∧ c = d ∧ r = s := by
  obtain ⟨rfl, hrest⟩ := name_append_inj ha hb (endsName_char hc r) (endsName_char hd s) h
  obtain ⟨hcd, rfl⟩ := List.cons.inj hrest
  exact ⟨rfl, Glyph.char.inj hcd, rfl⟩

/-- A name has a first character, which is one of names. -/
theorem IsName.exists_cons {a : String} (ha : IsName a) :
    ∃ c rest, textGlyphs a = .char c :: rest ∧ isNameChar c = true := by
  obtain ⟨c, cs, hcs⟩ : ∃ c cs, a.toList = c :: cs :=
    List.exists_cons_of_ne_nil fun h => ha.nonempty (String.toList_eq_nil_iff.mp h)
  exact ⟨c, cs.map .char, by rw [textGlyphs, hcs]; rfl, ha.chars c (by simp [hcs])⟩

/-- A name begins with a character of names. -/
theorem IsName.ne_char {a : String} (ha : IsName a) {c : Char} (hc : isNameChar c = false)
    (r s : List Glyph) : textGlyphs a ++ r ≠ .char c :: s := by
  obtain ⟨d, rest, hd, hname⟩ := ha.exists_cons
  rintro h
  rw [hd] at h
  -- The two rows would begin with one character, which both is and is not one of names.
  obtain ⟨rfl⟩ := Glyph.char.inj (List.cons.inj h).1
  rw [hc] at hname
  cases hname

/-- Nor does a name begin with a value. -/
theorem IsName.ne_value {a : String} (ha : IsName a) (v : Value) (r s : List Glyph) :
    textGlyphs a ++ r ≠ .value v :: s := by
  obtain ⟨c, rest, hc, -⟩ := ha.exists_cons
  simp [hc]

/-- A number is a name of its own. -/
theorem isName_toString (n : Nat) : IsName (toString n) where
  nonempty := by
    rw [Nat.toString_eq_repr]
    exact Nat.repr_ne_empty
  chars := by
    intro c hc
    have hdigit : c.isDigit = true := isDigit_of_mem_toString hc
    simp [isNameChar, Char.isAlphanum, hdigit]

/-- Numbers with the same digits are the same. -/
theorem toString_nat_inj {m n : Nat} (h : toString m = toString n) : m = n := by
  -- The digits can be read back as the number.
  have hdigits : Nat.toDigits 10 m = Nat.toDigits 10 n := by
    rw [← Nat.toList_repr, ← Nat.toList_repr]
    exact congrArg String.toList h
  -- Reading is a function, so equal digits are read as equal numbers.
  have hread := congrArg (fun ds => Nat.ofDigitChars 10 ds 0) hdigits
  simpa using hread

/-! ## §3 Boundaries -/

/-- No fragment of the kind begins as another one does. -/
def PrefixFree {κ : Type} (write : κ → List Glyph) : Prop :=
  ∀ k l, write k <+: write l → k = l

/-- The fragment at the front of a row is the only one of its kind there. -/
theorem PrefixFree.append_inj {κ : Type} {write : κ → List Glyph} (hfree : PrefixFree write)
    {k l : κ} {r s : List Glyph} (h : write k ++ r = write l ++ s) : k = l ∧ r = s := by
  have hprefix : write k <+: write l ++ s := h ▸ List.prefix_append ..
  -- Of two beginnings of one row, one is the beginning of the other.
  have hkl : k = l := by
    obtain hkl | hlk := List.prefix_or_prefix_of_prefix hprefix (List.prefix_append ..)
    · exact hfree k l hkl
    · exact (hfree l k hlk).symm
  subst hkl
  exact ⟨rfl, List.append_cancel_left h⟩

/-- What stands between the parts of a query, or closes it. -/
inductive Boundary where
  | comma
  | aliasWord
  | fromWord
  | whereWord
  | andWord
  | limitWord
  | offsetWord
  | close
  deriving DecidableEq

namespace Boundary

def text : Boundary → String
  | comma => ", "
  | aliasWord => " AS "
  | fromWord => " FROM "
  | whereWord => " WHERE "
  | andWord => " AND "
  | limitWord => " LIMIT "
  | offsetWord => " OFFSET "
  | close => ")"

def glyphs (k : Boundary) : List Glyph := textGlyphs k.text

/-- Every boundary. -/
def all : List Boundary :=
  [comma, aliasWord, fromWord, whereWord, andWord, limitWord, offsetWord, close]

theorem mem_all (k : Boundary) : k ∈ all := by
  cases k <;> decide

/-- No boundary is the beginning of another one. -/
theorem prefixFree : PrefixFree glyphs := by
  -- There are finitely many boundaries, and any two of them can be compared.
  have hall : ∀ k ∈ all, ∀ l ∈ all, k.glyphs <+: l.glyphs → k = l := by decide
  intro k l
  exact hall k k.mem_all l l.mem_all

end Boundary

/-- The characters that an expression or a source may begin with. -/
def isOpening (c : Char) : Bool := isNameChar c || c == '('

/-- The row goes on with a value, a name or a parenthesis that opens. -/
def Opens (r : List Glyph) : Prop :=
  ∃ g s, r = g :: s ∧ ∀ c, g = .char c → isOpening c = true

theorem Opens.append {r : List Glyph} (h : Opens r) (s : List Glyph) : Opens (r ++ s) := by
  obtain ⟨g, t, rfl, hg⟩ := h
  exact ⟨g, t ++ s, rfl, hg⟩

/-- A name may begin a part. -/
theorem IsName.opens {a : String} (ha : IsName a) : Opens (textGlyphs a) := by
  obtain ⟨c, rest, hc, hname⟩ := ha.exists_cons
  refine ⟨.char c, rest, hc, ?_⟩
  rintro d ⟨⟩
  simp [isOpening, hname]

theorem Boundary.exists_cons (k : Boundary) :
    ∃ c s, k.glyphs = .char c :: s ∧ isOpening c = false := by
  have hheads : ∀ k ∈ all, k.text.toList.head?.any fun c => !isOpening c := by decide
  obtain ⟨c, hc, hopening⟩ := (Option.any_eq_true ..).mp (hheads k k.mem_all)
  obtain ⟨cs, hcs⟩ := List.head?_eq_some_iff.mp hc
  exact ⟨c, cs.map .char, by rw [glyphs, textGlyphs, hcs]; rfl, by simpa using hopening⟩

/-- The row is at its end, or goes on with one of the boundaries `ks`. -/
def Follows (ks : List Boundary) (r : List Glyph) : Prop :=
  r = [] ∨ ∃ k ∈ ks, ∃ s, r = k.glyphs ++ s

namespace Follows

variable {ks : List Boundary} {r : List Glyph}

theorem of_mem {k : Boundary} (hk : k ∈ ks) (s : List Glyph) : Follows ks (k.glyphs ++ s) :=
  .inr ⟨k, hk, s, rfl⟩

theorem mono {ls : List Boundary} (h : Follows ks r) (hsub : ∀ k ∈ ks, k ∈ ls) : Follows ls r :=
  h.imp_right fun ⟨k, hk, s, hs⟩ => ⟨k, hsub k hk, s, hs⟩

/-- Where one of the boundaries `ks` follows, no other one does. -/
theorem ne_boundary (h : Follows ks r) {l : Boundary} (hne : l ∉ ks) (s : List Glyph) :
    r ≠ l.glyphs ++ s := by
  rintro rfl
  obtain hnil | ⟨k, hk, t, ht⟩ := h
  · obtain ⟨c, u, hc, -⟩ := l.exists_cons
    simp [hc] at hnil
  · obtain ⟨rfl, -⟩ := Boundary.prefixFree.append_inj ht
    exact hne hk

/-- No part begins where a boundary follows. -/
theorem not_opens (h : Follows ks r) : ¬ Opens r := by
  rintro ⟨g, s, rfl, hg⟩
  obtain hnil | ⟨k, hk, t, ht⟩ := h
  · cases hnil
  · obtain ⟨c, u, hc, hclosing⟩ := k.exists_cons
    rw [hc] at ht
    rw [hg c (List.cons.inj ht).1] at hclosing
    cases hclosing

/-- A name ends where a boundary follows. -/
theorem endsName (h : Follows ks r) : EndsName r := by
  obtain rfl | ⟨k, hk, s, rfl⟩ := h
  · exact endsName_nil
  · obtain ⟨c, t, hc, hclosing⟩ := k.exists_cons
    rw [hc]
    exact endsName_char (Bool.or_eq_false_iff.mp hclosing).1 _

end Follows

/-! ## §4 Reading back -/

section Reading

variable {α : Type} {write : α → List Glyph} {Fit : α → Prop}
  {Ends Stops : List Glyph → Prop}

/-- In front of a row where it may end, `a` is the only thing of its kind that can stand there. -/
def Recognised (write : α → List Glyph) (Fit : α → Prop) (Ends : List Glyph → Prop)
    (a : α) : Prop :=
  ∀ b r s, Fit b → Ends r → Ends s → write a ++ r = write b ++ s → a = b ∧ r = s

/-- The separator and the end of a list both end a member, and cannot be confused with each other
or with a member. -/
structure Separates (sep : List Glyph) (Ends Stops : List Glyph → Prop) : Prop where
  ends_sep : ∀ r, Ends (sep ++ r)
  ends_stop : ∀ r, Stops r → Ends r
  sep_ne_stop : ∀ r s, Stops r → r ≠ sep ++ s
  stop_not_opens : ∀ r, Stops r → ¬ Opens r

/-- What can be read back where it may end in more ways can be read back where it may in fewer. -/
theorem Recognised.mono {Ends' : List Glyph → Prop} {a : α} (h : Recognised write Fit Ends a)
    (hends : ∀ r, Ends' r → Ends r) : Recognised write Fit Ends' a :=
  fun b r s hb hr hs => h b r s hb (hends r hr) (hends s hs)

/-- A boundary separates the members of a list that ends at other boundaries. -/
theorem Boundary.separates {k : Boundary} {ks : List Boundary} (hk : k ∉ ks) :
    Separates k.glyphs (Follows (k :: ks)) (Follows ks) where
  ends_sep := .of_mem (List.mem_cons_self ..)
  ends_stop _ hr := hr.mono fun _ => List.mem_cons_of_mem _
  sep_ne_stop _ s hr := hr.ne_boundary hk s
  stop_not_opens _ hr := hr.not_opens

/-- What stands after a member of a list: the end of the list, or a separator and the others. -/
def afterMember (sep : List Glyph) : List (List Glyph) → List Glyph → List Glyph
  | [], r => r
  | part :: parts, r => sep ++ (sep.intercalate (part :: parts) ++ r)

/-- In a joined list the first part stands in front of what comes after a member. -/
theorem intercalate_cons_append (sep part : List Glyph) (parts : List (List Glyph))
    (r : List Glyph) :
    sep.intercalate (part :: parts) ++ r = part ++ afterMember sep parts r := by
  cases parts with
  | nil => simp [afterMember]
  | cons next parts => simp [afterMember, List.intercalate_cons_cons]

/-- A member ends where a separator stands, and where the list ends. -/
theorem Separates.ends_afterMember {sep : List Glyph} (h : Separates sep Ends Stops)
    (parts : List (List Glyph)) {r : List Glyph} (hr : Stops r) :
    Ends (afterMember sep parts r) := by
  cases parts with
  | nil => exact h.ends_stop r hr
  | cons part parts => exact h.ends_sep _

/-- What can be read one by one can be read as a list. -/
theorem Recognised.intercalate {sep : List Glyph} (hsep : Separates sep Ends Stops)
    (hopens : ∀ x, Fit x → Opens (write x)) {xs : List α}
    (hxs : ∀ x ∈ xs, Recognised write Fit Ends x) (hfit : ∀ x ∈ xs, Fit x) :
    Recognised (fun xs => sep.intercalate (xs.map write)) (fun xs => ∀ x ∈ xs, Fit x) Stops xs := by
  -- A member does not look like the end of the list.
  have hne : ∀ x r s, Fit x → Stops r → r ≠ write x ++ s := by
    rintro x r s hx hr rfl
    exact hsep.stop_not_opens _ hr ((hopens x hx).append s)
  induction xs with
  | nil =>
    intro ys r s hys hr hs h
    cases ys with
    | nil => exact ⟨rfl, by simpa using h⟩
    | cons y ys =>
      simp only [List.map_nil, List.intercalate_nil, List.nil_append, List.map_cons,
        intercalate_cons_append] at h
      exact absurd h (hne y r _ (hys y (List.mem_cons_self ..)) hr)
  | cons x xs ih =>
    intro ys r s hys hr hs h
    obtain ⟨hx, hrest⟩ := List.forall_mem_cons.mp hxs
    obtain ⟨hfitx, hfitrest⟩ := List.forall_mem_cons.mp hfit
    cases ys with
    | nil =>
      simp only [List.map_nil, List.intercalate_nil, List.nil_append, List.map_cons,
        intercalate_cons_append] at h
      exact absurd h.symm (hne x s _ hfitx hs)
    | cons y ys =>
      obtain ⟨hy, hysrest⟩ := List.forall_mem_cons.mp hys
      simp only [List.map_cons, intercalate_cons_append] at h
      obtain ⟨rfl, htails⟩ := hx y _ _ hy (hsep.ends_afterMember _ hr)
        (hsep.ends_afterMember _ hs) h
      -- The members agree; either both lists go on, or both end here.
      cases xs with
      | nil =>
        cases ys with
        | nil => exact ⟨rfl, htails⟩
        | cons z zs => exact absurd htails (hsep.sep_ne_stop r _ hr)
      | cons w ws =>
        cases ys with
        | nil => exact absurd htails.symm (hsep.sep_ne_stop s _ hs)
        | cons z zs =>
          obtain ⟨hlists, hrs⟩ := ih hrest hfitrest (z :: zs) r s hysrest hr hs
            (List.append_cancel_left htails)
          exact ⟨by rw [hlists], hrs⟩

end Reading

end SqlSelect
