import Mathlib.Data.List.Forall2
import SqlSelect.Config.Settings
import SqlSelect.Proofs.Results

/-!
# Recognised Entries

Of all that a configuration document can hold, the settings depend on three keys: `render` in the
document, and `pretty` and `from` in the objects that stand under it.  A document gives settings just
if each value of these keys says what it has to, whatever else it holds, and of several values of one
key the last one counts.

## Main definitions

- `Tree.SaysFlag`, `Tree.SaysFromMode` — what a value says
- `LastSays` — what the last of several values says, or the default
- `Entries.Gives` — the settings that entries give
- `Entries.Alike`, `Entries.SameMeanings` — two lists of entries with the same recognised ones, in
  order and in any order
- `ConfigError.IsParse` — the errors of a text, apart from those of a search

## Main statements

- `RenderSettings.ofEntries_eq_ok_iff` — which entries give settings, and which settings
- `RenderSettings.parse_eq_ok_iff`, `RenderSettings.isParse_of_parse` — the same of texts
- `Entries.Alike.toOption_ofEntries` — entries that are not recognised change nothing
- `Entries.Alike.of_unrepeated` — neither does the order, where no recognised key is repeated
-/

namespace SqlSelect

/-! ## §1 What values say -/

/-- The name of a choice of sources in a document. -/
def FromMode.name : FromMode → String
  | firstOnly => "first-only"
  | allSources => "all-sources"

namespace Tree

/-- What a value says about the layout: one of two words, or nothing, which says no. -/
inductive SaysFlag : Tree → Bool → Prop where
  | yes : SaysFlag (scalar "true") true
  | no : SaysFlag (scalar "false") false
  | nothing : SaysFlag unit false

/-- What a value says about the sources: the name of a choice, as a tag or as a text, or an object
that has the name for its one key and nothing in it. -/
inductive SaysFromMode : Tree → FromMode → Prop where
  | tag (m : FromMode) : SaysFromMode (tag m.name) m
  | text (m : FromMode) : SaysFromMode (scalar m.name) m
  | key (m : FromMode) : SaysFromMode (object [(m.name, unit)]) m
  | emptyKey (m : FromMode) : SaysFromMode (object [(m.name, object [])]) m

end Tree

namespace RenderSettings

/-- A value is read as a flag just if it says one. -/
theorem flag?_eq_some_iff {t : Tree} {b : Bool} : flag? t = some b ↔ t.SaysFlag b := by
  constructor
  · intro h
    -- The two words, and the missing value, are all that says a flag.
    unfold flag? at h
    split at h <;> cases h
    · exact .yes
    · exact .no
    · exact .nothing
  · intro h
    cases h <;> rfl

/-- A choice of sources is found under its own name only. -/
theorem fromModeNamed?_eq_some_iff {name : String} {m : FromMode} :
    fromModeNamed? name = some m ↔ name = m.name := by
  constructor
  · intro h
    unfold fromModeNamed? at h
    split at h <;> cases h <;> rfl
  · rintro rfl
    cases m <;> rfl

/-- A value is read as a choice of sources just if it says one. -/
theorem fromMode?_eq_some_iff {t : Tree} {m : FromMode} :
    fromMode? t = some m ↔ t.SaysFromMode m := by
  constructor
  · intro h
    -- The four forms of a name are the four cases of the reader.
    unfold fromMode? at h
    split at h
    · obtain rfl := fromModeNamed?_eq_some_iff.mp h
      exact .tag m
    · obtain rfl := fromModeNamed?_eq_some_iff.mp h
      exact .text m
    · obtain rfl := fromModeNamed?_eq_some_iff.mp h
      exact .key m
    · obtain rfl := fromModeNamed?_eq_some_iff.mp h
      exact .emptyKey m
    · cases h
  · intro h
    cases h <;> exact fromModeNamed?_eq_some_iff.mpr rfl

end RenderSettings

/-! ## §2 The values of a key -/

/-- The values of a key, in order. -/
def Entries.values (entries : Entries) (key : String) : List Tree :=
  (entries.filter (·.1 = key)).map (·.2)

namespace Entries

@[simp]
theorem values_nil (key : String) : values [] key = [] := rfl

theorem values_cons_self (key : String) (t : Tree) (entries : Entries) :
    values ((key, t) :: entries) key = t :: values entries key := by
  simp [values]

theorem values_cons_of_ne {key : String} {e : String × Tree} (h : e.1 ≠ key) (entries : Entries) :
    values (e :: entries) key = values entries key := by
  simp [values, h]

end Entries

/-- The entries of an object; another value has none. -/
def Tree.entries : Tree → Entries
  | object entries => entries
  | _ => []

/-- The entries that stand under `render`, in order. -/
def Entries.rendering (entries : Entries) : Entries := (entries.values "render").flatMap Tree.entries

/-- What the last of several values says, or the default if there is none.  The values before it have
to say something, too. -/
def LastSays {α : Type} (Says : Tree → α → Prop) (default : α) (ts : List Tree) (a : α) : Prop :=
  ∃ as, List.Forall₂ Says ts as ∧ a = as.getLast?.getD default

section LastSays

variable {α : Type} {Says : Tree → α → Prop} {a c : α}

theorem lastSays_nil : LastSays Says a [] c ↔ a = c := by
  simp [LastSays, eq_comm (a := a)]

/-- What the first value says is the default for the others. -/
theorem lastSays_cons {t : Tree} {ts : List Tree} :
    LastSays Says a (t :: ts) c ↔ ∃ b, Says t b ∧ LastSays Says b ts c := by
  constructor
  · rintro ⟨as, has, rfl⟩
    obtain ⟨b, bs, hb, hbs, rfl⟩ := List.forall₂_cons_left_iff.mp has
    exact ⟨b, hb, bs, hbs, by rw [List.getLast?_cons]; rfl⟩
  · rintro ⟨b, hb, bs, hbs, rfl⟩
    exact ⟨b :: bs, .cons hb hbs, by rw [List.getLast?_cons]; rfl⟩

/-- Values count by what they mean only. -/
theorem lastSays_iff_map {meaning : Tree → Option α} (hmeaning : ∀ t b, Says t b ↔ meaning t = some b)
    {ts : List Tree} :
    LastSays Says a ts c ↔ ∃ as : List α, ts.map meaning = as.map some ∧ c = as.getLast?.getD a := by
  have hword : Says = fun t b => meaning t = some b := funext₂ fun t b => propext (hmeaning t b)
  refine exists_congr fun as => and_congr_left fun _ => ?_
  rw [hword, ← List.forall₂_eq_eq_eq, List.forall₂_map_left_iff, List.forall₂_map_right_iff]

end LastSays

/-! ## §3 The settings that entries give -/

/-- The settings that the entries of a document give: those that are recognised say what they have
to, and the last of a key counts. -/
structure Entries.Gives (entries : Entries) (s : RenderSettings) : Prop where
  objects : ∀ t ∈ entries.values "render", t.isObject = true
  pretty : LastSays Tree.SaysFlag false (entries.rendering.values "pretty") s.pretty
  fromMode : LastSays Tree.SaysFromMode .firstOnly (entries.rendering.values "from") s.fromMode

namespace RenderSettings

/-- A required meaning is there, or the text is rejected. -/
theorem require_eq_ok_iff {α : Type} {key : String} {meaning : Option α} {a : α} :
    require key meaning = .ok a ↔ meaning = some a := by
  cases meaning <;> simp [require]

/-! ### One entry under `render` -/

section Change

variable {s s' : RenderSettings} {t : Tree}

/-- An entry for the layout sets it to what its value says, if it says something. -/
theorem change_pretty :
    change s ("pretty", t) = .ok s' ↔ ∃ b, t.SaysFlag b ∧ s' = { s with pretty := b } := by
  simp only [change, if_true, bind_eq_ok_iff, require_eq_ok_iff, flag?_eq_some_iff]
  exact exists_congr fun b => and_congr_right fun _ => by simp [pure, Except.pure, eq_comm]

/-- So does an entry for the sources. -/
theorem change_from :
    change s ("from", t) = .ok s' ↔ ∃ m, t.SaysFromMode m ∧ s' = { s with fromMode := m } := by
  -- The layout is asked about first, and this key is another one.
  have hkey : ¬ ("from" = "pretty") := by decide
  simp only [change, if_neg hkey, if_true, bind_eq_ok_iff, require_eq_ok_iff,
    fromMode?_eq_some_iff]
  exact exists_congr fun m => and_congr_right fun _ => by simp [pure, Except.pure, eq_comm]

/-- Any other entry changes nothing, whatever its value is. -/
theorem change_other {e : String × Tree} (hpretty : e.1 ≠ "pretty") (hfrom : e.1 ≠ "from") :
    change s e = .ok s := by
  rw [change, if_neg hpretty, if_neg hfrom]

end Change

/-- Entries under `render` set what they are about one after the other. -/
theorem foldlM_change_eq_ok_iff {entries : Entries} {s s' : RenderSettings} :
    entries.foldlM change s = .ok s' ↔
      LastSays Tree.SaysFlag s.pretty (entries.values "pretty") s'.pretty ∧
        LastSays Tree.SaysFromMode s.fromMode (entries.values "from") s'.fromMode := by
  -- The settings so far are the defaults of the entries that are left.
  induction entries generalizing s with
  | nil =>
    rw [Entries.values_nil, Entries.values_nil, lastSays_nil, lastSays_nil, List.foldlM_nil]
    constructor
    · intro h
      cases h
      exact ⟨rfl, rfl⟩
    · rintro ⟨hpretty, hfrom⟩
      exact congrArg Except.ok (congr (congrArg RenderSettings.mk hpretty) hfrom)
  | cons e entries ih =>
    obtain ⟨key, t⟩ := e
    rw [List.foldlM_cons, bind_eq_ok_iff]
    by_cases hpretty : key = "pretty"
    · subst hpretty
      have hkey : ("pretty", t).1 ≠ "from" := by simp
      rw [Entries.values_cons_self, Entries.values_cons_of_ne hkey, lastSays_cons]
      constructor
      · rintro ⟨_, hchange, hrest⟩
        obtain ⟨b, hb, rfl⟩ := change_pretty.mp hchange
        obtain ⟨hflag, hmode⟩ := ih.mp hrest
        exact ⟨⟨b, hb, hflag⟩, hmode⟩
      · rintro ⟨⟨b, hb, hflag⟩, hmode⟩
        exact ⟨_, change_pretty.mpr ⟨b, hb, rfl⟩, ih.mpr ⟨hflag, hmode⟩⟩
    · have hflag : Entries.values ((key, t) :: entries) "pretty" = Entries.values entries "pretty" :=
        Entries.values_cons_of_ne hpretty entries
      rw [hflag]
      by_cases hfrom : key = "from"
      · subst hfrom
        rw [Entries.values_cons_self, lastSays_cons]
        constructor
        · rintro ⟨_, hchange, hrest⟩
          obtain ⟨m, hm, rfl⟩ := change_from.mp hchange
          obtain ⟨hflag, hmode⟩ := ih.mp hrest
          exact ⟨hflag, m, hm, hmode⟩
        · rintro ⟨hflag, m, hm, hmode⟩
          exact ⟨_, change_from.mpr ⟨m, hm, rfl⟩, ih.mpr ⟨hflag, hmode⟩⟩
      · -- The entry is not recognised.
        have hsame : change s (key, t) = .ok s := change_other hpretty hfrom
        have hmode : Entries.values ((key, t) :: entries) "from" = Entries.values entries "from" :=
          Entries.values_cons_of_ne hfrom entries
        rw [hmode, hsame, ← ih]
        exact ⟨fun ⟨_, hs, h⟩ => by cases hs; exact h, fun h => ⟨s, rfl, h⟩⟩

/-! ### The entries of the document -/

/-- What all objects under `render` do is what their entries do one after the other. -/
theorem foldlM_read_eq_ok_iff {entries : Entries} {s s' : RenderSettings} :
    entries.foldlM read s = .ok s' ↔
      (∀ t ∈ entries.values "render", t.isObject = true) ∧
        entries.rendering.foldlM change s = .ok s' := by
  induction entries generalizing s with
  | nil => simp [Entries.rendering]
  | cons e entries ih =>
    obtain ⟨key, t⟩ := e
    rw [List.foldlM_cons, bind_eq_ok_iff]
    by_cases hkey : key = "render"
    · subst hkey
      have hrendering : Entries.rendering (("render", t) :: entries) =
          t.entries ++ Entries.rendering entries := by
        rw [Entries.rendering, Entries.values_cons_self, List.flatMap_cons]
        rfl
      rw [hrendering, Entries.values_cons_self, List.foldlM_append, bind_eq_ok_iff]
      cases t with
      | object es =>
        -- The entries of this object come first, and the later objects go on from there.
        simp only [ih, List.forall_mem_cons]
        exact ⟨fun ⟨s₁, h, hobjects, hrest⟩ => ⟨⟨rfl, hobjects⟩, s₁, h, hrest⟩,
          fun ⟨⟨_, hobjects⟩, s₁, h, hrest⟩ => ⟨s₁, h, hobjects, hrest⟩⟩
      | _ =>
        constructor
        · rintro ⟨_, hread, -⟩
          cases hread
        · rintro ⟨hobjects, -⟩
          cases hobjects _ (List.mem_cons_self ..)
    · have hsame : read s (key, t) = .ok s := if_neg hkey
      have hrendering : Entries.rendering ((key, t) :: entries) = Entries.rendering entries := by
        rw [Entries.rendering, Entries.values_cons_of_ne hkey]
        rfl
      rw [hrendering, Entries.values_cons_of_ne hkey, hsame, ← ih]
      exact ⟨fun ⟨_, hs, h⟩ => by cases hs; exact h, fun h => ⟨s, rfl, h⟩⟩

/-- Entries give settings just if each recognised value says what it has to, and then the settings are
what the last values say. -/
theorem ofEntries_eq_ok_iff {entries : Entries} {s : RenderSettings} :
    ofEntries entries = .ok s ↔ entries.Gives s := by
  rw [ofEntries, foldlM_read_eq_ok_iff, foldlM_change_eq_ok_iff]
  exact ⟨fun ⟨hobjects, hpretty, hfrom⟩ => ⟨hobjects, hpretty, hfrom⟩,
    fun h => ⟨h.objects, h.pretty, h.fromMode⟩⟩

/-- A text gives settings just if it is a document whose recognised entries do. -/
theorem parse_eq_ok_iff {text : String} {s : RenderSettings} :
    parse text = .ok s ↔ ∃ entries, Document.parse text = .ok entries ∧ entries.Gives s := by
  rw [parse]
  cases Document.parse text with
  | ok entries => simp [ofEntries_eq_ok_iff]
  | error e => simp

end RenderSettings

/-- The errors of a text: it is no document, or a recognised entry does not say what it has to. -/
inductive ConfigError.IsParse : ConfigError → Prop where
  | malformed (e : DocumentError) : IsParse (malformed e)
  | unexpected (key : String) : IsParse (unexpected key)

namespace RenderSettings

/-- A meaning that is missing is an error of the text. -/
theorem isParse_of_require {α : Type} {key : String} {meaning : Option α} {e : ConfigError}
    (h : require key meaning = .error e) : e.IsParse := by
  cases meaning with
  | some a => cases h
  | none =>
    cases h
    exact .unexpected key

/-- If the steps of a run fail with errors of the text only, then so does the run. -/
theorem isParse_of_foldlM {α β : Type} {f : β → α → Except ConfigError β}
    (hf : ∀ {b a e}, f b a = .error e → e.IsParse) {as : List α} {b : β} {e : ConfigError}
    (h : as.foldlM f b = .error e) : e.IsParse := by
  induction as generalizing b with
  | nil => cases h
  | cons a as ih =>
    rw [List.foldlM_cons] at h
    -- The first step fails, or a later one does.
    rcases bind_eq_error_iff.mp h with hstep | ⟨_, -, hrest⟩
    · exact hf hstep
    · exact ih hrest

/-- An entry under `render` fails only with a value that says nothing. -/
theorem isParse_of_change {s : RenderSettings} {entry : String × Tree} {e : ConfigError}
    (h : change s entry = .error e) : e.IsParse := by
  unfold change at h
  split at h
  · rcases bind_eq_error_iff.mp h with hreq | ⟨_, -, hpure⟩
    · exact isParse_of_require hreq
    · cases hpure
  · split at h
    · rcases bind_eq_error_iff.mp h with hreq | ⟨_, -, hpure⟩
      · exact isParse_of_require hreq
      · cases hpure
    · cases h

/-- A `render` fails with one of its entries, or because it is no object. -/
theorem isParse_of_read {s : RenderSettings} {entry : String × Tree} {e : ConfigError}
    (h : read s entry = .error e) : e.IsParse := by
  unfold read at h
  split at h
  · split at h
    · exact isParse_of_foldlM isParse_of_change h
    · cases h
      exact .unexpected "render"
  · cases h

/-- What is wrong with a text is its own fault. -/
theorem isParse_of_parse {text : String} {e : ConfigError} (h : parse text = .error e) :
    e.IsParse := by
  unfold parse at h
  split at h
  · exact isParse_of_foldlM isParse_of_read h
  · cases h
    exact .malformed _

end RenderSettings

/-! ## §4 Entries that are not recognised -/

/-- Two lists of one member at most, with the same members, are one list. -/
theorem eq_of_mem_iff_of_length_le_one {α : Type} {as bs : List α} (ha : as.length ≤ 1)
    (hb : bs.length ≤ 1) (h : ∀ a, a ∈ as ↔ a ∈ bs) : as = bs := by
  match as, bs, ha, hb with
  | [], [], _, _ => rfl
  | [], [b], _, _ => simpa using h b
  | [a], [], _, _ => simpa using h a
  | [a], [b], _, _ => simpa using h a

namespace Entries

/-- Two lists of entries with the same recognised ones: what is recognised means the same, in the
same order. -/
structure Alike (entries others : Entries) : Prop where
  objects : (∀ t ∈ entries.values "render", t.isObject = true) ↔
    ∀ t ∈ others.values "render", t.isObject = true
  pretty : (entries.rendering.values "pretty").map RenderSettings.flag? =
    (others.rendering.values "pretty").map RenderSettings.flag?
  fromMode : (entries.rendering.values "from").map RenderSettings.fromMode? =
    (others.rendering.values "from").map RenderSettings.fromMode?

variable {entries others : Entries}

/-- Entries with the same recognised ones give the same settings. -/
theorem Alike.gives_iff (h : entries.Alike others) {s : RenderSettings} :
    entries.Gives s ↔ others.Gives s := by
  have hflag : ∀ t b, t.SaysFlag b ↔ RenderSettings.flag? t = some b :=
    fun _ _ => RenderSettings.flag?_eq_some_iff.symm
  have hmode : ∀ t m, t.SaysFromMode m ↔ RenderSettings.fromMode? t = some m :=
    fun _ _ => RenderSettings.fromMode?_eq_some_iff.symm
  have hpretty : LastSays Tree.SaysFlag false (entries.rendering.values "pretty") s.pretty ↔
      LastSays Tree.SaysFlag false (others.rendering.values "pretty") s.pretty := by
    rw [lastSays_iff_map hflag, lastSays_iff_map hflag, h.pretty]
  have hfrom : LastSays Tree.SaysFromMode .firstOnly (entries.rendering.values "from") s.fromMode ↔
      LastSays Tree.SaysFromMode .firstOnly (others.rendering.values "from") s.fromMode := by
    rw [lastSays_iff_map hmode, lastSays_iff_map hmode, h.fromMode]
  -- Each part of the settings is given by what one key means in either list.
  exact ⟨fun g => ⟨h.objects.mp g.objects, hpretty.mp g.pretty, hfrom.mp g.fromMode⟩,
    fun g => ⟨h.objects.mpr g.objects, hpretty.mpr g.pretty, hfrom.mpr g.fromMode⟩⟩

/-- Entries with the same recognised ones give the same settings, or none give any. -/
theorem Alike.toOption_ofEntries (h : entries.Alike others) :
    (RenderSettings.ofEntries entries).toOption = (RenderSettings.ofEntries others).toOption := by
  ext s
  rw [toOption_eq_some_iff, toOption_eq_some_iff, RenderSettings.ofEntries_eq_ok_iff,
    RenderSettings.ofEntries_eq_ok_iff, h.gives_iff]

/-- No recognised key comes twice under `render`. -/
structure Unrepeated (entries : Entries) : Prop where
  pretty : (entries.rendering.values "pretty").length ≤ 1
  fromMode : (entries.rendering.values "from").length ≤ 1

/-- Recognised entries with the same meanings, in any order. -/
structure SameMeanings (entries others : Entries) : Prop where
  objects : (∀ t ∈ entries.values "render", t.isObject = true) ↔
    ∀ t ∈ others.values "render", t.isObject = true
  pretty : ∀ m, m ∈ (entries.rendering.values "pretty").map RenderSettings.flag? ↔
    m ∈ (others.rendering.values "pretty").map RenderSettings.flag?
  fromMode : ∀ m, m ∈ (entries.rendering.values "from").map RenderSettings.fromMode? ↔
    m ∈ (others.rendering.values "from").map RenderSettings.fromMode?

/-- Where no recognised key is repeated, the order of entries does not count. -/
theorem Alike.of_unrepeated (h : entries.Unrepeated) (h' : others.Unrepeated)
    (same : entries.SameMeanings others) : entries.Alike others where
  objects := same.objects
  pretty := eq_of_mem_iff_of_length_le_one (by simpa using h.pretty) (by simpa using h'.pretty)
    same.pretty
  fromMode := eq_of_mem_iff_of_length_le_one (by simpa using h.fromMode) (by simpa using h'.fromMode)
    same.fromMode

end Entries

end SqlSelect
