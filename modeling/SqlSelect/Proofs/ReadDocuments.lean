import SqlSelect.Proofs.Recognition
import SqlSelect.Proofs.WrittenDocuments

/-!
# Reading Written Documents

What is read of a document is what its keys, texts and tags say.  How it is written does not count:
what is read is a function of the entries that looks at no blank, no comment and no separator, and
not at the quotes of a text either.  The keys of an object have to differ, and in the document no
entry may be refused after those before it.

## Main definitions

- `WrittenEntries.read?`, `WrittenValue.tree?` — what is read of entries and values
- `WrittenDocument.entries?` — what is read of a document

## Main statements

- `WrittenDocument.parse_text` — the text of a document is read as its entries
- `WrittenEntries.isSome_read?_object` — which objects can be read
- `RenderSettings.parse_recognises_entries` — the settings of a text depend on its recognised entries
-/

namespace SqlSelect

/-! ## §1 What is read -/

/-- The path of a key.  A bare key of the document is taken apart at its dots. -/
def WrittenText.path? (l : Level) : WrittenText → Option KeyPath
  | bare w =>
    match l with
    | .object => some ⟨w.text, [], w.text⟩
    | .document => KeyPath.ofWord? w.text
  | quoted cs => some ⟨(quoted cs).text, [], (quoted cs).text⟩

/-- A word without dots is a path of one key. -/
theorem KeyPath.ofWord?_of_no_dot {s : String} (h : '.' ∉ s.toList) (hne : s ≠ "") :
    ofWord? s = some ⟨s, [], s⟩ := by
  have hparts : (s.toList.splitOn '.').map String.ofList = [s] := by
    rw [List.splitOn_eq_singleton h]
    simp
  simp [ofWord?, hparts, Ne.symm hne]

theorem BareWord.text_ne_empty (w : BareWord) : w.text ≠ "" := by
  obtain ⟨_ | ⟨c, cs⟩, hbare⟩ := w
  · cases hbare
  · simp [text]

/-- A key without dots is read as what it says, bare or quoted. -/
theorem WrittenText.path?_of_no_dot {key : WrittenText} (l : Level) (h : '.' ∉ key.text.toList) :
    key.path? l = some ⟨key.text, [], key.text⟩ := by
  cases key with
  | quoted cs => rfl
  | bare w =>
    cases l with
    | object => rfl
    | document => exact KeyPath.ofWord?_of_no_dot h w.text_ne_empty

mutual

/-- What is read of a value, if it can be read. -/
def WrittenValue.tree? : WrittenValue → Option Tree
  | .nothing => some .unit
  | .text t => some (.scalar t.text)
  | .tag name => some (.tag name.text)
  | .emptySequence _ => some .emptySequence
  | .object _ entries =>
    (entries.read? .object []).map fun read => .object (read.reverse.map PathEntry.toEntry)

/-- What has been read after entries, the latest first, if none of them is refused. -/
def WrittenEntries.read? (l : Level) (earlier : List PathEntry) :
    WrittenEntries → Option (List PathEntry)
  | .nil => some earlier
  | .cons key _ value _ others => do
    let p ← key.path? l
    let t ← value.tree?
    if (l.refusal? earlier p).isSome then none else others.read? l ((p, t) :: earlier)

end

/-- What is read of a document. -/
def WrittenDocument.entries? (d : WrittenDocument) : Option Entries :=
  (d.entries.read? .document []).map fun read => read.reverse.map PathEntry.toEntry

/-! ## §2 Reading tokens -/

namespace Reader

/-- The reader after tokens, if they can be read. -/
def readAll? (r : Reader) (ts : List Token) : Option Reader := (ts.foldlM read r).toOption

/-- The reader after the end of an entry. -/
def settle? (r : Reader) : Option Reader := (r.update OpenObject.endEntry).toOption

theorem readAll?_cons (r : Reader) (t : Token) (ts : List Token) :
    r.readAll? (t :: ts) = (r.read t).toOption >>= (readAll? · ts) := by
  rw [readAll?, List.foldlM_cons, toOption_bind]
  rfl

theorem readAll?_of_read {r r' : Reader} {t : Token} (h : r.read t = .ok r') (ts : List Token) :
    r.readAll? (t :: ts) = r'.readAll? ts := by
  rw [readAll?_cons, h]
  rfl

theorem readAll?_append (r : Reader) (ts us : List Token) :
    r.readAll? (ts ++ us) = r.readAll? ts >>= (readAll? · us) := by
  rw [readAll?, List.foldlM_append, toOption_bind]
  rfl

/-! ### The end of an object -/

/-- An entry that has ended does not end again. -/
theorem endEntry_of_endEntry {o complete : OpenObject} (h : o.endEntry = .ok complete) :
    complete.endEntry = .ok complete := by
  -- However the entry ended, none is open behind it.
  have hnone : complete.current = none := by
    unfold OpenObject.endEntry at h
    split at h
    · cases h
      assumption
    · split at h
      · cases h
      · obtain ⟨t, -, ht⟩ := bind_eq_ok_iff.mp h
        cases ht
        rfl
  rw [OpenObject.endEntry, hnone]

theorem close_of_endEntry {o complete : OpenObject} (h : o.endEntry = .ok complete) :
    o.close = complete.close := by
  rw [OpenObject.close, OpenObject.close, h, endEntry_of_endEntry h]

/-- Once the entry has ended, the reader goes on with what is complete. -/
theorem settle?_of_endEntry {r : Reader} {complete : OpenObject}
    (h : r.innermost.endEntry = .ok complete) :
    r.settle? = some { r with innermost := complete } := by
  rw [settle?, update, h]
  rfl

theorem settle?_of_error {r : Reader} {e : DocumentError} (h : r.innermost.endEntry = .error e) :
    r.settle? = none := by
  rw [settle?, update, h]
  rfl

/-- A closing brace ends the last entry first. -/
theorem readAll?_closeBrace (r : Reader) :
    r.readAll? [.closeBrace] = r.settle? >>= (readAll? · [.closeBrace]) := by
  cases h : r.innermost.endEntry with
  | error e =>
    -- A parenthesis would refuse the brace; the object itself cannot be closed either way.
    have hclose : r.read .closeBrace =
        if r.inParenthesis then .error .badParenthesis else r.ascend := rfl
    have hread : (r.read .closeBrace).toOption = none := by
      rw [hclose, ascend, OpenObject.close, h]
      cases r.inParenthesis <;> rfl
    rw [readAll?_cons, hread, settle?_of_error h]
    rfl
  | ok complete =>
    have hread : r.read .closeBrace = { r with innermost := complete }.read .closeBrace := by
      rw [read, readOutside, ascend, close_of_endEntry h]
      rfl
    rw [readAll?_cons, hread, settle?_of_endEntry h]
    exact (readAll?_cons _ _ _).symm

/-- So does the end of the document. -/
theorem finish_eq_settle (r : Reader) :
    r.finish.toOption = r.settle? >>= fun settled => settled.finish.toOption := by
  -- If the last entry is refused, so is the document, whatever is still open around it.
  cases h : r.innermost.endEntry with
  | error e =>
    rw [settle?_of_error h, finish, OpenObject.close, h]
    cases r.inParenthesis <;> cases r.outer <;> rfl
  | ok complete =>
    rw [settle?_of_endEntry h, finish, close_of_endEntry h]
    rfl

/-! ### The states between tokens -/

/-- No entry is being read. -/
def atRest (l : Level) (entries : List PathEntry) (outer : List OpenObject) : Reader where
  innermost := { level := l, entries := entries }
  outer := outer

/-- An entry is being read. -/
def inEntry (l : Level) (entries : List PathEntry) (outer : List OpenObject) (p : KeyPath)
    (value : ValueSoFar) : Reader where
  innermost := { level := l, entries := entries, current := some (p, value) }
  outer := outer

section States

variable (l : Level) (entries : List PathEntry) (outer : List OpenObject)

/-- An entry with a complete value joins those before it, unless it is refused. -/
theorem settle?_inEntry {value : ValueSoFar} {t : Tree} (p : KeyPath) (h : value.toTree = .ok t) :
    (inEntry l entries outer p value).settle? =
      if (l.refusal? entries p).isSome then none else some (atRest l ((p, t) :: entries) outer) := by
  cases hrefusal : l.refusal? entries p <;>
    simp [settle?, update, inEntry, OpenObject.endEntry, hrefusal, h, atRest, bind, Except.bind, pure,
      Except.pure, Except.toOption]

/-- What stands between entries does not count between them. -/
theorem readAll?_spacers_atRest (spacers : List Spacer) :
    (atRest l entries outer).readAll? (spacers.flatMap Spacer.tokens) =
      some (atRest l entries outer) := by
  induction spacers with
  | nil => rfl
  | cons s spacers ih =>
    rw [List.flatMap_cons, readAll?_append]
    cases s <;> exact ih

/-- Spacers before the first entry do not count. -/
theorem readAll?_lead (spacers : List Spacer) (ts : List Token) :
    (atRest l entries outer).readAll? (spacers.flatMap Spacer.tokens ++ ts) =
      (atRest l entries outer).readAll? ts := by
  rw [readAll?_append, readAll?_spacers_atRest]
  rfl

/-- A spacer that separates ends the entry before it, and another one does nothing. -/
theorem readAll?_spacer_inEntry (p : KeyPath) (value : ValueSoFar) (s : Spacer) :
    (inEntry l entries outer p value).readAll? s.tokens =
      if s.separates then (inEntry l entries outer p value).settle?
      else some (inEntry l entries outer p value) := by
  have hcomma : (inEntry l entries outer p value).readAll? [.comma] =
      (inEntry l entries outer p value).settle? := (readAll?_cons _ _ _).trans (bind_pure _)
  have hlineEnd : (inEntry l entries outer p value).readAll? [.lineEnd] =
      (inEntry l entries outer p value).settle? := (readAll?_cons _ _ _).trans (bind_pure _)
  -- Three of the spacers separate; a blank has no token.
  cases s with
  | blank b => rfl
  | comma => exact hcomma
  | lineBreak b => exact hlineEnd
  | comment text b => exact hlineEnd

/-- Spacers of which one separates end the entry before them. -/
theorem readAll?_spacers_inEntry {value : ValueSoFar} {t : Tree} (p : KeyPath)
    (h : value.toTree = .ok t) (spacers : List Spacer) (hsep : spacers.any Spacer.separates = true) :
    (inEntry l entries outer p value).readAll? (spacers.flatMap Spacer.tokens) =
      (inEntry l entries outer p value).settle? := by
  induction spacers with
  | nil => cases hsep
  | cons s spacers ih =>
    -- What comes after the first separator does not count.
    have hrest : (inEntry l entries outer p value).settle? >>=
        (readAll? · (spacers.flatMap Spacer.tokens)) = (inEntry l entries outer p value).settle? := by
      rw [settle?_inEntry l entries outer p h]
      cases l.refusal? entries p with
      | none => exact readAll?_spacers_atRest l ((p, t) :: entries) outer spacers
      | some why => rfl
    rw [List.flatMap_cons, readAll?_append, readAll?_spacer_inEntry]
    cases hs : s.separates with
    | true => exact hrest
    | false => exact ih (by simpa [hs] using hsep)

/-- The key of an entry. -/
theorem read_key (key : WrittenText) :
    ((atRest l entries outer).read key.token).toOption =
      (key.path? l).map fun p => inEntry l entries outer p .nothing := by
  cases key with
  | quoted cs => rfl
  | bare w =>
    cases l with
    | object => rfl
    | document =>
      have htoken : (atRest .document entries outer).read (WrittenText.bare w).token =
          (atRest .document entries outer).update (·.addWord w.text) := rfl
      have hpath : (WrittenText.bare w).path? .document = KeyPath.ofWord? w.text := rfl
      rw [htoken, hpath]
      -- A path with an empty part is refused by both.
      cases h : KeyPath.ofWord? w.text <;>
        simp [update, atRest, inEntry, OpenObject.addWord, OpenObject.start, h, bind, Except.bind,
          pure, Except.pure, Except.toOption]

end States

/-- Spacers without a comma do not count between parentheses. -/
theorem readAll?_spacers_inParenthesis {r : Reader} (h : r.inParenthesis = true)
    {spacers : List Spacer} (hcomma : spacers.all (!Spacer.isComma ·) = true) :
    r.readAll? (spacers.flatMap Spacer.tokens) = some r := by
  have hlineEnd : r.readAll? [.lineEnd] = some r := by
    rw [readAll?_cons, read, if_pos h]
    rfl
  induction spacers with
  | nil => rfl
  | cons s spacers ih =>
    rw [List.all_cons, Bool.and_eq_true] at hcomma
    rw [List.flatMap_cons, readAll?_append]
    cases s with
    | blank b => exact ih hcomma.2
    -- Between parentheses no comma may stand, by assumption.
    | comma => exact absurd hcomma.1 Bool.false_ne_true
    | lineBreak b => exact (congrArg (· >>= _) hlineEnd).trans (ih hcomma.2)
    | comment text b => exact (congrArg (· >>= _) hlineEnd).trans (ih hcomma.2)

end Reader

/-! ## §3 Values and entries -/

/-- A value as it stands in the entry that is being read. -/
def WrittenValue.soFar : WrittenValue → Tree → ValueSoFar
  | .nothing, _ => .nothing
  | _, t => .complete t

/-- The value of an entry that has been read is complete. -/
theorem WrittenValue.toTree_soFar {v : WrittenValue} {t : Tree} (h : v.tree? = some t) :
    (v.soFar t).toTree = .ok t := by
  cases v with
  | nothing =>
    rw [tree?] at h
    cases h
    rfl
  | _ => rfl

/-- Spacers of which none separates have no tokens. -/
theorem flatMap_tokens_of_not_separates {spacers : List Spacer}
    (h : spacers.any Spacer.separates = false) : spacers.flatMap Spacer.tokens = [] := by
  rw [List.flatMap_eq_nil_iff]
  intro s hs
  have hseparates : s.separates = false := by simpa using List.any_eq_false.mp h s hs
  simpa [Spacer.separates] using hseparates

section Entries

open Reader

/-- An entry ends before the next one, and with the object. -/
theorem settle_of_gap (l : Level) (entries : List PathEntry) (outer : List OpenObject) {p : KeyPath}
    {value : ValueSoFar} {t : Tree} (h : value.toTree = .ok t) {gap : List Spacer}
    {others : WrittenEntries} (hgap : (others.isNil || gap.any Spacer.separates) = true) :
    ((inEntry l entries outer p value).readAll? (gap.flatMap Spacer.tokens ++ others.tokens) >>=
        settle?) =
      if (l.refusal? entries p).isSome then none
      else (atRest l ((p, t) :: entries) outer).readAll? others.tokens >>= settle? := by
  have hsettle := settle?_inEntry l entries outer p h
  rw [readAll?_append]
  cases hseparates : gap.any Spacer.separates with
  | true =>
    -- The gap ends the entry, and the others start at rest.
    rw [readAll?_spacers_inEntry l entries outer p h gap hseparates, hsettle]
    cases l.refusal? entries p <;> rfl
  | false =>
    -- The entry is the last one, and ends with the object.
    rw [hseparates, Bool.or_false] at hgap
    cases others with
    | nil =>
      rw [flatMap_tokens_of_not_separates hseparates, WrittenEntries.tokens]
      exact hsettle
    | cons => cases hgap

mutual

/-- The tokens of a value are read as its tree. -/
theorem WrittenValue.readAll?_tokens (v : WrittenValue) (l : Level) (entries : List PathEntry)
    (outer : List OpenObject) (p : KeyPath) {next : List Char} (h : v.fits next = true) :
    (inEntry l entries outer p .nothing).readAll? v.tokens =
      v.tree?.map fun t => inEntry l entries outer p (v.soFar t) := by
  cases v with
  | nothing => rfl
  | text t =>
    cases t <;> rfl
  | tag name => rfl
  | emptySequence inside =>
    let opened : Reader := { inEntry l entries outer p .nothing with inParenthesis := true }
    have hinside : opened.readAll? (inside.flatMap Spacer.tokens) = some opened :=
      readAll?_spacers_inParenthesis rfl h
    have hopen : (inEntry l entries outer p .nothing).read .openParenthesis = .ok opened := rfl
    rw [WrittenValue.tokens, List.cons_append, readAll?_of_read hopen, readAll?_append, hinside]
    rfl
  | object lead es =>
    let outside : List OpenObject :=
      { level := l, entries := entries, current := some (p, .nothing) } :: outer
    have hopen : (inEntry l entries outer p .nothing).read .openBrace =
        .ok (atRest .object [] outside) := rfl
    have hentries := es.readAll?_tokens .object [] outside h
    -- The brace ends the last entry, and then the object.
    have hclose : (fun r : Reader => r.readAll? [.closeBrace]) =
        fun r => r.settle? >>= (readAll? · [.closeBrace]) := funext readAll?_closeBrace
    rw [WrittenValue.tokens, WrittenValue.tree?, List.cons_append, List.cons_append,
      readAll?_of_read hopen, List.append_assoc, readAll?_lead, readAll?_append, hclose, ← bind_assoc,
      hentries]
    cases es.read? .object [] <;> rfl

/-- The tokens of entries are read as what they say, up to the end of the last one. -/
theorem WrittenEntries.readAll?_tokens (es : WrittenEntries) (l : Level) (entries : List PathEntry)
    (outer : List OpenObject) {next : List Char} (h : es.fits next = true) :
    ((atRest l entries outer).readAll? es.tokens >>= settle?) =
      (es.read? l entries).map fun read => atRest l read outer := by
  cases es with
  | nil => rfl
  | cons key blanks value gap others =>
    simp only [WrittenEntries.fits, Bool.and_eq_true] at h
    obtain ⟨⟨⟨-, hvalue⟩, hgap⟩, hothers⟩ := h
    rw [WrittenEntries.tokens, WrittenEntries.read?, List.append_assoc, List.cons_append,
      readAll?_cons, read_key]
    cases hpath : key.path? l with
    | none => rfl
    | some p =>
      have hread := value.readAll?_tokens l entries outer p hvalue
      show ((inEntry l entries outer p .nothing).readAll?
        (value.tokens ++ (gap.flatMap Spacer.tokens ++ others.tokens)) >>= settle?) = _
      rw [readAll?_append, hread]
      cases htree : value.tree? with
      | none => rfl
      | some t =>
        have hrest := settle_of_gap l entries outer (p := p) (WrittenValue.toTree_soFar htree) hgap
        rw [others.readAll?_tokens l _ outer hothers] at hrest
        refine hrest.trans ?_
        show _ = Option.map _ (if (l.refusal? entries p).isSome then none else _)
        cases l.refusal? entries p <;> rfl

end

end Entries

/-- The text of a document is read as its entries, however it is written. -/
theorem WrittenDocument.parse_text {d : WrittenDocument} (h : d.fits = true) :
    (Document.parse d.text).toOption = d.entries? := by
  have hentries := d.entries.readAll?_tokens .document [] [] h
  have hstart : ({} : Reader) = .atRest .document [] [] := rfl
  have hfinish : (fun r : Reader => r.finish.toOption) =
      fun r => r.settle? >>= fun settled => settled.finish.toOption := funext Reader.finish_eq_settle
  have htokens : (Document.ofTokens (d.lead.flatMap Spacer.tokens ++ d.entries.tokens)).toOption =
      Reader.readAll? {} (d.lead.flatMap Spacer.tokens ++ d.entries.tokens) >>=
        fun r => r.finish.toOption := toOption_bind _ _
  rw [Document.parse, scan_text h, entries?]
  -- The lead does not count, and the last entry is settled by the end of the document.
  refine htokens.trans ?_
  rw [hstart, Reader.readAll?_lead, hfinish, ← bind_assoc, hentries]
  cases d.entries.read? .document [] <;> rfl

example : ∃ d : WrittenDocument, d.fits = true ∧ d.text = "a\t\x22\\n\x22,b//\n\x22c\x22\x7be @\x7d" ∧
    d.entries? = some [("a", .scalar "\n"), ("b//", .unit), ("c", .object [("e", .tag "")])] :=
  ⟨{ entries := .cons (.bare ⟨['a'], rfl⟩) [.tab] (.text (.quoted [.escaped 'n' '\n' rfl])) [.comma]
      (.cons (.bare ⟨['b', '/', '/'], rfl⟩) [] .nothing [.lineBreak .lineFeed]
        (.cons (.quoted [.plain 'c' (by decide) (by decide)]) []
          (.object [] (.cons (.bare ⟨['e'], rfl⟩) [.space] (.tag ⟨[], rfl⟩) [] .nil)) [] .nil)) },
    rfl, rfl, rfl⟩

/-! ## §4 Objects that can be read -/

namespace WrittenEntries

/-- What the keys say. -/
def keys : WrittenEntries → List String
  | nil => []
  | cons key _ _ _ others => key.text :: others.keys

def values : WrittenEntries → List WrittenValue
  | nil => []
  | cons _ _ value _ others => value :: others.values

/-- In an object, a key is one key whatever dots it has. -/
theorem path?_object (key : WrittenText) : key.path? .object = some ⟨key.text, [], key.text⟩ := by
  cases key <;> rfl

/-- An entry of an object is refused just if the object has its key already. -/
theorem isSome_refusal?_object {earlier : List PathEntry} (h : ∀ e ∈ earlier, e.1.further = [])
    (text : String) :
    (Level.object.refusal? earlier ⟨text, [], text⟩).isSome = true ↔
      ∃ e ∈ earlier, e.1.first = text := by
  -- Every path in an object is one key, so that equal paths are equal keys.
  have hkeys : (earlier.any fun e => e.1.keys == [text]) = true ↔
      ∃ e ∈ earlier, e.1.first = text := by
    rw [List.any_eq_true]
    refine exists_congr fun e => and_congr_right fun he => ?_
    simp [KeyPath.keys, h e he]
  have hrefusal : Level.object.refusal? earlier ⟨text, [], text⟩ =
      if earlier.any fun e => e.1.keys == [text] then some .duplicate else none := rfl
  rw [← hkeys, hrefusal]
  cases earlier.any fun e => e.1.keys == [text] <;> simp

/-- After earlier entries, the others can be read just if they repeat no key, among themselves or of
the earlier ones, and have values that can be read. -/
theorem isSome_read?_object_after (es : WrittenEntries) {earlier : List PathEntry}
    (h : ∀ e ∈ earlier, e.1.further = []) :
    (es.read? .object earlier).isSome = true ↔
      (∀ e ∈ earlier, e.1.first ∉ es.keys) ∧ es.keys.Nodup ∧ ∀ v ∈ es.values, v.tree?.isSome = true :=
  match es with
  | nil => by simp [read?, keys, values]
  | cons key blanks value gap others => by
    rw [read?, path?_object]
    cases htree : value.tree? with
    | none => simp [values, htree]
    | some t =>
      have hfurther : ∀ e ∈ (⟨key.text, [], key.text⟩, t) :: earlier, e.1.further = [] := by
        simpa using h
      have hrest := others.isSome_read?_object_after hfurther
      show (if (Level.object.refusal? earlier ⟨key.text, [], key.text⟩).isSome then none else
        others.read? .object ((⟨key.text, [], key.text⟩, t) :: earlier)).isSome = true ↔ _
      by_cases hdup : ∃ e ∈ earlier, e.1.first = key.text
      · -- The key is among the earlier ones, which both sides exclude.
        rw [if_pos ((isSome_refusal?_object h key.text).mpr hdup)]
        obtain ⟨e, he, hfirst⟩ := hdup
        constructor
        · intro hnone
          cases hnone
        · intro ⟨hnew, _⟩
          exact absurd (hfirst ▸ List.mem_cons_self) (hnew e he)
      · -- The key is new, and the others must not repeat it.
        rw [if_neg (mt (isSome_refusal?_object h key.text).mp hdup), hrest]
        simp only [keys, values, List.nodup_cons, List.mem_cons, forall_eq_or_imp, htree]
        grind

/-- An object can be read just if its keys differ and its values can be read. -/
theorem isSome_read?_object (es : WrittenEntries) :
    (es.read? .object []).isSome = true ↔
      es.keys.Nodup ∧ ∀ v ∈ es.values, v.tree?.isSome = true := by
  simpa using es.isSome_read?_object_after (List.forall_mem_nil _)

end WrittenEntries

/-! ## §5 The settings of texts -/

namespace RenderSettings

/-- Texts with the same recognised entries give the same settings, or none give any. -/
theorem toOption_parse_of_alike {text other : String} {entries others : Entries}
    (htext : Document.parse text = .ok entries) (hother : Document.parse other = .ok others)
    (h : entries.Alike others) : (parse text).toOption = (parse other).toOption := by
  rw [parse, parse, htext, hother]
  exact h.toOption_ofEntries

/-- A text that gives no settings is rejected with an error of its own. -/
theorem exists_isParse_of_not_gives {text : String}
    (h : ¬ ∃ entries s, Document.parse text = .ok entries ∧ entries.Gives s) :
    ∃ e, parse text = .error e ∧ e.IsParse := by
  cases hparse : parse text with
  | ok s =>
    obtain ⟨entries, hentries, hgives⟩ := parse_eq_ok_iff.mp hparse
    exact absurd ⟨entries, s, hentries, hgives⟩ h
  | error e => exact ⟨e, rfl, isParse_of_parse hparse⟩

/-- What a text gives.  It gives settings just if it is a document whose recognised entries say what
they have to, and is rejected as a whole otherwise.  Only the recognised entries count: in order, or
in any order where none is repeated.  A written document is read as what its keys, texts and tags say,
however they are separated, spaced, quoted and commented.  A key without dots may be quoted or not,
and an object at any depth has to have different keys. -/
theorem parse_recognises_entries :
    (∀ text s, parse text = .ok s ↔ ∃ entries, Document.parse text = .ok entries ∧ entries.Gives s) ∧
    (∀ text, (¬ ∃ entries s, Document.parse text = .ok entries ∧ entries.Gives s) →
      ∃ e, parse text = .error e ∧ e.IsParse) ∧
    (∀ text other entries others, Document.parse text = .ok entries →
      Document.parse other = .ok others → entries.Alike others →
        (parse text).toOption = (parse other).toOption) ∧
    (∀ entries others : Entries, entries.Unrepeated → others.Unrepeated →
      entries.SameMeanings others → entries.Alike others) ∧
    (∀ d : WrittenDocument, d.fits = true → (Document.parse d.text).toOption = d.entries?) ∧
    (∀ (key : WrittenText) (l : Level), '.' ∉ key.text.toList →
      key.path? l = some ⟨key.text, [], key.text⟩) ∧
    (∀ lead es, (WrittenValue.object lead es).tree?.isSome = true ↔
      es.keys.Nodup ∧ ∀ v ∈ es.values, v.tree?.isSome = true) := by
  refine ⟨fun _ _ => parse_eq_ok_iff, fun _ => exists_isParse_of_not_gives,
    fun _ _ _ _ => toOption_parse_of_alike, fun _ _ => Entries.Alike.of_unrepeated,
    fun _ => WrittenDocument.parse_text, fun _ => WrittenText.path?_of_no_dot, fun lead es => ?_⟩
  -- Only the last clause is about trees: an object has one if its entries can be read.
  rw [WrittenValue.tree?, Option.isSome_map, es.isSome_read?_object]

/-- Two documents that are written in different ways. -/
theorem toOption_parse_of_plainAndCommented :
    (parse "render \x7b\n    pretty true\n    from @all-sources\n\x7d\n").toOption =
      (parse "// c\r\n\x22render\x22 \x7bfrom \x22all-sources\x22, x (), pretty\t\x22true\x22\x7d, y @"
        ).toOption := by
  obtain ⟨-, -, hsame, -⟩ := parse_recognises_entries
  refine hsame _ _ [("render", .object [("pretty", .scalar "true"), ("from", .tag "all-sources")])]
    [("render", .object [("from", .scalar "all-sources"), ("x", .emptySequence),
      ("pretty", .scalar "true")]), ("y", .tag "")] rfl rfl ⟨?_, rfl, rfl⟩
  decide

end RenderSettings

/-! ## §6 More than words -/

/-- The recognised entries come once, and their values are words. -/
structure Entries.InWords (entries : Entries) : Prop where
  render : (entries.values "render").length ≤ 1
  objects : ∀ t ∈ entries.values "render", t.isObject = true
  pretty : ∀ t ∈ entries.rendering.values "pretty", t = .scalar "true" ∨ t = .scalar "false"
  fromMode : ∀ t ∈ entries.rendering.values "from",
    ∃ m : FromMode, t = .tag m.name ∨ t = .scalar m.name

namespace RenderSettings

/-- A text that gives settings, although it does not say them in words that come once. -/
def GoesBeyondWords (text : String) : Prop :=
  (∃ s, parse text = .ok s) ∧ ¬ ∃ entries, Document.parse text = .ok entries ∧ entries.InWords

/-- A text goes beyond words if its entries give settings and are not in words. -/
theorem goesBeyondWords_of_parse {text : String} {entries : Entries} {s : RenderSettings}
    (h : Document.parse text = .ok entries) (hs : ofEntries entries = .ok s)
    (hwords : ¬ entries.InWords) : GoesBeyondWords text := by
  refine ⟨⟨s, by rw [parse, h]; exact hs⟩, ?_⟩
  rintro ⟨others, hothers, hinWords⟩
  obtain rfl := Except.ok.inj (h.symm.trans hothers)
  exact hwords hinWords

/-- More is accepted than `render` once, with words for values: a key without a value, a name as the
key of an object, and a document that comes back to `render`. -/
theorem parse_accepts_more_than_words :
    GoesBeyondWords "render \x7bpretty\x7d" ∧
    GoesBeyondWords "render \x7bfrom \x7ball-sources\x7d\x7d" ∧
    GoesBeyondWords "render \x7bpretty true\x7d\nb 1\nrender \x7bfrom @all-sources\x7d" := by
  have hpretty : Document.parse "render \x7bpretty\x7d" =
      .ok [("render", .object [("pretty", .unit)])] := rfl
  have hfrom : Document.parse "render \x7bfrom \x7ball-sources\x7d\x7d" =
      .ok [("render", .object [("from", .object [("all-sources", .unit)])])] := rfl
  have hrender : Document.parse "render \x7bpretty true\x7d\nb 1\nrender \x7bfrom @all-sources\x7d" =
      .ok [("render", .object [("pretty", .scalar "true")]), ("b", .scalar "1"),
        ("render", .object [("from", .tag "all-sources")])] := rfl
  refine ⟨goesBeyondWords_of_parse hpretty rfl ?value, goesBeyondWords_of_parse hfrom rfl ?key,
    goesBeyondWords_of_parse hrender rfl ?again⟩
  case value =>
    intro h
    rcases h.pretty .unit (List.mem_cons_self ..) with h | h <;> cases h
  case key =>
    intro h
    obtain ⟨m, h | h⟩ := h.fromMode _ (List.mem_cons_self ..) <;> cases h
  case again =>
    intro h
    exact absurd h.render (by decide)

end RenderSettings

end SqlSelect
