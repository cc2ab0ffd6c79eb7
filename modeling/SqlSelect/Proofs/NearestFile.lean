import Mathlib.Data.List.DropRight
import Mathlib.Data.List.Infix
import SqlSelect.Config.Search
import SqlSelect.Proofs.Recognition

/-!
# The Nearest Configuration File

The search for a configuration file goes from a directory to its parent as long as there is one.  A
parent has one component less, whatever dots and blank parts stand in the path, so the search ends
at the root or at the empty path, and its candidates are the initial segments of the components, the
longest first.  The first candidate that exists decides, for better or worse.

## Main definitions

- `Path.components` — the components of a path
- `SearchRun` — the search as a loop, for any test of existence
- `IsNearest` — the first candidate that exists

## Main statements

- `Path.components_of_parent?`, `Path.parent?_eq_none_iff` — a parent lacks the last component
- `Path.isChain_ancestors`, `Path.map_components_ancestors` — where the search leads
- `searchRun_iff` — the loop ends, with the first candidate that exists
- `nearest_file_decides` — what is loaded from a directory
-/

namespace SqlSelect

namespace Path

/-! ## §1 Components -/

/-- The components of a path: its parts without those that are blank or a dot, and a dot that opens a
relative path. -/
def components (p : Path) : List String :=
  p.parts.take p.opening ++ (p.parts.drop p.opening).filter isComponent

/-- Whether one more part is a component.  A dot is one if nothing stands before it. -/
def countsAfter (p : Path) (part : String) : Bool :=
  isComponent part || (!p.absolute && p.parts.isEmpty && part == ".")

/-- A path with one more part. -/
def snoc (p : Path) (part : String) : Path := { p with parts := p.parts ++ [part] }

/-- A property of all paths, by induction on the parts from the first. -/
theorem snoc_induction {motive : Path → Prop} (empty : ∀ absolute, motive ⟨absolute, []⟩)
    (snoc : ∀ p part, motive p → motive (p.snoc part)) (p : Path) : motive p := by
  obtain ⟨absolute, parts⟩ := p
  induction parts using List.reverseRecOn with
  | nil => exact empty absolute
  | append_singleton parts part ih => exact snoc ⟨absolute, parts⟩ part ih

theorem opening_snoc {p : Path} (part : String) (h : p.parts ≠ []) :
    (p.snoc part).opening = p.opening := by
  obtain ⟨absolute, _ | ⟨first, parts⟩⟩ := p
  · exact absurd rfl h
  · rfl

theorem opening_le_length (p : Path) : p.opening ≤ p.parts.length := by
  obtain ⟨absolute, _ | ⟨first, parts⟩⟩ := p
  · simp [opening]
  · simp only [opening, List.length_cons]
    split <;> omega

/-- Cutting a path with one more part after the opening. -/
theorem take_drop_snoc {p : Path} (part : String) (h : p.parts ≠ []) :
    (p.snoc part).parts.take (p.snoc part).opening = p.parts.take p.opening ∧
      (p.snoc part).parts.drop (p.snoc part).opening = p.parts.drop p.opening ++ [part] := by
  have hle := p.opening_le_length
  rw [opening_snoc part h]
  exact ⟨List.take_append_of_le_length hle, List.drop_append_of_le_length hle⟩

/-- Behind another part, a dot does not count. -/
theorem countsAfter_eq_isComponent {p : Path} (part : String) (h : p.parts ≠ []) :
    p.countsAfter part = isComponent part := by
  simp [countsAfter, h]

@[simp]
theorem components_nil (absolute : Bool) : components ⟨absolute, []⟩ = [] := by
  simp [components]

/-- A part is a component of the path of this part alone just if it counts after nothing. -/
theorem components_first (absolute : Bool) (part : String) :
    components (snoc ⟨absolute, []⟩ part) =
      if countsAfter ⟨absolute, []⟩ part then [part] else [] := by
  by_cases hdot : part = "."
  · subst hdot
    cases absolute <;> rfl
  · simp [components, snoc, opening, countsAfter, hdot, List.filter_singleton]

/-- One more part is one more component, or none. -/
theorem components_snoc (p : Path) (part : String) :
    (p.snoc part).components = p.components ++ if p.countsAfter part then [part] else [] := by
  -- A dot counts in the first place only.
  by_cases h : p.parts = []
  · obtain ⟨absolute, parts⟩ := p
    obtain rfl : parts = [] := h
    rw [components_nil, components_first, List.nil_append]
  · obtain ⟨htake, hdrop⟩ := take_drop_snoc part h
    rw [components, htake, hdrop, List.filter_append, ← List.append_assoc,
      countsAfter_eq_isComponent part h]
    cases hpart : isComponent part <;> simp [components, hpart]

/-! ## §2 Parents -/

@[simp]
theorem trimmed_nil (absolute : Bool) : trimmed ⟨absolute, []⟩ = ⟨absolute, []⟩ := by
  simp [trimmed, trimAfter]

/-- Trimming cuts the parts that are no components from the end. -/
theorem trimmed_eq_rdropWhile (p : Path) :
    p.trimmed = { p with
      parts := p.parts.take p.opening ++ (p.parts.drop p.opening).rdropWhile (!isComponent ·) } := rfl

/-- A path of one part keeps it just if it counts. -/
theorem trimmed_first (absolute : Bool) (part : String) :
    trimmed (snoc ⟨absolute, []⟩ part) =
      if countsAfter ⟨absolute, []⟩ part then snoc ⟨absolute, []⟩ part else ⟨absolute, []⟩ := by
  by_cases hdot : part = "."
  · subst hdot
    cases absolute <;> rfl
  · cases hpart : isComponent part <;>
      simp [trimmed, trimAfter, snoc, opening, countsAfter, hdot, hpart]

/-- One more part is kept if it counts, and otherwise trimming goes on before it. -/
theorem trimmed_snoc (p : Path) (part : String) :
    (p.snoc part).trimmed = if p.countsAfter part then p.snoc part else p.trimmed := by
  -- A first part counts or not by itself; a later one is cut from the end, or ends the trimming.
  by_cases h : p.parts = []
  · obtain ⟨absolute, parts⟩ := p
    obtain rfl : parts = [] := h
    rw [trimmed_nil, trimmed_first]
  · obtain ⟨htake, hdrop⟩ := take_drop_snoc part h
    rw [trimmed_eq_rdropWhile, htake, hdrop, countsAfter_eq_isComponent part h]
    cases hpart : isComponent part with
    | false =>
      rw [List.rdropWhile_concat_pos _ _ _ (by simp [hpart])]
      rfl
    | true =>
      rw [List.rdropWhile_concat_neg _ _ _ (by simp [hpart]), ← List.append_assoc,
        List.take_append_drop]
      rfl

/-- The parent is the trimmed path before a last part that counts; another part changes nothing. -/
theorem parent?_snoc (p : Path) (part : String) :
    (p.snoc part).parent? = if p.countsAfter part then some p.trimmed else p.parent? := by
  unfold parent?
  rw [trimmed_snoc]
  cases p.countsAfter part with
  | false => rfl
  | true => simp [snoc]

/-- Trimming cuts no component. -/
@[simp]
theorem components_trimmed (p : Path) : p.trimmed.components = p.components := by
  induction p using snoc_induction with
  | empty absolute => rw [trimmed_nil]
  | snoc p part ih =>
    rw [trimmed_snoc, components_snoc]
    cases hpart : p.countsAfter part with
    -- The part is cut, and it was no component.
    | false => simpa using ih
    | true => rw [if_pos rfl, components_snoc, hpart]

/-- A path has a parent if it has a component. -/
theorem parent?_eq_none_iff {p : Path} : p.parent? = none ↔ p.components = [] := by
  induction p using snoc_induction with
  | empty absolute => simp [parent?]
  | snoc p part ih =>
    rw [parent?_snoc, components_snoc]
    cases p.countsAfter part with
    | false => simpa using ih
    | true => simp

/-- A parent lacks the last component, and starts where the path does. -/
theorem components_of_parent? {p q : Path} (h : p.parent? = some q) :
    q.components = p.components.dropLast ∧ q.absolute = p.absolute := by
  induction p using snoc_induction with
  | empty absolute => simp [parent?] at h
  | snoc p part ih =>
    rw [parent?_snoc] at h
    rw [components_snoc]
    cases hpart : p.countsAfter part with
    | false =>
      -- The last part is no component, so the parent is that of the path without it.
      rw [hpart, if_neg Bool.false_ne_true] at h
      rw [if_neg Bool.false_ne_true, List.append_nil]
      exact ih h
    | true =>
      rw [hpart, if_pos rfl] at h
      obtain rfl := Option.some.inj h
      rw [if_pos rfl, List.dropLast_concat, components_trimmed]
      exact ⟨rfl, rfl⟩

/-! ### All the way up -/

theorem ancestors_of_parent? {p q : Path} (h : p.parent? = some q) :
    p.ancestors = p :: q.ancestors := by
  rw [ancestors]
  split
  · simp_all
  · simp_all

theorem ancestors_of_no_parent {p : Path} (h : p.parent? = none) : p.ancestors = [p] := by
  rw [ancestors]
  split
  · rfl
  · simp_all

/-- There is always a first path on the way up, the path itself. -/
theorem exists_ancestors_eq_cons (p : Path) : ∃ later, p.ancestors = p :: later := by
  cases h : p.parent? with
  | none => exact ⟨[], ancestors_of_no_parent h⟩
  | some q => exact ⟨q.ancestors, ancestors_of_parent? h⟩

/-- A property of all paths, by induction on the way up. -/
theorem parent_induction {motive : Path → Prop} (top : ∀ p, p.parent? = none → motive p)
    (up : ∀ p q, p.parent? = some q → motive q → motive p) (p : Path) : motive p := by
  induction p using ancestors.induct with
  | case1 p h => exact top p h
  | case2 p q h ih => exact up p q h ih

/-- The way up goes through the initial segments of the components. -/
theorem map_components_ancestors (p : Path) :
    p.ancestors.map components = p.components.inits.reverse := by
  induction p using parent_induction with
  | top p h =>
    have hnone : p.components = [] := parent?_eq_none_iff.mp h
    simp [ancestors_of_no_parent h, hnone]
  | up p q h ih =>
    have hsome : p.components ≠ [] := fun hnone => by
      rw [parent?_eq_none_iff.mpr hnone] at h
      cases h
    -- The components are the last of their initial segments, and the parent has the others.
    have hinits : p.components.inits = q.components.inits ++ [p.components] := by
      rw [(components_of_parent? h).1]
      conv_lhs => rw [← List.dropLast_concat_getLast hsome]
      conv_rhs => rw [← List.dropLast_concat_getLast hsome]
      simp [List.inits_append]
    rw [ancestors_of_parent? h, List.map_cons, ih, hinits, List.reverse_concat]

/-- All paths on the way up start where the path does. -/
theorem absolute_of_mem_ancestors {p q : Path} (h : q ∈ p.ancestors) : q.absolute = p.absolute := by
  -- The induction goes up from the path, not along its parts.
  induction p using parent_induction with
  | top p hp =>
    rw [ancestors_of_no_parent hp, List.mem_singleton] at h
    rw [h]
  | up p r hp ih =>
    rw [ancestors_of_parent? hp] at h
    rcases List.mem_cons.mp h with rfl | h
    · rfl
    · exact (ih h).trans (components_of_parent? hp).2

/-- Each path on the way up is followed by its parent. -/
theorem isChain_ancestors (p : Path) :
    p.ancestors.IsChain fun a b => a.parent? = some b := by
  induction p using parent_induction with
  | top p h =>
    rw [ancestors_of_no_parent h]
    exact .singleton p
  | up p q h ih =>
    -- The way up from the parent begins with the parent.
    obtain ⟨later, hlater⟩ := exists_ancestors_eq_cons q
    rw [ancestors_of_parent? h]
    rw [hlater] at ih ⊢
    exact .cons_cons h ih

theorem head?_ancestors (p : Path) : p.ancestors.head? = some p := by
  obtain ⟨later, hlater⟩ := exists_ancestors_eq_cons p
  rw [hlater, List.head?_cons]

/-- The way up ends at a path that has no parent: the root or the empty path. -/
theorem parent?_eq_none_of_getLast? {p top : Path} (h : p.ancestors.getLast? = some top) :
    top.parent? = none := by
  induction p using parent_induction with
  | top p hp =>
    rw [ancestors_of_no_parent hp] at h
    obtain rfl := Option.some.inj h
    exact hp
  | up p q hp ih =>
    -- The last path on the way up from a parent is the last one from here, too.
    obtain ⟨later, hlater⟩ := exists_ancestors_eq_cons q
    rw [ancestors_of_parent? hp, hlater, List.getLast?_cons_cons, ← hlater] at h
    exact ih h

/-! ### The file of a directory -/

theorem absolute_child (p : Path) (name : String) : (p.child name).absolute = p.absolute := by
  unfold child join
  split
  · contradiction
  · split <;> rfl

/-- A file has one component more than its directory. -/
theorem components_child {p : Path} {name : String} (h : isComponent name = true) :
    (p.child name).components = p.components ++ [name] := by
  have hcounts : ∀ q : Path, q.countsAfter name = true := fun q => by simp [countsAfter, h]
  by_cases hslash : p.parts.getLast? = some ""
  · -- The blank part at the end is no component.
    obtain ⟨parts, hparts⟩ := List.getLast?_eq_some_iff.mp hslash
    have hp : p = snoc ⟨p.absolute, parts⟩ "" := by rw [snoc, ← hparts]
    have hblank : ∀ q : Path, q.countsAfter "" = false := fun q => by simp [countsAfter, isComponent]
    have hchild : p.child name = snoc ⟨p.absolute, parts⟩ name := by
      simp [child, join, hparts, snoc]
    rw [hchild, components_snoc, hcounts, hp, components_snoc, hblank]
    simp [snoc]
  · have hchild : p.child name = p.snoc name := by simp [child, join, hslash, snoc]
    -- Any other path ends in a part that the name is put behind.
    rw [hchild, components_snoc, hcounts, if_pos rfl]

end Path

/-! ## §3 The search -/

/-- A run of the search for a file that a test finds: where it starts, the paths that it tests, in
order, and what it returns. -/
inductive SearchRun (finds : Path → Bool) : Path → List Path → Option Path → Prop where
  | found {p : Path} (h : finds (p.child configFile) = true) :
    SearchRun finds p [p.child configFile] (some (p.child configFile))
  | exhausted {p : Path} (h : finds (p.child configFile) = false) (top : p.parent? = none) :
    SearchRun finds p [p.child configFile] none
  | up {p q : Path} {tested : List Path} {r : Option Path} (h : finds (p.child configFile) = false)
    (parent : p.parent? = some q) (rest : SearchRun finds q tested r) :
    SearchRun finds p (p.child configFile :: tested) r

/-- The candidates go on with those of the parent. -/
theorem candidates_of_parent? {p q : Path} (h : p.parent? = some q) :
    candidates p = p.child configFile :: candidates q := by
  rw [candidates, Path.ancestors_of_parent? h, List.map_cons, candidates]

/-- Without a parent there is one candidate. -/
theorem candidates_of_no_parent {p : Path} (h : p.parent? = none) :
    candidates p = [p.child configFile] := by
  rw [candidates, Path.ancestors_of_no_parent h, List.map_singleton]

theorem exists_candidates_eq_cons (p : Path) :
    ∃ later, candidates p = p.child configFile :: later := by
  obtain ⟨later, h⟩ := p.exists_ancestors_eq_cons
  exact ⟨later.map (·.child configFile), by rw [candidates, h, List.map_cons]⟩

section SearchRun

variable {finds : Path → Bool} {p : Path} {tested : List Path} {r : Option Path}

/-- What a run tests and returns. -/
theorem SearchRun.eq_find? (h : SearchRun finds p tested r) :
    tested = (candidates p).takeWhile (!finds ·) ++ r.toList ∧ r = (candidates p).find? finds := by
  -- The run ends at the first candidate that is found, or tests them all.
  induction h with
  | @found p h =>
    obtain ⟨later, hlater⟩ := exists_candidates_eq_cons p
    simp [hlater, h]
  | @exhausted p h top => simp [candidates_of_no_parent top, h]
  | @up p q tested r h parent rest ih =>
    rw [candidates_of_parent? parent, List.takeWhile_cons, List.find?_cons, h]
    exact ⟨congrArg (p.child configFile :: ·) ih.1, ih.2⟩

/-- The search ends wherever it starts. -/
theorem exists_searchRun (finds : Path → Bool) (p : Path) :
    ∃ tested r, SearchRun finds p tested r := by
  induction p using Path.parent_induction with
  | top p top =>
    cases h : finds (p.child configFile) with
    | true => exact ⟨_, _, .found h⟩
    | false => exact ⟨_, _, .exhausted h top⟩
  | up p q parent ih =>
    obtain ⟨tested, r, rest⟩ := ih
    cases h : finds (p.child configFile) with
    | true => exact ⟨_, _, .found h⟩
    | false => exact ⟨_, _, .up h parent rest⟩

/-- The search tests the candidates up to the first one that is found, and returns that one. -/
theorem searchRun_iff :
    SearchRun finds p tested r ↔
      tested = (candidates p).takeWhile (!finds ·) ++ r.toList ∧ r = (candidates p).find? finds := by
  constructor
  · exact SearchRun.eq_find?
  · -- There is a run, and every run tests and returns the same.
    rintro ⟨htested, hr⟩
    obtain ⟨tested', r', run⟩ := exists_searchRun finds p
    obtain ⟨htested', hr'⟩ := run.eq_find?
    obtain rfl : r' = r := hr'.trans hr.symm
    obtain rfl : tested' = tested := htested'.trans htested.symm
    exact run

end SearchRun

/-! ## §4 What is loaded -/

/-- A path is the first candidate at which something exists. -/
def IsNearest (fs : FileSystem) (start p : Path) : Prop :=
  ∃ before later, candidates start = before ++ p :: later ∧
    (∀ q ∈ before, fs.exists? q = false) ∧ fs.exists? p = true

/-- The bytes of a text. -/
def utf8Bytes (text : String) : List UInt8 := text.toByteArray.data.toList

section Reading

variable {fs : FileSystem} {p : Path}

/-- A directory cannot be read. -/
theorem readSettings_of_directory {entries : List (String × FileNode)}
    (h : fs.lookup p = some (.directory entries)) : readSettings fs p = .error .unreadable := by
  rw [readSettings, FileSystem.readText, h]

/-- Content that is no text cannot be read. -/
theorem readSettings_of_not_utf8 {content : List UInt8} (h : fs.lookup p = some (.file content))
    (hcontent : ∀ text, content ≠ utf8Bytes text) : readSettings fs p = .error .unreadable := by
  have hinvalid : ¬ (ByteArray.mk content.toArray).IsValidUTF8 := fun hvalid =>
    hcontent (.ofByteArray _ hvalid) (by simp [utf8Bytes])
  have hnone : fs.readText p = none := by
    rw [FileSystem.readText, h]
    exact dif_neg hinvalid
  rw [readSettings, hnone]

/-- The text of a file is parsed as it is. -/
theorem readSettings_of_text {text : String} (h : fs.lookup p = some (.file (utf8Bytes text))) :
    readSettings fs p = RenderSettings.parse text := by
  -- The bytes of a text are valid, and decode to the text.
  have hbytes : ByteArray.mk (utf8Bytes text).toArray = text.toByteArray := by
    rw [utf8Bytes, Array.toArray_toList]
  have hsome : fs.readText p = some text := by
    rw [FileSystem.readText, h]
    show String.fromUTF8? (ByteArray.mk (utf8Bytes text).toArray) = some text
    rw [hbytes]
    exact dif_pos text.isValidUTF8
  rw [readSettings, hsome]

end Reading

/-- The search finds the first candidate at which something exists. -/
theorem find?_eq_some_iff_isNearest {fs : FileSystem} {start p : Path} :
    (candidates start).find? fs.exists? = some p ↔ IsNearest fs start p := by
  rw [List.find?_eq_some_iff_append]
  constructor
  · rintro ⟨hp, before, later, hcandidates, hbefore⟩
    exact ⟨before, later, hcandidates, by simpa using hbefore, hp⟩
  · rintro ⟨before, later, hcandidates, hbefore, hp⟩
    exact ⟨hp, before, later, hcandidates, by simpa using hbefore⟩

/-- The nearest file decides what is loaded. -/
theorem loadSettings_of_isNearest {fs : FileSystem} {start p : Path} (h : IsNearest fs start p) :
    loadSettings fs start = (readSettings fs p).map (·, p) := by
  rw [loadSettings, find?_eq_some_iff_isNearest.mpr h]
  cases hread : readSettings fs p <;> simp [hread, Except.map, bind, Except.bind, pure, Except.pure]

/-- A file that is read is never one that is not found. -/
theorem readSettings_ne_notFound (fs : FileSystem) (p : Path) :
    readSettings fs p ≠ .error .notFound := by
  intro h
  rw [readSettings] at h
  split at h
  · cases RenderSettings.isParse_of_parse h
  · cases h

/-- Nothing is found if no candidate exists. -/
theorem loadSettings_eq_notFound_iff {fs : FileSystem} {start : Path} :
    loadSettings fs start = .error .notFound ↔ ∀ p ∈ candidates start, fs.exists? p = false := by
  cases hfind : (candidates start).find? fs.exists? with
  | none =>
    rw [loadSettings, hfind]
    simpa using hfind
  | some p =>
    have hnearest : IsNearest fs start p := find?_eq_some_iff_isNearest.mp hfind
    rw [loadSettings_of_isNearest hnearest]
    constructor
    · -- A file that exists has other errors.
      intro h
      cases hread : readSettings fs p with
      | ok s =>
        rw [hread] at h
        cases h
      | error e =>
        rw [hread] at h
        cases h
        exact absurd hread (readSettings_ne_notFound fs p)
    · intro hnone
      -- The nearest file is a candidate that exists.
      obtain ⟨before, later, hcandidates, -, hp⟩ := hnearest
      have hmem : p ∈ candidates start := by simp [hcandidates]
      rw [hnone p hmem] at hp
      cases hp

/-- The candidates are the files of the initial segments of the components, the longest first. -/
theorem map_components_candidates (start : Path) :
    (candidates start).map (fun p => (p.absolute, p.components)) =
      start.components.inits.reverse.map fun segment =>
        (start.absolute, segment ++ [configFile]) := by
  have hname : Path.isComponent configFile = true := by decide
  -- All candidates start where the path does, and end in the name of the file.
  have hfile : ∀ p ∈ start.ancestors,
      ((p.child configFile).absolute, (p.child configFile).components) =
        (start.absolute, p.components ++ [configFile]) := by
    intro p hp
    rw [Path.components_child hname, Path.absolute_child, Path.absolute_of_mem_ancestors hp]
  rw [← Path.map_components_ancestors, candidates, List.map_map, List.map_map]
  exact List.map_congr_left hfile

/-- The working directory stands where a path without parts leads. -/
theorem locate_workingDirectory (fs : FileSystem) :
    fs.locate ⟨true, fs.workingDirectory⟩ = fs.locate ⟨false, []⟩ := by
  simp [FileSystem.locate]

/-- What is loaded from a directory.  The search goes through the files of the directory, of its
lexical parent and so on, up to the root or the empty path, and ends with the first one that exists.
That file decides: where there is none, nothing is found; a directory, or content that is no text,
cannot be read; a text that gives no settings has an error of its own; and any other text gives its
settings, with the path of the file.  Without a directory, the search starts at the working
directory. -/
theorem nearest_file_decides (fs : FileSystem) (start : Path) :
    (candidates start = start.ancestors.map (·.child configFile) ∧
      start.ancestors.head? = some start ∧
      start.ancestors.IsChain (fun a b => a.parent? = some b) ∧
      ∀ top, start.ancestors.getLast? = some top → top.parent? = none) ∧
    ((candidates start).map (fun p => (p.absolute, p.components)) =
      start.components.inits.reverse.map fun segment => (start.absolute, segment ++ [configFile])) ∧
    (∀ tested r, SearchRun fs.exists? start tested r ↔
      tested = (candidates start).takeWhile (!fs.exists? ·) ++ r.toList ∧
        r = (candidates start).find? fs.exists?) ∧
    (loadSettings fs start = .error .notFound ↔ ∀ p ∈ candidates start, fs.exists? p = false) ∧
    (∀ p, IsNearest fs start p →
      (∀ entries, fs.lookup p = some (.directory entries) →
        loadSettings fs start = .error .unreadable) ∧
      (∀ content, fs.lookup p = some (.file content) → (∀ text, content ≠ utf8Bytes text) →
        loadSettings fs start = .error .unreadable) ∧
      (∀ text e, fs.lookup p = some (.file (utf8Bytes text)) → RenderSettings.parse text = .error e →
        e.IsParse ∧ loadSettings fs start = .error e) ∧
      (∀ text s, fs.lookup p = some (.file (utf8Bytes text)) → RenderSettings.parse text = .ok s →
        loadSettings fs start = .ok (s, p))) ∧
    loadSettingsHere fs = loadSettings fs ⟨true, fs.workingDirectory⟩ ∧
    fs.locate ⟨true, fs.workingDirectory⟩ = fs.locate ⟨false, []⟩ := by
  -- The way up, the run along it and the missing file have their own lemmas; what is left is what
  -- the nearest one holds.
  refine ⟨⟨rfl, start.head?_ancestors, start.isChain_ancestors,
      fun _ => Path.parent?_eq_none_of_getLast?⟩, map_components_candidates start,
    fun _ _ => searchRun_iff, loadSettings_eq_notFound_iff,
    fun p hp => ⟨?directory, ?bytes, ?badText, ?goodText⟩, rfl, locate_workingDirectory fs⟩
  case directory =>
    intro entries h
    rw [loadSettings_of_isNearest hp, readSettings_of_directory h]
    rfl
  case bytes =>
    intro content h hcontent
    rw [loadSettings_of_isNearest hp, readSettings_of_not_utf8 h hcontent]
    rfl
  case badText =>
    intro text e h htext
    refine ⟨RenderSettings.isParse_of_parse htext, ?_⟩
    rw [loadSettings_of_isNearest hp, readSettings_of_text h, htext]
    rfl
  case goodText =>
    intro text s h htext
    rw [loadSettings_of_isNearest hp, readSettings_of_text h, htext]
    rfl

/-- A file system with a configuration file in the root, and below it a directory of that name. -/
def shadowedFile : FileSystem where
  root := .directory [("src", .directory [("lib", .directory []), (configFile, .directory [])]),
    (configFile, .file [])]
  workingDirectory := ["src", "lib"]

/-- The directory of that name comes first on the way up. -/
theorem isNearest_shadowedFile :
    IsNearest shadowedFile ⟨true, ["src", "lib"]⟩ ⟨true, ["src", configFile]⟩ := by
  have hlib : Path.parent? ⟨true, ["src", "lib"]⟩ = some ⟨true, ["src"]⟩ := by decide
  have hsrc : Path.parent? ⟨true, ["src"]⟩ = some ⟨true, []⟩ := by decide
  refine ⟨[⟨true, ["src", "lib", configFile]⟩], candidates ⟨true, []⟩, ?_, by decide, by decide⟩
  rw [candidates_of_parent? hlib, candidates_of_parent? hsrc]
  rfl

/-- A directory hides the file above it, although that file could be read. -/
theorem unreadable_of_shadowedFile :
    shadowedFile.exists? ⟨true, [configFile]⟩ = true ∧
      loadSettings shadowedFile ⟨true, ["src", "lib"]⟩ = .error .unreadable := by
  obtain ⟨-, -, -, -, hdecides, -⟩ := nearest_file_decides shadowedFile ⟨true, ["src", "lib"]⟩
  obtain ⟨hdirectory, -⟩ := hdecides _ isNearest_shadowedFile
  exact ⟨by decide, hdirectory [] rfl⟩

end SqlSelect
