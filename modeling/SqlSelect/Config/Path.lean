/-!
# Paths

A path is the parts of its text between slashes, as they stand: a blank part comes from a doubled or
trailing slash.  Parents are lexical.  A part counts as a component unless it is blank or a dot, and
a dot counts where it opens a relative path; the parent is the path before its last component.

## Main definitions

- `Path` — a path
- `Path.ofString`, `Path.toString` — its text
- `Path.parent?` — the path before the last component
- `Path.join`, `Path.child` — a path seen from another, and an entry of a directory
- `Path.textBelow` — the text of a path without the directory that it lies in

## Main statements

- `Path.length_parent?_lt` — a parent has fewer parts
-/

namespace SqlSelect

structure Path where
  /-- Whether the path starts at the root. -/
  absolute : Bool
  /-- What stands between the slashes, the root's own slash apart. -/
  parts : List String
  deriving DecidableEq

namespace Path

/-! ## §1 Text -/

def ofString (text : String) : Path :=
  match text.toList with
  | [] => ⟨false, []⟩
  | '/' :: [] => ⟨true, []⟩
  | '/' :: rest => ⟨true, (String.ofList rest).splitOn "/"⟩
  | _ => ⟨false, text.splitOn "/"⟩

def toString (p : Path) : String :=
  (if p.absolute then "/" else "") ++ String.intercalate "/" p.parts

/-! ## §2 Parents -/

/-- Whether a part other than the first is a component. -/
def isComponent (part : String) : Bool := part != "" && part != "."

/-- The parts up to the last component that is not among the first `kept` parts. -/
def trimAfter (kept : Nat) (parts : List String) : List String :=
  parts.take kept ++ ((parts.drop kept).reverse.dropWhile fun part => !isComponent part).reverse

/-- How many parts at the front count as components in any case: a dot that opens a relative
path. -/
def opening (p : Path) : Nat := if !p.absolute && p.parts.head? == some "." then 1 else 0

/-- The path without blank parts and dots at its end. -/
def trimmed (p : Path) : Path := { p with parts := trimAfter p.opening p.parts }

/-- The path before the last component; neither the root nor the empty path has one. -/
def parent? (p : Path) : Option Path :=
  if p.trimmed.parts.isEmpty then none
  else some { p.trimmed with parts := p.trimmed.parts.dropLast }.trimmed

/-- Trimming adds no part. -/
private theorem length_trimAfter_le (kept : Nat) (parts : List String) :
    (trimAfter kept parts).length ≤ parts.length := by
  have h := List.dropWhile_sublist (fun part => !isComponent part) (l := (parts.drop kept).reverse)
  have h' := h.length_le
  simp only [trimAfter, List.length_append, List.length_take, List.length_reverse,
    List.length_drop] at h' ⊢
  omega

/-- A parent has fewer parts, so that the way up ends. -/
theorem length_parent?_lt {p q : Path} (h : p.parent? = some q) :
    q.parts.length < p.parts.length := by
  unfold parent? at h
  split at h
  · cases h
  · rename_i hne
    -- A path with a parent has a component, so that dropping the last part shortens it; trimming
    -- only shortens it more.
    have hpos : 0 < p.trimmed.parts.length := by
      cases hp : p.trimmed.parts with
      | nil => simp [hp] at hne
      | cons => simp
    have htrim : p.trimmed.parts.length ≤ p.parts.length := length_trimAfter_le _ _
    obtain rfl := Option.some.inj h
    refine Nat.lt_of_le_of_lt (length_trimAfter_le _ _) ?_
    simp only [List.length_dropLast]
    omega

/-- The path, its parent, and so on, up to the root or the empty path. -/
def ancestors (p : Path) : List Path :=
  match _h : p.parent? with
  | none => [p]
  | some q => p :: q.ancestors
termination_by p.parts.length
decreasing_by exact length_parent?_lt ‹_›

/-! ## §3 Joining -/

/-- A path seen from another one.  An absolute path is its own, and a blank part at the end of the
first stands for the slash that separates the two. -/
def join (p q : Path) : Path :=
  if q.absolute then q
  else if p.parts.getLast? == some "" then { p with parts := p.parts.dropLast ++ q.parts }
  else { p with parts := p.parts ++ q.parts }

def child (p : Path) (name : String) : Path := p.join ⟨false, [name]⟩

/-- What is left of `parts` after the components of another path; blank parts and dots in between
are passed over. -/
def dropComponents : List String → List String → Option (List String)
  | [], parts => some (parts.dropWhile fun part => !isComponent part)
  | _ :: _, [] => none
  | c :: cs, part :: parts =>
    if !isComponent part then dropComponents (c :: cs) parts
    else if part = c then dropComponents cs parts
    else none

/-- The text of a path below the directory with the given components; a path elsewhere keeps its
whole text. -/
def textBelow (p : Path) (base : List String) : String :=
  match p.absolute, dropComponents base p.parts with
  | true, some parts => (Path.mk false parts).toString
  | _, _ => p.toString

end Path

end SqlSelect
