import SqlSelect.Query.Basic

/-!
# Workspaces

A workspace holds what a program has stored so far under names of its choice, and the counters of
all generators.

## Main definitions

- `Thing` — what can be stored
- `Workspace` — the stored things by name, and the counters
- `Workspace.find?`, `Workspace.insert` — read and replace a name
- `StepError` — why a step of a program fails

## Main statements

- `Workspace.find?_insert_self`, `Workspace.find?_insert_of_ne` — inserting a name changes that name
  and no other
-/

namespace SqlSelect

/-! ## §1 Things and errors -/

/-- What a program can store. -/
inductive Thing where
  /-- A table that columns can still be registered on. -/
  | table (t : Table)
  | declared (d : DeclaredTable)
  | tableExpression (e : TableExpression)
  | query (q : Query)
  | expr (e : Expr)
  | handle (c : Column)

/-- Why a step of a program fails. -/
inductive StepError where
  /-- Nothing of the required kind is stored under the name. -/
  | missing (name : String)
  | query (e : QueryError)
  | registeredTwice (e : RegisteredTwice)
  deriving DecidableEq

/-- The text of an error: of a missing thing, just its name. -/
def StepError.message : StepError → String
  | missing name => name
  | query e => e.message
  | registeredTwice e => e.message

/-! ## §2 Workspaces -/

/-- The state of a program. -/
structure Workspace where
  /-- The stored things, each name at most once. -/
  things : List (String × Thing) := []
  counters : Counters := {}

namespace Workspace

def find? (ws : Workspace) (name : String) : Option Thing := ws.things.lookup name

def insert (ws : Workspace) (name : String) (thing : Thing) : Workspace :=
  { ws with things := (name, thing) :: ws.things.filter fun entry => entry.1 != name }

theorem find?_insert_self (ws : Workspace) (name : String) (thing : Thing) :
    (ws.insert name thing).find? name = some thing := by
  simp [find?, insert]

/-- Looking up a name passes over entries of other names. -/
private theorem lookup_filter_ne {α : Type} (entries : List (String × α)) {a b : String}
    (h : a ≠ b) : (entries.filter fun entry => entry.1 != b).lookup a = entries.lookup a := by
  induction entries with
  | nil => rfl
  | cons entry rest ih =>
    obtain ⟨k, x⟩ := entry
    by_cases hk : k = b
    · subst hk
      simp [List.lookup_cons, beq_false_of_ne h, ih]
    · simp [List.lookup_cons, hk, ih]

theorem find?_insert_of_ne (ws : Workspace) {name other : String} (thing : Thing)
    (h : other ≠ name) : (ws.insert name thing).find? other = ws.find? other := by
  simp [find?, insert, List.lookup_cons, beq_false_of_ne h, lookup_filter_ne _ h]

/-! ## §3 Things of one kind -/

/-- Look a name up, and fail unless the thing stored there is of the kind that `kind?` accepts. -/
def get {α : Type} (ws : Workspace) (kind? : Thing → Option α) (name : String) :
    Except StepError α :=
  match (ws.find? name).bind kind? with
  | some x => .ok x
  | none => .error (.missing name)

end Workspace

namespace Thing

def openTable? : Thing → Option Table
  | table t => some t
  | _ => none

def declared? : Thing → Option DeclaredTable
  | declared d => some d
  | _ => none

def tableExpression? : Thing → Option TableExpression
  | tableExpression e => some e
  | _ => none

def query? : Thing → Option Query
  | query q => some q
  | _ => none

def expr? : Thing → Option Expr
  | expr e => some e
  | _ => none

def handle? : Thing → Option Column
  | handle c => some c
  | _ => none

/-- What can be put under an alias: a table as it is now, a declared table, or the definition of
another table expression. -/
def definition? : Thing → Option Definition
  | table t => some (.plain t)
  | declared d => some (.declared d)
  | tableExpression e => some e.definition
  | _ => none

/-- The table of anything that has one. -/
def table? (thing : Thing) : Option Table := thing.definition?.map Definition.table

end Thing

end SqlSelect
