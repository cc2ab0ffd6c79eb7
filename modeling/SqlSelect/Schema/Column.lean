import SqlSelect.Value.Basic

/-!
# Columns

A column is what a table knows about one of its fields.  Its default is a fixed value or a
generator, a cycle of values that is advanced each time the default is asked for.  How far each
generator has advanced is kept apart from the columns, in `Counters`, so every copy of a column
shares one count.

## Main definitions

- `Generator`, `ColumnDefault` — where a default comes from
- `Counters` — how often each generator has been asked
- `Column` — a registered column
- `ColumnOption` — one choice made when a column is registered, applied by `Column.apply`
-/

namespace SqlSelect

/-! ## §1 Defaults -/

/-- A cycle of default values.  Generators with the same `counter` advance together. -/
structure Generator where
  counter : Nat
  items : List Value
  deriving DecidableEq

/-- The value given to the `k`-th request, counting from zero; an empty cycle gives NULL. -/
def Generator.item (g : Generator) (k : Nat) : Value :=
  g.items[k % g.items.length]?.getD .null

/-- Where the default of a column comes from. -/
inductive ColumnDefault where
  | fixed (v : Value)
  | generated (g : Generator)
  deriving DecidableEq

/-- The number of requests answered so far, by counter. -/
structure Counters where
  requests : List Nat := []
  deriving DecidableEq

namespace Counters

/-- The counter that `allot` gives out next. -/
def next (cs : Counters) : Nat := cs.requests.length

/-- Set up the counter `next`, at zero. -/
def allot (cs : Counters) : Counters := ⟨cs.requests ++ [0]⟩

def count (cs : Counters) (i : Nat) : Nat := cs.requests[i]?.getD 0

def advance (cs : Counters) (i : Nat) : Counters := ⟨cs.requests.modify i (· + 1)⟩

end Counters

/-- The value of a default, and the counters after the request. -/
def ColumnDefault.resolve (cs : Counters) : ColumnDefault → Value × Counters
  | fixed v => (v, cs)
  | generated g => (g.item (cs.count g.counter), cs.advance g.counter)

/-! ## §2 Columns -/

/-- A column registered on a table. -/
structure Column where
  /-- The field it was registered under. -/
  field : String
  name : String
  /-- The SQL name of the table that registered it. -/
  table : String
  nullable : Bool
  default? : Option ColumnDefault
  comment : Option String
  deriving DecidableEq

/-- A choice made when a column is registered. -/
inductive ColumnOption where
  /-- The name in SQL, where it is not the field. -/
  | named (name : String)
  | nullable
  | comment (text : String)
  | default (v : Value)
  | generator (items : List Value)
  deriving DecidableEq

namespace Column

/-- A column under its field's name, without a default or a comment. -/
def plain (field table : String) : Column := ⟨field, field, table, false, none, none⟩

/-- Make one choice.  A fixed default and a generator replace each other. -/
def apply (counter : Nat) (c : Column) : ColumnOption → Column
  | .named name => { c with name := name }
  | .nullable => { c with nullable := true }
  | .comment text => { c with comment := some text }
  | .default v => { c with default? := some (.fixed v) }
  | .generator items => { c with default? := some (.generated ⟨counter, items⟩) }

/-- The column that a table registers: the choices are made in order, and a later one replaces an
earlier one of its kind. -/
def define (field table : String) (options : List ColumnOption) (counter : Nat) : Column :=
  options.foldl (apply counter) (plain field table)

end Column

end SqlSelect
