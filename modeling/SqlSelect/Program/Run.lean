import SqlSelect.Dump.Nodes
import SqlSelect.Program.Resolve
import SqlSelect.Program.Step

/-!
# Running Programs

Each step reads the workspace and either answers, and may store something, or fails and changes
nothing.

## Main definitions

- `Workspace.run` — one step
- `Workspace.attempt` — one step, with the workspace to go on with
- `runProgram` — all steps, from an empty workspace

## Main statements

- `Workspace.attempt_error` — a failing step leaves the workspace as it was
-/

namespace SqlSelect

/-! ## §1 Writers -/

/-- What a writer holds after each of several lists of pieces. -/
def Writer.trace (w : Writer) : List (List Piece) → List Rendered
  | [] => []
  | ps :: rest =>
    let next := w.putAll ps
    next.finish :: next.trace rest

/-- The pieces of one operation on a writer. -/
def WriterStep.pieces (ws : Workspace) (mode : FromMode) :
    WriterStep → Except StepError (List Piece)
  | piece p => return [p]
  | node n => return (← n.resolve ws).pieces mode

/-! ## §2 Steps -/

/-- The dump of a term. -/
def DumpTerm.text (ws : Workspace) : DumpTerm → Except StepError String
  | node n => return (← n.resolve ws).dump.text
  | table name => return (← ws.get Thing.table? name).dump.text
  | handle name => return (← ws.get Thing.handle? name).dumpHandle.text
  | functionName f => return (← f.resolve ws []).name

namespace Workspace

def keepQuery (ws : Workspace) (store : String) (q : Query) : Answer × Workspace :=
  (.text (toSql q), ws.insert store (.query q))

def keepTable (ws : Workspace) (store : String) (t : Table) : Answer × Workspace :=
  (.table t, ws.insert store (.table t))

def keepTableExpression (ws : Workspace) (store : String) (e : TableExpression) :
    Answer × Workspace :=
  (.tableExpression e, ws.insert store (.tableExpression e))

/-- Register a column on a stored table, with a counter of its own. -/
def register (ws : Workspace) (name field : String) (options : List ColumnOption)
    (store : Option String) : Except StepError (Answer × Workspace) := do
  let t ← ws.get Thing.openTable? name
  let (column, t') ← (t.register field options ws.counters.next).mapError .registeredTwice
  let ws' := { ws.insert name (.table t') with counters := ws.counters.allot }
  return (.column column,
    match store with
    | some handle => ws'.insert handle (.handle column)
    | none => ws')

/-- Begin a query over stored table expressions. -/
def beginQuery (ws : Workspace) (sources : List String) (dynamic : Bool) :
    Except StepError Query := do
  let es ← sources.mapM (ws.get Thing.tableExpression?)
  let q := if dynamic then Query.dynamic (es.map TableExpression.source)
    else Query.find <$> Participants.ofList es
  q.mapError .query

/-- The default of a column of a stored table, if it has one. -/
def askDefault (ws : Workspace) (table field : String) : Except StepError (Answer × Workspace) := do
  let t ← ws.get Thing.table? table
  return match (t.column? field).bind (·.default?) with
    | some d =>
      let (v, counters) := d.resolve ws.counters
      (.value (some v), { ws with counters := counters })
    | none => (.value none, ws)

def run (ws : Workspace) : Step → Except StepError (Answer × Workspace)
  | .table store ident name => return ws.keepTable store (Table.empty ident name)
  | .register table field options store => ws.register table field options store
  | .declare store declaration name => do
    let (d, counters) ← (declaration.declare name ws.counters).mapError .registeredTwice
    return (.table d.table, { ws.insert store (.declared d) with counters := counters })
  | .merge store name tables => do
    let ts ← tables.mapM (ws.get Thing.table?)
    return ws.keepTable store (Table.merged name ts)
  | .handle store table field => do
    let d ← ws.get Thing.declared? table
    match d.handle? field with
    | some c => return (.handle c, ws.insert store (.handle c))
    | none => .error (.query (.unknownColumn d.table.name field))
  | .tableExpression store definition aliasName => do
    let d ← ws.get Thing.definition? definition
    return ws.keepTableExpression store <|
      match aliasName with
      | some a => ⟨d, a⟩
      | none => .unaliased d
  | .query store sources dynamic => return ws.keepQuery store (← ws.beginQuery sources dynamic)
  | .project query items store => do
    let q ← ws.get Thing.query? query
    return ws.keepQuery (store.getD query) (← q.project fun views => resolveItems ws views items)
  | .filter query predicate store => do
    let q ← ws.get Thing.query? query
    return ws.keepQuery (store.getD query) (← q.filter fun views => predicate.resolve ws views)
  | .limit query n store => do
    let q ← ws.get Thing.query? query
    return ws.keepQuery (store.getD query) (q.limit n)
  | .offset query n store => do
    let q ← ws.get Thing.query? query
    return ws.keepQuery (store.getD query) (q.offset n)
  | .subquery store query aliasName => do
    let q ← ws.get Thing.query? query
    return ws.keepTableExpression store (q.subquery aliasName)
  | .expr store e => do
    let e ← e.resolve ws []
    return (.text (toSql e), ws.insert store (.expr e))
  | .render node => do
    let n ← node.resolve ws
    return (.renderings (toSql n) (toStatement n) (toArguments n), ws)
  | .renderWith mode settings node => do
    let n ← node.resolve ws
    return (.rendered (render mode settings n), ws)
  | .write mode settings steps => do
    let pieces ← steps.mapM (·.pieces ws settings.fromMode)
    return (.trace mode settings ((Writer.start mode settings).trace pieces), ws)
  | .lookup source field => do
    let e ← ws.get Thing.tableExpression? source
    return (.reference (← (e.columns.column field).mapError .query), ws)
  | .columns source => return (.view (← ws.get Thing.tableExpression? source).columns, ws)
  | .describe table => return (.table (← ws.get Thing.table? table), ws)
  | .default table field => ws.askDefault table field
  | .inspectQuery query => return (.query (← ws.get Thing.query? query), ws)
  | .inspectSource source => do
    let e ← ws.get Thing.tableExpression? source
    return (.statement e.definition.query?, ws)
  | .dump term => return (.text (← term.text ws), ws)

/-- Carry out one step; a failing one leaves the workspace as it was. -/
def attempt (ws : Workspace) (step : Step) : Except StepError Answer × Workspace :=
  match ws.run step with
  | .ok (answer, ws') => (.ok answer, ws')
  | .error e => (.error e, ws)

/-- A failing step leaves the workspace as it was. -/
theorem attempt_error {ws : Workspace} {step : Step} {e : StepError} (h : ws.run step = .error e) :
    ws.attempt step = (.error e, ws) := by
  simp [attempt, h]

/-- The answers to steps that are carried out one after another. -/
def runAll (ws : Workspace) : List Step → List (Except StepError Answer)
  | [] => []
  | step :: steps =>
    let (answer, ws') := ws.attempt step
    answer :: ws'.runAll steps

end Workspace

def runProgram (steps : List Step) : List (Except StepError Answer) := Workspace.runAll {} steps

end SqlSelect
