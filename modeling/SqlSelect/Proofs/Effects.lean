import Mathlib.Data.List.Basic
import SqlSelect.Program.Run
import SqlSelect.Proofs.References

/-!
# Effects of Steps

What a step can do to a workspace, said once for all kinds of steps.  A step stores things under
names that can be read off it, every column that these things carry was there before or is registered
by the step, and only a registration or a request for a default touches the counters.

## Main definitions

- `Workspace.after`, `Workspace.answer` — the workspace after a run, and the answer to a step
- `Step.writes` — the names that a step stores something under
- `Workspace.Carries` — a stored thing has a column, or hands it on to a table that is made of it
- `Workspace.asked`, `Step.registered` — the column whose default is asked for, and the columns that
  are registered
- `Numbered` — the generators of successive columns have successive counters
- `Workspace.Effect` — what a step can do

## Main statements

- `Declaration.declare_eq` — what a declaration registers, and what it does to the counters
- `Workspace.run_effect` — no step does anything else
-/

namespace SqlSelect

/-! ## §1 Runs -/

namespace Workspace

/-- The workspace to go on with after steps that are carried out one after another. -/
def after (ws : Workspace) (steps : List Step) : Workspace :=
  steps.foldl (fun ws step => (ws.attempt step).2) ws

/-- What a step would be answered in the workspace. -/
def answer (ws : Workspace) (step : Step) : Except StepError Answer := (ws.attempt step).1

theorem after_append (ws : Workspace) (steps rest : List Step) :
    ws.after (steps ++ rest) = (ws.after steps).after rest :=
  List.foldl_append

theorem attempt_ok {ws ws' : Workspace} {step : Step} {a : Answer}
    (h : ws.run step = .ok (a, ws')) : ws.attempt step = (.ok a, ws') := by
  simp [attempt, h]

end Workspace

/-! ## §2 What is looked up -/

namespace Workspace

/-- A thing that is found under a name is stored there, and is of the kind that is asked for. -/
theorem exists_of_get_ok {α : Type} {ws : Workspace} {kind? : Thing → Option α} {name : String}
    {x : α} (h : ws.get kind? name = .ok x) :
    ∃ thing, ws.find? name = some thing ∧ kind? thing = some x := by
  unfold get at h
  cases hfound : (ws.find? name).bind kind? with
  | none => rw [hfound] at h; cases h
  | some y =>
    rw [hfound] at h
    cases h
    exact Option.bind_eq_some_iff.mp hfound

end Workspace

theorem Participants.toList_of_ofList {es : List TableExpression} {ps : Participants}
    (h : ofList es = .ok ps) : ps.toList = es := by
  unfold ofList at h
  split at h <;> cases h <;> rfl

/-! ## §3 Columns that are carried -/

/-- The columns of a thing, or of the tables that a query hands on to what is made of it. -/
def Thing.carried : Thing → List Column
  | table t => t.columns
  | declared d => d.table.columns
  | tableExpression e => e.table.columns
  | query q => q.statement.sources.flatMap (·.table.columns)
  | expr _ => []
  | handle _ => []

/-- A thing that can be used as a table carries the columns of the table. -/
theorem Thing.carried_of_table? {thing : Thing} {t : Table} (h : thing.table? = some t) :
    t.columns = thing.carried := by
  cases thing <;> cases h <;> rfl

/-- A thing that can be put under an alias carries the columns of the definition. -/
theorem Thing.carried_of_definition? {thing : Thing} {d : Definition}
    (h : thing.definition? = some d) : d.table.columns = thing.carried := by
  cases thing <;> cases h <;> rfl

theorem Thing.eq_of_tableExpression? {thing : Thing} {e : TableExpression}
    (h : thing.tableExpression? = some e) : thing = .tableExpression e := by
  cases thing <;> cases h
  rfl

theorem Thing.eq_of_query? {thing : Thing} {q : Query} (h : thing.query? = some q) :
    thing = .query q := by
  cases thing <;> cases h
  rfl

theorem Thing.eq_of_openTable? {thing : Thing} {t : Table} (h : thing.openTable? = some t) :
    thing = .table t := by
  cases thing <;> cases h
  rfl

namespace Workspace

variable {ws : Workspace}

/-- Some stored thing carries the column. -/
def Carries (ws : Workspace) (c : Column) : Prop :=
  ∃ name thing, ws.find? name = some thing ∧ c ∈ thing.carried

/-- Storing a thing brings in no column but those that it carries. -/
theorem carries_insert {store : String} {thing : Thing} {c : Column}
    (h : (ws.insert store thing).Carries c) : ws.Carries c ∨ c ∈ thing.carried := by
  obtain ⟨name, other, hfind, hc⟩ := h
  -- Under the name stands the new thing, and under every other name what was there.
  by_cases hname : name = store
  · rw [hname, find?_insert_self] at hfind
    cases hfind
    exact .inr hc
  · rw [find?_insert_of_ne _ _ hname] at hfind
    exact .inl ⟨name, other, hfind, hc⟩

theorem carries_of_get_table? {name : String} {t : Table} (h : ws.get Thing.table? name = .ok t)
    {c : Column} (hc : c ∈ t.columns) : ws.Carries c := by
  obtain ⟨thing, hfind, ht⟩ := exists_of_get_ok h
  exact ⟨name, thing, hfind, Thing.carried_of_table? ht ▸ hc⟩

theorem carries_of_get_tableExpression? {name : String} {e : TableExpression}
    (h : ws.get Thing.tableExpression? name = .ok e) {c : Column} (hc : c ∈ e.table.columns) :
    ws.Carries c := by
  obtain ⟨thing, hfind, he⟩ := exists_of_get_ok h
  obtain rfl := Thing.eq_of_tableExpression? he
  exact ⟨name, _, hfind, hc⟩

theorem carries_of_get_query? {name : String} {q : Query} (h : ws.get Thing.query? name = .ok q)
    {c : Column} (hc : c ∈ (Thing.query q).carried) : ws.Carries c := by
  obtain ⟨thing, hfind, hq⟩ := exists_of_get_ok h
  obtain rfl := Thing.eq_of_query? hq
  exact ⟨name, _, hfind, hc⟩

/-- A query that begins carries the columns of its participants, however it makes its views. -/
theorem carries_of_beginQuery {sources : List String} {dynamic : Bool} {q : Query}
    (h : ws.beginQuery sources dynamic = .ok q) {c : Column} (hc : c ∈ (Thing.query q).carried) :
    ws.Carries c := by
  obtain ⟨es, hes, hq⟩ := bind_eq_ok_iff.mp h
  have hsources : q.statement.sources = es.map TableExpression.source := by
    have hbegun := eq_ok_of_mapError hq
    cases dynamic with
    | true => rw [Query.eq_of_dynamic hbegun]; rfl
    | false =>
      cases hps : Participants.ofList es with
      | error e => rw [hps] at hbegun; cases hbegun
      | ok ps =>
        rw [hps] at hbegun
        cases hbegun
        show ps.toList.map _ = _
        rw [Participants.toList_of_ofList hps]
  -- A column of the query is one of a participant, which was looked up by its name.
  rw [Thing.carried, hsources, List.flatMap_map] at hc
  obtain ⟨e, he, hce⟩ := List.mem_flatMap.mp hc
  rw [e.table_source] at hce
  obtain ⟨name, -, hget⟩ := exists_of_mem_mapM hes e he
  exact carries_of_get_tableExpression? hget hce

end Workspace

/-! ## §4 Counters -/

namespace Counters

/-- Set up further counters, at zero. -/
def extend (cs : Counters) (k : Nat) : Counters := ⟨cs.requests ++ List.replicate k 0⟩

/-- Setting up no counter changes nothing. -/
theorem extend_zero (cs : Counters) : cs.extend 0 = cs := by
  simp [extend]

theorem allot_eq_extend (cs : Counters) : cs.allot = cs.extend 1 := rfl

theorem extend_extend (cs : Counters) (k l : Nat) : (cs.extend k).extend l = cs.extend (k + l) := by
  simp [extend, List.replicate_append_replicate]

@[simp]
theorem next_extend (cs : Counters) (k : Nat) : (cs.extend k).next = cs.next + k := by
  simp [extend, next]

end Counters

/-- The generators of successive columns have successive counters, from `start` on. -/
def Numbered (start : Nat) (cs : List Column) : Prop :=
  ∀ i c g, cs[i]? = some c → c.default? = some (.generated g) → g.counter = start + i

theorem Numbered.nil (start : Nat) : Numbered start [] := by
  intro i c g hc
  simp at hc

/-- Two lists of columns are numbered together, if the second one goes on where the first one ends.
-/
theorem Numbered.append {start : Nat} {cs ds : List Column} (hcs : Numbered start cs)
    (hds : Numbered (start + cs.length) ds) : Numbered start (cs ++ ds) := by
  intro i c g hc hg
  by_cases hi : i < cs.length
  · rw [List.getElem?_append_left hi] at hc
    exact hcs i c g hc hg
  · -- Behind the first list, positions are counted from its end.
    have hlength : cs.length ≤ i := Nat.le_of_not_lt hi
    rw [List.getElem?_append_right hlength] at hc
    have hcounter := hds _ c g hc hg
    omega

/-- A column that is defined with a counter has no other one. -/
theorem Column.counter_define {field table : String} {options : List ColumnOption} {counter : Nat}
    {g : Generator}
    (h : (Column.define field table options counter).default? = some (.generated g)) :
    g.counter = counter := by
  have hfold : ∀ (options : List ColumnOption) (c : Column),
      (∀ g, c.default? = some (.generated g) → g.counter = counter) →
      ∀ g, (options.foldl (Column.apply counter) c).default? = some (.generated g) →
        g.counter = counter := by
    intro options
    -- A choice that is made later replaces the generator of an earlier one.
    induction options with
    | nil => exact fun c hc => hc
    | cons option options ih =>
      intro c hc
      refine ih _ fun g hg => ?_
      cases option with
      | named name => exact hc g hg
      | nullable => exact hc g hg
      | comment text => exact hc g hg
      | default v => cases hg
      | generator items => cases hg; rfl
  -- A plain column has no generator to begin with.
  exact hfold options (.plain field table) (fun g hg => nomatch hg) g h

/-- One column takes the counter that it is defined with. -/
theorem Numbered.singleton_define (field table : String) (options : List ColumnOption)
    (counter : Nat) : Numbered counter [.define field table options counter] := by
  intro i c g hc hg
  cases i with
  | zero => cases hc; exact Column.counter_define hg
  | succ i => cases hc

/-- A registration appends the column to the table, whose field was free. -/
theorem Table.eq_of_register {t t' : Table} {field : String} {options : List ColumnOption}
    {counter : Nat} {c : Column} (h : t.register field options counter = .ok (c, t')) :
    field ∉ t.fields ∧ c = .define field t.name options counter ∧
      t' = t.add field c := by
  unfold register at h
  split at h
  · cases h
  · next hfree =>
    cases h
    exact ⟨by simpa using hfree, rfl, rfl⟩

/-- A field of a declaration appends its column and takes one counter. -/
theorem DeclaredTable.eq_of_addField {d e : DeclaredTable} {before after : Counters}
    {field : String × List ColumnOption}
    (h : DeclaredTable.addField (d, before) field = .ok (e, after)) :
    e.table.columns =
        d.table.columns ++ [.define field.1 d.table.name field.2 before.next] ∧
      after = before.extend 1 := by
  obtain ⟨⟨handle, table⟩, hregister, h⟩ := bind_eq_ok_iff.mp h
  obtain ⟨-, rfl, rfl⟩ := Table.eq_of_register hregister
  cases h
  exact ⟨d.table.columns_add _ _, before.allot_eq_extend⟩

/-- A declaration registers columns with successive counters, and sets up one counter for each. -/
theorem Declaration.declare_eq {declaration : Declaration} {name : Option String}
    {before after : Counters} {d : DeclaredTable}
    (h : declaration.declare name before = .ok (d, after)) :
    after = before.extend d.table.columns.length ∧ Numbered before.next d.table.columns := by
  -- By induction on the fields, from any table and any counters that were reached.
  have hfold : ∀ (fields : List (String × List ColumnOption)) (start : DeclaredTable × Counters),
      fields.foldlM DeclaredTable.addField start = .ok (d, after) →
      ∃ cs, d.table.columns = start.1.table.columns ++ cs ∧
        after = start.2.extend cs.length ∧ Numbered start.2.next cs := by
    intro fields
    induction fields with
    | nil =>
      intro start hdone
      cases hdone
      exact ⟨[], (List.append_nil _).symm, (Counters.extend_zero _).symm, Numbered.nil _⟩
    | cons field fields ih =>
      rintro ⟨e, counters⟩ hdone
      rw [List.foldlM_cons] at hdone
      obtain ⟨⟨next, counters'⟩, hstep, hdone⟩ := bind_eq_ok_iff.mp hdone
      obtain ⟨hcolumns, rfl⟩ := DeclaredTable.eq_of_addField hstep
      obtain ⟨cs, hcs, hafter, hnumbered⟩ := ih _ hdone
      -- The first column takes the counter that is next, and the others those after it.
      refine ⟨.define field.1 e.table.name field.2 counters.next :: cs, ?_, ?_, ?_⟩
      · rw [hcs, hcolumns, List.append_assoc]
        rfl
      · rw [hafter, Counters.extend_extend, List.length_cons, Nat.add_comm]
      · rw [Counters.next_extend] at hnumbered
        exact (Numbered.singleton_define _ _ _ _).append hnumbered
  obtain ⟨cs, hcs, hafter, hnumbered⟩ := hfold declaration.fields _ h
  -- The table starts without columns.
  have hall : d.table.columns = cs := hcs
  rw [hall]
  exact ⟨hafter, hnumbered⟩

/-! ## §5 What a step can do -/

/-- The names that a step stores something under, if it succeeds. -/
def Step.writes : Step → List String
  | .table store _ _ | .declare store _ _ | .merge store _ _ | .handle store _ _
  | .tableExpression store _ _ | .query store _ _ | .subquery store _ _ | .expr store _ => [store]
  | .register name _ _ store => name :: store.toList
  | .project name _ store | .filter name _ store | .limit name _ store
  | .offset name _ store => [store.getD name]
  | _ => []

/-- The columns that are registered by a step with the given answer. -/
def Step.registered : Step → Answer → List Column
  | .register _ _ _ _, .column c => [c]
  | .declare _ _ _, .table t => t.columns
  | _, _ => []

namespace Workspace

/-- The column whose default a step asks for, if the table has the field. -/
def asked (ws : Workspace) : Step → Option Column
  | .default table field => ((ws.find? table).bind Thing.table?).bind (·.column? field)
  | _ => none

/-- The counters once the default that a step asks for is resolved. -/
def countersAsked (ws : Workspace) (step : Step) : Counters :=
  match (ws.asked step).bind (·.default?) with
  | some d => (d.resolve ws.counters).2
  | none => ws.counters

/-- What a step that succeeds can do to a workspace. -/
structure Effect (ws : Workspace) (step : Step) (answer : Answer) (ws' : Workspace) : Prop where
  stays : ∀ name, name ∉ step.writes → ws'.find? name = ws.find? name
  carries : ∀ c, ws'.Carries c → ws.Carries c ∨ c ∈ step.registered answer
  counters : ws'.counters = (ws.countersAsked step).extend (step.registered answer).length
  numbered : Numbered ws.counters.next (step.registered answer)

section Effect

variable {ws ws' : Workspace} {step : Step} {answer : Answer}

theorem countersAsked_of_none (h : ws.asked step = none) : ws.countersAsked step = ws.counters := by
  rw [countersAsked, h]
  rfl

/-- A step that asks for no default only sets up counters. -/
theorem Effect.of_asked_eq_none (hasked : ws.asked step = none)
    (hstays : ∀ name, name ∉ step.writes → ws'.find? name = ws.find? name)
    (hcarries : ∀ c, ws'.Carries c → ws.Carries c ∨ c ∈ step.registered answer)
    (hcounters : ws'.counters = ws.counters.extend (step.registered answer).length)
    (hnumbered : Numbered ws.counters.next (step.registered answer)) :
    ws.Effect step answer ws' where
  stays := hstays
  carries := hcarries
  counters := by rw [countersAsked_of_none hasked, hcounters]
  numbered := hnumbered

/-- A step that only shows something. -/
theorem Effect.shows (hasked : ws.asked step = none) (hregistered : step.registered answer = []) :
    ws.Effect step answer ws := by
  refine .of_asked_eq_none hasked (fun _ _ => rfl) (fun _ => .inl) ?_ ?_
  · rw [hregistered]
    exact ws.counters.extend_zero.symm
  · rw [hregistered]
    exact Numbered.nil _

/-- A step that stores one thing, made of what is stored already. -/
theorem Effect.keeps {store : String} {thing : Thing} (hwrites : step.writes = [store])
    (hasked : ws.asked step = none) (hregistered : step.registered answer = [])
    (hthing : ∀ c ∈ thing.carried, ws.Carries c) :
    ws.Effect step answer (ws.insert store thing) := by
  have hshows : ws.Effect step answer ws := .shows hasked hregistered
  -- Nothing is set up or asked for, so that only the name it is stored under is new.
  refine { hshows with stays := fun name hname => ?_, carries := fun c hc => ?_ }
  · rw [hwrites, List.mem_singleton] at hname
    exact ws.find?_insert_of_ne thing hname
  · exact .inl ((carries_insert hc).elim id (hthing c))

/-- A registration writes the table, and the handle if it is kept. -/
theorem register_effect {table field : String} {options : List ColumnOption} {store : Option String}
    (h : ws.register table field options store = .ok (answer, ws')) :
    ws.Effect (.register table field options store) answer ws' := by
  obtain ⟨t, ht, h⟩ := bind_eq_ok_iff.mp h
  obtain ⟨⟨c, t'⟩, hregister, h⟩ := bind_eq_ok_iff.mp h
  obtain ⟨thing, hfind, hthing⟩ := exists_of_get_ok ht
  obtain rfl := Thing.eq_of_openTable? hthing
  obtain ⟨-, hdefine, rfl⟩ := Table.eq_of_register (eq_ok_of_mapError hregister)
  -- Of the columns that are stored now, only the last one of the table is new.
  have htable : ∀ d, (ws.insert table (.table (t.add field c))).Carries d →
      ws.Carries d ∨ d ∈ [c] := by
    intro d hd
    obtain hd | hd := carries_insert hd
    · exact .inl hd
    · rw [Thing.carried, Table.columns_add, List.mem_append] at hd
      obtain hd | hd := hd
      · exact .inl ⟨table, _, hfind, hd⟩
      · exact .inr hd
  have hnumbered : Numbered ws.counters.next [c] := by
    rw [hdefine]
    exact Numbered.singleton_define _ _ _ _
  cases store with
  | none =>
    cases h
    refine .of_asked_eq_none rfl (fun name hname => ?_) htable ws.counters.allot_eq_extend hnumbered
    have hne : name ≠ table := by simpa [Step.writes] using hname
    exact ws.find?_insert_of_ne _ hne
  | some handle =>
    cases h
    refine .of_asked_eq_none rfl (fun name hname => ?_) (fun d hd => ?_)
      ws.counters.allot_eq_extend hnumbered
    · have hne : name ≠ table ∧ name ≠ handle := by simpa [Step.writes] using hname
      rw [find?_insert_of_ne _ _ hne.2]
      exact ws.find?_insert_of_ne _ hne.1
    · -- A handle hands on nothing to a table.
      obtain hd | hd := carries_insert hd
      · exact htable d hd
      · cases hd

/-- A declaration writes its table, with columns that are all new. -/
theorem declare_effect {store : String} {declaration : Declaration} {name : Option String}
    {d : DeclaredTable} {counters : Counters}
    (h : declaration.declare name ws.counters = .ok (d, counters)) :
    ws.Effect (.declare store declaration name) (.table d.table)
      { ws.insert store (.declared d) with counters := counters } := by
  obtain ⟨hcounters, hnumbered⟩ := Declaration.declare_eq h
  -- The counters are those of the registrations, whatever happens to the stored name.
  refine .of_asked_eq_none rfl (fun other hother => ?_) (fun c hc => ?_) hcounters hnumbered
  · have hne : other ≠ store := by simpa [Step.writes] using hother
    exact ws.find?_insert_of_ne _ hne
  · exact carries_insert hc

/-- Asking for a default stores nothing, and advances the counter of the column that is found. -/
theorem askDefault_effect {table field : String}
    (h : ws.askDefault table field = .ok (answer, ws')) :
    ws.Effect (.default table field) answer ws' := by
  obtain ⟨t, ht, h⟩ := bind_eq_ok_iff.mp h
  obtain ⟨thing, hfind, hthing⟩ := exists_of_get_ok ht
  have hasked : ws.asked (.default table field) = t.column? field := by
    rw [asked, hfind]
    show (thing.table?).bind _ = _
    rw [hthing]
    rfl
  have hcounters :
      ws' = { ws with counters := ws.countersAsked (.default table field) } := by
    rw [countersAsked, hasked]
    cases hdefault : (t.column? field).bind (·.default?) with
    | none | some d =>
      rw [hdefault] at h
      cases h
      rfl
  -- Only the counters differ, so nothing is stored and nothing is registered.
  rw [hcounters]
  exact ⟨fun _ _ => rfl, fun _ hc => .inl hc, (Counters.extend_zero _).symm, Numbered.nil _⟩

end Effect

/-- What a step that succeeds does, whatever kind of step it is. -/
theorem run_effect {ws ws' : Workspace} {step : Step} {answer : Answer}
    (h : ws.run step = .ok (answer, ws')) : ws.Effect step answer ws' := by
  cases step with
  | table store ident name =>
    cases h
    exact .keeps rfl rfl rfl (fun c hc => absurd hc List.not_mem_nil)
  | register table field options store => exact register_effect h
  | declare store declaration name =>
    obtain ⟨⟨d, counters⟩, hd, h⟩ := bind_eq_ok_iff.mp h
    cases h
    exact declare_effect (eq_ok_of_mapError hd)
  | merge store name tables =>
    obtain ⟨ts, hts, h⟩ := bind_eq_ok_iff.mp h
    cases h
    refine .keeps rfl rfl rfl fun c hc => ?_
    -- Merging makes no columns, so each one comes from one of the tables.
    obtain ⟨t, ht, hct⟩ := Table.mem_table_of_mem_columns_merged hc
    obtain ⟨other, -, hget⟩ := exists_of_mem_mapM hts t ht
    exact carries_of_get_table? hget hct
  | handle store table field =>
    obtain ⟨d, hd, h⟩ := bind_eq_ok_iff.mp h
    cases hc : d.handle? field with
    | none => rw [hc] at h; cases h
    | some c =>
      rw [hc] at h
      cases h
      exact .keeps rfl rfl rfl (fun c hc => absurd hc List.not_mem_nil)
  | tableExpression store definition aliasName =>
    obtain ⟨d, hd, h⟩ := bind_eq_ok_iff.mp h
    obtain ⟨thing, hfind, hthing⟩ := exists_of_get_ok hd
    -- The definition is taken as it is, with an alias or without one.
    have hcarried : ∀ c ∈ d.table.columns, ws.Carries c := fun c hc =>
      ⟨definition, thing, hfind, Thing.carried_of_definition? hthing ▸ hc⟩
    cases aliasName <;> cases h <;> exact .keeps rfl rfl rfl hcarried
  | query store sources dynamic =>
    obtain ⟨q, hq, h⟩ := bind_eq_ok_iff.mp h
    cases h
    exact .keeps rfl rfl rfl fun c hc => carries_of_beginQuery hq hc
  | project query items store =>
    obtain ⟨q, hq, h⟩ := bind_eq_ok_iff.mp h
    obtain ⟨r, hr, h⟩ := bind_eq_ok_iff.mp h
    cases h
    obtain ⟨added, -, rfl⟩ := Query.exists_of_project hr
    exact .keeps rfl rfl rfl fun c hc => carries_of_get_query? hq hc
  | filter query predicate store =>
    obtain ⟨q, hq, h⟩ := bind_eq_ok_iff.mp h
    obtain ⟨r, hr, h⟩ := bind_eq_ok_iff.mp h
    cases h
    obtain ⟨added, -, rfl⟩ := Query.exists_of_filter hr
    exact .keeps rfl rfl rfl fun c hc => carries_of_get_query? hq hc
  | limit _ _ _ | offset _ _ _ =>
    obtain ⟨q, hq, h⟩ := bind_eq_ok_iff.mp h
    cases h
    exact .keeps rfl rfl rfl fun c hc => carries_of_get_query? hq hc
  | subquery store query aliasName =>
    obtain ⟨q, hq, h⟩ := bind_eq_ok_iff.mp h
    cases h
    refine .keeps rfl rfl rfl fun c hc => ?_
    -- The shape of the query is merged from the tables of its sources.
    obtain ⟨t, ht, hct⟩ := Table.mem_table_of_mem_columns_merged hc
    obtain ⟨s, hs, rfl⟩ := List.mem_map.mp ht
    exact carries_of_get_query? hq (List.mem_flatMap.mpr ⟨s, hs, hct⟩)
  | expr store e =>
    obtain ⟨e', -, h⟩ := bind_eq_ok_iff.mp h
    cases h
    exact .keeps rfl rfl rfl (fun c hc => absurd hc List.not_mem_nil)
  | default table field => exact askDefault_effect h
  | lookup source field =>
    obtain ⟨e, -, h⟩ := bind_eq_ok_iff.mp h
    obtain ⟨c, -, h⟩ := bind_eq_ok_iff.mp h
    cases h
    exact .shows rfl rfl
  | render _ | renderWith _ _ _ | write _ _ _ | columns _ | describe _ | inspectQuery _
  | inspectSource _ | dump _ =>
    obtain ⟨x, -, h⟩ := bind_eq_ok_iff.mp h
    cases h
    exact .shows rfl rfl

end Workspace

end SqlSelect
