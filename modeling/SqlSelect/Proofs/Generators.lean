import SqlSelect.Proofs.Effects

/-!
# Generators

The default of a column is asked for through the table that registered the column or through
whatever was made of it: snapshots, merged tables, derived tables of any depth.  All of these carry
the column with the counter that it was registered with, no other registration has this counter, and
asking is the only thing that advances it.  So the requests of a run, wherever they are made, are
answered with the items of the generator in turn.

## Main definitions

- `Workspace.registrations` — the columns that a run registers
- `Workspace.resolutions` — the answers of a run to requests for the default of one column
- `Workspace.Accounted` — the columns that were registered account for all columns and counters

## Main statements

- `Workspace.Accounted.attempt`, `Workspace.Accounted.after` — a step, and a run, keep the account
- `Workspace.Accounted.count_attempt` — a step advances a counter just if it asks for its column
- `Workspace.generator_items_in_turn` — the items of a generator are given in turn
-/

namespace SqlSelect

/-! ## §1 Advancing counters -/

namespace Counters

@[simp]
theorem next_advance (cs : Counters) (i : Nat) : (cs.advance i).next = cs.next := by
  simp [advance, next]

/-- Setting up counters leaves every count as it was. -/
theorem count_extend (cs : Counters) (k i : Nat) : (cs.extend k).count i = cs.count i := by
  unfold extend count
  by_cases hi : i < cs.requests.length
  · rw [List.getElem?_append_left hi]
  · -- A counter that is set up starts at zero, like one that is not there.
    have hlength : cs.requests.length ≤ i := Nat.le_of_not_lt hi
    rw [List.getElem?_append_right hlength, List.getElem?_eq_none hlength, List.getElem?_replicate]
    split <;> rfl

theorem count_advance_self {cs : Counters} {i : Nat} (h : i < cs.next) :
    (cs.advance i).count i = cs.count i + 1 := by
  have hi : i < cs.requests.length := h
  simp [advance, count, List.getElem?_eq_getElem hi]

theorem count_advance_of_ne (cs : Counters) {i j : Nat} (h : j ≠ i) :
    (cs.advance j).count i = cs.count i := by
  simp [advance, count, h]

end Counters

/-- Resolving a default sets up no counter. -/
theorem ColumnDefault.next_resolve (d : ColumnDefault) (cs : Counters) :
    (d.resolve cs).2.next = cs.next := by
  cases d with
  | fixed v => rfl
  | generated g => exact cs.next_advance g.counter

/-- A cycle that is not empty gives one of its items. -/
theorem Generator.getElem?_item {g : Generator} (h : g.items ≠ []) (k : Nat) :
    g.items[k % g.items.length]? = some (g.item k) := by
  have hk : k % g.items.length < g.items.length :=
    Nat.mod_lt k (List.length_pos_iff.mpr h)
  rw [item, List.getElem?_eq_getElem hk]
  rfl

/-- Generators with the same counter belong to the same registration. -/
theorem Numbered.index_eq {start i j : Nat} {cs : List Column} {c d : Column} {g g' : Generator}
    (h : Numbered start cs) (hc : cs[i]? = some c) (hd : cs[j]? = some d)
    (hg : c.default? = some (.generated g)) (hg' : d.default? = some (.generated g'))
    (hcounter : g'.counter = g.counter) : j = i := by
  have hi : g.counter = start + i := h i c g hc hg
  have hj : g'.counter = start + j := h j d g' hd hg'
  omega

/-- Columns whose generators share a counter are one column. -/
theorem Numbered.column_eq {start : Nat} {cs : List Column} {c d : Column} {g g' : Generator}
    (h : Numbered start cs) (hc : c ∈ cs) (hd : d ∈ cs)
    (hg : c.default? = some (.generated g)) (hg' : d.default? = some (.generated g'))
    (hcounter : g'.counter = g.counter) : d = c := by
  obtain ⟨i, hi⟩ := List.mem_iff_getElem?.mp hc
  obtain ⟨j, hj⟩ := List.mem_iff_getElem?.mp hd
  obtain rfl := h.index_eq hi hj hg hg' hcounter
  exact Option.some.inj (hj.symm.trans hi)

namespace Workspace

/-! ## §2 Requests for a default -/

section Requests

variable {ws : Workspace} {step : Step} {c : Column}

theorem next_countersAsked (ws : Workspace) (step : Step) :
    (ws.countersAsked step).next = ws.counters.next := by
  unfold countersAsked
  cases (ws.asked step).bind (·.default?) with
  | none => rfl
  | some d => exact d.next_resolve ws.counters

/-- A request that finds a column finds it in a stored table. -/
theorem exists_of_asked (h : ws.asked step = some c) :
    ∃ table field t, step = .default table field ∧ ws.get Thing.table? table = .ok t ∧
      t.column? field = some c := by
  -- Only one kind of step asks for a default.
  cases step with
  | default table field =>
    rw [asked, Option.bind_eq_some_iff] at h
    obtain ⟨t, ht, hc⟩ := h
    refine ⟨table, field, t, rfl, ?_, hc⟩
    rw [get, ht]
  | _ => cases h

/-- A column that is asked for is carried by something stored. -/
theorem carries_of_asked (h : ws.asked step = some c) : ws.Carries c := by
  obtain ⟨table, field, t, -, ht, hc⟩ := exists_of_asked h
  exact carries_of_get_table? ht (Table.mem_columns_of_column? hc)

/-- A request that finds a column succeeds, and shows its default. -/
theorem answer_of_asked {d : ColumnDefault} (h : ws.asked step = some c)
    (hd : c.default? = some d) : ws.answer step = .ok (.value (some (d.resolve ws.counters).1)) := by
  obtain ⟨table, field, t, rfl, ht, hc⟩ := exists_of_asked h
  have hdefault : (t.column? field).bind (·.default?) = some d := by
    rw [hc]
    exact hd
  have hrun : ws.run (.default table field) = .ok (.value (some (d.resolve ws.counters).1),
      { ws with counters := (d.resolve ws.counters).2 }) := by
    show ws.askDefault table field = _
    simp only [askDefault, ht, bind, Except.bind, hdefault]
    rfl
  rw [answer, attempt_ok hrun]

end Requests

/-! ## §3 Runs -/

/-- The columns that a step registers; one that fails registers none. -/
def registeredBy (ws : Workspace) (step : Step) : List Column :=
  match ws.answer step with
  | .ok answer => step.registered answer
  | .error _ => []

/-- All columns that a run registers, in order. -/
def registrations : Workspace → List Step → List Column
  | _, [] => []
  | ws, step :: steps => ws.registeredBy step ++ (ws.attempt step).2.registrations steps

/-- The answers to those steps of a run that ask for the default of the column, wherever they find
it. -/
def resolutions (c : Column) : Workspace → List Step → List (Except StepError Answer)
  | _, [] => []
  | ws, step :: steps =>
    let rest := resolutions c (ws.attempt step).2 steps
    if ws.asked step = some c then ws.answer step :: rest else rest

/-- Two runs, one after the other, register what each of them does. -/
theorem registrations_append (ws : Workspace) (steps rest : List Step) :
    ws.registrations (steps ++ rest) =
      ws.registrations steps ++ (ws.after steps).registrations rest := by
  induction steps generalizing ws with
  | nil => rfl
  | cons step steps ih =>
    rw [List.cons_append, registrations, registrations, ih, List.append_assoc]
    rfl

/-- The columns that were registered so far have one counter each, and all stored columns are among
them. -/
structure Accounted (ws : Workspace) (cs : List Column) : Prop where
  next : ws.counters.next = cs.length
  numbered : Numbered 0 cs
  carried : ∀ c, ws.Carries c → c ∈ cs

theorem accounted_empty : Accounted {} [] where
  next := rfl
  numbered := Numbered.nil 0
  carried := fun _ ⟨_, _, hfind, _⟩ => nomatch hfind

namespace Accounted

variable {ws : Workspace} {cs : List Column}

/-- A step keeps the account, with the columns that it registers. -/
theorem attempt (h : ws.Accounted cs) (step : Step) :
    (ws.attempt step).2.Accounted (cs ++ ws.registeredBy step) := by
  cases hrun : ws.run step with
  | error e =>
    -- A step that fails leaves the workspace and registers nothing.
    have hregistered : ws.registeredBy step = [] := by
      rw [registeredBy, answer, attempt_error hrun]
    rw [attempt_error hrun, hregistered, List.append_nil]
    exact h
  | ok result =>
    obtain ⟨answer, ws'⟩ := result
    have heffect : ws.Effect step answer ws' := run_effect hrun
    have hregistered : ws.registeredBy step = step.registered answer := by
      rw [registeredBy, Workspace.answer, attempt_ok hrun]
    rw [attempt_ok hrun, hregistered]
    -- A request leaves the number of counters as it is, and a registration adds those of its columns.
    refine ⟨?_, ?_, fun c hc => ?_⟩
    · rw [heffect.counters, Counters.next_extend, next_countersAsked, h.next, List.length_append]
    · have hnumbered := heffect.numbered
      rw [h.next, ← Nat.zero_add cs.length] at hnumbered
      exact h.numbered.append hnumbered
    · exact List.mem_append.mpr ((heffect.carries c hc).imp_left (h.carried c))

/-- A run keeps the account, with all columns that it registers. -/
theorem after (h : ws.Accounted cs) (steps : List Step) :
    (ws.after steps).Accounted (cs ++ ws.registrations steps) := by
  induction steps generalizing ws cs with
  | nil => rwa [registrations, List.append_nil]
  | cons step steps ih =>
    rw [registrations, ← List.append_assoc]
    exact ih (h.attempt step)

/-- A step advances the counter of a column by one if it asks for the default of this column, and
otherwise leaves it.  The column may also be one that is registered later. -/
theorem count_attempt {ds : List Column} {c : Column} {g : Generator} (h : ws.Accounted cs)
    (hnumbered : Numbered 0 (cs ++ ds)) (hc : c ∈ cs ++ ds)
    (hg : c.default? = some (.generated g)) (step : Step) :
    (ws.attempt step).2.counters.count g.counter =
      ws.counters.count g.counter + if ws.asked step = some c then 1 else 0 := by
  have hasked : (ws.countersAsked step).count g.counter =
      ws.counters.count g.counter + if ws.asked step = some c then 1 else 0 := by
    cases hd : ws.asked step with
    | none => rw [countersAsked_of_none hd, if_neg (by simp), Nat.add_zero]
    | some d =>
      have hmem : d ∈ cs := h.carried d (carries_of_asked hd)
      rw [countersAsked, hd, Option.bind_some]
      by_cases heq : d = c
      · -- The counter was set up when the column was registered.
        obtain rfl := heq
        obtain ⟨i, hi⟩ := List.mem_iff_getElem?.mp hmem
        have hcounter : g.counter = 0 + i := h.numbered i d g hi hg
        have hlt : g.counter < ws.counters.next := by
          have := (List.getElem?_eq_some_iff.mp hi).1
          rw [h.next]
          omega
        rw [hg, if_pos rfl]
        exact Counters.count_advance_self hlt
      · rw [if_neg fun hsome => heq (Option.some.inj hsome), Nat.add_zero]
        cases hdefault : d.default? with
        | none => rfl
        | some e =>
          cases e with
          | fixed v => rfl
          | generated g' =>
            -- Another column has another counter.
            have hne : g'.counter ≠ g.counter := fun hcounter =>
              heq (hnumbered.column_eq hc (List.mem_append_left _ hmem) hg hdefault hcounter)
            exact ws.counters.count_advance_of_ne hne
  cases hrun : ws.run step with
  | error e =>
    -- A request that fails finds no column.
    have hnone : ws.asked step ≠ some c := by
      intro hsome
      have hanswer := answer_of_asked hsome hg
      rw [answer, attempt_error hrun] at hanswer
      cases hanswer
    rw [attempt_error hrun, if_neg hnone, Nat.add_zero]
  | ok result =>
    obtain ⟨answer, ws'⟩ := result
    rw [attempt_ok hrun, (run_effect hrun).counters, Counters.count_extend, hasked]

/-- The requests of a run go on with the item at which the counter stands. -/
theorem resolutions_getElem? {c : Column} {g : Generator} (hg : c.default? = some (.generated g))
    (steps : List Step) (h : ws.Accounted cs) (hc : c ∈ cs ++ ws.registrations steps) (k : Nat)
    {answer : Except StepError Answer} (hk : (resolutions c ws steps)[k]? = some answer) :
    answer = .ok (.value (some (g.item (ws.counters.count g.counter + k)))) := by
  -- A step that asks for the column makes the count greater by one and `k` smaller by one.
  induction steps generalizing ws cs k with
  | nil => cases hk
  | cons step steps ih =>
    have hnumbered : Numbered 0 (cs ++ ws.registrations (step :: steps)) :=
      (h.after (step :: steps)).numbered
    have hcount := h.count_attempt hnumbered hc hg step
    have hnext : (ws.attempt step).2.Accounted (cs ++ ws.registeredBy step) := h.attempt step
    rw [registrations, ← List.append_assoc] at hc
    rw [resolutions] at hk
    by_cases hasked : ws.asked step = some c
    · rw [if_pos hasked] at hk hcount
      -- The first request is answered with the item at the count; a later one is a request of the
      -- rest.
      cases k with
      | zero =>
        cases hk
        exact answer_of_asked hasked hg
      | succ k =>
        have hlater := ih hnext hc k hk
        rw [hcount, Nat.add_assoc, Nat.add_comm 1 k] at hlater
        exact hlater
    · rw [if_neg hasked] at hk hcount
      have hlater := ih hnext hc k hk
      rw [hcount] at hlater
      exact hlater

end Accounted

/-! ## §4 Items in turn -/

/-- A generator is one counter for each registered column.  The requests for the default of a
column, through whatever carries it, are answered with its items in turn and from the start again.  A
step advances the counter just if it asks for this column, the counter belongs to no other
registration, and every column that is asked for was registered before. -/
theorem generator_items_in_turn (steps : List Step) {c : Column} {g : Generator}
    (hc : c ∈ registrations {} steps) (hg : c.default? = some (.generated g))
    (hitems : g.items ≠ []) :
    (∀ k answer, (resolutions c {} steps)[k]? = some answer →
      ∃ v, g.items[k % g.items.length]? = some v ∧ answer = .ok (.value (some v))) ∧
      (∀ before step rest, steps = before ++ step :: rest →
        (after {} (before ++ [step])).counters.count g.counter =
          (after {} before).counters.count g.counter +
            if (after {} before).asked step = some c then 1 else 0) ∧
      (∀ (i j : Nat) (d : Column) (g' : Generator), (registrations {} steps)[i]? = some c →
        (registrations {} steps)[j]? = some d → d.default? = some (.generated g') →
          g'.counter = g.counter → j = i) ∧
      ∀ before step rest d, steps = before ++ step :: rest →
        (after {} before).asked step = some d → d ∈ registrations {} before := by
  have hnumbered : Numbered 0 (registrations {} steps) := (accounted_empty.after steps).numbered
  have hbefore : ∀ before, (after {} before).Accounted (registrations {} before) :=
    fun before => accounted_empty.after before
  refine ⟨fun k answer hk => ?_, fun before step rest hsteps => ?_,
    fun i j d g' hi hj hg' hcounter => hnumbered.index_eq hi hj hg hg' hcounter,
    fun before step rest d hsteps hd => ?_⟩
  · have hanswer := accounted_empty.resolutions_getElem? hg steps hc k hk
    -- All counters are at zero in the beginning.
    have hzero : ({} : Workspace).counters.count g.counter + k = k := Nat.zero_add k
    rw [hzero] at hanswer
    exact ⟨g.item k, Generator.getElem?_item hitems k, hanswer⟩
  · rw [hsteps, registrations_append] at hc hnumbered
    rw [after_append]
    exact (hbefore before).count_attempt hnumbered hc hg step
  · exact (hbefore before).carried d (carries_of_asked hd)

end Workspace

/-! ## §5 Tickets -/

namespace Samples

/-- Two tables of tickets that look alike, and what is made of the first one: a snapshot, a merged
table, and a derived table of a derived table. -/
def ticketTables : List Step :=
  [.table "tickets" "Ticket" none,
    .register "tickets" "number" [.generator [.integer 1, .integer 2, .integer 3]] none,
    .table "others" "Ticket" none,
    .register "others" "number" [.generator [.integer 1, .integer 2, .integer 3]] none,
    .tableExpression "snapshot" "tickets" (some "T"),
    .merge "merged" "M" ["tickets", "others"],
    .query "query" ["snapshot"] false,
    .subquery "inner" "query" "D",
    .query "query" ["inner"] false,
    .subquery "outer" "query" "E"]

/-- Numbers are drawn through each of them, with steps between that draw no number of the first
table or fail. -/
def ticketDraws : List Step :=
  [.default "tickets" "number", .default "outer" "number", .default "others" "number",
    .describe "merged", .register "tickets" "number" [] none, .default "merged" "number",
    .renderWith .statement {} (.source "outer"), .default "nothing" "number",
    .default "snapshot" "number", .default "inner" "seat", .default "inner" "number"]

/-- The number of the first table. -/
def ticketNumber : Column :=
  .define "number" "Ticket" [.generator [.integer 1, .integer 2, .integer 3]] 0

end Samples

open Samples in
/-- The fifth number that is drawn is the second one again.  Drawing from the other table advances
nothing here, although its column looks the same. -/
theorem ticketNumber_drawn_in_turn :
    let resolutions := Workspace.resolutions ticketNumber {} (ticketTables ++ ticketDraws)
    let before := ticketTables ++ ticketDraws.take 2
    ticketNumber ∈ Workspace.registrations {} (ticketTables ++ ticketDraws) ∧
      resolutions.length = 5 ∧ resolutions[4]? = some (.ok (.value (some (.integer 2)))) ∧
      (Workspace.after {} (before ++ [.default "others" "number"])).counters.count 0 =
        (Workspace.after {} before).counters.count 0 := by
  intro resolutions before
  have hregistered :
      ticketNumber ∈ Workspace.registrations {} (ticketTables ++ ticketDraws) := by decide +kernel
  have hlength : resolutions.length = 5 := by decide +kernel
  obtain ⟨hanswers, hcounts, -⟩ := Workspace.generator_items_in_turn (ticketTables ++ ticketDraws)
    hregistered rfl (by decide)
  refine ⟨hregistered, hlength, ?_, ?_⟩
  · have hfifth : 4 < resolutions.length := by rw [hlength]; decide
    have hget : resolutions[4]? = some resolutions[4] := List.getElem?_eq_getElem hfifth
    obtain ⟨v, hv, hanswer⟩ := hanswers 4 _ hget
    cases hv
    rw [hget, hanswer]
  · have hother : (Workspace.after {} before).asked (.default "others" "number") ≠
        some ticketNumber := by decide +kernel
    have hcount := hcounts before (.default "others" "number") (ticketDraws.drop 3) rfl
    rw [if_neg hother] at hcount
    exact hcount

end SqlSelect
