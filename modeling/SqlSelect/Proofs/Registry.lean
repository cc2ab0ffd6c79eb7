import SqlSelect.Proofs.Merging
import SqlSelect.Proofs.Outputs

/-!
# Registering Columns

A table starts without columns or as a merge of other tables, and then takes one registration after
another.  A registration is accepted just if its field is free, and a rejected one changes nothing.
So at any time the columns are those that the table started with, and behind them those of the
accepted registrations in turn, each under its own field, and no field has two of them.

A merge hands columns on as they are.  A column that was merged can be traced back, through as many
merges as it came, to the one registration that made it, on a table whose name it still has.

## Main definitions

- `Registration` — the arguments of one registration
- `Table.afterAll` — a table after registrations, accepted or rejected
- `firstFree` — the registrations that are the first of a field that is free
- `Table.History` — how a table came about: new or merged, and then registered on
- `Table.History.Registers` — in a history, an entry was registered on a table

## Main statements

- `Column.define_eq` — what the options of a registration come to
- `Table.afterAll_eq` — the columns after registrations
- `Table.History.exists_registers` — each entry of a table was registered in the table's history
- `Table.registry_consistent` — the registry of any history is consistent, and so is each view of it
-/

namespace SqlSelect

/-! ## §1 The options of a registration -/

namespace ColumnOption

/-- The SQL name that an option gives. -/
def name? : ColumnOption → Option String
  | named name => some name
  | _ => none

/-- The comment that an option gives. -/
def comment? : ColumnOption → Option String
  | comment text => some text
  | _ => none

/-- The default that an option gives, a fixed value or a generator. -/
def default? (counter : Nat) : ColumnOption → Option ColumnDefault
  | default v => some (.fixed v)
  | generator items => some (.generated ⟨counter, items⟩)
  | _ => none

end ColumnOption

/-- What later options make of a column: the last of each kind counts. -/
theorem Column.foldl_apply (counter : Nat) (options : List ColumnOption) (c : Column) :
    options.foldl (apply counter) c =
      { c with
        name := (options.filterMap ColumnOption.name?).getLast?.getD c.name
        nullable := c.nullable || options.contains .nullable
        default? := (options.filterMap (ColumnOption.default? counter)).getLast?.or c.default?
        comment := (options.filterMap ColumnOption.comment?).getLast?.or c.comment } := by
  -- The column that the options are applied to varies along the fold.
  induction options generalizing c with
  | nil => simp
  | cons option options ih =>
    rw [List.foldl_cons, ih]
    cases option <;>
      simp [apply, ColumnOption.name?, ColumnOption.default?, ColumnOption.comment?,
        List.getLast?_cons]

/-- A column has the name of the table that registers it and the options given: the last name, or
else its field; the last default, fixed or generated; and the last comment. -/
theorem Column.define_eq (field table : String) (options : List ColumnOption) (counter : Nat) :
    define field table options counter =
      ⟨field, (options.filterMap ColumnOption.name?).getLast?.getD field, table,
        options.contains .nullable, (options.filterMap (ColumnOption.default? counter)).getLast?,
        (options.filterMap ColumnOption.comment?).getLast?⟩ := by
  rw [define, foldl_apply]
  simp [plain]

/-! ## §2 One registration -/

/-- The arguments of one registration. -/
structure Registration where
  field : String
  options : List ColumnOption
  /-- The counter of the column's generator, if it gets one. -/
  counter : Nat

namespace Registration

/-- The column of an accepted registration on the table of a name. -/
def column (r : Registration) (table : String) : Column :=
  .define r.field table r.options r.counter

theorem field_column (r : Registration) (table : String) : (r.column table).field = r.field := by
  rw [column, Column.define_eq]

theorem table_column (r : Registration) (table : String) : (r.column table).table = table := by
  rw [column, Column.define_eq]

end Registration

namespace Table

/-- Carry out one registration. -/
def attempt (t : Table) (r : Registration) : Except RegisteredTwice (Column × Table) :=
  t.register r.field r.options r.counter

/-- The table after a registration, which is the old one if it was rejected. -/
def after (t : Table) (r : Registration) : Table :=
  match t.attempt r with
  | .ok (_, t') => t'
  | .error _ => t

/-- A registration is rejected with its field and the table's name, or adds the column. -/
theorem attempt_eq (t : Table) (r : Registration) :
    t.attempt r =
      if r.field ∈ t.fields then .error ⟨r.field, t.name⟩
      else .ok (r.column t.name, t.add r.field (r.column t.name)) := by
  simp [attempt, register, Registration.column]

theorem attempt_of_mem {t : Table} {r : Registration} (h : r.field ∈ t.fields) :
    t.attempt r = .error ⟨r.field, t.name⟩ := by
  rw [attempt_eq, if_pos h]

theorem attempt_of_not_mem {t : Table} {r : Registration} (h : r.field ∉ t.fields) :
    t.attempt r = .ok (r.column t.name, t.add r.field (r.column t.name)) := by
  rw [attempt_eq, if_neg h]

/-- A registration is rejected just if its field is taken. -/
theorem exists_attempt_error_iff {t : Table} {r : Registration} :
    (∃ e, t.attempt r = .error e) ↔ r.field ∈ t.fields := by
  rw [attempt_eq]
  split <;> simp_all

/-- A rejection names the field and the table. -/
theorem eq_of_attempt_error {t : Table} {r : Registration} {e : RegisteredTwice}
    (h : t.attempt r = .error e) : e = ⟨r.field, t.name⟩ ∧ r.field ∈ t.fields := by
  have hmem := exists_attempt_error_iff.mp ⟨e, h⟩
  rw [attempt_of_mem hmem] at h
  cases h
  exact ⟨rfl, hmem⟩

/-- A registration that succeeds found its field free, and returns the column that it adds. -/
theorem eq_of_attempt_ok {t t' : Table} {r : Registration} {c : Column}
    (h : t.attempt r = .ok (c, t')) :
    r.field ∉ t.fields ∧ c = r.column t.name ∧ t' = t.add r.field c := by
  rw [attempt_eq] at h
  split at h
  · cases h
  · next hfree =>
    cases h
    exact ⟨hfree, rfl, rfl⟩

/-- A rejected registration leaves the table as it was. -/
theorem after_of_mem {t : Table} {r : Registration} (h : r.field ∈ t.fields) : t.after r = t := by
  rw [after, attempt_of_mem h]

theorem after_of_not_mem {t : Table} {r : Registration} (h : r.field ∉ t.fields) :
    t.after r = t.add r.field (r.column t.name) := by
  rw [after, attempt_of_not_mem h]

theorem fields_after_of_not_mem {t : Table} {r : Registration} (h : r.field ∉ t.fields) :
    (t.after r).fields = t.fields ++ [r.field] := by
  rw [after_of_not_mem h, fields_add]

theorem name_after (t : Table) (r : Registration) : (t.after r).name = t.name := by
  by_cases h : r.field ∈ t.fields
  · rw [after_of_mem h]
  · rw [after_of_not_mem h]
    rfl

/-- One registration keeps the fields apart. -/
theorem nodup_after {t : Table} (h : t.fields.Nodup) (r : Registration) :
    (t.after r).fields.Nodup := by
  by_cases hr : r.field ∈ t.fields
  · rw [after_of_mem hr]
    exact h
  · rw [fields_after_of_not_mem hr, List.nodup_append]
    refine ⟨h, List.nodup_singleton r.field, fun f hf g hg => ?_⟩
    -- The new field stands last, and was not there before.
    obtain rfl := List.mem_singleton.mp hg
    exact ne_of_mem_of_not_mem hf hr

/-! ## §3 Registrations one after another -/

/-- The table after registrations. -/
def afterAll (t : Table) (rs : List Registration) : Table := rs.foldl after t

theorem afterAll_append (t : Table) (rs ss : List Registration) :
    t.afterAll (rs ++ ss) = (t.afterAll rs).afterAll ss := by
  rw [afterAll, List.foldl_append]
  rfl

/-- Registrations keep the fields apart. -/
theorem nodup_afterAll {t : Table} (h : t.fields.Nodup) (rs : List Registration) :
    (t.afterAll rs).fields.Nodup := by
  induction rs generalizing t with
  | nil => exact h
  | cons r rs ih => exact ih (nodup_after h r)

end Table

/-- The registrations that are the first of a field which is not taken. -/
def firstFree (taken : List String) (rs : List Registration) : List Registration :=
  (rs.filter fun r => r.field ∉ taken).eraseDupsBy fun r s => r.field == s.field

/-- A registration of a field that is taken does not count. -/
theorem firstFree_cons_of_mem {taken : List String} {r : Registration} (h : r.field ∈ taken)
    (rs : List Registration) : firstFree taken (r :: rs) = firstFree taken rs := by
  rw [firstFree, List.filter_cons_of_neg (by simpa using h)]
  rfl

/-- The field of a registration that is the first is taken for those after it. -/
theorem firstFree_cons_of_not_mem {taken : List String} {r : Registration} (h : r.field ∉ taken)
    (rs : List Registration) :
    firstFree taken (r :: rs) = r :: firstFree (taken ++ [r.field]) rs := by
  -- Not to repeat the first field is the same as to find it taken.
  have hrest : (fun s : Registration => decide (s.field ∉ taken ++ [r.field])) =
      fun s => decide ((s.field == r.field) = false) && decide (s.field ∉ taken) := by
    funext s
    rw [Bool.eq_iff_iff]
    simp [and_comm]
  rw [firstFree, List.filter_cons_of_pos (by simpa using h), List.eraseDupsBy_cons,
    List.filter_filter, firstFree, hrest]

namespace Table

/-- After registrations, the entries of those that were accepted stand in turn behind the entries
that were there. -/
theorem afterAll_eq (t : Table) (rs : List Registration) :
    t.afterAll rs =
      { t with entries :=
        t.entries ++ (firstFree t.fields rs).map fun r => (r.field, r.column t.name) } := by
  induction rs generalizing t with
  | nil => exact (congrArg (Table.mk t.ident t.name) (List.append_nil t.entries)).symm
  | cons r rs ih =>
    have hstep : t.afterAll (r :: rs) = (t.after r).afterAll rs := rfl
    rw [hstep, ih]
    -- Taken fields add nothing, and close nothing either.
    by_cases h : r.field ∈ t.fields
    · rw [after_of_mem h, firstFree_cons_of_mem h]
    · rw [fields_after_of_not_mem h, name_after, firstFree_cons_of_not_mem h,
        after_of_not_mem h, entries_add, List.map_cons, List.append_assoc]
      rfl

theorem name_afterAll (t : Table) (rs : List Registration) : (t.afterAll rs).name = t.name := by
  rw [afterAll_eq]

/-- No later registration moves or changes an entry. -/
theorem entries_prefix_afterAll (t : Table) (rs : List Registration) :
    t.entries <+: (t.afterAll rs).entries := by
  rw [afterAll_eq]
  exact List.prefix_append ..

/-- An entry after registrations was there before them, or one of them was accepted and added it. -/
theorem mem_entries_afterAll {t : Table} {rs : List Registration} {e : String × Column}
    (h : e ∈ (t.afterAll rs).entries) :
    e ∈ t.entries ∨ ∃ before r later t', rs = before ++ r :: later ∧
      (t.afterAll before).attempt r = .ok (e.2, t') ∧ e.1 = r.field := by
  induction rs generalizing t with
  | nil => exact .inl h
  | cons r rs ih =>
    rcases ih (t := t.after r) h with hafter | ⟨before, s, later, t', rfl, haccepted, hfield⟩
    · by_cases hr : r.field ∈ t.fields
      · rw [after_of_mem hr] at hafter
        exact .inl hafter
      · -- The first call was accepted, and its entry is the only new one.
        rw [after_of_not_mem hr, entries_add, List.mem_append, List.mem_singleton] at hafter
        rcases hafter with hold | rfl
        · exact .inl hold
        · exact .inr ⟨[], r, rs, _, rfl, attempt_of_not_mem hr, rfl⟩
    · -- A later call was made on the table that the first one led to.
      exact .inr ⟨r :: before, s, later, t', rfl, haccepted, hfield⟩

/-! ## §4 Looking columns up -/

/-- Where the fields are apart, a field leads to the one column that stands under it. -/
theorem column?_eq_some_iff {t : Table} (h : t.fields.Nodup) {f : String} {c : Column} :
    t.column? f = some c ↔ (f, c) ∈ t.entries := by
  constructor
  · exact mem_entries_of_column?
  · intro hmem
    -- Some column is found under the field, and it is this one.
    obtain ⟨d, hd⟩ := Option.isSome_iff_exists.mp (mem_fields_iff.mp (List.mem_map_of_mem hmem))
    have heq : (f, d) = (f, c) :=
      List.inj_on_of_nodup_map h (mem_entries_of_column? hd) hmem rfl
    rw [hd, (Prod.mk.inj heq).2]

/-- The column of a registration that was accepted is found under its field from then on. -/
theorem column?_afterAll_of_attempt {start t' : Table} (h : start.fields.Nodup)
    {before later : List Registration} {r : Registration} {c : Column}
    (hr : (start.afterAll before).attempt r = .ok (c, t')) :
    (start.afterAll (before ++ r :: later)).column? r.field = some c := by
  have hafter : (start.afterAll before).after r = t' := by
    rw [after, hr]
  have hc : (r.field, c) ∈ t'.entries := by
    obtain ⟨-, -, rfl⟩ := eq_of_attempt_ok hr
    rw [entries_add]
    exact List.mem_append_right _ (List.mem_singleton.mpr rfl)
  have hsplit : start.afterAll (before ++ r :: later) = t'.afterAll later := by
    rw [afterAll_append, ← hafter]
    rfl
  have hnodup := nodup_afterAll h (before ++ r :: later)
  rw [column?_eq_some_iff hnodup, hsplit]
  -- Later calls leave the entry where it is.
  exact (entries_prefix_afterAll t' later).subset hc

/-! ## §5 Histories -/

/-- How a table came about: it was new, or merged from tables with histories of their own, and then
registrations were tried on it one after another. -/
inductive History where
  | new (ident : String) (name : Option String) (calls : List Registration)
  | merged (name : String) (parts : List History) (calls : List Registration)

namespace History

/-- The registrations on the table itself, accepted or rejected, in the order of the calls. -/
def calls : History → List Registration
  | new _ _ calls | merged _ _ calls => calls

/-- The histories of the tables that it was merged from. -/
def parts : History → List History
  | new _ _ _ => []
  | merged _ parts _ => parts

mutual

/-- The table that a history leads to. -/
def table : History → Table
  | new ident name calls => (Table.empty ident name).afterAll calls
  | merged name parts calls => (Table.merged name (tables parts)).afterAll calls

def tables : List History → List Table
  | [] => []
  | p :: ps => p.table :: tables ps

end

theorem tables_eq_map (ps : List History) : tables ps = ps.map table := by
  induction ps with
  | nil => rfl
  | cons p ps ih => rw [tables, List.map_cons, ih]

/-- The table as it was before any registration on it. -/
def start : History → Table
  | new ident name _ => .empty ident name
  | merged name parts _ => .merged name (parts.map table)

/-- The table of a history is the one it started from, after the calls. -/
theorem table_eq (h : History) : h.table = h.start.afterAll h.calls := by
  cases h with
  | new ident name calls => rfl
  | merged name parts calls => rw [table, tables_eq_map, start, History.calls]

/-- No history starts with two columns of one field. -/
theorem nodup_fields_start : ∀ h : History, h.start.fields.Nodup
  | new _ _ _ => List.nodup_nil
  | merged name parts _ => nodup_fields_merged name (parts.map table)

/-- What a table starts with is what its parts have: a new table starts with nothing, and a merge
adds nothing of its own. -/
theorem exists_part_of_mem_start {h : History} {e : String × Column} (he : e ∈ h.start.entries) :
    ∃ p ∈ h.parts, e ∈ p.table.entries := by
  cases h with
  | new ident name calls => exact absurd he List.not_mem_nil
  | merged name parts calls =>
    obtain ⟨t, ht, het⟩ := mem_table_of_mem_mergeEntries he
    obtain ⟨p, hp, rfl⟩ := List.mem_map.mp ht
    exact ⟨p, hp, het⟩

/-! ## §6 Where columns come from -/

/-- In a history, an entry was registered on a table: a call on the table that the history is of was
accepted, as that table was then, or the entry was registered in the history of a part. -/
inductive Registers : History → Table → String × Column → Prop where
  | own {h : History} {before later : List Registration} {r : Registration} {c : Column}
      {t' : Table} (hcalls : h.calls = before ++ r :: later)
      (haccepted : (h.start.afterAll before).attempt r = .ok (c, t')) :
      Registers h (h.start.afterAll before) (r.field, c)
  | part {h p : History} {owner : Table} {e : String × Column} (hp : p ∈ h.parts)
      (he : Registers p owner e) : Registers h owner e

/-- A column has the name of the table that registered it, and stands under its own field. -/
theorem Registers.stamped {h : History} {owner : Table} {e : String × Column}
    (he : h.Registers owner e) : e.2.table = owner.name ∧ e.1 = e.2.field := by
  induction he with
  | own _ haccepted =>
    obtain ⟨-, rfl, -⟩ := eq_of_attempt_ok haccepted
    exact ⟨Registration.table_column _ _, (Registration.field_column _ _).symm⟩
  | part _ _ ih => exact ih

/-- If what a table starts with was registered in its history, then so was all that it has. -/
theorem exists_registers_of_start {h : History}
    (hstart : ∀ e ∈ h.start.entries, ∃ owner, h.Registers owner e) :
    ∀ e ∈ h.table.entries, ∃ owner, h.Registers owner e := by
  intro e he
  rw [table_eq] at he
  -- The entry was there at the start, or one of the calls put it there.
  rcases mem_entries_afterAll he with hold | ⟨before, r, later, t', hcalls, haccepted, hfield⟩
  · exact hstart e hold
  · refine ⟨h.start.afterAll before, ?_⟩
    have hown := Registers.own hcalls haccepted
    rwa [← hfield] at hown

mutual

/-- Every entry of a table was registered in the table's history, by induction on the history. -/
theorem exists_registers : ∀ h : History, ∀ e ∈ h.table.entries, ∃ owner, h.Registers owner e
  | new ident name calls =>
    exists_registers_of_start fun _ he => absurd he List.not_mem_nil
  | merged name parts calls => by
    apply exists_registers_of_start
    intro e he
    -- The merge took the entry from a part, where it was registered before.
    obtain ⟨p, hp, hep⟩ := exists_part_of_mem_start he
    obtain ⟨owner, howner⟩ := parts_exist_registers parts p hp e hep
    exact ⟨owner, .part hp howner⟩

theorem parts_exist_registers : ∀ ps : List History, ∀ p ∈ ps, ∀ e ∈ p.table.entries,
    ∃ owner, p.Registers owner e
  | [] => fun _ hp => absurd hp List.not_mem_nil
  | p :: ps => List.forall_mem_cons.mpr ⟨exists_registers p, parts_exist_registers ps⟩

end

end History

end Table

/-! ## §7 Views -/

/-- A column without an output alias is written as its qualifier and its SQL name. -/
theorem ColumnRef.render_plain (a : String) (c : Column) (mode : RenderMode)
    (settings : RenderSettings) :
    render mode settings (⟨a, c, none⟩ : ColumnRef) = ⟨a ++ "." ++ c.name, []⟩ := by
  have hinline := render_inline (n := .column ⟨a, c, none⟩) settings rfl mode
  have hslots : Chunk.slots (ColumnRef.item ⟨a, c, none⟩).chunks = [] := ColumnRef.slots_item _
  rw [hslots, ite_self] at hinline
  refine hinline.trans ?_
  cases mode <;> simp [Chunk.concat, Item.chunks, ColumnRef.item, Bare.chunks, String.append_assoc]

namespace Table

variable {t : Table} {a f : String}

/-- A view finds just the fields of its table. -/
theorem exists_column_view_iff : (∃ c, (t.view a).column f = .ok c) ↔ f ∈ t.fields := by
  rw [column_view, mem_fields_iff]
  cases t.column? f <;> simp

/-- What a view finds is the table's column, qualified by the alias. -/
theorem eq_of_column_view_ok {c : ColumnRef} (h : (t.view a).column f = .ok c) :
    ∃ d, t.column? f = some d ∧ c = ⟨a, d, none⟩ := by
  rw [column_view] at h
  cases hd : t.column? f with
  | none => rw [hd] at h; cases h
  | some d => rw [hd] at h; cases h; exact ⟨d, rfl, rfl⟩

/-- What a view does not find it reports with the table's name. -/
theorem eq_of_column_view_error {e : QueryError} (h : (t.view a).column f = .error e) :
    e = .unknownColumn t.name f := by
  rw [column_view] at h
  cases hd : t.column? f with
  | none => rw [hd] at h; cases h; rfl
  | some d => rw [hd] at h; cases h

/-! ## §8 The registry as a whole -/

/-- After any history the registry of a table is consistent.

No field has two columns, and each column stands under its own field.  The entries are those that the
table started with, and then those of the accepted registrations in turn, stamped with this table's
name and their options.  What it started with are entries of the tables that it was merged from, as
they are there; each was registered in the history of that table, and has kept the name of its owner.

A registration is rejected just if its field is taken, and then nothing changes.  A field leads to the
column that was accepted under it.

A view has the same fields in the same order.  It has the column of just the fields that are
registered, qualified by its alias, and otherwise names the table, not the alias, and the field. -/
theorem registry_consistent (h : History) :
    let t := h.table
    t.fields.Nodup ∧
      (∀ e ∈ t.entries, e.1 = e.2.field) ∧
      t.entries =
        h.start.entries ++ (firstFree h.start.fields h.calls).map
          (fun r => (r.field, r.column t.name)) ∧
      (∀ r : Registration, r.column t.name =
        ⟨r.field, (r.options.filterMap ColumnOption.name?).getLast?.getD r.field, t.name,
          r.options.contains .nullable,
          (r.options.filterMap (ColumnOption.default? r.counter)).getLast?,
          (r.options.filterMap ColumnOption.comment?).getLast?⟩) ∧
      (∀ e ∈ h.start.entries, ∃ p ∈ h.parts, e ∈ p.table.entries ∧
        ∃ owner, p.Registers owner e ∧ e.2.table = owner.name) ∧
      (∀ r, (∃ e, t.attempt r = .error e) ↔ r.field ∈ t.fields) ∧
      (∀ r e, t.attempt r = .error e →
        e = ⟨r.field, t.name⟩ ∧ h.start.afterAll (h.calls ++ [r]) = t) ∧
      (∀ f c, t.column? f = some c ↔ (f, c) ∈ t.entries) ∧
      (∀ before r later c t', h.calls = before ++ r :: later →
        (h.start.afterAll before).attempt r = .ok (c, t') →
          c = r.column t.name ∧ t.column? r.field = some c) ∧
      ∀ a, (t.view a).fields = t.fields ∧
        ∀ f, ((∃ c, (t.view a).column f = .ok c) ↔ f ∈ t.fields) ∧
          (∀ c, (t.view a).column f = .ok c → ∃ d, t.column? f = some d ∧ c = ⟨a, d, none⟩ ∧
            ∀ mode settings, render mode settings c = ⟨a ++ "." ++ d.name, []⟩) ∧
          ∀ e, (t.view a).column f = .error e → e = .unknownColumn t.name f := by
  intro t
  have ht : t = h.start.afterAll h.calls := h.table_eq
  have hname : t.name = h.start.name := by rw [ht, name_afterAll]
  have hnodup : t.fields.Nodup := by
    rw [ht]
    exact nodup_afterAll h.nodup_fields_start h.calls
  refine ⟨hnodup, fun e he => ?_, ?_, fun r => ?_, fun e he => ?_,
    fun r => exists_attempt_error_iff, fun r e he => ?_, fun f c => column?_eq_some_iff hnodup, ?_,
    fun a => ⟨t.fields_view a, fun f => ⟨exists_column_view_iff, fun c hc => ?_, fun e he => ?_⟩⟩⟩
  · obtain ⟨owner, howner⟩ := h.exists_registers e he
    exact howner.stamped.2
  · rw [hname, ht, afterAll_eq]
  · exact Column.define_eq r.field t.name r.options r.counter
  · -- The part that the entry was merged from has a history in which it was registered.
    obtain ⟨p, hp, hep⟩ := History.exists_part_of_mem_start he
    obtain ⟨owner, howner⟩ := p.exists_registers e hep
    exact ⟨p, hp, hep, owner, howner, howner.stamped.1⟩
  · obtain ⟨rfl, hmem⟩ := eq_of_attempt_error he
    rw [afterAll_append, ← ht]
    exact ⟨rfl, after_of_mem hmem⟩
  · intro before r later c t' hcalls hr
    obtain ⟨-, hc, -⟩ := eq_of_attempt_ok hr
    rw [name_afterAll, ← hname] at hc
    refine ⟨hc, ?_⟩
    rw [ht, hcalls]
    exact column?_afterAll_of_attempt h.nodup_fields_start hr
  · obtain ⟨d, hd, rfl⟩ := eq_of_column_view_ok hc
    exact ⟨d, hd, rfl, ColumnRef.render_plain a d⟩
  · exact eq_of_column_view_error he

end Table

namespace Samples

/-- Guests, with a column that stays behind in a merge. -/
def guests : Table.History :=
  .new "Guest" (some "guests") [⟨"id", [], 0⟩, ⟨"_seen", [], 1⟩, ⟨"mail", [.named "email"], 2⟩]

/-- Notes on guests, merged twice: the guests first, and then what came out of that.  The field of the
first registration is merged already, and that of the last is registered before. -/
def guestNotes : Table.History :=
  .merged "G" [.merged "V" [guests] [⟨"visits", [], 3⟩]]
    [⟨"mail", [.nullable], 4⟩,
      ⟨"note", [.named "remark", .default (.text "-"), .named "text", .generator [.text "+"]], 5⟩,
      ⟨"_seen", [.comment "today"], 6⟩, ⟨"note", [], 7⟩]

end Samples

open Samples (guestNotes) in
/-- Two of four registrations on a merge are accepted.  The column of the mail came through two merges
and keeps the name of the guests, the later name and default of the note count, and a view by another
name finds the mail and misses what is not there. -/
theorem registry_of_guestNotes :
    let t := guestNotes.table
    t.fields = ["id", "mail", "visits", "note", "_seen"] ∧
      t.column? "note" =
        some ⟨"note", "text", "G", false, some (.generated ⟨5, [.text "+"]⟩), none⟩ ∧
      t.attempt ⟨"mail", [], 8⟩ = .error ⟨"mail", "G"⟩ ∧
      (∃ c, ("mail", c) ∈ guestNotes.start.entries ∧
        (∃ p ∈ guestNotes.parts, ("mail", c) ∈ p.table.entries ∧
          ∃ owner, p.Registers owner ("mail", c) ∧ owner.name = "guests") ∧
        (t.view "v").column "mail" = .ok ⟨"v", c, none⟩ ∧
        (render .literal ⟨true, .allSources⟩ (⟨"v", c, none⟩ : ColumnRef)).sql = "v.email") ∧
      (t.view "v").column "seen" = .error (.unknownColumn "G" "seen") := by
  intro t
  obtain ⟨-, -, hentries, hdefined, hmerged, hrejected, herror, -, haccepted, hview⟩ :=
    Table.registry_consistent guestNotes
  obtain ⟨-, hcolumn⟩ := hview "v"
  have hfields : t.fields = ["id", "mail", "visits", "note", "_seen"] :=
    (congrArg (List.map Prod.fst) hentries).trans (by decide)
  refine ⟨hfields, ?_, ?_, ?_, ?_⟩
  · obtain ⟨-, hnote⟩ := haccepted [_] _ [_, _] _ _ rfl rfl
    exact hnote.trans ((congrArg some (hdefined _)).trans (by decide))
  · obtain ⟨e, he⟩ := (hrejected ⟨"mail", [], 8⟩).mpr (by rw [hfields]; decide)
    rw [he, (herror _ e he).1]
    rfl
  · let mail : Column := .define "mail" "guests" [.named "email"] 2
    have hmail : ("mail", mail) ∈ guestNotes.start.entries := by decide
    obtain ⟨p, hp, hep, owner, howner, htable⟩ := hmerged _ hmail
    obtain ⟨hfound, hshown, -⟩ := hcolumn "mail"
    obtain ⟨c, hc⟩ := hfound.mpr (by rw [hfields]; decide)
    obtain ⟨d, hd, rfl, hrender⟩ := hshown c hc
    obtain rfl : d = mail := Option.some.inj (hd.symm.trans (by decide))
    exact ⟨mail, hmail, ⟨p, hp, hep, owner, howner, htable.symm⟩, hc,
      congrArg Rendered.sql (hrender _ _)⟩
  · obtain ⟨hfound, -, hmissing⟩ := hcolumn "seen"
    cases hc : (t.view "v").column "seen" with
    | ok c => exact absurd (hfound.mp ⟨c, hc⟩) (by rw [hfields]; decide)
    | error e => rw [hmissing e hc]; rfl

end SqlSelect
