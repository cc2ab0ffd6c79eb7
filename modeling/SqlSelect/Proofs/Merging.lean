import Mathlib.Data.List.Nodup
import SqlSelect.Schema.Table

/-!
# Merging Tables

A merged table is the ordered union of several: columns are added one after another, a field that is
reserved or taken is passed over, and so the first column of a field wins.  Merging makes no columns
and changes none, and tables that were merged before are merged as their parts.

## Main definitions

- `Closed` — a merge adds nothing under a field any more
- `MergesAs` — two lists of entries are the same thing to a merge, whatever is merged already

## Main statements

- `Table.mem_table_of_mem_mergeEntries` — each entry of a merge comes from one of the tables
- `Table.fields_merged`, `Table.column?_merged` — the fields and the columns of a merged table
- `Table.merged_merged` — merging merged tables is merging all their parts
- `Table.merged_first_wins` — a merged table is the ordered union of its parts
-/

namespace SqlSelect

/-! ## §1 Adding a column -/

/-- A merge adds nothing under this field: the field is reserved, or it is there already. -/
def Closed (merged : List (String × Column)) (f : String) : Prop :=
  isReserved f = true ∨ f ∈ merged.map Prod.fst

instance (merged : List (String × Column)) (f : String) : Decidable (Closed merged f) :=
  inferInstanceAs (Decidable (_ ∨ _))

/-- In the beginning only reserved fields are closed. -/
theorem closed_nil {f : String} : Closed [] f ↔ isReserved f = true := by simp [Closed]

theorem closed_append_singleton {merged : List (String × Column)} {e : String × Column}
    {f : String} : Closed (merged ++ [e]) f ↔ f = e.1 ∨ Closed merged f := by
  simp only [Closed, List.map_append, List.map_cons, List.map_nil, List.mem_append,
    List.mem_singleton]
  exact or_assoc.symm.trans or_comm

namespace Table

/-- An entry is passed over just if its field is closed. -/
theorem mergeEntry_eq (merged : List (String × Column)) (e : String × Column) :
    mergeEntry merged e = if Closed merged e.1 then merged else merged ++ [e] := by
  have hiff : (isReserved e.1 || (merged.map Prod.fst).contains e.1) = true ↔
      Closed merged e.1 := by
    rw [Closed, Bool.or_eq_true, List.contains_iff_mem]
  exact if_congr hiff rfl rfl

theorem mem_of_mem_mergeEntry {merged : List (String × Column)} {d e : String × Column}
    (h : d ∈ mergeEntry merged e) : d ∈ merged ∨ d = e := by
  unfold mergeEntry at h
  split at h
  · exact .inl h
  · simpa using h

/-- One step of a merge keeps the fields apart. -/
theorem nodup_mergeEntry {merged : List (String × Column)} (h : (merged.map Prod.fst).Nodup)
    (e : String × Column) : ((mergeEntry merged e).map Prod.fst).Nodup := by
  rw [mergeEntry_eq]
  by_cases he : Closed merged e.1
  · rw [if_pos he]
    exact h
  · -- The field of an entry that is added is not there yet.
    have hnew : e.1 ∉ merged.map Prod.fst := fun hmem => he (.inr hmem)
    rw [if_neg he, List.map_append, List.nodup_append]
    refine ⟨h, List.nodup_singleton e.1, fun f hf g hg => ?_⟩
    obtain rfl := List.mem_singleton.mp hg
    exact ne_of_mem_of_not_mem hf hnew

/-! ## §2 Adding columns one after another -/

/-- Merging makes no columns and moves none to another field: each entry comes from one of the
tables, as it is there. -/
theorem mem_table_of_mem_mergeEntries {tables : List Table} {e : String × Column}
    (h : e ∈ mergeEntries tables) : ∃ t ∈ tables, e ∈ t.entries := by
  have hfold : ∀ (es merged : List (String × Column)), e ∈ es.foldl mergeEntry merged →
      e ∈ merged ∨ e ∈ es := by
    intro es
    -- The entries that are already merged vary along the fold.
    induction es with
    | nil => exact fun merged he => .inl he
    | cons d es ih =>
      intro merged he
      obtain he | he := ih _ he
      · obtain he | rfl := mem_of_mem_mergeEntry he
        · exact .inl he
        · exact .inr (List.mem_cons_self ..)
      · exact .inr (List.mem_cons_of_mem _ he)
  obtain he | he := hfold _ _ h
  · exact absurd he List.not_mem_nil
  · exact List.mem_flatMap.mp he

theorem mem_table_of_mem_columns_merged {name : String} {tables : List Table} {c : Column}
    (h : c ∈ (merged name tables).columns) : ∃ t ∈ tables, c ∈ t.columns := by
  obtain ⟨e, he, rfl⟩ := List.mem_map.mp h
  obtain ⟨t, ht, het⟩ := mem_table_of_mem_mergeEntries he
  exact ⟨t, ht, List.mem_map_of_mem het⟩

/-- The fields after a merge: those that were there, and then the new ones as they first occur. -/
theorem fields_foldl_mergeEntry (es merged : List (String × Column)) :
    (es.foldl mergeEntry merged).map Prod.fst =
      merged.map Prod.fst ++
        ((es.map Prod.fst).filter fun f => ¬ Closed merged f).eraseDups := by
  -- What is there already varies along the fold.
  induction es generalizing merged with
  | nil => simp
  | cons e es ih =>
    rw [List.foldl_cons, ih, mergeEntry_eq, List.map_cons]
    by_cases he : Closed merged e.1
    · rw [if_pos he, List.filter_cons_of_neg (by simpa using he)]
    · have hrest : ∀ f, decide (¬ Closed (merged ++ [e]) f) =
          (!f == e.1 && decide (¬ Closed merged f)) := by
        intro f
        rw [Bool.eq_iff_iff]
        simp [closed_append_singleton]
      rw [if_neg he, List.filter_cons_of_pos (by simpa using he), List.eraseDups_cons,
        List.filter_filter, List.map_append, List.append_assoc]
      simp only [hrest]
      rfl

/-- A field is there after a merge if it was before, or came in while it was not closed. -/
theorem mem_fields_foldl_mergeEntry {es merged : List (String × Column)} {f : String} :
    f ∈ (es.foldl mergeEntry merged).map Prod.fst ↔
      f ∈ merged.map Prod.fst ∨ f ∈ es.map Prod.fst ∧ ¬ Closed merged f := by
  rw [fields_foldl_mergeEntry, List.mem_append, List.mem_eraseDups, List.mem_filter,
    decide_eq_true_iff]

/-- Whether a field is found says just whether it is there. -/
theorem isSome_lookup_iff {es : List (String × Column)} {f : String} :
    (es.lookup f).isSome = true ↔ f ∈ es.map Prod.fst := by
  rw [List.lookup_isSome_iff, List.mem_map]
  simp only [beq_iff_eq]
  exact exists_congr fun e => and_congr_right' eq_comm

/-- What one step finds under a field: what was there, or else the entry, if it is not reserved. -/
theorem lookup_mergeEntry (f : String) (merged : List (String × Column)) (e : String × Column) :
    (mergeEntry merged e).lookup f =
      (merged.lookup f).or (if isReserved f then none else [e].lookup f) := by
  rw [mergeEntry_eq]
  by_cases hf : e.1 = f
  · subst hf
    by_cases hreserved : isReserved e.1 = true
    · simp [Closed, hreserved]
    · by_cases htaken : e.1 ∈ merged.map Prod.fst
      · -- The column that is there comes first.
        have hclosed : Closed merged e.1 := .inr htaken
        rw [if_pos hclosed, Option.or_of_isSome (isSome_lookup_iff.mpr htaken)]
      · have hfree : ¬ Closed merged e.1 := not_or.mpr ⟨hreserved, htaken⟩
        rw [if_neg hfree, if_neg hreserved, List.lookup_append]
  · -- An entry under another field changes nothing, whether it is added or not.
    have hother : [e].lookup f = none := by
      rw [List.lookup_eq_none_iff]
      simpa using Ne.symm hf
    split <;> simp [List.lookup_append, hother]

/-- The column of a field after a merge: the one that was there, or else the first new one. -/
theorem lookup_foldl_mergeEntry (f : String) (es merged : List (String × Column)) :
    (es.foldl mergeEntry merged).lookup f =
      (merged.lookup f).or (if isReserved f then none else es.lookup f) := by
  induction es generalizing merged with
  | nil => simp
  | cons e es ih =>
    -- A field is found in the first entry, or in the others; what is merged already comes before
    -- both.
    have hsplit : (e :: es).lookup f = ([e].lookup f).or (es.lookup f) := by
      rw [← List.singleton_append, List.lookup_append]
    rw [List.foldl_cons, ih, lookup_mergeEntry, Option.or_assoc, hsplit]
    split <;> rfl

/-- A field is found in several tables, one behind the other, where it is first found. -/
theorem lookup_flatMap_entries (tables : List Table) (f : String) :
    (tables.flatMap (·.entries)).lookup f = tables.findSome? (·.column? f) := by
  induction tables with
  | nil => rfl
  | cons t ts ih =>
    rw [List.flatMap_cons, List.lookup_append, ih, List.findSome?_cons, column?]
    cases t.entries.lookup f <;> rfl

end Table

/-! ## §3 Merging what is merged already -/

/-- Two lists of entries are the same thing to a merge, whatever is merged already. -/
def MergesAs (es ds : List (String × Column)) : Prop :=
  ∀ merged : List (String × Column),
    es.foldl Table.mergeEntry merged = ds.foldl Table.mergeEntry merged

/-- What merges alike part by part merges alike as a whole. -/
theorem MergesAs.flatMap {α : Type} {f g : α → List (String × Column)} {xs : List α}
    (h : ∀ x ∈ xs, MergesAs (f x) (g x)) : MergesAs (xs.flatMap f) (xs.flatMap g) := by
  intro merged
  induction xs generalizing merged with
  | nil => rfl
  | cons x xs ih =>
    rw [List.flatMap_cons, List.flatMap_cons, List.foldl_append, List.foldl_append,
      h x (List.mem_cons_self ..)]
    exact ih (fun y hy => h y (List.mem_cons_of_mem _ hy)) _

namespace Table

/-- What is closed before some entries are merged behind others is closed after it. -/
theorem closed_foldl_mergeEntry {es merged : List (String × Column)} {f : String}
    (h : Closed es f) : Closed (es.foldl mergeEntry merged) f := by
  rcases h with hreserved | htaken
  · exact .inl hreserved
  · by_cases hclosed : Closed merged f
    · rcases hclosed with hreserved | hthere
      · exact .inl hreserved
      · exact .inr (mem_fields_foldl_mergeEntry.mpr (.inl hthere))
    · exact .inr (mem_fields_foldl_mergeEntry.mpr (.inr ⟨htaken, hclosed⟩))

/-- An entry that is merged first on the left is merged last on the right. -/
theorem foldl_mergeEntry_mergeEntry (start merged : List (String × Column))
    (e : String × Column) :
    (mergeEntry start e).foldl mergeEntry merged =
      mergeEntry (start.foldl mergeEntry merged) e := by
  rw [mergeEntry_eq start]
  by_cases hclosed : Closed start e.1
  · -- The entry is passed over on the left, and on the right its field is closed by then.
    rw [if_pos hclosed, mergeEntry_eq, if_pos (closed_foldl_mergeEntry hclosed)]
  · rw [if_neg hclosed, List.foldl_append, List.foldl_cons, List.foldl_nil]

/-- Merging is associative. -/
theorem foldl_mergeEntry_assoc (es start merged : List (String × Column)) :
    (es.foldl mergeEntry start).foldl mergeEntry merged =
      es.foldl mergeEntry (start.foldl mergeEntry merged) := by
  induction es generalizing start with
  | nil => rfl
  | cons e es ih => rw [List.foldl_cons, ih, foldl_mergeEntry_mergeEntry, List.foldl_cons]

/-- Entries that are merged on their own first are merged as they were. -/
theorem mergesAs_mergeEntries (tables : List Table) :
    MergesAs (mergeEntries tables) (tables.flatMap (·.entries)) :=
  foldl_mergeEntry_assoc _ []

/-- Merging merged tables is merging all their parts. -/
theorem merged_merged (name : String) (groups : List (String × List Table)) :
    merged name (groups.map fun g => merged g.1 g.2) = merged name (groups.flatMap (·.2)) := by
  have hparts : MergesAs (groups.flatMap fun g => mergeEntries g.2)
      (groups.flatMap fun g => g.2.flatMap (·.entries)) :=
    MergesAs.flatMap fun g _ => mergesAs_mergeEntries g.2
  -- Each group merges as the entries of its tables, so the grouping leaves no trace.
  have hentries : mergeEntries (groups.map fun g => merged g.1 g.2) =
      mergeEntries (groups.flatMap (·.2)) := by
    rw [mergeEntries, mergeEntries, List.flatMap_map, List.flatMap_assoc]
    exact hparts []
  rw [merged, merged, hentries]

/-- The fields of a merged table: those of the tables that are not reserved, as they first occur. -/
theorem fields_merged (name : String) (tables : List Table) :
    (merged name tables).fields =
      ((tables.flatMap fields).filter fun f => !isReserved f).eraseDups := by
  have hfields : (tables.flatMap (·.entries)).map Prod.fst = tables.flatMap fields :=
    List.map_flatMap
  -- At the start of a merge only the reserved fields are closed.
  have hkept : (fun f => decide (¬ Closed [] f)) = fun f => !isReserved f := by
    funext f
    simp [closed_nil]
  show (mergeEntries tables).map Prod.fst = _
  rw [mergeEntries, fields_foldl_mergeEntry, hfields, hkept]
  rfl

/-- The column of a field in a merged table is that of the first table which has the field. -/
theorem column?_merged (name : String) (tables : List Table) (f : String) :
    (merged name tables).column? f =
      if isReserved f then none else tables.findSome? (·.column? f) := by
  show (mergeEntries tables).lookup f = _
  rw [mergeEntries, lookup_foldl_mergeEntry, lookup_flatMap_entries]
  rfl

/-! ## §4 Repeated tables, and the order of tables -/

/-- A table has a column of just those fields that it has. -/
theorem mem_fields_iff {t : Table} {f : String} : f ∈ t.fields ↔ (t.column? f).isSome = true :=
  isSome_lookup_iff.symm

/-- A table has no column of a field that it does not have. -/
theorem column?_eq_none_iff {t : Table} {f : String} : t.column? f = none ↔ f ∉ t.fields := by
  rw [mem_fields_iff, Option.not_isSome_iff_eq_none]

/-- No merged table has two columns of one field. -/
theorem nodup_fields_merged (name : String) (tables : List Table) :
    (merged name tables).fields.Nodup := by
  -- Each step keeps the fields apart, from the empty list on.
  have hfold : ∀ es merged : List (String × Column), (merged.map Prod.fst).Nodup →
      ((es.foldl mergeEntry merged).map Prod.fst).Nodup := by
    intro es
    induction es with
    | nil => exact fun merged h => h
    | cons e es ih => exact fun merged h => ih _ (nodup_mergeEntry h e)
  exact hfold _ [] List.nodup_nil

/-- A field is missing from a merged table if it is reserved or no table has it. -/
theorem column?_merged_eq_none_iff {name : String} {tables : List Table} {f : String} :
    (merged name tables).column? f = none ↔
      isReserved f = true ∨ ∀ t ∈ tables, f ∉ t.fields := by
  rw [column?_merged]
  by_cases hreserved : isReserved f = true
  · simp [hreserved]
  · simp [hreserved, column?_eq_none_iff]

/-- Entries of closed fields are passed over. -/
theorem foldl_mergeEntry_of_closed {es merged : List (String × Column)}
    (h : ∀ e ∈ es, Closed merged e.1) : es.foldl mergeEntry merged = merged := by
  induction es with
  | nil => rfl
  | cons e es ih =>
    have he : Closed merged e.1 := h e (List.mem_cons_self ..)
    rw [List.foldl_cons, mergeEntry_eq, if_pos he]
    exact ih fun d hd => h d (List.mem_cons_of_mem _ hd)

/-- A table that is merged already adds nothing. -/
theorem mergeEntries_append_of_mem {tables : List Table} {t : Table} (ht : t ∈ tables) :
    mergeEntries (tables ++ [t]) = mergeEntries tables := by
  have hclosed : ∀ e ∈ t.entries, Closed (mergeEntries tables) e.1 := by
    intro e he
    by_cases hreserved : isReserved e.1 = true
    · exact .inl hreserved
    · -- The table has the field, so the merge has taken a column under it.
      have hmem : e.1 ∈ (tables.flatMap (·.entries)).map Prod.fst :=
        List.mem_map_of_mem (List.mem_flatMap.mpr ⟨t, ht, he⟩)
      have hfree : ¬ Closed [] e.1 := fun h => hreserved (closed_nil.mp h)
      exact .inr (mem_fields_foldl_mergeEntry.mpr (.inr ⟨hmem, hfree⟩))
  have hsplit : (tables ++ [t]).flatMap (·.entries) =
      tables.flatMap (·.entries) ++ t.entries := by
    rw [List.flatMap_append, List.flatMap_singleton]
  rw [mergeEntries, hsplit, List.foldl_append]
  exact foldl_mergeEntry_of_closed hclosed

/-- The tables share no field that a merge carries over. -/
def Apart (s t : Table) : Prop := ∀ f ∈ s.fields, f ∈ t.fields → isReserved f = true

theorem Apart.symm {s t : Table} (h : s.Apart t) : t.Apart s :=
  fun f ht hs => h f hs ht

/-- Where tables are apart, at most one of them has the column of a field, so that their order does not
matter. -/
theorem findSome?_column?_of_perm {ts us : List Table} (hperm : ts.Perm us)
    (hapart : ts.Pairwise Apart) {f : String} (hf : isReserved f = false) :
    us.findSome? (·.column? f) = ts.findSome? (·.column? f) := by
  induction hperm with
  | nil => rfl
  | cons t _ ih =>
    rw [List.findSome?_cons, List.findSome?_cons, ih (List.pairwise_cons.mp hapart).2]
  | swap s t ts =>
    have hts : t.Apart s := (List.pairwise_cons.mp hapart).1 s (List.mem_cons_self ..)
    simp only [List.findSome?_cons]
    cases hs : s.column? f with
    | none => rfl
    | some c =>
      -- The first table has the field, so the second one cannot have it as well.
      have hfs : f ∈ s.fields := mem_fields_iff.mpr (by rw [hs]; rfl)
      have hft : f ∉ t.fields := by
        intro hft
        rw [hts f hft hfs] at hf
        cases hf
      rw [column?_eq_none_iff.mpr hft]
  | trans h₁ _ ih₁ ih₂ =>
    have hapart₂ := (List.Perm.pairwise_iff Apart.symm h₁).mp hapart
    exact (ih₂ hapart₂).trans (ih₁ hapart)

/-- The order of tables that are apart does not matter for any column. -/
theorem column?_merged_of_perm {name : String} {ts us : List Table} (hperm : ts.Perm us)
    (hapart : ts.Pairwise Apart) (f : String) :
    (merged name us).column? f = (merged name ts).column? f := by
  rw [column?_merged, column?_merged]
  by_cases hreserved : isReserved f = true
  · rw [if_pos hreserved, if_pos hreserved]
  · rw [if_neg hreserved, if_neg hreserved]
    exact findSome?_column?_of_perm hperm hapart (Bool.eq_false_iff.mpr hreserved)

/-! ## §5 The ordered union -/

/-- A field is reserved just if it begins with an underscore. -/
theorem isReserved_iff {f : String} : isReserved f = true ↔ ['_'] <+: f.toList := by
  unfold isReserved
  cases f.toList with
  | nil => simp
  | cons c cs =>
    have hhead : ((c :: cs).head? == some '_') = true ↔ c = '_' := by simp
    rw [hhead, List.cons_prefix_cons]
    exact ⟨fun hc => ⟨hc.symm, List.nil_prefix⟩, fun h => h.1.symm⟩

/-- A merged table is the ordered union of its parts.  Its fields are those of the parts that do not
start with an underscore, each once and as they first occur.  The column of a field is that of the first
part which has the field, as it is there, and there is none just if the field is reserved or no part has
it.  Merging a part once more changes nothing, and if the parts share no field that is carried over, any
order of them gives the same columns. -/
theorem merged_first_wins (name : String) (tables : List Table) :
    (merged name tables).fields.Nodup ∧
      (merged name tables).fields =
        ((tables.flatMap fields).filter fun f => !isReserved f).eraseDups ∧
      (∀ f, (merged name tables).column? f =
        if isReserved f then none else tables.findSome? (·.column? f)) ∧
      (∀ f, (merged name tables).column? f = none ↔
        isReserved f = true ∨ ∀ t ∈ tables, f ∉ t.fields) ∧
      (∀ f, isReserved f = true ↔ ['_'] <+: f.toList) ∧
      (∀ t ∈ tables, (merged name (tables ++ [t])).entries = (merged name tables).entries) ∧
      (∀ t, (merged name [t, t]).entries = (merged name [t]).entries) ∧
      ∀ tables', tables.Perm tables' → tables.Pairwise Apart →
        ∀ f, (merged name tables').column? f = (merged name tables).column? f := by
  -- What is left are the tables that add nothing: one of those merged, and a second copy.
  refine ⟨nodup_fields_merged name tables, fields_merged name tables, column?_merged name tables,
    fun f => column?_merged_eq_none_iff, fun f => isReserved_iff, fun t ht => ?_, fun t => ?_,
    fun tables' hperm hapart f => column?_merged_of_perm hperm hapart f⟩
  · exact mergeEntries_append_of_mem ht
  · exact mergeEntries_append_of_mem (List.mem_singleton.mpr rfl)

end Table

/-! ## §6 A merged table that is merged again -/

instance (s t : Table) : Decidable (s.Apart t) :=
  inferInstanceAs (Decidable (∀ f ∈ s.fields, f ∈ t.fields → isReserved f = true))

namespace Samples

/-- Readers, whose column of a key starts with an underscore in SQL. -/
def readers : Table :=
  ⟨"Reader", "readers",
    [("key", .define "key" "readers" [.named "_key"] 0), ("_seen", .plain "_seen" "readers")]⟩

/-- The readers, merged, with a column of their own for a mark. -/
def markedReaders : Table :=
  let m := Table.merged "R" [readers]
  { m with entries := m.entries ++ [("mark", .plain "mark" "R")] }

/-- Votes, which share no field with the readers but a reserved one. -/
def votes : Table :=
  ⟨"Vote", "votes", [("points", .plain "points" "votes"), ("_seen", .plain "_seen" "votes")]⟩

end Samples

open Samples (readers markedReaders votes) in
/-- A merged table that a column was registered on is merged once more.  Its key wins over that of the
readers and keeps its SQL name, and beside the votes the order does not matter. -/
theorem merged_of_markedReaders :
    (Table.merged "M" [markedReaders, votes, readers]).fields = ["key", "mark", "points"] ∧
      (Table.merged "M" [markedReaders, votes, readers]).column? "key" =
        some (.define "key" "readers" [.named "_key"] 0) ∧
      (Table.merged "M" [markedReaders, votes, readers]).column? "_seen" = none ∧
      (Table.merged "M" [votes, markedReaders]).column? "mark" =
        (Table.merged "M" [markedReaders, votes]).column? "mark" := by
  obtain ⟨-, hfields, hcolumn, hnone, -⟩ :=
    Table.merged_first_wins "M" [markedReaders, votes, readers]
  obtain ⟨-, -, -, -, -, -, -, horder⟩ := Table.merged_first_wins "M" [markedReaders, votes]
  have hreserved : isReserved "_seen" = true := by decide
  have hapart : [markedReaders, votes].Pairwise Table.Apart := by decide
  refine ⟨hfields.trans (by decide), (hcolumn "key").trans (by decide),
    (hnone "_seen").mpr (.inl hreserved), ?_⟩
  exact horder [votes, markedReaders] (.swap votes markedReaders []) hapart "mark"

end SqlSelect
