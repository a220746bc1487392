/- Accepted documents: what each step of reading has found where it reports no fault. -/
import SchemaScript.Document.Text
import Mathlib.Data.List.Forall2

namespace SchemaScript.Document

theorem bind_eq_ok {ε α β : Type} {x : Except ε α} {f : α → Except ε β} {b : β} :
    (x >>= f) = .ok b ↔ ∃ a, x = .ok a ∧ f a = .ok b := by
  cases x with
  | error e =>
      constructor
      · intro h
        cases h
      · rintro ⟨a, h, _⟩
        cases h
  | ok a =>
      constructor
      · exact fun h => ⟨a, rfl, h⟩
      · rintro ⟨a', h, hf⟩
        cases h
        exact hf

theorem nameOf_eq_ok {role : NameRole} {key : Value} {name : Text} :
    nameOf role key = .ok name ↔ key.text? = some name := by
  unfold nameOf
  cases key.text? with
  | none => simp
  | some t => simp

theorem columnText_eq_ok {table column : Text} {raw : Value} {t : Text} :
    columnText table column raw = .ok t ↔
      t ≠ [] ∧ ∃ written, raw.text? = some written ∧ Text.trim written = t := by
  unfold columnText
  split
  · simp [Value.text?]
  · simp [Value.text?]
  · cases raw.text? with
    | none => simp [Text.trim, Text.trimStart, Text.trimEnd, Text.dropRightWhile]
    | some written =>
        simp only [Option.getD_some, List.isEmpty_iff, Option.some.injEq, exists_eq_left']
        split
        · next h => simp [h]
        · next h =>
          simp only [Except.ok.injEq]
          constructor
          · rintro rfl
            exact ⟨h, rfl⟩
          · exact fun h => h.2

theorem readColumn_eq_ok {defs : Definitions} {table : Text} {entry : Value × Value}
    {c : ColumnReading} :
    readColumn defs table entry.1 entry.2 = .ok c ↔
      entry.1.text? = some c.name ∧
        ∃ text, (text ≠ [] ∧ ∃ written, entry.2.text? = some written ∧ Text.trim written = text) ∧
          ∃ expanded, defs.expand? text = some expanded ∧
            ∃ plain, takeReference? expanded = some (c.reference, plain) ∧
              Column.scan plain = c.spec := by
  unfold readColumn
  simp only [bind_eq_ok, nameOf_eq_ok, columnText_eq_ok]
  constructor
  · rintro ⟨name, hname, text, htext, h⟩
    cases he : defs.expand? text with
    | none => simp [he] at h
    | some expanded =>
        cases hr : takeReference? expanded with
        | none => simp [he, hr] at h
        | some taken =>
            obtain ⟨reference, plain⟩ := taken
            simp only [he, hr] at h
            cases h
            exact ⟨hname, text, htext, expanded, he, plain, hr, rfl⟩
  · rintro ⟨hname, text, htext, expanded, he, plain, hr, hs⟩
    refine ⟨c.name, hname, text, htext, ?_⟩
    simp only [he, hr, hs]
    rfl

/-- How many of the columns count up by themselves. -/
def countingColumns (columns : List ColumnReading) : Nat :=
  (columns.filter (·.spec.autoIncrement)).length

theorem countingColumns_cons (c : ColumnReading) (columns : List ColumnReading) :
    countingColumns (c :: columns) = c.spec.autoIncrement.toNat + countingColumns columns := by
  unfold countingColumns
  cases h : c.spec.autoIncrement with
  | false => simp [h]
  | true => simp [h, Nat.add_comm]

/-- One more column that counts up by itself is one too many if there was one before. -/
theorem counting_le_one_iff (before here : Bool) (later : Nat) :
    before.toNat + (here.toNat + later) ≤ 1 ↔
      (before && here) = false ∧ (before || here).toNat + later ≤ 1 := by
  cases before with
  | false =>
      simp only [Bool.false_and, Bool.false_or, Bool.toNat_false, Nat.zero_add, true_and]
  | true =>
      cases here with
      | false => simp only [Bool.and_false, Bool.or_false, Bool.toNat_false, Nat.zero_add, true_and]
      | true =>
          simp only [Bool.and_self, Bool.true_eq_false, false_and, iff_false, Bool.toNat_true]
          omega

theorem readColumns_cons_eq_ok {defs : Definitions} {table : Text} {counting : Bool}
    {entry : Value × Value} {rest : List (Value × Value)} {columns : List ColumnReading} :
    readColumns defs table counting (entry :: rest) = .ok columns ↔
      ∃ c later, columns = c :: later ∧ readColumn defs table entry.1 entry.2 = .ok c ∧
        (counting && c.spec.autoIncrement) = false ∧ c.spec.dataType ≠ [] ∧
          readColumns defs table (counting || c.spec.autoIncrement) rest = .ok later := by
  simp only [readColumns, bind_eq_ok]
  constructor
  · rintro ⟨c, hc, h⟩
    split at h
    · cases h
    · next hcount =>
      split at h
      · cases h
      · next htype =>
        obtain ⟨later, hlater, h⟩ := bind_eq_ok.1 h
        cases h
        exact ⟨c, later, rfl, hc, by simpa using hcount, by simpa using htype, hlater⟩
  · rintro ⟨c, later, rfl, hc, hcount, htype, hlater⟩
    refine ⟨c, hc, ?_⟩
    simp only [hcount, Bool.false_eq_true, if_false, List.isEmpty_iff, htype, hlater]
    rfl

/-- Columns are read one by one; each has a type, and at most one counts up by itself. -/
theorem readColumns_eq_ok {defs : Definitions} {table : Text} {counting : Bool}
    {entries : List (Value × Value)} {columns : List ColumnReading} :
    readColumns defs table counting entries = .ok columns ↔
      List.Forall₂ (fun entry c => readColumn defs table entry.1 entry.2 = .ok c) entries columns ∧
        (∀ c ∈ columns, c.spec.dataType ≠ []) ∧ counting.toNat + countingColumns columns ≤ 1 := by
  -- a column that counts up is carried over to the columns behind it
  induction entries generalizing counting columns with
  | nil =>
      simp only [readColumns, Except.ok.injEq, List.forall₂_nil_left_iff]
      constructor
      · rintro rfl
        cases counting <;> simp [countingColumns]
      · exact fun h => h.1.symm
  | cons entry rest ih =>
      rw [readColumns_cons_eq_ok]
      constructor
      · rintro ⟨c, later, rfl, hc, hcount, htype, hlater⟩
        obtain ⟨hall, htypes, hle⟩ := ih.1 hlater
        refine ⟨.cons hc hall, List.forall_mem_cons.2 ⟨htype, htypes⟩, ?_⟩
        rw [countingColumns_cons, counting_le_one_iff]
        exact ⟨hcount, hle⟩
      · rintro ⟨hall, htypes, hle⟩
        cases hall with
        | @cons _ c _ later hc hall =>
            rw [countingColumns_cons, counting_le_one_iff] at hle
            obtain ⟨htype, htypes⟩ := List.forall_mem_cons.1 htypes
            exact ⟨c, later, rfl, hc, hle.1, htype, ih.2 ⟨hall, htypes, hle.2⟩⟩

theorem assemble_eq_ok {name : Text} {composite : IndexSet} {columns : List ColumnReading}
    {t : Table} :
    assemble name composite columns = .ok t ↔
      (markedPrimary columns = [] ∨ composite.primary = none) ∧
        t =
          { name
            columns := columns.map (·.column)
            indexes :=
              { primary :=
                  if markedPrimary columns = [] then composite.primary else some (markedPrimary columns)
                unique := composite.unique ++ markedUnique columns }
            foreignKeys := columns.filterMap (·.foreignKey?)
            autoIncrement := (columns.find? (·.spec.autoIncrement)).map (·.name) } := by
  unfold assemble
  cases hm : markedPrimary columns with
  | nil => simp [eq_comm]
  | cons first rest =>
      cases hp : composite.primary with
      | none => simp [eq_comm]
      | some marked => simp

theorem tableEntries_eq_ok {name : Text} {v : Value} {entries : List (Value × Value)} :
    tableEntries name v = .ok entries ↔ v = .null ∧ entries = [] ∨ v = .mapping entries := by
  unfold tableEntries
  split
  · simp [eq_comm]
  · simp
  · next hnull hmapping =>
    constructor
    · intro h
      cases h
    · rintro (⟨rfl, _⟩ | rfl)
      · exact absurd rfl hnull
      · exact absurd rfl (hmapping _)

theorem readTable_eq_ok {defs : Definitions} {composite : IndexSet} {name : Text} {v : Value}
    {t : Table} :
    readTable defs composite name v = .ok t ↔
      ∃ entries, tableEntries name v = .ok entries ∧
        ∃ columns, readColumns defs name false entries = .ok columns ∧
          assemble name composite columns = .ok t := by
  simp only [readTable, bind_eq_ok]

theorem readTable_name {defs : Definitions} {composite : IndexSet} {name : Text} {v : Value}
    {t : Table} (h : readTable defs composite name v = .ok t) : t.name = name := by
  obtain ⟨_, _, columns, _, h⟩ := readTable_eq_ok.1 h
  rw [(assemble_eq_ok.1 h).2]

theorem readTables_cons_eq_ok {defs : Definitions} {composites : List Composite}
    {entry : Value × Value} {rest : List (Value × Value)} {tables : List Table} :
    readTables defs composites (entry :: rest) = .ok tables ↔
      ∃ t later, tables = t :: later ∧ entry.1.text? = some t.name ∧
        readTable defs (Composite.indexesOf t.name composites) t.name entry.2 = .ok t ∧
          readTables defs (composites.filter fun c => c.table != t.name) rest = .ok later := by
  simp only [readTables, bind_eq_ok, nameOf_eq_ok]
  constructor
  · rintro ⟨name, hname, t, ht, later, hlater, h⟩
    cases h
    have hn := readTable_name ht
    subst hn
    exact ⟨t, later, rfl, hname, ht, hlater⟩
  · rintro ⟨t, later, rfl, hname, ht, hlater⟩
    exact ⟨t.name, hname, t, ht, later, hlater, rfl⟩

namespace Composite

/-- The tables that entries give a primary key, once for each entry that does. -/
def primaryTables (composites : List Composite) : List Text :=
  (composites.filter (·.kind == .primary)).map (·.table)

theorem readEntries_cons_eq_ok {filled : List Text} {v : Value} {rest : List Value}
    {composites : List Composite} :
    readEntries filled (v :: rest) = .ok composites ↔
      ∃ text c later, v.text? = some text ∧ read text = .ok c ∧ composites = c :: later ∧
        (c.kind = .unique ∧ readEntries filled rest = .ok later ∨
          c.kind = .primary ∧ c.table ∉ filled ∧
            readEntries (c.table :: filled) rest = .ok later) := by
  rw [readEntries]
  cases hv : v.text? with
  | none => simp
  | some text =>
      simp only [bind_eq_ok]
      constructor
      · rintro ⟨c, hc, h⟩
        cases hk : c.kind with
        | unique =>
            simp only [hk, IndexKind.slots] at h
            obtain ⟨later, hl, h⟩ := bind_eq_ok.1 h
            cases h
            exact ⟨text, c, later, rfl, hc, rfl, .inl ⟨hk, hl⟩⟩
        | primary =>
            simp only [hk, IndexKind.slots] at h
            split at h
            · cases h
            · next hfilled =>
              obtain ⟨later, hl, h⟩ := bind_eq_ok.1 h
              cases h
              exact ⟨text, c, later, rfl, hc, rfl, .inr ⟨hk, by simpa using hfilled, hl⟩⟩
      · rintro ⟨text', c, later, ht, hc, rfl, hkind⟩
        cases ht
        refine ⟨c, hc, ?_⟩
        rcases hkind with ⟨hk, hl⟩ | ⟨hk, hfilled, hl⟩
        · simp only [hk, IndexKind.slots, hl]
          rfl
        · simp only [hk, IndexKind.slots, List.contains_iff_mem, hfilled, if_false, hl]
          rfl

theorem primaryTables_cons_unique {c : Composite} (hk : c.kind = .unique) (later : List Composite) :
    primaryTables (c :: later) = primaryTables later := by
  simp [primaryTables, hk]

theorem primaryTables_cons_primary {c : Composite} (hk : c.kind = .primary)
    (later : List Composite) : primaryTables (c :: later) = c.table :: primaryTables later := by
  simp [primaryTables, hk]

/-- Entries are read one by one, and none gives a primary key to a table that has one. -/
theorem readEntries_eq_ok {filled : List Text} {entries : List Value}
    {composites : List Composite} :
    readEntries filled entries = .ok composites ↔
      List.Forall₂ (fun v c => ∃ text, v.text? = some text ∧ read text = .ok c) entries composites ∧
        (primaryTables composites).Nodup ∧ ∀ table ∈ primaryTables composites, table ∉ filled := by
  -- `filled` grows with every primary key, so the tables named later are new to it
  induction entries generalizing filled composites with
  | nil =>
      simp only [readEntries, Except.ok.injEq, List.forall₂_nil_left_iff]
      constructor
      · rintro rfl
        simp [primaryTables]
      · exact fun h => h.1.symm
  | cons v rest ih =>
      rw [readEntries_cons_eq_ok]
      constructor
      · rintro ⟨text, c, later, ht, hc, rfl, ⟨hk, hl⟩ | ⟨hk, hfilled, hl⟩⟩
        · obtain ⟨hall, hnodup, hnew⟩ := ih.1 hl
          rw [primaryTables_cons_unique hk]
          exact ⟨.cons ⟨text, ht, hc⟩ hall, hnodup, hnew⟩
        · obtain ⟨hall, hnodup, hnew⟩ := ih.1 hl
          rw [primaryTables_cons_primary hk]
          refine ⟨.cons ⟨text, ht, hc⟩ hall, List.nodup_cons.2 ⟨?_, hnodup⟩, ?_⟩
          · exact fun h => hnew _ h List.mem_cons_self
          · intro table h
            rcases List.mem_cons.1 h with rfl | h
            · exact hfilled
            · exact fun hf => hnew table h (List.mem_cons_of_mem _ hf)
      · rintro ⟨hall, hnodup, hnew⟩
        cases hall with
        | @cons _ c _ later hc hall =>
            obtain ⟨text, ht, hc⟩ := hc
            refine ⟨text, c, later, ht, hc, rfl, ?_⟩
            cases hk : c.kind with
            | unique =>
                rw [primaryTables_cons_unique hk] at hnodup hnew
                exact .inl ⟨rfl, ih.2 ⟨hall, hnodup, hnew⟩⟩
            | primary =>
                rw [primaryTables_cons_primary hk] at hnodup hnew
                obtain ⟨hfresh, hnodup⟩ := List.nodup_cons.1 hnodup
                refine .inr ⟨rfl, hnew _ List.mem_cons_self, ih.2 ⟨hall, hnodup, ?_⟩⟩
                intro table h hf
                rcases List.mem_cons.1 hf with rfl | hf
                · exact hfresh h
                · exact hnew table (List.mem_cons_of_mem _ h) hf

end Composite

theorem read_eq_ok {document : Value} {schema : Schema} :
    read document = .ok schema ↔
      ∃ root, document.entries? = some root ∧
        readDatabase root = .ok schema.database ∧
          ∃ composites, Composite.readSection (Value.field? "composite" root) = .ok composites ∧
            ∃ defs, Definitions.read root = .ok defs ∧
              ∃ entries, sectionEntries .tables root = .ok entries ∧
                readTables defs composites entries = .ok schema.tables := by
  have hroot {root : List (Value × Value)} :
      rootEntries document = .ok root ↔ document.entries? = some root := by
    unfold rootEntries
    cases document.entries? with
    | none => simp
    | some entries => simp
  simp only [read, bind_eq_ok, hroot]
  constructor
  · rintro ⟨root, hr, database, hd, composites, hc, defs, hdefs, entries, he, tables, ht, h⟩
    cases h
    exact ⟨root, hr, hd, composites, hc, defs, hdefs, entries, he, ht⟩
  · rintro ⟨root, hr, hd, composites, hc, defs, hdefs, entries, he, ht⟩
    exact ⟨root, hr, _, hd, composites, hc, defs, hdefs, entries, he, _, ht, rfl⟩

end SchemaScript.Document
