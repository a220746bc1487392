/- Indexes: what the entries of a `composite` section and the marks of columns give to a table. -/
import SchemaScript.Proofs.Document.Reflection
import Mathlib.Data.List.Nodup

namespace SchemaScript.Document

namespace Composite

/-- The column lists that entries of one kind give to a table, in the order of the entries. -/
def columnsOf (table : Text) (kind : IndexKind) (composites : List Composite) : List (List Text) :=
  (composites.filter fun c => c.table == table && c.kind == kind).map (·.columns)

theorem unique_indexesOf (table : Text) (composites : List Composite) :
    (indexesOf table composites).unique = columnsOf table .unique composites := by
  simp only [indexesOf, columnsOf, List.filter_filter, Bool.and_comm]

theorem length_own_primary_le_one {composites : List Composite}
    (h : (primaryTables composites).Nodup) (table : Text) :
    ((composites.filter fun c => c.table == table).filter fun c => c.kind == .primary).length ≤ 1 := by
  have hcount := List.nodup_iff_count_le_one.1 h table
  rw [primaryTables, List.count, List.countP_map, List.countP_eq_length_filter] at hcount
  rw [List.filter_comm]
  exact hcount

/-- Where no table has two primary keys from entries, a table has the one that entries give it. -/
theorem primary_indexesOf {composites : List Composite} (h : (primaryTables composites).Nodup)
    (table : Text) :
    (indexesOf table composites).primary.toList = columnsOf table .primary composites := by
  simp only [indexesOf, Option.toList_map, toList_find? (length_own_primary_le_one h table),
    columnsOf, List.filter_filter, Bool.and_comm]

/-- Only entries that name a table have a part in its indexes. -/
theorem indexesOf_filter {table : Text} {p : Composite → Bool} (composites : List Composite)
    (h : ∀ c : Composite, c.table = table → p c = true) :
    indexesOf table (composites.filter p) = indexesOf table composites := by
  have hown : (composites.filter p).filter (fun c => c.table == table) =
      composites.filter fun c => c.table == table := by
    rw [List.filter_filter]
    apply List.filter_congr
    intro c _
    by_cases hc : c.table = table
    · simp [hc, h c hc]
    · simp [hc]
  simp only [indexesOf, hown]

/-- The entries of a `composite` section, which may be missing or null. -/
def sectionItems? : Option Value → Option (List Value)
  | none | some .null => some []
  | some (.sequence items) => some items
  | some _ => none

/-- The entries of a section, each read by itself. -/
def Listed (section? : Option Value) (composites : List Composite) : Prop :=
  ∃ items, sectionItems? section? = some items ∧
    List.Forall₂ (fun v c => ∃ text, v.text? = some text ∧ read text = .ok c) items composites

theorem readSection_eq_ok {section? : Option Value} {composites : List Composite} :
    readSection section? = .ok composites ↔
      Listed section? composites ∧ (primaryTables composites).Nodup := by
  have hsection : readSection section? = .ok composites ↔
      ∃ items, sectionItems? section? = some items ∧ readEntries [] items = .ok composites := by
    unfold readSection sectionItems?
    split <;> simp [readEntries]
  rw [hsection]
  unfold Listed
  constructor
  · rintro ⟨items, hitems, h⟩
    obtain ⟨hall, hone, _⟩ := readEntries_eq_ok.1 h
    exact ⟨⟨items, hitems, hall⟩, hone⟩
  · rintro ⟨⟨items, hitems, hall⟩, hone⟩
    exact ⟨items, hitems, readEntries_eq_ok.2 ⟨hall, hone, fun _ _ => List.not_mem_nil⟩⟩

end Composite

/-- Tables are read each by itself, with the indexes that entries give to its name. -/
theorem readTables_eq_ok {defs : Definitions} {composites : List Composite}
    {entries : List (Value × Value)} {tables : List Table} (given : Text → IndexSet)
    (hnames : (tables.map (·.name)).Nodup)
    (hgiven : ∀ t ∈ tables, Composite.indexesOf t.name composites = given t.name) :
    readTables defs composites entries = .ok tables ↔
      List.Forall₂ (fun entry t => entry.1.text? = some t.name ∧
        readTable defs (given t.name) t.name entry.2 = .ok t) entries tables := by
  induction entries generalizing composites tables with
  | nil => simp [readTables, eq_comm]
  | cons entry rest ih =>
      rw [readTables_cons_eq_ok]
      cases tables with
      | nil => simp
      | cons t later =>
          rw [List.map_cons, List.nodup_cons] at hnames
          -- the entries taken for `t` name no table behind it
          have hlater : ∀ t' ∈ later,
              Composite.indexesOf t'.name (composites.filter fun c => c.table != t.name) =
                given t'.name := by
            intro t' ht'
            rw [Composite.indexesOf_filter, hgiven t' (List.mem_cons_of_mem _ ht')]
            rintro c hc
            have hne : t'.name ≠ t.name := fun he => hnames.1 (he ▸ List.mem_map_of_mem ht')
            simpa [hc] using hne
          rw [List.forall₂_cons, ← ih hnames.2 hlater, ← hgiven t List.mem_cons_self]
          constructor
          · rintro ⟨t', later', he, hname, ht, hrest⟩
            cases he
            exact ⟨⟨hname, ht⟩, hrest⟩
          · rintro ⟨⟨hname, ht⟩, hrest⟩
            exact ⟨t, later, rfl, hname, ht, hrest⟩

/-- A primary key is listed by one entry or marked on columns; it is never both, and may be
neither. -/
inductive PrimaryFrom : (listed : List (List Text)) → (marked : List Text) →
    Option (List Text) → Prop
  | listed (columns : List Text) : PrimaryFrom [columns] [] (some columns)
  | marked (columns : List Text) (h : columns ≠ []) : PrimaryFrom [] columns (some columns)
  | neither : PrimaryFrom [] [] none

/-- The indexes of a table come from the entries that name it and from the marks of its columns. -/
structure IndexedBy (composites : List Composite) (readings : List ColumnReading) (t : Table) :
    Prop where
  unique : t.indexes.unique = Composite.columnsOf t.name .unique composites ++
    (readings.filter fun c => c.spec.unique).map fun c => [c.name]
  primary : PrimaryFrom (Composite.columnsOf t.name .primary composites)
    ((readings.filter fun c => c.spec.primary).map fun c => c.name) t.indexes.primary

/-- What the entry of a table and the entries that name it say about its indexes. -/
structure TableIndexed (defs : Definitions) (composites : List Composite)
    (entry : Value × Value) (t : Table) : Prop where
  name : entry.1.text? = some t.name
  indexes : ∃ readings, ColumnsReflect defs entry.2 readings ∧ IndexedBy composites readings t

theorem primaryFrom_of_assemble {name : Text} {composite : IndexSet}
    {readings : List ColumnReading} {t : Table} (h : assemble name composite readings = .ok t) :
    PrimaryFrom composite.primary.toList (markedPrimary readings) t.indexes.primary := by
  obtain ⟨hapart, rfl⟩ := assemble_eq_ok.1 h
  simp only
  rcases hapart with hmarked | hlisted
  · rw [hmarked, if_pos rfl]
    cases composite.primary with
    | none => exact .neither
    | some columns => exact .listed columns
  · rw [hlisted]
    by_cases hmarked : markedPrimary readings = []
    · rw [hmarked, if_pos rfl]
      exact .neither
    · rw [if_neg hmarked]
      exact .marked _ hmarked

theorem indexedBy_of_assemble {composites : List Composite} {readings : List ColumnReading}
    {t : Table} (hone : (Composite.primaryTables composites).Nodup)
    (h : assemble t.name (Composite.indexesOf t.name composites) readings = .ok t) :
    IndexedBy composites readings t := by
  constructor
  · have hunique := congrArg (fun t => t.indexes.unique) (assemble_eq_ok.1 h).2
    rw [← Composite.unique_indexesOf]
    exact hunique
  · have hprimary := primaryFrom_of_assemble h
    rw [Composite.primary_indexesOf hone] at hprimary
    exact hprimary

theorem tableIndexed_of_readTable {defs : Definitions} {composites : List Composite}
    {entry : Value × Value} {t : Table} (hone : (Composite.primaryTables composites).Nodup)
    (hname : entry.1.text? = some t.name)
    (h : readTable defs (Composite.indexesOf t.name composites) t.name entry.2 = .ok t) :
    TableIndexed defs composites entry t := by
  obtain ⟨entries, hentries, readings, hreadings, hassemble⟩ := readTable_eq_ok.1 h
  have hcolumns : ColumnsReflect defs entry.2 readings := by
    refine ⟨entries, tableEntries_eq_ok.1 hentries, ?_⟩
    exact (readColumns_eq_ok.1 hreadings).1.imp fun _ _ hc => columnReflects_of_readColumn hc
  exact ⟨hname, readings, hcolumns, indexedBy_of_assemble hone hassemble⟩

/-- In an accepted document without two tables of one name, the indexes of a table are those of the
entries that name it and of its marked columns. Entries that name no table change nothing. -/
theorem read_indexes {document : Value} {schema : Schema} (h : read document = .ok schema)
    (hnames : (schema.tables.map fun t => t.name).Nodup) :
    ∃ root defs entries composites, document.entries? = some root ∧
      Definitions.read root = .ok defs ∧ sectionEntries .tables root = .ok entries ∧
        Composite.Listed (Value.field? "composite" root) composites ∧
          List.Forall₂ (TableIndexed defs composites) entries schema.tables ∧
            readTables defs
              (composites.filter fun c => decide (c.table ∈ schema.tables.map fun t => t.name))
              entries = .ok schema.tables := by
  obtain ⟨root, hroot, _, composites, hcomposites, defs, hdefs, entries, hentries, htables⟩ :=
    read_eq_ok.1 h
  obtain ⟨hlisted, hone⟩ := Composite.readSection_eq_ok.1 hcomposites
  let given := fun name => Composite.indexesOf name composites
  have hall := (readTables_eq_ok given hnames fun _ _ => rfl).1 htables
  refine ⟨root, defs, entries, composites, hroot, hdefs, hentries, hlisted, ?_, ?_⟩
  · exact hall.imp fun _ _ ht => tableIndexed_of_readTable hone ht.1 ht.2
  · refine (readTables_eq_ok given hnames fun t ht => ?_).2 hall
    apply Composite.indexesOf_filter
    intro c hc
    rw [hc, decide_eq_true_eq]
    exact List.mem_map_of_mem ht

theorem read_indexes_shop :
    (read shop = .ok shopSchema ∧ (shopSchema.tables.map fun t => t.name).Nodup) ∧
      ∃ root defs entries composites, shop.entries? = some root ∧
        Definitions.read root = .ok defs ∧ sectionEntries .tables root = .ok entries ∧
          Composite.Listed (Value.field? "composite" root) composites ∧
            List.Forall₂ (TableIndexed defs composites) entries shopSchema.tables ∧
              readTables defs
                (composites.filter fun c => decide (c.table ∈ shopSchema.tables.map fun t => t.name))
                entries = .ok shopSchema.tables :=
  ⟨by decide +kernel, read_indexes (by decide +kernel) (by decide +kernel)⟩

end SchemaScript.Document
