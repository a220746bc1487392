/- Accepted documents are reflected one to one: tables and columns stand in the order of their
   entries, and a table holds what its column texts say and nothing else. -/
import SchemaScript.Proofs.Document.Accepted
import SchemaScript.Proofs.Identifier.Behind

namespace SchemaScript

namespace Column.Spec

/-- A clause is never empty, because it always has a nullability. -/
theorem render_ne_nil (s : Spec) : s.render ≠ [] := by
  have hclause : 'N' ∈ s.nullClause := by
    unfold nullClause
    cases s.nullability.getD .notNull <;> decide
  have hrender : 'N' ∈ s.render := by
    apply Text.mem_trim
    · decide
    · simp only [List.mem_append, hclause, or_true, true_or]
  exact List.ne_nil_of_mem hrender

end Column.Spec

namespace Document

/-- A column text, the reference at its first arrow, and the text without that reference. -/
inductive Parted (t : Text) : Option Reference → Text → Prop
  | whole (h : ¬ Reference.arrow <:+: t) : Parted t none t
  | divided (before marker after : Text) (r : Reference)
      (text : t = before ++ marker ++ after)
      (first : ¬ Reference.arrow <:+: before)
      (arrow : Reference.arrow <+: marker)
      (read : Reference.read? (marker ++ after) = some (r, after)) :
      Parted t (some r) (before ++ after)

theorem parted_of_takeReference? {t plain : Text} {reference : Option Reference}
    (h : takeReference? t = some (reference, plain)) : Parted t reference plain := by
  unfold takeReference? at h
  split at h
  · next hcut =>
    cases h
    exact .whole (Text.cutBefore?_eq_none.1 hcut)
  · next before fromArrow hcut =>
    obtain ⟨⟨r, after⟩, hread, he⟩ := Option.map_eq_some_iff.1 h
    cases he
    obtain ⟨ht, _, hfirst⟩ := Text.eq_of_cutBefore? (by decide) hcut
    obtain ⟨marker, rfl, harrow⟩ := Reference.eq_of_read? hread
    refine .divided before marker after r ?_ hfirst harrow hread
    rw [ht, List.append_assoc]

/-- There is a reference exactly where there is an arrow. -/
theorem Parted.isSome_iff {t plain : Text} {reference : Option Reference}
    (h : Parted t reference plain) : reference.isSome = true ↔ Reference.arrow <:+: t := by
  cases h with
  | whole h => simp [h]
  | divided before marker after r ht _ harrow _ =>
      have hin : Reference.arrow <:+: t := by
        rw [ht]
        exact (harrow.isInfix.trans (List.suffix_append before marker).isInfix).trans
          (List.prefix_append _ after).isInfix
      simp [hin]

/-- What the entry of a column says: its name, and the specification in its text when definitions
are expanded and the reference is taken out. -/
structure ColumnReflects (defs : Definitions) (entry : Value × Value) (c : ColumnReading) : Prop where
  name : entry.1.text? = some c.name
  text : ∃ written expanded plain, entry.2.text? = some written ∧
    defs.expand? (Text.trim written) = some expanded ∧
      (c.reference.isSome = true ↔ Reference.arrow <:+: expanded) ∧
        Parted expanded c.reference plain ∧ c.spec = Column.scan plain

/-- The columns of a table entry, which may be null, one reading for each. -/
def ColumnsReflect (defs : Definitions) (v : Value) (readings : List ColumnReading) : Prop :=
  ∃ entries, (v = .null ∧ entries = [] ∨ v = .mapping entries) ∧
    List.Forall₂ (ColumnReflects defs) entries readings

/-- What a table holds of its columns. -/
structure Shows (t : Table) (readings : List ColumnReading) : Prop where
  columns : t.columns = readings.map fun c => { name := c.name, definition := c.spec.render }
  definitions : ∀ c ∈ t.columns, c.definition ≠ []
  foreignKeys : t.foreignKeys = readings.filterMap fun c =>
    c.reference.map fun references => { column := c.name, references }
  autoIncrement : t.autoIncrement.toList =
    (readings.filter fun c => c.spec.autoIncrement).map fun c => c.name

/-- What the entry of a table says. -/
structure TableReflects (defs : Definitions) (entry : Value × Value) (t : Table) : Prop where
  name : entry.1.text? = some t.name
  columns : ∃ readings, ColumnsReflect defs entry.2 readings ∧ Shows t readings

theorem columnReflects_of_readColumn {defs : Definitions} {table : Text} {entry : Value × Value}
    {c : ColumnReading} (h : readColumn defs table entry.1 entry.2 = .ok c) :
    ColumnReflects defs entry c := by
  obtain ⟨hname, text, ⟨_, written, hwritten, rfl⟩, expanded, hexpand, plain, hplain, hscan⟩ :=
    readColumn_eq_ok.1 h
  have hparted := parted_of_takeReference? hplain
  constructor
  · exact hname
  · exact ⟨written, expanded, plain, hwritten, hexpand, hparted.isSome_iff, hparted, hscan.symm⟩

/-- Where at most one element passes, the first that passes is all that do. -/
theorem toList_find? {α : Type} {p : α → Bool} {l : List α} (h : (l.filter p).length ≤ 1) :
    (l.find? p).toList = l.filter p := by
  rw [← List.head?_filter]
  match l.filter p, h with
  | [], _ => rfl
  | [_], _ => rfl

theorem shows_of_assemble {name : Text} {composite : IndexSet} {readings : List ColumnReading}
    {t : Table} (hcount : countingColumns readings ≤ 1)
    (h : assemble name composite readings = .ok t) : Shows t readings := by
  obtain ⟨_, rfl⟩ := assemble_eq_ok.1 h
  constructor
  · rfl
  · intro c hc
    obtain ⟨reading, _, rfl⟩ := List.mem_map.1 hc
    exact reading.spec.render_ne_nil
  · rfl
  · simp only [Option.toList_map, toList_find? hcount]

theorem tableReflects_of_readTable {defs : Definitions} {composite : IndexSet}
    {entry : Value × Value} {t : Table} (hname : entry.1.text? = some t.name)
    (h : readTable defs composite t.name entry.2 = .ok t) : TableReflects defs entry t := by
  obtain ⟨entries, hentries, readings, hreadings, hassemble⟩ := readTable_eq_ok.1 h
  obtain ⟨hall, _, hcount⟩ := readColumns_eq_ok.1 hreadings
  refine ⟨hname, readings, ⟨entries, tableEntries_eq_ok.1 hentries, ?_⟩, ?_⟩
  · exact hall.imp fun _ _ hc => columnReflects_of_readColumn hc
  · apply shows_of_assemble _ hassemble
    simpa using hcount

theorem tablesReflect_of_readTables {defs : Definitions} {composites : List Composite}
    {entries : List (Value × Value)} {tables : List Table}
    (h : readTables defs composites entries = .ok tables) :
    List.Forall₂ (TableReflects defs) entries tables := by
  induction entries generalizing composites tables with
  | nil =>
      cases h
      exact .nil
  | cons entry rest ih =>
      obtain ⟨t, later, rfl, hname, ht, hlater⟩ := readTables_cons_eq_ok.1 h
      exact .cons (tableReflects_of_readTable hname ht) (ih hlater)

/-- The tables of an accepted document are those of its entries, one for each and in their order. -/
theorem read_reflects {document : Value} {schema : Schema} (h : read document = .ok schema) :
    ∃ root defs entries, document.entries? = some root ∧ Definitions.read root = .ok defs ∧
      sectionEntries .tables root = .ok entries ∧
        List.Forall₂ (TableReflects defs) entries schema.tables := by
  obtain ⟨root, hroot, _, _, _, defs, hdefs, entries, hentries, htables⟩ := read_eq_ok.1 h
  exact ⟨root, defs, entries, hroot, hdefs, hentries, tablesReflect_of_readTables htables⟩

def shopTables : List (Value × Value) :=
  [(.string "customers", .mapping [(.string "id", .string "counter")]),
    (.string "orders", .mapping
      [(.string "id", .string "counter"),
        (.string "customer", .string "int -> customers.id UNIQUE")]),
    (.string "stock", .mapping [(.string "item", .string "varchar(8)")]),
    (.string "notes", .null)]

/-- A document with a definition, a reference, indexes of all kinds and a table without columns. -/
def shop : Value :=
  .mapping
    [(.string "database", .mapping [(.string "name", .string "shop")]),
      (.string "composite", .sequence
        [.string "UNIQUE KEY orders (id, customer)",
          .string "PRIMARY stock item",
          .string "UNIQUE prices item"]),
      (.string "definitions", .mapping
        [(.string "counter", .string "int AUTO_INCREMENT PRIMARY KEY")]),
      (.string "tables", .mapping shopTables)]

def shopSchema : Schema where
  database := { name := "shop", source := .mySQL, charset := "utf8", collate := "utf8_general_ci" }
  tables :=
    [{ name := "customers"
       columns := [{ name := "id", definition := "int UNSIGNED NOT NULL" }]
       indexes := { primary := some ["id"] }
       autoIncrement := some "id".toList },
      { name := "orders"
        columns :=
          [{ name := "id", definition := "int UNSIGNED NOT NULL" },
            { name := "customer", definition := "int UNSIGNED NOT NULL" }]
        indexes := { primary := some ["id"], unique := [["id", "customer"], ["customer"]] }
        foreignKeys := [{ column := "customer", references := { table := "customers", column := "id" } }]
        autoIncrement := some "id".toList },
      { name := "stock"
        columns := [{ name := "item", definition := "varchar(8) NOT NULL" }]
        indexes := { primary := some ["item"] } },
      { name := "notes", columns := [] }]

theorem read_reflects_shop :
    read shop = .ok shopSchema ∧
      ∃ root defs entries, shop.entries? = some root ∧ Definitions.read root = .ok defs ∧
        sectionEntries .tables root = .ok entries ∧
          List.Forall₂ (TableReflects defs) entries shopSchema.tables :=
  ⟨by decide +kernel, read_reflects (by decide +kernel)⟩

end Document

end SchemaScript
