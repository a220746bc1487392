/- Names: tables and columns have different names exactly where the keys of a document have
   different texts. Different keys may have one text. -/
import SchemaScript.Proofs.Document.Reflection
import SchemaScript.Proofs.Text.Digits
import SchemaScript.Script.Statement
import Mathlib.Data.List.Nodup

namespace SchemaScript

namespace Value

/-- Untagged keys of one sort: strings, or truth values and integers. -/
def alike : Value → Value → Bool
  | .string _, .string _ => true
  | .bool _, .bool _ => true
  | .integer _, .integer _ => true
  | .bool _, .integer _ => true
  | .integer _, .bool _ => true
  | _, _ => false

theorem bool_text_ne_integer_text (a : Bool) (i : Int) : text? (.bool a) ≠ text? (.integer i) := by
  intro h
  have hmem : 'e' ∈ Text.ofInt i := by
    rw [← Option.some.inj h]
    cases a <;> decide
  exact Text.letter_not_mem_ofInt i hmem

/-- Keys of one sort with one text are equal. -/
theorem same_of_text? {a b : Value} {t : Text} (h : a.alike b = true) (ha : a.text? = some t)
    (hb : b.text? = some t) : a.same b = true := by
  have htext := ha.trans hb.symm
  fun_cases alike a b with
  | case1 s u =>
      simp only [text?, Option.ite_none_left_eq_some, Option.some.injEq] at ha hb
      rw [same, ha.2, hb.2, beq_self_eq_true]
  | case2 a b => cases a <;> cases b <;> first | rfl | exact absurd htext (by decide)
  | case3 i j => rw [same, Text.ofInt_inj (Option.some.inj htext), beq_self_eq_true]
  | case4 a i => exact absurd htext (bool_text_ne_integer_text a i)
  | case5 i a => exact absurd htext.symm (bool_text_ne_integer_text a i)
  | case6 => simp_all [alike]

end Value

namespace Document

/-- The keys of a mapping have different texts. -/
def TextsApart (entries : List (Value × Value)) : Prop :=
  (entries.map fun entry => entry.1.text?).Nodup

/-- Keys of which no two are equal, as in every mapping that is decoded, and all of one sort. -/
def Uniform (entries : List (Value × Value)) : Prop :=
  entries.Pairwise fun a b => a.1.same b.1 = false ∧ a.1.alike b.1 = true

instance (entries : List (Value × Value)) : Decidable (Uniform entries) :=
  inferInstanceAs (Decidable (List.Pairwise _ entries))

/-- The entries of a table; a table without a mapping has none. -/
def columnEntries : Value → List (Value × Value)
  | .mapping entries => entries
  | _ => []

/-- What holds of the entries of all tables and of the entries of each table. -/
def EachMapping (p : List (Value × Value) → Prop) (entries : List (Value × Value)) : Prop :=
  p entries ∧ ∀ entry ∈ entries, p (columnEntries entry.2)

instance (p : List (Value × Value) → Prop) [DecidablePred p] (entries : List (Value × Value)) :
    Decidable (EachMapping p entries) :=
  inferInstanceAs (Decidable (_ ∧ _))

/-- No two tables of a schema have one name, and no two columns of a table. -/
structure NamesUnique (s : Schema) : Prop where
  tables : (s.tables.map fun t => t.name).Nodup
  columns : ∀ t ∈ s.tables, (t.columns.map fun c => c.name).Nodup

/-- Every table of a schema is found by its name, and every column in its table. -/
structure Found (s : Schema) : Prop where
  tables : ∀ t ∈ s.tables, s.table? t.name = some t
  columns : ∀ t ∈ s.tables, ∀ c ∈ t.columns, t.column? c.name = some c

/-- The statement that makes a column count up has the name and the clause of the marked column. -/
def MarkedCounts (defs : Definitions) (entry : Value × Value) (t : Table) : Prop :=
  ∃ readings, ColumnsReflect defs entry.2 readings ∧ ∀ s : Script.Style,
    (s.addAutoIncrement? t).toList =
      (readings.filter fun c => c.spec.autoIncrement).map fun c =>
        s.alterTable t [s.countingLine { name := c.name, definition := c.spec.render }]

theorem texts_eq {α : Type} {name : α → Text} {entries : List (Value × Value)} {l : List α}
    (h : List.Forall₂ (fun entry a => entry.1.text? = some (name a)) entries l) :
    (entries.map fun entry => entry.1.text?) = (l.map name).map some := by
  induction h with
  | nil => rfl
  | cons hname _ ih => simp only [List.map_cons, hname, ih]

theorem textsApart_iff {α : Type} {name : α → Text} {entries : List (Value × Value)} {l : List α}
    (h : List.Forall₂ (fun entry a => entry.1.text? = some (name a)) entries l) :
    TextsApart entries ↔ (l.map name).Nodup := by
  unfold TextsApart
  rw [texts_eq h]
  exact List.nodup_map_iff fun _ _ => Option.some.inj

theorem textsApart_of_uniform {α : Type} {name : α → Text} {entries : List (Value × Value)}
    {l : List α} (h : List.Forall₂ (fun entry a => entry.1.text? = some (name a)) entries l)
    (hu : Uniform entries) : TextsApart entries := by
  have htext : ∀ entry ∈ entries, ∃ t, entry.1.text? = some t := by
    intro entry hentry
    have hmem := List.mem_map_of_mem (f := fun entry => entry.1.text?) hentry
    rw [texts_eq h, List.mem_map] at hmem
    obtain ⟨t, _, ht⟩ := hmem
    exact ⟨t, ht.symm⟩
  unfold TextsApart List.Nodup
  rw [List.pairwise_map]
  refine hu.imp_of_mem ?_
  rintro a b ha - ⟨hdistinct, halike⟩ hab
  obtain ⟨t, ht⟩ := htext a ha
  rw [Value.same_of_text? halike ht (hab ▸ ht)] at hdistinct
  cases hdistinct

theorem forall_mem_iff {α β : Type} {r : α → β → Prop} {p : α → Prop} {q : β → Prop} {l : List α}
    {m : List β} (h : List.Forall₂ r l m) (hr : ∀ a b, r a b → (p a ↔ q b)) :
    (∀ a ∈ l, p a) ↔ ∀ b ∈ m, q b := by
  induction h with
  | nil => simp
  | cons hab _ ih => rw [List.forall_mem_cons, List.forall_mem_cons, hr _ _ hab, ih]

variable {defs : Definitions} {entry : Value × Value} {entries : List (Value × Value)} {t : Table}
  {s : Schema}

theorem columnNames_eq {readings : List ColumnReading} (h : Shows t readings) :
    (t.columns.map fun c => c.name) = readings.map fun c => c.name := by
  rw [h.columns, List.map_map]
  rfl

theorem ColumnsReflect.columnEntries {v : Value} {readings : List ColumnReading}
    (h : ColumnsReflect defs v readings) :
    List.Forall₂ (ColumnReflects defs) (columnEntries v) readings := by
  obtain ⟨columns, hentry, hall⟩ := h
  rcases hentry with ⟨rfl, rfl⟩ | rfl
  · exact hall
  · exact hall

theorem columnsApart_iff (h : TableReflects defs entry t) :
    TextsApart (columnEntries entry.2) ↔ (t.columns.map fun c => c.name).Nodup := by
  obtain ⟨readings, hreadings, hshows⟩ := h.columns
  rw [columnNames_eq hshows]
  exact textsApart_iff (hreadings.columnEntries.imp fun _ _ hc => hc.name)

theorem columnsApart_of_uniform (h : TableReflects defs entry t)
    (hu : Uniform (columnEntries entry.2)) : TextsApart (columnEntries entry.2) := by
  obtain ⟨readings, hreadings, _⟩ := h.columns
  exact textsApart_of_uniform (hreadings.columnEntries.imp fun _ _ hc => hc.name) hu

theorem namesUnique_iff (h : List.Forall₂ (TableReflects defs) entries s.tables) :
    NamesUnique s ↔ EachMapping TextsApart entries := by
  have htables := textsApart_iff (h.imp fun _ _ ht => ht.name)
  have hcolumns := forall_mem_iff h fun _ _ ht => columnsApart_iff ht
  constructor
  · exact fun hs => ⟨htables.2 hs.tables, hcolumns.2 hs.columns⟩
  · exact fun hk => ⟨htables.1 hk.1, hcolumns.1 hk.2⟩

theorem apart_of_uniform (h : List.Forall₂ (TableReflects defs) entries s.tables)
    (hu : EachMapping Uniform entries) : EachMapping TextsApart entries := by
  constructor
  · exact textsApart_of_uniform (h.imp fun _ _ ht => ht.name) hu.1
  · have hall : ∀ entry ∈ entries,
        Uniform (columnEntries entry.2) → TextsApart (columnEntries entry.2) :=
      (forall_mem_iff h fun _ _ ht => iff_true_intro (columnsApart_of_uniform ht)).2
        fun _ _ => trivial
    exact fun entry hentry => hall entry hentry (hu.2 entry hentry)

/-- An element is found by its key in a list where no two have one key. -/
theorem find?_key {α : Type} {key : α → Text} {l : List α} (hl : (l.map key).Nodup) {a : α}
    (ha : a ∈ l) : (l.find? fun b => key b == key a) = some a := by
  have hsome : (l.find? fun b => key b == key a).isSome = true :=
    List.find?_isSome.2 ⟨a, ha, beq_self_eq_true _⟩
  obtain ⟨b, hb⟩ := Option.isSome_iff_exists.1 hsome
  have hkey : key b = key a := by simpa only [beq_iff_eq] using List.find?_some hb
  rw [hb, List.inj_on_of_nodup_map hl (List.mem_of_find?_eq_some hb) ha hkey]

theorem found_of_namesUnique (h : NamesUnique s) : Found s := by
  constructor
  · exact fun t ht => find?_key h.tables ht
  · exact fun t ht c hc => find?_key (h.columns t ht) hc

theorem markedCounts_of_nodup (h : TableReflects defs entry t)
    (ht : (t.columns.map fun c => c.name).Nodup) : MarkedCounts defs entry t := by
  obtain ⟨readings, hreadings, hshows⟩ := h.columns
  refine ⟨readings, hreadings, fun s => ?_⟩
  have hmarked := hshows.autoIncrement
  unfold Script.Style.addAutoIncrement?
  cases hname : t.autoIncrement with
  | none =>
      rw [hname, Option.toList_none, eq_comm, List.map_eq_nil_iff] at hmarked
      simp [hmarked]
  | some name =>
      rw [hname, Option.toList_some, eq_comm, List.map_eq_singleton_iff] at hmarked
      obtain ⟨c, hfilter, rfl⟩ := hmarked
      have hc : c ∈ readings := (List.mem_filter.1 (hfilter ▸ List.mem_singleton_self c)).1
      have hcolumn : c.column ∈ t.columns := by
        rw [hshows.columns]
        exact List.mem_map_of_mem hc
      have hfound : t.column? c.name = some c.column := find?_key ht hcolumn
      simp [hfilter, hfound, ColumnReading.column]

theorem markedCounts_of_textsApart (h : List.Forall₂ (TableReflects defs) entries s.tables)
    (hk : EachMapping TextsApart entries) : List.Forall₂ (MarkedCounts defs) entries s.tables := by
  have hboth := (List.forall₂_and_left _ _).2 ⟨hk.2, h⟩
  exact hboth.imp fun _ _ hc => markedCounts_of_nodup hc.2 ((columnsApart_iff hc.2).1 hc.1)

/-- The names of an accepted document are unique exactly where its keys have different texts, and
then each name stands for the table or column that was meant. This holds of all documents in which
the keys of a mapping are of one sort. -/
theorem read_namesUnique_iff {document : Value} (h : read document = .ok s) :
    ∃ root defs entries, document.entries? = some root ∧ Definitions.read root = .ok defs ∧
      sectionEntries .tables root = .ok entries ∧
        (NamesUnique s ↔ EachMapping TextsApart entries) ∧
          (EachMapping TextsApart entries →
            Found s ∧ List.Forall₂ (MarkedCounts defs) entries s.tables) ∧
              (EachMapping Uniform entries → EachMapping TextsApart entries) := by
  obtain ⟨root, hroot, _, _, _, defs, hdefs, entries, hentries, htables⟩ := read_eq_ok.1 h
  have hreflects := tablesReflect_of_readTables htables
  have hiff := namesUnique_iff hreflects
  refine ⟨root, defs, entries, hroot, hdefs, hentries, hiff, ?_, apart_of_uniform hreflects⟩
  intro hk
  exact ⟨found_of_namesUnique (hiff.2 hk), markedCounts_of_textsApart hreflects hk⟩

theorem read_namesUnique_iff_shop :
    read shop = .ok shopSchema ∧ EachMapping Uniform shopTables ∧ NamesUnique shopSchema ∧
      Found shopSchema := by
  have h : read shop = .ok shopSchema := by decide +kernel
  obtain ⟨root, defs, entries, hroot, _, hentries, hiff, hfound, huniform⟩ := read_namesUnique_iff h
  cases hroot
  have htables : entries = shopTables := (Except.ok.inj hentries).symm
  subst htables
  have hu : EachMapping Uniform shopTables := by decide +kernel
  exact ⟨h, hu, hiff.2 (huniform hu), (hfound (huniform hu)).1⟩

/-- A table in which the number one and the text of its digit are the keys of two columns. -/
def ledgerColumns : List (Value × Value) :=
  [(.integer 1, .string "int"), (.string "1", .string "bigint AUTO_INCREMENT")]

def ledger : Value :=
  .mapping
    [(.string "database", .mapping [(.string "name", .string "books")]),
      (.string "tables", .mapping [(.string "ledger", .mapping ledgerColumns)])]

def ledgerTable : Table where
  name := "ledger"
  columns :=
    [{ name := "1", definition := "int UNSIGNED NOT NULL" },
      { name := "1", definition := "bigint UNSIGNED NOT NULL" }]
  autoIncrement := some "1".toList

def ledgerSchema : Schema where
  database := { name := "books", source := .mySQL, charset := "utf8", collate := "utf8_general_ci" }
  tables := [ledgerTable]

/-- Keys that differ give two columns one name, and the clause of the wrong one is made to count. -/
theorem names_not_unique_ledger :
    read ledger = .ok ledgerSchema ∧
      ledgerColumns.Pairwise (fun a b => a.1.same b.1 = false) ∧ ¬ NamesUnique ledgerSchema ∧
        Script.Style.addAutoIncrement? { dialect := .mySQL, indent := 2 } ledgerTable =
          some ["ALTER TABLE \x60ledger\x60".toList,
            "  MODIFY \x601\x60 int UNSIGNED NOT NULL AUTO_INCREMENT;".toList] := by
  refine ⟨by decide +kernel, by decide +kernel, ?_, by decide +kernel⟩
  intro h
  have hcolumns := h.columns ledgerTable (List.mem_singleton_self ledgerTable)
  exact absurd hcolumns (by decide)

end Document

end SchemaScript
