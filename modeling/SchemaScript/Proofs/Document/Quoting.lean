/- Quoting: the names that a document captures are kept with their quotes doubled, so that they can stand
   between quotes again and are read back from there. -/
import SchemaScript.Proofs.Document.Indexes
import SchemaScript.Proofs.Identifier.Grammar

namespace SchemaScript

namespace Identifier

theorem isQuotable_of_isBare {c : Char} (h : isBare c = true) : isQuotable c = true := by
  have hmark : c ≠ quoteMark := by
    rintro rfl
    exact absurd h (by decide)
  have hrange : 1 ≤ c.toNat ∧ c.toNat ≤ 0xFFFF := by
    have hle (a b : Char) : a ≤ b ↔ a.toNat ≤ b.toNat := UInt32.le_iff_toNat_le
    simp only [isBare, Bool.or_eq_true, Bool.and_eq_true, decide_eq_true_eq, beq_iff_eq, hle] at h
    rcases h with ((((h | h) | h) | rfl) | rfl) | h
    · exact ⟨Nat.le_trans (by decide) h.1, Nat.le_trans h.2 (by decide)⟩
    · exact ⟨Nat.le_trans (by decide) h.1, Nat.le_trans h.2 (by decide)⟩
    · exact ⟨Nat.le_trans (by decide) h.1, Nat.le_trans h.2 (by decide)⟩
    · decide
    · decide
    · exact ⟨Nat.le_trans (by decide) h.1, h.2⟩
  simp [isQuotable, hrange, hmark]

theorem inner_of_bare {t : Text} (h : ∀ c ∈ t, isBare c = true) : Inner t := by
  induction t with
  | nil => exact .nil
  | cons c t ih =>
      obtain ⟨hc, ht⟩ := List.forall_mem_cons.1 h
      exact .char (isQuotable_of_isBare hc) (ih ht)

/-- A name that can stand between quotes: it is not empty, and each quote in it is one of a pair. -/
structure Quotes (name : Text) : Prop where
  ne_nil : name ≠ []
  inner : Inner name

/-- However an identifier is written, its text can stand between quotes. -/
theorem Written.quotes {written name : Text} (h : Written written name) : Quotes name := by
  cases h with
  | bare hne hbare => exact ⟨hne, inner_of_bare hbare⟩
  | quoted hne hinner => exact ⟨hne, hinner⟩

/-- A name is read back from between its quotes exactly if it can stand there. -/
theorem quoted?_quote {name : Text} :
    quoted? (Dialect.mySQL.quote name) = some (name, []) ↔ Quotes name := by
  constructor
  · intro h
    obtain ⟨written, hwritten, -⟩ := written_of_quoted? h
    exact hwritten.quotes
  · rintro ⟨hne, hinner⟩
    have hclose : closeQuoted? (name ++ ['\x60']) = some (name, []) := closeQuoted?_inner hinner nofun
    have hquote : Dialect.mySQL.quote name = '\x60' :: (name ++ ['\x60']) := rfl
    rw [hquote, quoted?, hclose]
    simp [hne]

theorem quotes_of_mem_all {t name : Text} (h : name ∈ all t) : Quotes name := by
  fun_induction all t with
  | case1 t inner behind hread ih =>
      rcases List.mem_cons.1 h with rfl | h
      · obtain ⟨written, hwritten, -⟩ := written_of_read? hread
        exact hwritten.quotes
      · exact ih h
  | case2 => cases h
  | case3 c rest hread ih => exact ih h

end Identifier

namespace Reference

/-- A reference as it is written with both names quoted. -/
def quoted (d : Dialect) (r : Reference) : Text :=
  arrow ++ ' ' :: (d.quote r.table ++ '.' :: d.quote r.column)

/-- What was read as a reference is read again, as a whole, when both of its names are quoted. -/
theorem read?_quoted {t rest : Text} {r : Reference} (h : read? t = some (r, rest)) :
    Identifier.Quotes r.table ∧ Identifier.Quotes r.column ∧
      read? (quoted .mySQL r) = some (r, []) := by
  obtain ⟨f, hf, -, rfl, -⟩ := exists_form_of_read? h
  have htable := hf.table.quotes
  have hcolumn := hf.column.quotes
  let g : Form :=
    { writtenTable := Dialect.mySQL.quote f.table
      table := f.table
      before := 0
      behind := 0
      writtenColumn := Dialect.mySQL.quote f.column
      column := f.column
      rest := [] }
  have hg : g.Valid :=
    { table := .quoted htable.ne_nil htable.inner
      column := .quoted hcolumn.ne_nil hcolumn.inner
      rest := .inl rfl
      tableSolid := hf.tableSolid
      columnSolid := hf.columnSolid }
  have htext : g.text = quoted .mySQL f.reference := by
    simp [g, Form.text, Form.written, Form.reference, quoted, Text.spaces]
  have hread := read?_form hg
  rw [htext] at hread
  exact ⟨htable, hcolumn, hread⟩

end Reference

namespace Document

open Identifier

theorem exists_mem_of_forall₂ {α β : Type} {R : α → β → Prop} {l : List α} {m : List β} {b : β}
    (h : List.Forall₂ R l m) (hb : b ∈ m) : ∃ a ∈ l, R a b := by
  induction h with
  | nil => cases hb
  | @cons a b' l m hab _ ih =>
      rcases List.mem_cons.1 hb with rfl | hb
      · exact ⟨a, List.mem_cons_self, hab⟩
      · obtain ⟨a', ha', hR⟩ := ih hb
        exact ⟨a', List.mem_cons_of_mem a ha', hR⟩

namespace Composite

theorem quotes_of_read {entry : Text} {c : Composite} (h : read entry = .ok c) :
    ∀ name ∈ c.columns, Quotes name := by
  intro name hname
  unfold read at h
  dsimp only at h
  split at h
  · cases h
  · split at h
    · next hall =>
      cases h
      apply quotes_of_mem_all
      rw [hall]
      exact List.mem_cons_of_mem _ hname
    · cases h

theorem Listed.quotes {section? : Option Value} {composites : List Composite}
    (h : Listed section? composites) : ∀ c ∈ composites, ∀ name ∈ c.columns, Quotes name := by
  obtain ⟨items, -, hall⟩ := h
  intro c hc
  obtain ⟨v, -, text, -, hread⟩ := exists_mem_of_forall₂ hall hc
  exact quotes_of_read hread

/-- An index that entries give to a table is listed by one of them. -/
theorem exists_of_indexesOf {composites : List Composite} {name : Text} {index : List Text}
    (h : index ∈ (indexesOf name composites).unique ∨
      (indexesOf name composites).primary = some index) :
    ∃ c ∈ composites, c.table = name ∧ c.columns = index := by
  have hown {c : Composite} (hc : c ∈ composites.filter fun c => c.table == name) :
      c ∈ composites ∧ c.table = name := by
    rw [List.mem_filter, beq_iff_eq] at hc
    exact hc
  rcases h with h | h
  · obtain ⟨c, hc, rfl⟩ := List.mem_map.1 h
    obtain ⟨hmem, htable⟩ := hown (List.mem_filter.1 hc).1
    exact ⟨c, hmem, htable, rfl⟩
  · obtain ⟨c, hc, rfl⟩ := Option.map_eq_some_iff.1 h
    obtain ⟨hmem, htable⟩ := hown (List.mem_of_find?_eq_some hc)
    exact ⟨c, hmem, htable, rfl⟩

end Composite

/-- An index of a table comes from an entry that names the table, or from marks of its columns. -/
def IndexSource (composites : List Composite) (t : Table) (index : List Text) : Prop :=
  (∃ c ∈ composites, c.table = t.name ∧ c.columns = index) ∨
    ∀ name ∈ index, ∃ column ∈ t.columns, column.name = name

theorem indexSource_of_assemble {composites : List Composite} {readings : List ColumnReading}
    {t : Table} (h : assemble t.name (Composite.indexesOf t.name composites) readings = .ok t)
    {index : List Text} (hindex : index ∈ t.indexes.unique ∨ t.indexes.primary = some index) :
    IndexSource composites t index := by
  obtain ⟨-, ht⟩ := assemble_eq_ok.1 h
  have hmarked {p : ColumnReading → Bool} {c : ColumnReading} (hc : c ∈ readings.filter p) :
      ∃ column ∈ t.columns, column.name = c.name := by
    refine ⟨c.column, ?_, rfl⟩
    rw [ht]
    exact List.mem_map_of_mem (List.mem_filter.1 hc).1
  rcases hindex with hindex | hindex
  · rw [ht] at hindex
    rcases List.mem_append.1 hindex with hlisted | hindex
    · exact .inl (Composite.exists_of_indexesOf (.inl hlisted))
    · obtain ⟨c, hc, rfl⟩ := List.mem_map.1 hindex
      exact .inr (List.forall_mem_singleton.2 (hmarked hc))
  · rw [ht] at hindex
    simp only at hindex
    split at hindex
    · exact .inl (Composite.exists_of_indexesOf (.inr hindex))
    · cases hindex
      refine .inr fun name hname => ?_
      obtain ⟨c, hc, rfl⟩ := List.mem_map.1 hname
      exact hmarked hc

theorem indexSource_of_readTables {defs : Definitions} {composites : List Composite}
    {entries : List (Value × Value)} {tables : List Table}
    (h : readTables defs composites entries = .ok tables) :
    ∀ t ∈ tables, ∀ index, index ∈ t.indexes.unique ∨ t.indexes.primary = some index →
      IndexSource composites t index := by
  induction entries generalizing composites tables with
  | nil =>
      cases h
      exact nofun
  | cons entry rest ih =>
      obtain ⟨t, later, rfl, -, ht, hlater⟩ := readTables_cons_eq_ok.1 h
      obtain ⟨_, -, readings, -, hassemble⟩ := readTable_eq_ok.1 ht
      refine List.forall_mem_cons.2 ⟨fun index hindex => ?_, fun t' ht' index hindex => ?_⟩
      · exact indexSource_of_assemble hassemble hindex
      · rcases ih hlater t' ht' index hindex with ⟨c, hc, hnamed⟩ | hmarked
        · exact .inl ⟨c, (List.mem_filter.1 hc).1, hnamed⟩
        · exact .inr hmarked

/-- The reference of a foreign key was read in the text of a column. -/
theorem exists_read?_of_foreignKey {defs : Definitions} {entries : List (Value × Value)}
    {tables : List Table} (h : List.Forall₂ (TableReflects defs) entries tables) {t : Table}
    (ht : t ∈ tables) {key : ForeignKey} (hkey : key ∈ t.foreignKeys) :
    ∃ text rest, Reference.read? text = some (key.references, rest) := by
  obtain ⟨entry, -, -, readings, ⟨columns, -, hreadings⟩, hshows⟩ := exists_mem_of_forall₂ h ht
  rw [hshows.foreignKeys, List.mem_filterMap] at hkey
  obtain ⟨c, hc, hkey⟩ := hkey
  obtain ⟨r, hr, rfl⟩ := Option.map_eq_some_iff.1 hkey
  obtain ⟨column, -, -, _, _, _, -, -, -, hparted, -⟩ := exists_mem_of_forall₂ hreadings hc
  rw [hr] at hparted
  cases hparted with
  | divided before marker after _ _ _ _ hread => exact ⟨_, _, hread⟩

/-- A name with its quotes is a quoted identifier from end to end, with the name between them: the quotes
in it come in pairs. -/
structure KeepsQuotes (d : Dialect) (name : Text) : Prop where
  paired : Inner name
  read : quoted? (d.quote name) = some (name, [])

theorem keepsQuotes_of_quotes {name : Text} (h : Quotes name) : KeepsQuotes .mySQL name :=
  ⟨h.inner, quoted?_quote.2 h⟩

/-- The names that an accepted document refers to, and those that its entries list for indexes, stay
within their quotes, and a reference with both names quoted is read as the same reference. -/
theorem read_quotes {document : Value} {schema : Schema} (h : read document = .ok schema) :
    (∀ t ∈ schema.tables, ∀ key ∈ t.foreignKeys,
      KeepsQuotes schema.database.source.dialect key.references.table ∧
        KeepsQuotes schema.database.source.dialect key.references.column ∧
          Reference.read? (Reference.quoted schema.database.source.dialect key.references) =
            some (key.references, [])) ∧
      ∃ root composites, document.entries? = some root ∧
        Composite.Listed (Value.field? "composite" root) composites ∧
          (∀ c ∈ composites, ∀ name ∈ c.columns,
            KeepsQuotes schema.database.source.dialect name) ∧
            ∀ t ∈ schema.tables, ∀ index,
              index ∈ t.indexes.unique ∨ t.indexes.primary = some index →
                IndexSource composites t index := by
  obtain ⟨root, hroot, -, composites, hcomposites, defs, -, entries, -, htables⟩ := read_eq_ok.1 h
  have hdialect : schema.database.source.dialect = .mySQL := by
    cases schema.database.source
    rfl
  have hlisted := (Composite.readSection_eq_ok.1 hcomposites).1
  have hreflect := tablesReflect_of_readTables htables
  rw [hdialect]
  refine ⟨fun t ht key hkey => ?_, root, composites, hroot, hlisted, fun c hc name hname => ?_, ?_⟩
  · obtain ⟨text, rest, hread⟩ := exists_read?_of_foreignKey hreflect ht hkey
    obtain ⟨htable, hcolumn, hquoted⟩ := Reference.read?_quoted hread
    exact ⟨keepsQuotes_of_quotes htable, keepsQuotes_of_quotes hcolumn, hquoted⟩
  · exact keepsQuotes_of_quotes (hlisted.quotes c hc name hname)
  · exact indexSource_of_readTables htables

/-- A document with quotes inside of quoted names. -/
def quotedNames : Value :=
  .mapping
    [(.string "database", .mapping [(.string "name", .string "shop")]),
      (.string "composite", .sequence [.string "UNIQUE orders \x60a\x60\x60b\x60 item"]),
      (.string "tables", .mapping
        [(.string "orders", .mapping
          [(.string "item", .string "int -> \x60\x60\x60items\x60 . \x60the id\x60 NULL")])])]

def quotedNamesSchema : Schema where
  database := { name := "shop", source := .mySQL, charset := "utf8", collate := "utf8_general_ci" }
  tables :=
    [{ name := "orders"
       columns := [{ name := "item", definition := "int UNSIGNED NULL" }]
       indexes := { unique := [["a\x60\x60b", "item"]] }
       foreignKeys :=
        [{ column := "item", references := { table := "\x60\x60items", column := "the id" } }] }]

theorem read_quotes_paired : read quotedNames = .ok quotedNamesSchema ∧
    (∀ t ∈ quotedNamesSchema.tables, ∀ key ∈ t.foreignKeys,
      KeepsQuotes quotedNamesSchema.database.source.dialect key.references.table ∧
        KeepsQuotes quotedNamesSchema.database.source.dialect key.references.column ∧
          Reference.read? (Reference.quoted quotedNamesSchema.database.source.dialect key.references) =
            some (key.references, [])) ∧
      ∃ root composites, quotedNames.entries? = some root ∧
        Composite.Listed (Value.field? "composite" root) composites ∧
          (∀ c ∈ composites, ∀ name ∈ c.columns,
            KeepsQuotes quotedNamesSchema.database.source.dialect name) ∧
            ∀ t ∈ quotedNamesSchema.tables, ∀ index,
              index ∈ t.indexes.unique ∨ t.indexes.primary = some index →
                IndexSource composites t index := by
  have hread : read quotedNames = .ok quotedNamesSchema := by decide +kernel
  exact ⟨hread, read_quotes hread⟩

end Document

end SchemaScript
