/- Inlining: where each column text is replaced by its expansion, the definitions are not needed any
   more. -/
import SchemaScript.Proofs.Document.Edited
import SchemaScript.Proofs.Document.Expansion
import SchemaScript.Proofs.Document.Names
import SchemaScript.Proofs.Text.Trim

namespace SchemaScript

namespace Text

theorem not_isBlank_of_mem {c : Char} {t : Text} (hc : c ∈ t)
    (hsolid : SchemaScript.isBlank c = false) : isBlank t = false := by
  refine List.all_eq_false.2 ⟨c, hc, ?_⟩
  rw [hsolid]
  exact Bool.false_ne_true

theorem isBlank_of_isDigit {c : Char} (h : c.isDigit = true) : SchemaScript.isBlank c = false := by
  have hrange := isDigit_bounds h
  simp only [SchemaScript.isBlank, Bool.or_eq_false_iff, Bool.and_eq_false_iff, beq_eq_false_iff_ne,
    decide_eq_false_iff_not]
  omega

theorem not_isBlank_ofInt (i : Int) : isBlank (ofInt i) = false := by
  cases i with
  | ofNat n =>
      obtain ⟨c, hc⟩ := List.exists_mem_of_ne_nil _ (Nat.toDigits_ne_nil (n := n) (b := 10))
      exact not_isBlank_of_mem hc (isBlank_of_isDigit (isDigit_of_mem_ofNat hc))
  | negSucc n => exact not_isBlank_of_mem List.mem_cons_self (by decide)

end Text

/-- A decimal has a point or an exponent. -/
theorem Decimal.Layout.not_isBlank_text (layout : Decimal.Layout) {digits : Text}
    (hdigits : digits ≠ []) (point : Int) : Text.isBlank (layout.text digits point) = false := by
  have hmark : '.' ∈ layout.text digits point ∨ 'e' ∈ layout.text digits point := by
    unfold Decimal.Layout.text
    obtain ⟨first, fraction, rfl⟩ := List.exists_cons_of_ne_nil hdigits
    split
    · split
      · dsimp only
        split <;> simp
      · simp
    · simp
  rcases hmark with h | h
  · exact Text.not_isBlank_of_mem h (by decide)
  · exact Text.not_isBlank_of_mem h (by decide)

theorem Double.not_isBlank_text (x : Double) : Text.isBlank x.text = false := by
  cases x with
  | nan => decide
  | infinite negative => cases negative <;> decide
  | finite negative mantissa exponent =>
      unfold Double.text Text.isBlank
      dsimp only
      split
      · rw [List.all_append, Bool.and_eq_false_iff]
        exact .inr (by decide)
      · rw [List.all_append, Bool.and_eq_false_iff]
        exact .inr (Decimal.defaultLayout.not_isBlank_text Nat.toDigits_ne_nil _)

namespace Value

/-- The text of a value is never blank. -/
theorem not_isBlank_of_text? {v : Value} {t : Text} (h : v.text? = some t) :
    Text.isBlank t = false := by
  fun_induction text? v with
  | case1 => cases h
  | case2 u hb =>
      cases h
      exact Bool.eq_false_iff.2 hb
  | case3 b =>
      cases h
      cases b <;> decide
  | case4 i =>
      cases h
      exact Text.not_isBlank_ofInt i
  | case5 x =>
      cases h
      exact x.not_isBlank_text
  | case6 tag v ih => exact ih h
  | case7 => cases h
  | case8 => cases h
  | case9 => cases h

theorem text?_string {t : Text} (h : Text.isBlank t = false) : text? (.string t) = some t := by
  rw [text?, h]
  rfl

end Value

namespace Document

namespace Definitions

variable {defs : Definitions} {t u : Text}

/-- Every definition stands for a trimmed text. -/
def Trimmed (defs : Definitions) : Prop := ∀ d ∈ defs, d.2.Trimmed

theorem Trimmed.readEntries {entries : List (Value × Value)} {read : Definitions}
    (hdefs : Trimmed defs) (h : defs.readEntries entries = .ok read) : Trimmed read := by
  induction entries generalizing defs with
  | nil =>
      cases h
      exact hdefs
  | cons entry rest ih =>
      obtain ⟨name, _, h⟩ := bind_eq_ok.1 h
      cases htext : entry.2.text? with
      | none => simp [htext] at h
      | some text =>
          simp only [htext] at h
          refine ih ?_ h
          rintro d hd
          rcases List.mem_cons.1 hd with rfl | hd
          · exact Text.trimmed_trim (Text.trim_ne_nil (Value.not_isBlank_of_text? htext))
          · exact hdefs d (List.mem_of_mem_filter hd)

theorem trimmed_of_read {root : List (Value × Value)} (h : Definitions.read root = .ok defs) :
    Trimmed defs := by
  obtain ⟨entries, _, h⟩ := bind_eq_ok.1 h
  exact Trimmed.readEntries (fun _ hd => (List.not_mem_nil hd).elim) h

theorem Trimmed.lookup? (hdefs : Trimmed defs) {word text : Text}
    (h : defs.lookup? word = some text) : text.Trimmed := by
  obtain ⟨d, hd, rfl⟩ := Option.map_eq_some_iff.1 h
  exact hdefs d (List.mem_of_find?_eq_some hd)

/-- A substitution in a trimmed text leaves it trimmed. -/
theorem Substitutes.trimmed (hdefs : Trimmed defs) (h : Substitutes defs t u) (ht : t.Trimmed) :
    u.Trimmed := by
  cases h with
  | alone _ named => exact hdefs.lookup? named
  | followed _ named hb => exact (hdefs.lookup? named).replace ht hb ' '

theorem Reaches.trimmed {n : Nat} (hdefs : Trimmed defs) (h : Reaches defs n t u)
    (ht : t.Trimmed) : u.Trimmed := by
  induction h with
  | refl => exact ht
  | step first _ ih => exact ih (first.trimmed hdefs ht)

theorem trimmed_of_expand? (hdefs : Trimmed defs) (h : defs.expand? t = some u) (ht : t.Trimmed) :
    u.Trimmed := by
  obtain ⟨n, _, hsettles⟩ := expandWithin_eq_some.1 h
  exact hsettles.1.trimmed hdefs ht

/-- Without definitions a text is its own expansion. -/
theorem expand?_nil (t : Text) : expand? [] t = some t := by
  have hstuck : substitute? [] t = none := by
    unfold substitute?
    split <;> rfl
  exact expandWithin_eq_some.2 ⟨0, Nat.zero_le _, (settles_of_stuck hstuck).2 ⟨rfl, rfl⟩⟩

/-- The expansion of the text of a column, in the place of that text. -/
def inlineColumn (defs : Definitions) (raw : Value) : Value :=
  match raw.text?.bind fun written => defs.expand? (Text.trim written) with
  | some expanded => .string expanded
  | none => raw

def inlineTable (defs : Definitions) : Value → Value
  | .mapping columns => .mapping (columns.map fun c => (c.1, defs.inlineColumn c.2))
  | columns => columns

def inlineTables (defs : Definitions) : Value → Value
  | .mapping tables => .mapping (tables.map fun t => (t.1, defs.inlineTable t.2))
  | tables => tables

/-- A document with its column texts expanded and without a section for definitions. -/
def inline (defs : Definitions) (document : Value) : Value :=
  document.mapEntries fun root =>
    Value.eraseField Section.definitions.key
      (Value.updateField Section.tables.key defs.inlineTables root)

end Definitions

variable {defs : Definitions} {table : Text} {composite : IndexSet} {composites : List Composite}

theorem readColumn_inline (hdefs : defs.Trimmed) {entry : Value × Value} {c : ColumnReading}
    (h : readColumn defs table entry.1 entry.2 = .ok c) :
    readColumn [] table entry.1 (defs.inlineColumn entry.2) = .ok c := by
  obtain ⟨hname, text, ⟨hne, written, hwritten, rfl⟩, expanded, hexpand, plain, hplain, hscan⟩ :=
    readColumn_eq_ok.1 h
  have htrimmed : expanded.Trimmed :=
    Definitions.trimmed_of_expand? hdefs hexpand (Text.trimmed_trim hne)
  have hinline : defs.inlineColumn entry.2 = .string expanded := by
    unfold Definitions.inlineColumn
    rw [hwritten, Option.bind_some, hexpand]
  have htext : (Value.string expanded).text? = some expanded :=
    Value.text?_string htrimmed.not_isBlank
  rw [hinline]
  change readColumn [] table (entry.1, Value.string expanded).1 (entry.1, Value.string expanded).2
    = .ok c
  exact readColumn_eq_ok.2
    ⟨hname, expanded, ⟨htrimmed.ne_nil, expanded, htext, htrimmed.trim_eq⟩, expanded,
      Definitions.expand?_nil expanded, plain, hplain, hscan⟩

theorem readColumns_inline (hdefs : defs.Trimmed) {entries : List (Value × Value)}
    {columns : List ColumnReading} (h : readColumns defs table false entries = .ok columns) :
    readColumns [] table false (entries.map fun c => (c.1, defs.inlineColumn c.2)) = .ok columns := by
  obtain ⟨hall, hrest⟩ := readColumns_eq_ok.1 h
  refine readColumns_eq_ok.2 ⟨?_, hrest⟩
  rw [List.forall₂_map_left_iff]
  exact hall.imp fun _ _ hc => readColumn_inline hdefs hc

theorem readTable_inline (hdefs : defs.Trimmed) {columns : Value} {t : Table}
    (h : readTable defs composite table columns = .ok t) :
    readTable [] composite table (defs.inlineTable columns) = .ok t := by
  obtain ⟨entries, hentries, readings, hreadings, hassemble⟩ := readTable_eq_ok.1 h
  refine readTable_eq_ok.2 ⟨_, ?_, readings, readColumns_inline hdefs hreadings, hassemble⟩
  rcases tableEntries_eq_ok.1 hentries with ⟨rfl, rfl⟩ | rfl
  · rfl
  · rfl

theorem readTables_inline (hdefs : defs.Trimmed) {entries : List (Value × Value)}
    {tables : List Table} (h : readTables defs composites entries = .ok tables) :
    readTables [] composites (entries.map fun t => (t.1, defs.inlineTable t.2)) = .ok tables := by
  induction entries generalizing composites tables with
  | nil => exact h
  | cons entry rest ih =>
      obtain ⟨t, later, rfl, hname, ht, hlater⟩ := readTables_cons_eq_ok.1 h
      rw [List.map_cons]
      exact readTables_cons_eq_ok.2
        ⟨t, later, rfl, hname, readTable_inline hdefs ht, ih hlater⟩

/-- A column has a text, the text an expansion, and the expansion takes its place. -/
def Inlined (defs : Definitions) (raw : Value) : Prop :=
  ∃ written expanded, raw.text? = some written ∧
    defs.expand? (Text.trim written) = some expanded ∧ defs.inlineColumn raw = .string expanded

theorem inlined_of_columnReflects {entry : Value × Value} {c : ColumnReading}
    (h : ColumnReflects defs entry c) : Inlined defs entry.2 := by
  obtain ⟨written, expanded, _, hwritten, hexpand, _⟩ := h.text
  refine ⟨written, expanded, hwritten, hexpand, ?_⟩
  unfold Definitions.inlineColumn
  rw [hwritten, Option.bind_some, hexpand]

theorem inlined_of_tableReflects {entry : Value × Value} {t : Table}
    (h : TableReflects defs entry t) : ∀ column ∈ columnEntries entry.2, Inlined defs column.2 := by
  obtain ⟨readings, hreadings, _⟩ := h.columns
  exact (forall_mem_iff hreadings.columnEntries fun _ _ hc =>
    iff_true_intro (inlined_of_columnReflects hc)).2 fun _ _ => trivial

/-- An accepted document with every column text expanded and with no definitions is accepted, too,
and gives the same schema. -/
theorem read_inline {document : Value} {schema : Schema} (h : read document = .ok schema) :
    ∃ root defs entries, document.entries? = some root ∧ Definitions.read root = .ok defs ∧
      sectionEntries .tables root = .ok entries ∧
        (∀ table ∈ entries, ∀ column ∈ columnEntries table.2, Inlined defs column.2) ∧
          (∃ root', (defs.inline document).entries? = some root' ∧
            Value.field? Section.definitions.key root' = none) ∧
              read (defs.inline document) = .ok schema := by
  obtain ⟨root, hroot, hdatabase, composites, hcomposites, defs, hdefs, entries, hentries, htables⟩ :=
    read_eq_ok.1 h
  let tabled := Value.updateField Section.tables.key defs.inlineTables root
  let inlined := Value.eraseField Section.definitions.key tabled
  have hinlined : (defs.inline document).entries? = some inlined := by
    unfold Definitions.inline
    rw [Value.entries?_mapEntries, hroot]
    rfl
  have hsame {key : Text} (hd : key ≠ Section.definitions.key) (ht : key ≠ Section.tables.key) :
      Value.field? key inlined = Value.field? key root := by
    rw [Value.field?_eraseField_of_ne hd, Value.field?_updateField_of_ne ht]
  have hnone : Value.field? Section.definitions.key inlined = none := Value.field?_eraseField
  refine ⟨root, defs, entries, hroot, hdefs, hentries, ?_, ⟨inlined, hinlined, hnone⟩, ?_⟩
  · exact (forall_mem_iff (tablesReflect_of_readTables htables) fun _ _ ht =>
      iff_true_intro (inlined_of_tableReflects ht)).2 fun _ _ => trivial
  · refine read_eq_ok.2 ⟨inlined, hinlined, ?database, composites, ?composites, [], ?definitions,
      entries.map fun t => (t.1, defs.inlineTable t.2), ?entries,
      readTables_inline (Definitions.trimmed_of_read hdefs) htables⟩
    case database => rw [readDatabase_congr (hsame (by decide) (by decide)), hdatabase]
    case composites => rw [hsame (by decide) (by decide), hcomposites]
    case definitions =>
      unfold Definitions.read sectionEntries
      rw [hnone]
      rfl
    case entries =>
      have htabled : Value.field? Section.tables.key inlined = Value.field? Section.tables.key tabled :=
        Value.field?_eraseField_of_ne (by decide)
      rw [sectionEntries_congr htabled]
      exact sectionEntries_updateField hentries rfl fun hnil => ⟨by rw [hnil]; rfl, .inl rfl⟩

def forumDefinitions : Definitions :=
  [("author", "int -> users.id"), ("key", "counter PRIMARY KEY"), ("counter", "int AUTO_INCREMENT")]

/-- A document with a definition that leads to another one, and one with a reference in it. -/
def forum : Value :=
  .mapping
    [(.string "database", .mapping [(.string "name", .string "forum")]),
      (.string "definitions", .mapping
        [(.string "counter", .string "int AUTO_INCREMENT"),
          (.string "key", .string " counter PRIMARY KEY"),
          (.string "author", .string "int -> users.id ")]),
      (.string "tables", .mapping
        [(.string "users", .mapping [(.string "id", .string "key")]),
          (.string "posts", .mapping
            [(.string "id", .string " key\tDEFAULT 1 "),
              (.string "author", .string "author UNIQUE NULLABLE")])])]

def forumSchema : Schema where
  database := { name := "forum", source := .mySQL, charset := "utf8", collate := "utf8_general_ci" }
  tables :=
    [{ name := "users"
       columns := [{ name := "id", definition := "int UNSIGNED NOT NULL" }]
       indexes := { primary := some ["id"] }
       autoIncrement := some "id".toList },
      { name := "posts"
        columns :=
          [{ name := "id", definition := "int UNSIGNED NOT NULL DEFAULT 1" },
            { name := "author", definition := "int UNSIGNED NULL" }]
        indexes := { primary := some ["id"], unique := [["author"]] }
        foreignKeys := [{ column := "author", references := { table := "users", column := "id" } }]
        autoIncrement := some "id".toList }]

theorem read_inline_forum :
    read forum = .ok forumSchema ∧ read (forumDefinitions.inline forum) = .ok forumSchema := by
  have h : read forum = .ok forumSchema := by decide +kernel
  obtain ⟨root, defs, _, hroot, hdefs, _, _, _, hinline⟩ := read_inline h
  have hread : forum.entries?.map Definitions.read = some (.ok forumDefinitions) := by
    decide +kernel
  rw [hroot, Option.map_some, hdefs] at hread
  cases hread
  exact ⟨h, hinline⟩

end Document
end SchemaScript
