/- Scripts lose nothing: the text of a script determines the database and the tables. -/
import SchemaScript.Proofs.Script.Sections

namespace SchemaScript.Script

/-- A schema whose script can be read back: no newline outside the descriptive texts, no closing
quote in a name between quotes, no two tables with one name, and a column wherever one is said to
count up. -/
structure Legible (s : Schema) : Prop where
  newline : ∀ x ∈ s.texts, '\n' ∉ x
  quotes : ∀ t ∈ s.tables, ∀ n ∈ t.identifiers, s.database.source.dialect.closing ∉ n
  names : (s.tables.map (·.name)).Nodup
  counting : ∀ t ∈ s.tables, t.CountsOwn

namespace Style

variable {s : Style}

/-- A statement that not every table has, and that changes the table it is about. -/
def Alters (s : Style) (f : Table → Option Block) : Prop :=
  ∀ {t : Table} {b : Block}, f t = some b → ∃ changes, b = s.alterTable t changes

theorem alters_addIndexes? : s.Alters s.addIndexes? := by
  intro t b h
  unfold addIndexes? at h
  split at h
  · cases h
  · exact ⟨_, (Option.some.inj h).symm⟩

theorem alters_addAutoIncrement? : s.Alters s.addAutoIncrement? := by
  intro t b h
  obtain ⟨c, _, rfl⟩ := Option.map_eq_some_iff.1 h
  exact ⟨_, rfl⟩

theorem alters_addForeignKeys? : s.Alters s.addForeignKeys? := by
  intro t b h
  unfold addForeignKeys? at h
  split at h
  · cases h
  · exact ⟨_, (Option.some.inj h).symm⟩

/-- The statement tells the table that it is about. -/
theorem Alters.name_eq {f : Table → Option Block} (hf : s.Alters f) {t u : Table} {b : Block}
    (ht : f t = some b) (hu : f u = some b) : t.name = u.name := by
  obtain ⟨changes, rfl⟩ := hf ht
  obtain ⟨changes', he⟩ := hf hu
  exact (alterTable_inj he).1

theorem Alters.not_mem_filterMap {f : Table → Option Block} (hf : s.Alters f) {t : Table}
    {us : List Table} {b : Block} (ht : f t = some b) (hn : t.name ∉ us.map (·.name)) :
    b ∉ us.filterMap f := by
  intro hb
  obtain ⟨u, hu, hub⟩ := List.mem_filterMap.1 hb
  exact hn (hf.name_eq ht hub ▸ List.mem_map_of_mem hu)

/-- Where no two tables have one name, the statements that there are determine for each table
whether it has one, and which. -/
theorem Alters.map_eq {f : Table → Option Block} (hf : s.Alters f) {ts us : List Table}
    (hnames : ts.map (·.name) = us.map (·.name)) (hnodup : (ts.map (·.name)).Nodup)
    (h : ts.filterMap f = us.filterMap f) : ts.map f = us.map f := by
  induction ts generalizing us with
  | nil => rw [List.map_eq_nil_iff.1 hnames.symm]
  | cons t ts ih =>
      cases us with
      | nil => cases hnames
      | cons u us =>
          have hname : t.name = u.name := (List.cons.inj hnames).1
          have hrest : ts.map (·.name) = us.map (·.name) := (List.cons.inj hnames).2
          obtain ⟨hfresh, hnodup⟩ := List.nodup_cons.1 hnodup
          rw [List.map_cons, List.map_cons]
          cases ht : f t with
          | none =>
              rw [List.filterMap_cons_none ht] at h
              cases hu : f u with
              | none =>
                  rw [List.filterMap_cons_none hu] at h
                  rw [ih hrest hnodup h]
              | some b =>
                  rw [List.filterMap_cons_some hu] at h
                  have hb : b ∈ ts.filterMap f := h ▸ List.mem_cons_self
                  exact absurd hb (hf.not_mem_filterMap hu (hname ▸ hfresh))
          | some b =>
              rw [List.filterMap_cons_some ht] at h
              cases hu : f u with
              | none =>
                  rw [List.filterMap_cons_none hu] at h
                  have hb : b ∈ us.filterMap f := h ▸ List.mem_cons_self
                  exact absurd hb (hf.not_mem_filterMap ht (hrest ▸ hfresh))
              | some b' =>
                  rw [List.filterMap_cons_some hu] at h
                  obtain ⟨rfl, tails⟩ := List.cons.inj h
                  rw [ih hrest hnodup tails]

theorem Alters.not_isBanner {f : Table → Option Block} (hf : s.Alters f) {ts : List Table} :
    ∀ block ∈ ts.filterMap f, ¬ IsBanner block := by
  intro block hb
  obtain ⟨t, _, ht⟩ := List.mem_filterMap.1 hb
  obtain ⟨changes, rfl⟩ := hf ht
  exact SchemaScript.Script.not_isBanner (by simp)

theorem createTable_not_isBanner {charset : Text} {ts : List Table} :
    ∀ block ∈ ts.map (s.createTable charset), ¬ IsBanner block := by
  intro block hb
  obtain ⟨t, _, rfl⟩ := List.mem_map.1 hb
  exact not_isBanner (by simp)

theorem createDatabase_inj {d d' : Database} (h : s.createDatabase d = s.createDatabase d') :
    d.name = d'.name ∧ d.charset = d'.charset ∧ d.collate = d'.collate := by
  simp only [createDatabase, List.cons.injEq, List.append_cancel_left_eq,
    List.append_cancel_right_eq, and_true] at h
  exact ⟨Dialect.quote_inj h.1, h.2⟩

/-- The statements of a schema determine the statements in each section. -/
theorem statements_inj {a b : Schema} (h : s.statements a = s.statements b) :
    s.createDatabase a.database = s.createDatabase b.database ∧
      a.tables.map (s.createTable a.database.charset) =
        b.tables.map (s.createTable b.database.charset) ∧
      a.tables.filterMap s.addIndexes? = b.tables.filterMap s.addIndexes? ∧
      a.tables.filterMap s.addAutoIncrement? = b.tables.filterMap s.addAutoIncrement? ∧
      a.tables.filterMap s.addForeignKeys? = b.tables.filterMap s.addForeignKeys? := by
  simp only [statements, List.append_assoc, List.cons_append, List.nil_append,
    List.cons.injEq] at h
  obtain ⟨hdatabase, _, h⟩ := h
  rw [← List.append_nil (titled "Foreigns" (a.tables.filterMap _)),
    ← List.append_nil (titled "Foreigns" (b.tables.filterMap _))] at h
  -- every section ends where the banner of the next one stands, so they come off from the left
  have hforeigns (ts : List Table) := (Opens.nil []).titled "Foreigns" (ts.filterMap s.addForeignKeys?)
  have hcounting (ts : List Table) :=
    (hforeigns ts).titled "AUTO_INCREMENT" (ts.filterMap s.addAutoIncrement?)
  have hindexes (ts : List Table) := (hcounting ts).titled "Indexes" (ts.filterMap s.addIndexes?)
  obtain ⟨htables, h⟩ := titled_append_inj (hindexes _) (hindexes _) (by decide)
    createTable_not_isBanner createTable_not_isBanner h
  obtain ⟨hindex, h⟩ := titled_append_inj (hcounting _) (hcounting _) (by decide)
    alters_addIndexes?.not_isBanner alters_addIndexes?.not_isBanner h
  obtain ⟨hcount, h⟩ := titled_append_inj (hforeigns _) (hforeigns _) (by decide)
    alters_addAutoIncrement?.not_isBanner alters_addAutoIncrement?.not_isBanner h
  obtain ⟨hforeign, _⟩ := titled_append_inj (.nil []) (.nil []) (by decide)
    alters_addForeignKeys?.not_isBanner alters_addForeignKeys?.not_isBanner h
  exact ⟨hdatabase, htables, hindex, hcount, hforeign⟩

/-- A table is determined by its statements. -/
theorem eq_of_statements {charset : Text} {t u : Table} (ht : s.Quotes t) (hu : s.Quotes u)
    (htc : t.CountsOwn) (huc : u.CountsOwn) (hcreate : s.createTable charset t = s.createTable charset u)
    (hindex : s.addIndexes? t = s.addIndexes? u)
    (hcount : s.addAutoIncrement? t = s.addAutoIncrement? u)
    (hforeign : s.addForeignKeys? t = s.addForeignKeys? u) : t = u := by
  obtain ⟨hname, hcolumns⟩ := createTable_inj ht hu hcreate
  have hindexes := addIndexes?_inj ht hu hindex
  have hcounting := addAutoIncrement?_inj ht hu htc huc hcount
  have hforeigns := addForeignKeys?_inj ht hu hforeign
  obtain ⟨name, columns, indexes, foreignKeys, autoIncrement⟩ := t
  obtain ⟨name', columns', indexes', foreignKeys', autoIncrement'⟩ := u
  simp_all only

theorem tables_eq_of_statements {a b : Schema} (hnames : (a.tables.map (·.name)).Nodup)
    (ha : ∀ t ∈ a.tables, s.Quotes t ∧ t.CountsOwn) (hb : ∀ t ∈ b.tables, s.Quotes t ∧ t.CountsOwn)
    (h : s.statements a = s.statements b) : a.tables = b.tables := by
  obtain ⟨hdatabase, hcreate, hindex, hcount, hforeign⟩ := statements_inj h
  rw [(createDatabase_inj hdatabase).2.1] at hcreate
  have hname : a.tables.map (·.name) = b.tables.map (·.name) :=
    map_eq_of_map_eq (fun t ht u hu he => (createTable_inj (ha t ht).1 (hb u hu).1 he).1) hcreate
  have hindex := alters_addIndexes?.map_eq hname hnames hindex
  have hcount := alters_addAutoIncrement?.map_eq hname hnames hcount
  have hforeign := alters_addForeignKeys?.map_eq hname hnames hforeign
  have hall := congrArg₂ List.zip hcreate (congrArg₂ List.zip hindex
    (congrArg₂ List.zip hcount hforeign))
  simp only [List.zip_map'] at hall
  refine map_inj_on (fun t ht u hu he => ?_) hall
  simp only [Prod.mk.injEq] at he
  exact eq_of_statements (ha t ht).1 (hb u hu).1 (ha t ht).2 (hb u hu).2 he.1 he.2.1 he.2.2.1
    he.2.2.2

end Style

/-- A script loses nothing but what only its head shows: schemas with the same text have the same
database and the same tables, with all their columns, indexes and foreign keys in order. -/
theorem render_determines (time : Timestamp) (indent : Nat) {a b : Schema} (ha : Legible a)
    (hb : Legible b) (h : render time indent a = render time indent b) :
    a.database.name = b.database.name ∧ a.database.charset = b.database.charset ∧
      a.database.collate = b.database.collate ∧ a.tables = b.tables := by
  have hscript := text_inj (ofSchema_tidy time indent ha.newline)
    (ofSchema_tidy time indent hb.newline) (List.cons_ne_nil _ _) (List.cons_ne_nil _ _) h
  have hsource : a.database.source = b.database.source := by
    cases a.database.source
    cases b.database.source
    rfl
  have hstatements := (List.cons.inj hscript).2
  rw [hsource] at hstatements
  obtain ⟨hname, hcharset, hcollate⟩ :=
    Style.createDatabase_inj (Style.statements_inj hstatements).1
  refine ⟨hname, hcharset, hcollate, Style.tables_eq_of_statements ha.names ?_ ?_ hstatements⟩
  · exact fun t ht => ⟨hsource ▸ ha.quotes t ht, ha.counting t ht⟩
  · exact fun t ht => ⟨hb.quotes t ht, hb.counting t ht⟩

/-- Two tables, one of them without columns and with an empty primary key. -/
def twoTables (m : Metadata) : Schema :=
  { database := { name := "db", source := .mySQL, charset := "utf8", collate := "utf8_bin", metadata := m }
    tables :=
      [{ name := "users"
         columns := [⟨"id", "int UNSIGNED NOT NULL"⟩, ⟨"boss", "int, UNSIGNED NULL,"⟩]
         indexes := { primary := some ["id"], unique := [["boss", "id"], []] }
         foreignKeys := [⟨"boss", ⟨"users", "id"⟩⟩]
         autoIncrement := some "id".toList },
       { name := "", columns := [], indexes := { primary := some [] } }] }

/-- One text for two schemas that differ in their descriptions. -/
theorem render_determines_twoTables :
    let time : Timestamp := ⟨2024, 5, 1, 10, 20, 30, 120⟩
    let a := twoTables { project := some "x".toList, description := some "y".toList }
    let b := twoTables { project := some "x\nDescription: y".toList }
    (Legible a ∧ Legible b ∧ render time 2 a = render time 2 b) ∧
      a ≠ b ∧ a.database.name = b.database.name ∧ a.tables = b.tables := by
  intro time a b
  have ha : Legible a := ⟨by decide, by decide, by decide, by decide⟩
  have hb : Legible b := ⟨by decide, by decide, by decide, by decide⟩
  have h : render time 2 a = render time 2 b := by decide +kernel
  have hall := render_determines time 2 ha hb h
  exact ⟨⟨ha, hb, h⟩, by decide, hall.1, hall.2.2.2⟩

end SchemaScript.Script
