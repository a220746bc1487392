/- Tidy scripts: no newline in a schema, no empty line in a block of its script. -/
import SchemaScript.Proofs.Script.Layout
import SchemaScript.Proofs.Script.Statement

namespace SchemaScript

/-- All texts of a table. -/
def Table.texts (t : Table) : List Text :=
  t.identifiers ++ t.columns.map (·.definition) ++ t.autoIncrement.toList

/-- All texts of a schema but the descriptive ones. -/
def Schema.texts (s : Schema) : List Text :=
  [s.database.name, s.database.charset, s.database.collate] ++ s.tables.flatMap (·.texts)

namespace Script

theorem endLines_isLine {last others : Text} {b : Block} (hlast : '\n' ∉ last)
    (hothers : '\n' ∉ others) (hb : ∀ line ∈ b, IsLine line) :
    ∀ line ∈ endLines last others b, IsLine line := by
  fun_induction endLines last others b with
  | case1 => exact hb
  | case2 line =>
      intro l hl
      rw [List.mem_singleton.1 hl]
      exact (hb line List.mem_cons_self).append hlast
  | case3 line next rest ih =>
      intro l hl
      rcases List.mem_cons.1 hl with rfl | hl
      · exact (hb line List.mem_cons_self).append hothers
      · exact ih (fun x hx => hb x (List.mem_cons_of_mem _ hx)) l hl

theorem banner_isLine {title : Text} (ht : '\n' ∉ title) : ∀ line ∈ banner title, IsLine line := by
  intro line hl
  simp only [banner, List.mem_cons, List.not_mem_nil, or_false] at hl
  rcases hl with rfl | rfl | rfl
  · exact ⟨by decide, by decide⟩
  · exact IsLine.append ⟨by decide, by decide⟩ ht
  · exact ⟨by decide, by decide⟩

theorem Tidy.titled {title : Text} {s : Script} (ht : '\n' ∉ title) (hs : Tidy s) :
    Tidy (titled title s) := by
  cases s with
  | nil => exact hs
  | cons block rest =>
      intro b hb
      rcases List.mem_cons.1 hb with rfl | hb
      · exact banner_isLine ht
      · exact hs b hb

namespace Style

variable {s : Style} {t : Table}

theorem newline_not_mem_pad : '\n' ∉ s.pad := fun h =>
  absurd (List.eq_of_mem_replicate h) (by decide)

theorem newline_not_mem_quote (hd : s.dialect = .mySQL) {n : Text} (hn : '\n' ∉ n) :
    '\n' ∉ s.dialect.quote n := by
  simp [hd, Dialect.mySQL, Dialect.quote, hn]

theorem newline_not_mem_columnList (hd : s.dialect = .mySQL) {columns : List Text}
    (hc : ∀ c ∈ columns, '\n' ∉ c) : '\n' ∉ s.columnList columns := by
  cases columns with
  | nil => exact List.not_mem_nil
  | cons c rest =>
      have hrest : ∀ x ∈ rest, '\n' ∉ s.dialect.quote x := fun x hx =>
        newline_not_mem_quote hd (hc x (List.mem_cons_of_mem _ hx))
      rw [columnList_cons, List.mem_append, List.mem_flatMap, not_or]
      refine ⟨newline_not_mem_quote hd (hc c List.mem_cons_self), ?_⟩
      rintro ⟨x, hx, hmem⟩
      rcases List.mem_append.1 hmem with hmem | hmem
      · exact absurd hmem (by decide)
      · exact hrest x hx hmem

theorem columnLine_isLine (hd : s.dialect = .mySQL) {c : Column} (hn : '\n' ∉ c.name)
    (hdef : '\n' ∉ c.definition) : IsLine (s.columnLine c) := by
  simp [columnLine, IsLine, newline_not_mem_pad, newline_not_mem_quote hd hn, hdef]

theorem primaryLine_isLine (hd : s.dialect = .mySQL) {columns : List Text}
    (hc : ∀ c ∈ columns, '\n' ∉ c) : IsLine (s.primaryLine columns) := by
  simp [primaryLine, IsLine, newline_not_mem_pad, newline_not_mem_columnList hd hc]

theorem uniqueLine_isLine (hd : s.dialect = .mySQL) {columns : List Text}
    (hc : ∀ c ∈ columns, '\n' ∉ c) : IsLine (s.uniqueLine columns) := by
  simp [uniqueLine, IsLine, newline_not_mem_pad, newline_not_mem_columnList hd hc]

theorem countingLine_isLine (hd : s.dialect = .mySQL) {c : Column} (hn : '\n' ∉ c.name)
    (hdef : '\n' ∉ c.definition) : IsLine (s.countingLine c) := by
  simp [countingLine, IsLine, newline_not_mem_pad, newline_not_mem_quote hd hn, hdef]

theorem foreignKeyLine_isLine (hd : s.dialect = .mySQL) {k : ForeignKey}
    (hk : ∀ n ∈ k.identifiers, '\n' ∉ n) : IsLine (s.foreignKeyLine k) := by
  simp only [ForeignKey.identifiers, List.mem_cons, List.not_mem_nil, or_false,
    forall_eq_or_imp, forall_eq] at hk
  simp [foreignKeyLine, IsLine, newline_not_mem_pad, newline_not_mem_quote hd hk.1,
    newline_not_mem_quote hd hk.2.1, newline_not_mem_quote hd hk.2.2]

theorem alterTable_isLine (hd : s.dialect = .mySQL) (hn : '\n' ∉ t.name) {changes : Block}
    (hc : ∀ line ∈ changes, IsLine line) : ∀ line ∈ s.alterTable t changes, IsLine line := by
  intro line hl
  rcases List.mem_cons.1 hl with rfl | hl
  · exact IsLine.append ⟨by decide, by decide⟩ (newline_not_mem_quote hd hn)
  · exact endLines_isLine (by decide) (by decide) hc line hl

/-- A table without a newline in its texts. -/
def OneLiner (t : Table) : Prop := ∀ x ∈ t.texts, '\n' ∉ x

theorem OneLiner.identifiers (h : OneLiner t) {n : Text} (hn : n ∈ t.identifiers) : '\n' ∉ n :=
  h n (List.mem_append_left _ (List.mem_append_left _ hn))

theorem OneLiner.definition (h : OneLiner t) {c : Column} (hc : c ∈ t.columns) :
    '\n' ∉ c.definition :=
  h _ (List.mem_append_left _ (List.mem_append_right _ (List.mem_map_of_mem hc)))

theorem createTable_isLine (hd : s.dialect = .mySQL) {charset : Text} (hc : '\n' ∉ charset)
    (ht : OneLiner t) : ∀ line ∈ s.createTable charset t, IsLine line := by
  intro line hl
  simp only [createTable, List.mem_append, List.mem_cons, List.not_mem_nil, or_false] at hl
  rcases hl with (rfl | hl) | rfl
  · exact (IsLine.append ⟨by decide, by decide⟩
      (newline_not_mem_quote hd (ht.identifiers (Table.mem_identifiers_name t)))).append (by decide)
  · refine endLines_isLine (by decide) (by decide) ?_ line hl
    intro l hl
    obtain ⟨c, hc, rfl⟩ := List.mem_map.1 hl
    exact columnLine_isLine hd (ht.identifiers (Table.mem_identifiers_column hc)) (ht.definition hc)
  · exact (IsLine.append ⟨by decide, by decide⟩ hc).append (by decide)

theorem addIndexes?_isLine (hd : s.dialect = .mySQL) (ht : OneLiner t) {block : Block}
    (h : s.addIndexes? t = some block) : ∀ line ∈ block, IsLine line := by
  unfold addIndexes? at h
  split at h
  · cases h
  · cases h
    refine alterTable_isLine hd (ht.identifiers (Table.mem_identifiers_name t)) ?_
    intro line hl
    rcases List.mem_append.1 hl with hl | hl
    · obtain ⟨columns, hp, rfl⟩ := List.mem_map.1 hl
      exact primaryLine_isLine hd fun n hn =>
        ht.identifiers (Table.mem_identifiers_primary (Option.mem_toList.1 hp) hn)
    · obtain ⟨columns, hu, rfl⟩ := List.mem_map.1 hl
      exact uniqueLine_isLine hd fun n hn => ht.identifiers (Table.mem_identifiers_unique hu hn)

theorem addAutoIncrement?_isLine (hd : s.dialect = .mySQL) (ht : OneLiner t) {block : Block}
    (h : s.addAutoIncrement? t = some block) : ∀ line ∈ block, IsLine line := by
  obtain ⟨c, hc, rfl⟩ := Option.map_eq_some_iff.1 h
  obtain ⟨name, _, hc⟩ := Option.bind_eq_some_iff.1 hc
  obtain ⟨hmem, _⟩ := column?_eq_some hc
  refine alterTable_isLine hd (ht.identifiers (Table.mem_identifiers_name t)) ?_
  intro line hl
  rw [List.mem_singleton.1 hl]
  exact countingLine_isLine hd (ht.identifiers (Table.mem_identifiers_column hmem))
    (ht.definition hmem)

theorem addForeignKeys?_isLine (hd : s.dialect = .mySQL) (ht : OneLiner t) {block : Block}
    (h : s.addForeignKeys? t = some block) : ∀ line ∈ block, IsLine line := by
  unfold addForeignKeys? at h
  split at h
  · cases h
  · cases h
    refine alterTable_isLine hd (ht.identifiers (Table.mem_identifiers_name t)) ?_
    intro line hl
    obtain ⟨k, hk, rfl⟩ := List.mem_map.1 hl
    exact foreignKeyLine_isLine hd fun n hn =>
      ht.identifiers (Table.mem_identifiers_foreignKey hk hn)

theorem createDatabase_isLine (hd : s.dialect = .mySQL) {d : Database} (hn : '\n' ∉ d.name)
    (hc : '\n' ∉ d.charset) (hl : '\n' ∉ d.collate) :
    ∀ line ∈ s.createDatabase d, IsLine line := by
  intro line h
  simp only [createDatabase, List.mem_cons, List.not_mem_nil, or_false] at h
  rcases h with rfl | rfl | rfl
  · exact IsLine.append ⟨by decide, by decide⟩ (newline_not_mem_quote hd hn)
  · simp [IsLine, newline_not_mem_pad, hc]
  · simp [IsLine, newline_not_mem_pad, hl]

theorem useDatabase_isLine (hd : s.dialect = .mySQL) {d : Database} (hn : '\n' ∉ d.name) :
    ∀ line ∈ s.useDatabase d, IsLine line := by
  intro line h
  rw [List.mem_singleton.1 h]
  exact (IsLine.append ⟨by decide, by decide⟩ (newline_not_mem_quote hd hn)).append (by decide)

theorem tidy_filterMap {f : Table → Option Block} {ts : List Table}
    (hf : ∀ t ∈ ts, ∀ b, f t = some b → ∀ line ∈ b, IsLine line) : Tidy (ts.filterMap f) := by
  intro b hb
  obtain ⟨t, ht, he⟩ := List.mem_filterMap.1 hb
  exact hf t ht b he

theorem statements_tidy (hd : s.dialect = .mySQL) {schema : Schema}
    (h : ∀ x ∈ schema.texts, '\n' ∉ x) : Tidy (s.statements schema) := by
  have hbase : ∀ x ∈ [schema.database.name, schema.database.charset, schema.database.collate],
      '\n' ∉ x := fun x hx => h x (List.mem_append_left _ hx)
  simp only [List.mem_cons, List.not_mem_nil, or_false, forall_eq_or_imp, forall_eq] at hbase
  have htables : ∀ t ∈ schema.tables, OneLiner t := fun t ht x hx =>
    h x (List.mem_append_right _ (List.mem_flatMap.2 ⟨t, ht, hx⟩))
  have hdatabase : Tidy [s.createDatabase schema.database, s.useDatabase schema.database] := by
    intro b hb
    simp only [List.mem_cons, List.not_mem_nil, or_false] at hb
    rcases hb with rfl | rfl
    · exact createDatabase_isLine hd hbase.1 hbase.2.1 hbase.2.2
    · exact useDatabase_isLine hd hbase.1
  have hcreate : Tidy (schema.tables.map (s.createTable schema.database.charset)) := by
    intro b hb
    obtain ⟨t, ht, rfl⟩ := List.mem_map.1 hb
    exact createTable_isLine hd hbase.2.1 (htables t ht)
  have hindexes : Tidy (schema.tables.filterMap s.addIndexes?) :=
    tidy_filterMap fun t ht _ => addIndexes?_isLine hd (htables t ht)
  have hcounting : Tidy (schema.tables.filterMap s.addAutoIncrement?) :=
    tidy_filterMap fun t ht _ => addAutoIncrement?_isLine hd (htables t ht)
  have hforeigns : Tidy (schema.tables.filterMap s.addForeignKeys?) :=
    tidy_filterMap fun t ht _ => addForeignKeys?_isLine hd (htables t ht)
  exact (((hdatabase.append (hcreate.titled (by decide))).append
    (hindexes.titled (by decide))).append (hcounting.titled (by decide))).append
      (hforeigns.titled (by decide))

end Style

theorem dialect_eq_mySQL (source : Source) : source.dialect = .mySQL := by
  cases source
  rfl

/-- The blocks of a script hold no empty line, whatever is known about the database. -/
theorem ofSchema_tidy (time : Timestamp) (indent : Nat) {schema : Schema}
    (h : ∀ x ∈ schema.texts, '\n' ∉ x) : Tidy (ofSchema time indent schema) := by
  intro b hb
  rcases List.mem_cons.1 hb with rfl | hb
  · exact fun line hl => (header_isComment hl).isLine
  · exact Style.statements_tidy (dialect_eq_mySQL schema.database.source) h b hb

end Script
end SchemaScript
