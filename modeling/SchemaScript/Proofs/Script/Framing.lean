/- Framing: the text of a script is a sequence of blocks with one empty line between neighbours.
   Behind the head stand the database, and then a section for each kind of statement. -/
import SchemaScript.Proofs.Script.Header
import SchemaScript.Proofs.Script.Lossless
import Mathlib.Data.List.Forall2

namespace SchemaScript

namespace Table

def hasIndexes (t : Table) : Bool := !t.indexes.isEmpty

/-- One of the columns is the one that counts up by itself. -/
def hasCounter (t : Table) : Bool := t.columns.any fun c => t.autoIncrement == some c.name

def hasForeignKeys (t : Table) : Bool := !t.foreignKeys.isEmpty

end Table

namespace Script

/-- The blocks of a text, which are the lines between its empty lines. Two empty lines in a row
have an empty block between them, and so has an empty line at either end of the text behind it. -/
def blocksOf (t : Text) : Script := (Text.splitOn '\n' t).splitOn []

theorem splitOn_ended {s : Script} (hs : Tidy s) :
    (s.flatMap fun block => block ++ [[]]).splitOn [] = s ++ [[]] := by
  induction s with
  | nil => rfl
  | cons block rest ih =>
      have hblock : [] ∉ block := hs.nil_not_mem List.mem_cons_self
      have hrest := ih fun b hb => hs b (List.mem_cons_of_mem _ hb)
      rw [List.flatMap_cons, List.append_assoc, List.singleton_append,
        List.splitOn_append_cons_self_of_not_mem hblock, hrest, List.cons_append]

/-- The text of a tidy script is cut into its blocks again, and ends behind an empty line. -/
theorem blocksOf_text {s : Script} (hs : Tidy s) (hne : s ≠ []) : blocksOf s.text = s ++ [[]] := by
  have hlines := Text.splitOn_join (ended_ne_nil hne)
    fun _ hl => newline_not_mem_of_mem_ended hs hl
  unfold blocksOf text
  rw [hlines, splitOn_ended hs]

theorem endLines_eq_append (last others : Text) (b : Block) :
    endLines last others b =
      b.dropLast.map (fun line => line ++ others) ++
        b.getLast?.toList.map fun line => line ++ last := by
  fun_induction endLines last others b with
  | case1 => rfl
  | case2 line => rfl
  | case3 line next rest ih =>
      rw [ih, List.dropLast_cons_cons, List.map_cons, List.getLast?_cons_cons, List.cons_append]

/-- The last line of a block has a mark at its end. -/
def EndsIn (mark : Char) (b : Block) : Prop := ∃ lines line, b = lines ++ [line ++ [mark]]

/-- A section: a banner, and one block for each table that contributes, in the order of the tables.
Where no table contributes there is neither. -/
inductive IsSection (title : Text) (contributes : Table → Bool) (isBlock : Table → Block → Prop)
    (tables : List Table) : Script → Prop
  | absent (h : ∀ t ∈ tables, contributes t = false) :
      IsSection title contributes isBlock tables []
  | present {blocks : Script} (h : ∃ t ∈ tables, contributes t = true)
      (each : List.Forall₂ isBlock (tables.filter contributes) blocks) :
      IsSection title contributes isBlock tables (banner title :: blocks)

section
variable {contributes : Table → Bool} {isBlock : Table → Block → Prop}
  {f : Table → Option Block}

theorem forall₂_filterMap (hsome : ∀ t, (f t).isSome = contributes t)
    (hblock : ∀ t b, f t = some b → isBlock t b) (tables : List Table) :
    List.Forall₂ isBlock (tables.filter contributes) (tables.filterMap f) := by
  induction tables with
  | nil => exact .nil
  | cons t rest ih =>
      have ht := hsome t
      cases hf : f t with
      | none =>
          rw [hf, Option.isSome_none] at ht
          rw [List.filter_cons_of_neg (by simp [← ht]), List.filterMap_cons_none hf]
          exact ih
      | some b =>
          rw [hf, Option.isSome_some] at ht
          rw [List.filter_cons_of_pos ht.symm, List.filterMap_cons_some hf]
          exact .cons (hblock t b hf) ih

/-- Statements that not every table has form a section of the tables that have one. -/
theorem isSection_titled (title : Text) (hsome : ∀ t, (f t).isSome = contributes t)
    (hblock : ∀ t b, f t = some b → isBlock t b) (tables : List Table) :
    IsSection title contributes isBlock tables (titled title (tables.filterMap f)) := by
  have each := forall₂_filterMap hsome hblock tables
  cases hblocks : tables.filterMap f with
  | nil =>
      refine .absent fun t ht => ?_
      have hf : f t = none := List.filterMap_eq_nil_iff.1 hblocks t ht
      rw [← hsome, hf, Option.isSome_none]
  | cons block rest =>
      rw [hblocks] at each
      refine .present ?_ each
      obtain ⟨t, ht, hf⟩ := List.mem_filterMap.1 (hblocks ▸ List.mem_cons_self)
      exact ⟨t, ht, by rw [← hsome, hf, Option.isSome_some]⟩

theorem exists_of_mem_right {α β : Type} {r : α → β → Prop} {l : List α} {m : List β}
    (h : List.Forall₂ r l m) {b : β} (hb : b ∈ m) : ∃ a ∈ l, r a b := by
  induction h with
  | nil => cases hb
  | @cons a b' l m hab _ ih =>
      rcases List.mem_cons.1 hb with rfl | hb
      · exact ⟨a, List.mem_cons_self, hab⟩
      · obtain ⟨a', ha', hr⟩ := ih hb
        exact ⟨a', List.mem_cons_of_mem _ ha', hr⟩

variable {title : Text} {tables : List Table} {s : Script}

theorem IsSection.of_mem (h : IsSection title contributes isBlock tables s) {b : Block}
    (hb : b ∈ s) : b = banner title ∨ ∃ t ∈ tables, isBlock t b := by
  cases h with
  | absent => cases hb
  | present _ each =>
      rcases List.mem_cons.1 hb with rfl | hb
      · exact .inl rfl
      · obtain ⟨t, ht, hr⟩ := exists_of_mem_right each hb
        exact .inr ⟨t, (List.mem_filter.1 ht).1, hr⟩

theorem IsSection.exists_block (h : IsSection title contributes isBlock tables s) {t : Table}
    (ht : t ∈ tables) (hc : contributes t = true) : ∃ b ∈ s, isBlock t b := by
  cases h with
  | absent hnone =>
      rw [hnone t ht] at hc
      cases hc
  | @present blocks _ each =>
      have hflip : List.Forall₂ (fun b t => isBlock t b) blocks (tables.filter contributes) :=
        each.flip
      obtain ⟨b, hb, hr⟩ := exists_of_mem_right hflip (List.mem_filter.2 ⟨ht, hc⟩)
      exact ⟨b, List.mem_cons_of_mem _ hb, hr⟩

/-- A section ends in one of its blocks and not in its banner. -/
theorem IsSection.last (h : IsSection title contributes isBlock tables s) {b : Block}
    (hb : b ∈ s.getLast?) : ∃ t ∈ tables, isBlock t b := by
  cases h with
  | absent => cases hb
  | @present blocks hsome each =>
      cases blocks with
      | nil =>
          obtain ⟨t, ht, hc⟩ := hsome
          have hmem : t ∈ tables.filter contributes := List.mem_filter.2 ⟨ht, hc⟩
          rw [List.eq_nil_of_length_eq_zero each.length_eq] at hmem
          cases hmem
      | cons block rest =>
          rw [List.getLast?_cons_cons] at hb
          obtain ⟨t, ht, hr⟩ := exists_of_mem_right each (List.mem_of_mem_getLast? hb)
          exact ⟨t, (List.mem_filter.1 ht).1, hr⟩

end

namespace Style

variable {s : Style} {t : Table} {b : Block}

def createLine (s : Style) (name : Text) : Text :=
  "CREATE TABLE ".toList ++ s.dialect.quote name ++ " (".toList

def alterLine (s : Style) (name : Text) : Text := "ALTER TABLE ".toList ++ s.dialect.quote name

/-- A block that creates a table: a line for each column, with a comma behind all but the last. -/
def Creates (s : Style) (charset : Text) (t : Table) (b : Block) : Prop :=
  ∃ columns : Block, columns = t.columns.map s.columnLine ∧
    b = s.createLine t.name
      :: (columns.dropLast.map (fun line => line ++ [',']) ++ columns.getLast?.toList)
      ++ [") CHARACTER SET ".toList ++ charset ++ [';']]

/-- A block that changes a table: a line for each change, with a comma behind all but the last, and
a semicolon behind that. -/
def Changes (s : Style) (t : Table) (b : Block) : Prop :=
  ∃ (changes : Block) (last : Text),
    b = s.alterLine t.name :: changes.map (fun line => line ++ [',']) ++ [last ++ [';']]

theorem createTable_creates (charset : Text) (t : Table) :
    s.Creates charset t (s.createTable charset t) := by
  refine ⟨t.columns.map s.columnLine, rfl, ?_⟩
  unfold createTable createLine
  rw [endLines_eq_append]
  simp only [List.append_nil, List.map_id']

theorem alterTable_changes {changes : Block} (h : changes ≠ []) :
    s.Changes t (s.alterTable t changes) := by
  refine ⟨changes.dropLast, changes.getLast h, ?_⟩
  unfold alterTable alterLine
  rw [endLines_eq_append, List.getLast?_eq_some_getLast h, Option.toList_some, List.map_singleton,
    List.cons_append]

theorem addIndexes?_changes (h : s.addIndexes? t = some b) : s.Changes t b := by
  unfold addIndexes? at h
  split at h
  · cases h
  · next hindexes =>
    cases h
    apply alterTable_changes
    intro hlines
    obtain ⟨hprimary, hunique⟩ := List.append_eq_nil_iff.1 hlines
    rw [List.map_eq_nil_iff] at hprimary hunique
    apply hindexes
    simp [IndexSet.isEmpty, hunique, Option.toList_eq_nil_iff.1 hprimary]

theorem addAutoIncrement?_changes (h : s.addAutoIncrement? t = some b) : s.Changes t b := by
  obtain ⟨c, _, rfl⟩ := Option.map_eq_some_iff.1 h
  exact alterTable_changes (List.cons_ne_nil _ _)

theorem addForeignKeys?_changes (h : s.addForeignKeys? t = some b) : s.Changes t b := by
  unfold addForeignKeys? at h
  split at h
  · cases h
  · next hkeys =>
    cases h
    apply alterTable_changes
    simpa using hkeys

theorem isSome_addIndexes? (t : Table) : (s.addIndexes? t).isSome = t.hasIndexes := by
  unfold addIndexes? Table.hasIndexes
  cases t.indexes.isEmpty <;> rfl

theorem isSome_addForeignKeys? (t : Table) : (s.addForeignKeys? t).isSome = t.hasForeignKeys := by
  unfold addForeignKeys? Table.hasForeignKeys
  cases t.foreignKeys.isEmpty <;> rfl

theorem isSome_addAutoIncrement? (t : Table) : (s.addAutoIncrement? t).isSome = t.hasCounter := by
  unfold addAutoIncrement? Table.hasCounter
  rw [Option.isSome_map]
  cases hname : t.autoIncrement with
  | none => simp
  | some name =>
      rw [Option.bind_some, Table.column?, List.isSome_find?]
      congr 1
      funext c
      simp [eq_comm]

theorem Creates.endsIn {charset : Text} (h : s.Creates charset t b) : EndsIn ';' b := by
  obtain ⟨columns, _, rfl⟩ := h
  exact ⟨_, ") CHARACTER SET ".toList ++ charset, rfl⟩

theorem Changes.endsIn (h : s.Changes t b) : EndsIn ';' b := by
  obtain ⟨changes, last, rfl⟩ := h
  exact ⟨_, last, rfl⟩

theorem createDatabase_endsIn (d : Database) : EndsIn ';' (s.createDatabase d) :=
  ⟨[_, _], s.pad ++ "COLLATE ".toList ++ d.collate, rfl⟩

theorem useDatabase_endsIn (d : Database) : EndsIn ';' (s.useDatabase d) :=
  ⟨[], "USE ".toList ++ s.dialect.quote d.name, rfl⟩

/-- A block that begins as the change of a table of a given name does. -/
def Opening (s : Style) (name : Text) (b : Block) : Prop := b.head? = some (s.alterLine name)

/-- What the blocks behind the head of a script are. -/
structure Framed (s : Style) (schema : Schema) (body : Script) : Prop where
  sections : ∃ tables indexes counters foreigns,
    body = [s.createDatabase schema.database, s.useDatabase schema.database] ++ tables
      ++ (indexes ++ counters ++ foreigns) ∧
    IsSection "Tables" (fun _ => true) (s.Creates schema.database.charset) schema.tables tables ∧
    IsSection "Indexes" (·.hasIndexes) s.Changes schema.tables indexes ∧
    IsSection "AUTO_INCREMENT" (·.hasCounter) s.Changes schema.tables counters ∧
    IsSection "Foreigns" (·.hasForeignKeys) s.Changes schema.tables foreigns
  filled : ∀ b ∈ body, b ≠ []
  closed : ∀ b ∈ body, IsBanner b ∨ EndsIn ';' b
  /-- A block that changes a table stands behind one that creates it. -/
  created : ∀ before b after name, body = before ++ b :: after → s.Opening name b →
    ∃ c ∈ before, c.head? = some (s.createLine name)

theorem not_opening_banner (name title : Text) : ¬ s.Opening name (banner title) := by
  unfold Opening banner alterLine
  simp

theorem not_opening_createDatabase (name : Text) (d : Database) :
    ¬ s.Opening name (s.createDatabase d) := by
  unfold Opening createDatabase alterLine
  simp

theorem not_opening_useDatabase (name : Text) (d : Database) :
    ¬ s.Opening name (s.useDatabase d) := by
  unfold Opening useDatabase alterLine
  simp

theorem Creates.not_opening {charset : Text} (h : s.Creates charset t b) (name : Text) :
    ¬ s.Opening name b := by
  obtain ⟨columns, _, rfl⟩ := h
  unfold Opening createLine alterLine
  simp

theorem Changes.name_eq (h : s.Changes t b) {name : Text} (ho : s.Opening name b) :
    t.name = name := by
  obtain ⟨changes, last, rfl⟩ := h
  have hline : s.alterLine t.name = s.alterLine name := Option.some.inj ho
  unfold alterLine at hline
  exact Dialect.quote_inj (List.append_cancel_left hline)

/-- No block of the first part changes a table, so what comes before a change holds that part. -/
theorem exists_created (tables : List Table) {pre later before after : Script} {name : Text}
    (hpre : ∀ c ∈ pre, ¬ s.Opening name c)
    (hcreate : ∀ t ∈ tables, ∃ c ∈ pre, c.head? = some (s.createLine t.name))
    (hlater : ∀ c ∈ later, s.Opening name c → ∃ t ∈ tables, t.name = name)
    (h : pre ++ later = before ++ b :: after) (ho : s.Opening name b) :
    ∃ c ∈ before, c.head? = some (s.createLine name) := by
  have hmem : b ∈ pre ++ later := h ▸ List.mem_append_right _ List.mem_cons_self
  have hchange : b ∈ later := (List.mem_append.1 hmem).resolve_left fun hb => hpre b hb ho
  obtain ⟨t, ht, rfl⟩ := hlater b hchange ho
  obtain ⟨c, hc, hhead⟩ := hcreate t ht
  refine ⟨c, ?_, hhead⟩
  rcases List.append_eq_append_iff.1 h with ⟨front, rfl, _⟩ | ⟨back, rfl, hback⟩
  · exact List.mem_append_left _ hc
  · cases back with
    | nil => simpa using hc
    | cons x back =>
        obtain ⟨rfl, _⟩ := List.cons.inj hback
        exact absurd ho (hpre b (List.mem_append_right _ List.mem_cons_self))

section
variable {schema : Schema} {title : Text} {contributes : Table → Bool} {part : Script}

theorem closed_of_changes (h : IsSection title contributes s.Changes schema.tables part) :
    ∀ b ∈ part, IsBanner b ∨ EndsIn ';' b := by
  intro b hb
  rcases h.of_mem hb with rfl | ⟨t, _, ht⟩
  · exact .inl ⟨title, rfl⟩
  · exact .inr ht.endsIn

theorem changed_of_opening (h : IsSection title contributes s.Changes schema.tables part)
    {name : Text} : ∀ b ∈ part, s.Opening name b → ∃ t ∈ schema.tables, t.name = name := by
  intro b hb ho
  rcases h.of_mem hb with rfl | ⟨t, ht, hchange⟩
  · exact absurd ho (not_opening_banner name title)
  · exact ⟨t, ht, hchange.name_eq ho⟩

theorem tables_section (s : Style) (schema : Schema) :
    IsSection "Tables" (fun _ => true) (s.Creates schema.database.charset) schema.tables
      (titled "Tables" (schema.tables.map (s.createTable schema.database.charset))) := by
  have hcreate (t : Table) (b : Block) (h : some (s.createTable schema.database.charset t) = some b) :
      s.Creates schema.database.charset t b := by
    rw [← Option.some.inj h]
    exact createTable_creates _ t
  rw [← List.filterMap_eq_map]
  exact isSection_titled (f := fun t => some (s.createTable schema.database.charset t)) _
    (fun _ => rfl) hcreate _

theorem indexes_section (s : Style) (schema : Schema) :
    IsSection "Indexes" (·.hasIndexes) s.Changes schema.tables
      (titled "Indexes" (schema.tables.filterMap s.addIndexes?)) :=
  isSection_titled _ isSome_addIndexes? (fun _ _ => addIndexes?_changes) _

theorem counters_section (s : Style) (schema : Schema) :
    IsSection "AUTO_INCREMENT" (·.hasCounter) s.Changes schema.tables
      (titled "AUTO_INCREMENT" (schema.tables.filterMap s.addAutoIncrement?)) :=
  isSection_titled _ isSome_addAutoIncrement? (fun _ _ => addAutoIncrement?_changes) _

theorem foreigns_section (s : Style) (schema : Schema) :
    IsSection "Foreigns" (·.hasForeignKeys) s.Changes schema.tables
      (titled "Foreigns" (schema.tables.filterMap s.addForeignKeys?)) :=
  isSection_titled _ isSome_addForeignKeys? (fun _ _ => addForeignKeys?_changes) _

end

theorem statements_framed (s : Style) (schema : Schema) :
    s.Framed schema (s.statements schema) := by
  have htables := tables_section s schema
  have hindexes := indexes_section s schema
  have hcounters := counters_section s schema
  have hforeigns := foreigns_section s schema
  have hparts : s.statements schema =
      [s.createDatabase schema.database, s.useDatabase schema.database]
        ++ titled "Tables" (schema.tables.map (s.createTable schema.database.charset))
        ++ (titled "Indexes" (schema.tables.filterMap s.addIndexes?)
          ++ titled "AUTO_INCREMENT" (schema.tables.filterMap s.addAutoIncrement?)
          ++ titled "Foreigns" (schema.tables.filterMap s.addForeignKeys?)) := by
    simp only [statements, List.append_assoc]
  have hclosed : ∀ b ∈ s.statements schema, IsBanner b ∨ EndsIn ';' b := by
    intro b hb
    simp only [hparts, List.mem_append, List.mem_cons, List.not_mem_nil, or_false] at hb
    rcases hb with ((rfl | rfl) | hb) | (hb | hb) | hb
    · exact .inr (createDatabase_endsIn _)
    · exact .inr (useDatabase_endsIn _)
    · rcases htables.of_mem hb with rfl | ⟨t, _, ht⟩
      · exact .inl ⟨_, rfl⟩
      · exact .inr ht.endsIn
    · exact closed_of_changes hindexes b hb
    · exact closed_of_changes hcounters b hb
    · exact closed_of_changes hforeigns b hb
  refine ⟨⟨_, _, _, _, hparts, htables, hindexes, hcounters, hforeigns⟩, ?_, hclosed, ?_⟩
  · intro b hb
    rcases hclosed b hb with ⟨title, rfl⟩ | ⟨lines, line, rfl⟩
    · exact List.cons_ne_nil _ _
    · exact List.append_ne_nil_of_right_ne_nil _ (List.cons_ne_nil _ _)
  · intro before b after name h ho
    rw [hparts] at h
    -- all tables are created in front of the first section that changes one
    refine exists_created schema.tables ?_ ?_ ?_ h ho
    · intro c hc
      simp only [List.mem_append, List.mem_cons, List.not_mem_nil, or_false] at hc
      rcases hc with (rfl | rfl) | hc
      · exact not_opening_createDatabase name _
      · exact not_opening_useDatabase name _
      · rcases htables.of_mem hc with rfl | ⟨t, _, ht⟩
        · exact not_opening_banner name _
        · exact ht.not_opening name
    · intro t ht
      obtain ⟨c, hc, columns, _, rfl⟩ := htables.exists_block ht rfl
      exact ⟨_, List.mem_append_right _ hc, rfl⟩
    · intro c hc
      rcases List.mem_append.1 hc with hc | hc
      · rcases List.mem_append.1 hc with hc | hc
        · exact changed_of_opening hindexes c hc
        · exact changed_of_opening hcounters c hc
      · exact changed_of_opening hforeigns c hc

theorem endsIn_last_append {front back : Script} (hf : ∀ b ∈ front.getLast?, EndsIn ';' b)
    (hb : ∀ b ∈ back.getLast?, EndsIn ';' b) : ∀ b ∈ (front ++ back).getLast?, EndsIn ';' b := by
  intro b h
  rw [List.getLast?_append] at h
  rcases Option.or_eq_some_iff.1 h with h | ⟨_, h⟩
  · exact hb b h
  · exact hf b h

/-- The last block of a script is no banner. -/
theorem statements_last (s : Style) (schema : Schema) :
    ∀ b ∈ (s.statements schema).getLast?, EndsIn ';' b := by
  have hsection {title : Text} {contributes : Table → Bool} {part : Script}
      (h : IsSection title contributes s.Changes schema.tables part) :
      ∀ b ∈ part.getLast?, EndsIn ';' b := by
    intro b hb
    obtain ⟨_, _, ht⟩ := h.last hb
    exact ht.endsIn
  refine endsIn_last_append (endsIn_last_append (endsIn_last_append (endsIn_last_append ?_ ?_)
    (hsection (indexes_section s schema))) (hsection (counters_section s schema)))
    (hsection (foreigns_section s schema))
  · intro b hb
    rw [← Option.some.inj hb]
    exact useDatabase_endsIn _
  · intro b hb
    obtain ⟨_, _, ht⟩ := (tables_section s schema).last hb
    exact ht.endsIn

end Style

/-- The mark at the end of the last block is the last character in front of the final newline. -/
theorem suffix_text {mark : Char} {s : Script} {b : Block} (hb : b ∈ s.getLast?)
    (hend : EndsIn mark b) : [mark, '\n'] <:+ s.text := by
  obtain ⟨lines, line, rfl⟩ := hend
  obtain ⟨front, rfl⟩ := List.getLast?_eq_some_iff.1 hb
  have hlines : (front ++ [lines ++ [line ++ [mark]]]).flatMap (fun b => b ++ [[]]) =
      (front.flatMap (fun b => b ++ [[]]) ++ lines ++ [line ++ [mark]]) ++ [[]] := by
    simp
  have hlast (before : List Text) : line ++ [mark] <:+ Text.join ['\n'] (before ++ [line ++ [mark]]) := by
    cases before with
    | nil => exact List.suffix_refl _
    | cons first rest =>
        rw [Text.join_append (List.cons_ne_nil _ _) (List.cons_ne_nil _ _)]
        exact List.suffix_append _ _
  obtain ⟨start, hstart⟩ := hlast (front.flatMap (fun b => b ++ [[]]) ++ lines)
  unfold text
  rw [hlines, Text.join_append (List.append_ne_nil_of_right_ne_nil _ (List.cons_ne_nil _ _))
    (List.cons_ne_nil _ _), ← hstart]
  exact ⟨start ++ line, by simp [Text.join]⟩

/-- The text of a script is its head and its statements, each a block of its own, with one empty
line between neighbours and one newline behind the last. The statements stand in sections, each
with a banner and one statement for each table that contributes. -/
theorem render_framed (time : Timestamp) (indent : Nat) {schema : Schema}
    (h : ∀ x ∈ schema.texts, '\n' ∉ x) :
    [';', '\n'] <:+ render time indent schema ∧
      ∃ body, blocksOf (render time indent schema) =
          header time schema.database.metadata :: body ++ [[]] ∧
        Style.Framed ⟨schema.database.source.dialect, indent⟩ schema body := by
  have hblocks := blocksOf_text (ofSchema_tidy time indent h) (List.cons_ne_nil _ _)
  refine ⟨?_, _, hblocks, Style.statements_framed _ schema⟩
  have hne := statements_ne_nil ⟨schema.database.source.dialect, indent⟩ schema
  have hlast := List.getLast?_eq_some_getLast hne
  refine suffix_text ?_ (Style.statements_last _ schema _ hlast)
  unfold ofSchema
  rw [List.getLast?_cons, hlast]
  rfl

theorem render_framed_twoTables :
    let time : Timestamp := ⟨2024, 5, 1, 10, 20, 30, 120⟩
    let schema := twoTables { description := some "one\n\ntwo".toList }
    (∀ x ∈ schema.texts, '\n' ∉ x) ∧
      [';', '\n'] <:+ render time 0 schema ∧
        ∃ body, blocksOf (render time 0 schema) = header time schema.database.metadata :: body ++ [[]] ∧
          Style.Framed ⟨.mySQL, 0⟩ schema body := by
  intro time schema
  have h : ∀ x ∈ schema.texts, '\n' ∉ x := by decide
  exact ⟨h, render_framed time 0 h⟩

end Script
end SchemaScript
