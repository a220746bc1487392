/- Arrows in column texts: the first one is read as a reference wherever it stands, also inside a quoted
   literal, and the arrows behind it are left to the clause. -/
import SchemaScript.Proofs.Column.Arrows
import SchemaScript.Proofs.Document.Reflection

namespace SchemaScript

namespace Column

/-- Where no arrow stands outside quoted literals, each one stands inside of one. -/
theorem quoting_of_not_hasBareArrow {before fromArrow : Text} (harrow : Reference.arrow <+: fromArrow)
    (h : ¬ HasBareArrow (before ++ fromArrow)) :
    ∃ quote escaped, (Place.start.afterText before).quoting = .inside quote escaped := by
  obtain ⟨after, rfl⟩ := harrow
  cases hquoting : (Place.start.afterText before).quoting with
  | outside => exact absurd ⟨before, after, rfl, hquoting⟩ h
  | inside quote escaped => exact ⟨quote, escaped, rfl⟩

end Column

namespace Document

open Column (HasBareArrow Place scan withoutSign hasBareArrow_render_iff)

section

variable {defs : Definitions} {table name text expanded : Text} {key raw : Value}

/-- A column whose text is expanded fails on its first arrow or not at all. -/
theorem readColumn_expanded (hname : key.text? = some name)
    (htext : columnText table name raw = .ok text) (hexpand : defs.expand? text = some expanded) :
    readColumn defs table key raw =
      match takeReference? expanded with
      | none => .error (.referenceSyntax table name)
      | some (reference, plain) => .ok { name, reference, spec := scan plain } := by
  have hkey : nameOf .column key = .ok name := nameOf_eq_ok.2 hname
  unfold readColumn
  rw [hkey]
  simp only [bind, Except.bind, htext, hexpand]
  cases takeReference? expanded with
  | none => rfl
  | some _ => rfl

theorem readColumn_cut {before fromArrow : Text} (hname : key.text? = some name)
    (htext : columnText table name raw = .ok text) (hexpand : defs.expand? text = some expanded)
    (hcut : Text.cutBefore? Reference.arrow expanded = some (before, fromArrow)) :
    readColumn defs table key raw =
      match Reference.read? fromArrow with
      | none => .error (.referenceSyntax table name)
      | some (r, after) =>
          .ok { name, reference := some r, spec := scan (before ++ after) } := by
  rw [readColumn_expanded hname htext hexpand, takeReference?, hcut]
  dsimp only
  cases Reference.read? fromArrow with
  | none => rfl
  | some _ => rfl

/-- A column text whose arrows are all quoted is read as it is exactly if there are none. A quoted arrow
is read like any other: without a reference behind it the column is refused, and with one the reference
is taken out of the literal and recorded. -/
theorem readColumn_quoted (hname : key.text? = some name)
    (htext : columnText table name raw = .ok text) (hexpand : defs.expand? text = some expanded)
    (hquoted : ¬ HasBareArrow expanded) :
    (readColumn defs table key raw = .ok { name, reference := none, spec := scan expanded } ↔
        ¬ Reference.arrow <:+: expanded) ∧
      (Reference.arrow <:+: expanded →
        ∃ before fromArrow quote escaped, expanded = before ++ fromArrow ∧
          ¬ Reference.arrow <:+: before ∧ Reference.arrow <+: fromArrow ∧
            (Place.start.afterText before).quoting = .inside quote escaped ∧
              readColumn defs table key raw =
                match Reference.read? fromArrow with
                | none => .error (.referenceSyntax table name)
                | some (r, after) =>
                    .ok { name, reference := some r, spec := scan (before ++ after) }) := by
  cases hcut : Text.cutBefore? Reference.arrow expanded with
  | none =>
      have hnone := Text.cutBefore?_eq_none.1 hcut
      refine ⟨iff_of_true ?_ hnone, fun harrow => absurd harrow hnone⟩
      rw [readColumn_expanded hname htext hexpand, takeReference?, hcut]
  | some parts =>
      obtain ⟨before, fromArrow⟩ := parts
      have hread := readColumn_cut hname htext hexpand hcut
      obtain ⟨rfl, harrow, hfirst⟩ := Text.eq_of_cutBefore? (by decide) hcut
      obtain ⟨quote, escaped, hinside⟩ := Column.quoting_of_not_hasBareArrow harrow hquoted
      have hthere : Reference.arrow <:+: before ++ fromArrow :=
        harrow.isInfix.trans (List.suffix_append before fromArrow).isInfix
      refine ⟨iff_of_false ?_ (not_not_intro hthere), fun _ => ?_⟩
      · -- The column is refused, or it has a reference.
        rw [hread]
        cases Reference.read? fromArrow with
        | none => simp
        | some _ => simp
      · exact ⟨before, fromArrow, quote, escaped, rfl, hfirst, harrow, hinside, hread⟩

/-- A note with an arrow in it is no longer a note that is kept as it is. -/
theorem readColumn_quoted_note :
    ¬ HasBareArrow "text COMMENT 'old -> new'" ∧ Reference.arrow <:+: "text COMMENT 'old -> new'".toList ∧
      readColumn [] "posts" (.string "body") (.string "text COMMENT 'old -> new'") ≠
        .ok { name := "body", reference := none, spec := scan "text COMMENT 'old -> new'" } := by
  have hname : (Value.string "body").text? = some "body".toList := rfl
  have htext : columnText "posts" "body" (.string "text COMMENT 'old -> new'") =
      .ok "text COMMENT 'old -> new'".toList := by decide +kernel
  have hexpand : Definitions.expand? [] "text COMMENT 'old -> new'" =
      some "text COMMENT 'old -> new'".toList := by decide +kernel
  have hquoted : ¬ HasBareArrow "text COMMENT 'old -> new'" := by decide +kernel
  have harrow : Reference.arrow <:+: "text COMMENT 'old -> new'".toList := by decide +kernel
  have hplain := (readColumn_quoted hname htext hexpand hquoted).1
  exact ⟨hquoted, harrow, fun h => hplain.1 h harrow⟩

/-- Two comments with an arrow in them: the words of the first are taken for a reference and are gone
from the comment, and for the second the column is refused. -/
theorem quoted_arrow_read :
    ¬ HasBareArrow "text COMMENT 'moved -> users.id once'" ∧
      readColumn [] "posts" (.string "body") (.string "text COMMENT 'moved -> users.id once'") =
        .ok { name := "body", reference := some { table := "users", column := "id" },
              spec := scan "text COMMENT 'moved once'" } ∧
        (scan "text COMMENT 'moved once'").render ≠
          (scan "text COMMENT 'moved -> users.id once'").render ∧
          ¬ HasBareArrow "text COMMENT 'old -> new'" ∧
            readColumn [] "posts" (.string "body") (.string "text COMMENT 'old -> new'") =
              .error (.referenceSyntax "posts" "body") := by
  decide +kernel

end

/-- What a table holds of the arrows in a column text. The first arrow is one of its foreign keys and
is not in the clause. Behind it, arrows outside quoted literals stay in the clause, and no others
are there. -/
structure ArrowsReflect (defs : Definitions) (keys : List ForeignKey) (entry : Value × Value)
    (c : Column) : Prop where
  name : entry.1.text? = some c.name
  text : ∃ written expanded reference plain, entry.2.text? = some written ∧
    defs.expand? (Text.trim written) = some expanded ∧ Parted expanded reference plain ∧
      (∀ r, reference = some r → { column := c.name, references := r } ∈ keys) ∧
        c.definition = (scan plain).render ∧
          (HasBareArrow c.definition ↔ HasBareArrow (withoutSign plain))

theorem arrowsReflect_of_columnReflects {defs : Definitions} {keys : List ForeignKey}
    {entry : Value × Value} {c : ColumnReading} (h : ColumnReflects defs entry c)
    (hkey : ∀ key, c.foreignKey? = some key → key ∈ keys) :
    ArrowsReflect defs keys entry c.column := by
  obtain ⟨hname, written, expanded, plain, hwritten, hexpand, -, hparted, hscan⟩ := h
  have hrender : c.column.definition = (scan plain).render := by
    rw [← hscan]
    rfl
  refine ⟨hname, written, expanded, c.reference, plain, hwritten, hexpand, hparted, ?_, hrender, ?_⟩
  · intro r hr
    apply hkey
    rw [ColumnReading.foreignKey?, hr]
    rfl
  · rw [hrender]
    exact hasBareArrow_render_iff plain

/-- The columns of a table entry, which may be null, one column for each. -/
def ColumnArrowsReflect (defs : Definitions) (v : Value) (t : Table) : Prop :=
  ∃ entries, (v = .null ∧ entries = [] ∨ v = .mapping entries) ∧
    List.Forall₂ (ArrowsReflect defs t.foreignKeys) entries t.columns

theorem columnArrowsReflect_of_shows {defs : Definitions} {v : Value} {t : Table}
    {readings : List ColumnReading} (hreadings : ColumnsReflect defs v readings)
    (hshows : Shows t readings) : ColumnArrowsReflect defs v t := by
  obtain ⟨entries, hentries, hall⟩ := hreadings
  have hkeys : ∀ c ∈ readings, ∀ key, c.foreignKey? = some key → key ∈ t.foreignKeys := by
    intro c hc key hkey
    rw [hshows.foreignKeys]
    exact List.mem_filterMap.2 ⟨c, hc, hkey⟩
  refine ⟨entries, hentries, ?_⟩
  rw [hshows.columns]
  clear hshows hentries
  induction hall with
  | nil => exact .nil
  | cons hc _ ih =>
      obtain ⟨hkey, hkeys⟩ := List.forall_mem_cons.1 hkeys
      exact .cons (arrowsReflect_of_columnReflects hc hkey) (ih hkeys)

/-- In an accepted document the first arrow of every column text is recorded as a foreign key and taken
out. A clause has an arrow outside quoted literals exactly where the rest of the text has one. -/
theorem read_arrows {document : Value} {schema : Schema} (h : read document = .ok schema) :
    ∃ root defs entries, document.entries? = some root ∧ Definitions.read root = .ok defs ∧
      sectionEntries .tables root = .ok entries ∧
        List.Forall₂ (fun entry t => entry.1.text? = some t.name ∧
          ColumnArrowsReflect defs entry.2 t) entries schema.tables := by
  obtain ⟨root, hroot, _, _, _, defs, hdefs, entries, hentries, htables⟩ := read_eq_ok.1 h
  refine ⟨root, defs, entries, hroot, hdefs, hentries, ?_⟩
  refine (tablesReflect_of_readTables htables).imp fun entry t ht => ⟨ht.name, ?_⟩
  obtain ⟨readings, hreadings, hshows⟩ := ht.columns
  exact columnArrowsReflect_of_shows hreadings hshows

/-- Posts with the given text for their author. -/
def blog (author : Text) : Value :=
  .mapping
    [(.string "database", .mapping [(.string "name", .string "blog")]),
      (.string "tables", .mapping
        [(.string "users", .mapping [(.string "id", .string "int")]),
          (.string "posts", .mapping [(.string "author", .string author)])])]

def blogSchema (definition : Text) : Schema where
  database := { name := "blog", source := .mySQL, charset := "utf8", collate := "utf8_general_ci" }
  tables :=
    [{ name := "users"
       columns := [{ name := "id", definition := "int UNSIGNED NOT NULL" }] },
      { name := "posts"
        columns := [{ name := "author", definition }]
        foreignKeys := [{ column := "author", references := { table := "users", column := "id" } }] }]

/-- A second arrow does no harm where it is quoted. -/
theorem read_arrows_blog :
    read (blog "int -> users.id COMMENT 'was -> users.name'") =
        .ok (blogSchema "int UNSIGNED NOT NULL COMMENT 'was -> users.name'") ∧
      ∃ root defs entries,
        (blog "int -> users.id COMMENT 'was -> users.name'").entries? = some root ∧
          Definitions.read root = .ok defs ∧ sectionEntries .tables root = .ok entries ∧
            List.Forall₂ (fun entry t => entry.1.text? = some t.name ∧
              ColumnArrowsReflect defs entry.2 t) entries
                (blogSchema "int UNSIGNED NOT NULL COMMENT 'was -> users.name'").tables :=
  ⟨by decide +kernel, read_arrows (by decide +kernel)⟩

/-- Only the first arrow is looked at: one behind it, with no reference, is accepted and gets into the
clause. -/
theorem second_arrow_kept :
    read (blog "int -> users.id -> nowhere") =
        .ok (blogSchema "int -> nowhere UNSIGNED NOT NULL") ∧
      HasBareArrow "int -> nowhere UNSIGNED NOT NULL" ∧
        Reference.read? "-> nowhere" = none := by
  decide +kernel

end Document

end SchemaScript
