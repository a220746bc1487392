/- The first fault: reading a document reports the first check that fails, and a schema if none
   does. What is checked behind that place has no part in it. -/
import SchemaScript.Proofs.Document.Check

namespace SchemaScript.Document

open Check

def fault? {α : Type} : Except Fault α → Option Fault
  | .ok _ => none
  | .error fault => some fault

/-- A step of reading reports the first of some checks that fails, and goes on if none does. -/
def Reports {α : Type} (x : Except Fault α) (checks : List Check) : Prop :=
  fault? x = firstFault checks

section

variable {α β : Type} {x : Except Fault α} {f : α → Except Fault β} {cs ds : List Check}

theorem reports_ok (a : α) : Reports (.ok a) [] := rfl

theorem reports_error (fault : Fault) : Reports (.error fault : Except Fault α) [⟨fault, false⟩] :=
  rfl

theorem Reports.bind (hx : Reports x cs) (hf : ∀ a, x = .ok a → Reports (f a) ds) :
    Reports (x >>= f) (cs ++ ds) := by
  unfold Reports at hx ⊢
  rw [firstFault_append, ← hx]
  cases x with
  | error fault => rfl
  | ok a => exact hf a rfl

/-- A step that only puts its result together reports nothing more. -/
theorem Reports.bind_pure {g : α → β} (hx : Reports x cs) :
    Reports (x >>= fun a => pure (g a)) cs := by
  unfold Reports at hx ⊢
  rw [← hx]
  cases x with
  | error fault => rfl
  | ok a => rfl

/-- A check that holds may be left out. -/
theorem reports_cons_of_holds {c : Check} (hc : c.holds = true) :
    Reports x (c :: cs) ↔ Reports x cs := by
  unfold Reports
  rw [← List.singleton_append, firstFault_append, firstFault_singleton, hc, if_pos rfl,
    Option.none_or]

/-- Behind a check that fails, the others do not matter. -/
theorem reports_cons_of_fails {c : Check} (hc : c.holds = false) :
    Reports x (c :: cs) ↔ x = .error c.fault := by
  unfold Reports
  rw [← List.singleton_append, firstFault_append, firstFault_singleton, hc, if_neg Bool.false_ne_true,
    Option.some_or]
  cases x with
  | ok a => simp [fault?]
  | error fault => simp [fault?]

/-- A fault is raised where a check does not hold. -/
theorem reports_guard {b : Bool} {fault : Fault} (hx : b = false → Reports x cs) :
    Reports (if b then .error fault else x) (⟨fault, !b⟩ :: cs) := by
  cases b with
  | true => exact (reports_cons_of_fails rfl).2 rfl
  | false => exact (reports_cons_of_holds rfl).2 (hx rfl)

theorem Reports.exists_ok_iff (hx : Reports x cs) :
    (∃ a, x = .ok a) ↔ ∀ c ∈ cs, c.holds = true := by
  rw [← firstFault_eq_none, ← hx]
  cases x with
  | ok a => simp [fault?]
  | error fault => simp [fault?]

theorem Reports.eq_error_iff {fault : Fault} (hx : Reports x cs) :
    x = .error fault ↔ firstFault cs = some fault := by
  rw [← hx]
  cases x with
  | ok a => simp [fault?]
  | error fault => simp [fault?]

end

/-- A part of a document that must be there. -/
def required {α : Type} (fault : Fault) (part? : Option α) : Except Fault α :=
  part?.elim (.error fault) .ok

section

variable {α : Type} {fault : Fault} {part? : Option α} {a : α}

theorem reports_required : Reports (required fault part?) [⟨fault, part?.isSome⟩] := by
  cases part? with
  | none => exact reports_error fault
  | some a => exact (reports_cons_of_holds rfl).2 (reports_ok a)

theorem required_eq_ok : required fault part? = .ok a ↔ part? = some a := by
  cases part? <;> simp [required]

end

theorem rootEntries_eq (document : Value) :
    rootEntries document = required (.misshapen .root) document.entries? := by
  unfold rootEntries
  cases document.entries? <;> rfl

theorem nameOf_eq (role : NameRole) (key : Value) :
    nameOf role key = required (.misshapen (.invalidName role)) key.text? := by
  unfold nameOf
  cases key.text? <;> rfl

theorem sectionEntries_eq (s : Section) (root : List (Value × Value)) :
    sectionEntries s root =
      required (.misshapen (.sectionNotMapping s)) (mappingEntries? (Value.field? s.key root)) := by
  unfold sectionEntries
  cases Value.field? s.key root with
  | none => rfl
  | some v => cases v <;> rfl

theorem tableEntries_eq (name : Text) (columns : Value) :
    tableEntries name columns =
      required (.misshapen (.tableNotMapping name)) (columnEntries? columns) := by
  cases columns <;> rfl

theorem label_eq {v : Value} {t : Text} (h : v.text? = some t) : label v = t := by
  rw [label, h, Option.getD_some]

theorem reports_nameOf (role : NameRole) (key : Value) :
    Reports (nameOf role key) [invalidName role key] := by
  rw [nameOf_eq]
  exact reports_required

theorem reports_readDatabase (root : List (Value × Value)) :
    Reports (readDatabase root) (databaseChecks (Value.field? "database" root)) := by
  unfold databaseChecks
  cases hname : databaseField "name" (Value.field? "database" root) with
  | none =>
      unfold databaseField at hname
      rw [reports_cons_of_fails rfl]
      simp only [readDatabase, hname]
  | some name =>
      rw [reports_cons_of_holds rfl]
      unfold databaseField at hname
      cases hsource : databaseField "source" (Value.field? "database" root) with
      | none =>
          unfold databaseField at hsource
          rw [reports_cons_of_holds rfl]
          simp only [readDatabase, hname, hsource]
          exact reports_ok _
      | some tag =>
          unfold databaseField at hsource
          cases htag : Source.ofName? tag with
          | none =>
              rw [reports_cons_of_fails (by simp [htag])]
              simp only [readDatabase, hname, hsource, htag]
              rfl
          | some source =>
              rw [reports_cons_of_holds (by simp [htag])]
              simp only [readDatabase, hname, hsource, htag]
              exact reports_ok _

namespace Composite

theorem reports_read (text : Text) :
    Reports (read text)
      [⟨.unknownIndexKeyword (keywordOf text), (IndexKind.ofKeyword? (keywordOf text)).isSome⟩,
        ⟨.missingCompositeIdentifiers text, decide (2 ≤ (identifiersOf text).length)⟩] := by
  unfold read keywordOf identifiersOf
  obtain ⟨word, rest⟩ := firstWord (Text.trimStart text)
  cases hkind : IndexKind.ofKeyword? word with
  | none =>
      rw [reports_cons_of_fails rfl]
      simp only [hkind]
  | some kind =>
      rw [reports_cons_of_holds rfl]
      simp only [hkind]
      split
      · next hall =>
        rw [reports_cons_of_holds (by simp [hall])]
        exact reports_ok _
      · next hall =>
        have hshort : ¬ 2 ≤ (Identifier.all (afterKey (Text.trimStart rest))).length := by
          intro hlong
          match h : Identifier.all (afterKey (Text.trimStart rest)), hlong with
          | table :: column :: columns, _ => exact hall table column columns h
        rw [reports_cons_of_fails (by simpa using hshort)]

theorem head_identifiersOf {text : Text} {c : Composite} (h : read text = .ok c) :
    (identifiersOf text).headD [] = c.table := by
  unfold read at h
  unfold identifiersOf
  split at h
  next word rest hword =>
    rw [hword]
    split at h
    · cases h
    · split at h
      · next hall =>
        cases h
        rw [hall, List.headD_cons]
      · cases h

theorem reading?_eq {entry : Value} {text : Text} {c : Composite} (htext : entry.text? = some text)
    (hread : read text = .ok c) : reading? entry = some c := by
  rw [reading?, htext, Option.bind_some, hread]
  rfl

/-- Entries are checked in order. The tables of `filled` are those that the entries before have
given a primary key. -/
theorem reports_readEntries {filled : List Text} {before entries : List Value}
    (hfilled : ∀ table, table ∈ filled ↔ table ∈ primaryTables (before.filterMap reading?)) :
    Reports (readEntries filled entries) (inOrder entryChecks before entries) := by
  -- every entry that gives a primary key adds its table to `filled`, and itself to those before
  induction entries generalizing filled before with
  | nil => exact reports_ok []
  | cons entry rest ih =>
      rw [readEntries, inOrder, entryChecks]
      cases htext : entry.text? with
      | none => exact (reports_cons_of_fails rfl).2 rfl
      | some text =>
          rw [label_eq htext]
          refine (reports_cons_of_holds rfl).2 ((reports_read text).bind ?_)
          intro c hread
          rw [head_identifiersOf hread]
          have hreading := reading?_eq htext hread
          have hbefore : (before ++ [entry]).filterMap reading? = before.filterMap reading? ++ [c] := by
            rw [List.filterMap_append, List.filterMap_cons_some hreading, List.filterMap_nil]
          cases hkind : c.kind with
          | unique =>
              have hrepeats : repeatsPrimary before entry = false := by
                simp [repeatsPrimary, hreading, hkind]
              refine (reports_cons_of_holds (by rw [hrepeats, Bool.not_false])).2 (ih ?_).bind_pure
              intro table
              rw [hfilled, hbefore]
              simp [primaryTables, hkind]
          | primary =>
              have hrepeats : repeatsPrimary before entry = filled.contains c.table := by
                simp [repeatsPrimary, hreading, hkind, hfilled]
              rw [hrepeats]
              refine reports_guard fun _ => (ih ?_).bind_pure
              intro table
              rw [hbefore]
              simp [primaryTables, hkind, hfilled, or_comm]

theorem readSection_eq (section? : Option Value) :
    readSection section? =
      required (.misshapen .compositeNotSequence) (sectionItems? section?) >>= readEntries [] := by
  cases section? with
  | none => rfl
  | some v => cases v <;> rfl

theorem reports_readSection (section? : Option Value) :
    Reports (readSection section?) (sectionChecks (sectionItems? section?)) := by
  rw [readSection_eq]
  refine reports_required.bind ?_
  intro items hitems
  rw [required_eq_ok.1 hitems]
  exact reports_readEntries fun table => Iff.rfl

end Composite

namespace Definitions

theorem reports_readEntries (defs : Definitions) (before entries : List (Value × Value)) :
    Reports (readEntries defs entries) (inOrder (fun _ => entryChecks) before entries) := by
  induction entries generalizing defs before with
  | nil => exact reports_ok defs
  | cons entry rest ih =>
      rw [readEntries, inOrder, entryChecks]
      refine (reports_nameOf .definition entry.1).bind ?_
      intro name hname
      rw [label_eq (nameOf_eq_ok.1 hname)]
      cases htext : entry.2.text? with
      | none => exact (reports_cons_of_fails rfl).2 rfl
      | some text => exact (reports_cons_of_holds rfl).2 (ih _ _)

theorem reports_read (root : List (Value × Value)) :
    Reports (read root) (sectionChecks (definitionEntries? root)) := by
  unfold definitionEntries?
  unfold read
  rw [sectionEntries_eq]
  refine reports_required.bind ?_
  intro entries hentries
  rw [required_eq_ok.1 hentries]
  exact reports_readEntries [] [] entries

end Definitions

theorem reports_columnText (table column : Text) (raw : Value) :
    Reports (columnText table column raw)
      [⟨.misshapen (.columnNotString table column), ColumnRule.isScalar raw⟩,
        ⟨.missingColumnDefinition table column, !(Text.trim (label raw)).isEmpty⟩] := by
  have hplain (v : Value) (hv : ColumnRule.isScalar v = true)
      (hcolumn : columnText table column v =
        if (Text.trim (label v)).isEmpty then .error (.missingColumnDefinition table column)
        else .ok (Text.trim (label v))) :
      Reports (columnText table column v)
        [⟨.misshapen (.columnNotString table column), ColumnRule.isScalar v⟩,
          ⟨.missingColumnDefinition table column, !(Text.trim (label v)).isEmpty⟩] := by
    rw [reports_cons_of_holds hv, hcolumn]
    exact reports_guard fun _ => reports_ok _
  cases raw with
  | sequence items => exact (reports_cons_of_fails rfl).2 rfl
  | mapping entries => exact (reports_cons_of_fails rfl).2 rfl
  | _ => exact hplain _ rfl rfl

namespace ColumnRule

variable {defs : Definitions} {table : Text} {entry : Value × Value}

theorem reports_readColumn (before : List (Value × Value)) :
    Reports (readColumn defs table entry.1 entry.2)
      ([named, scalar, written, expands, refers].map (check defs table before entry)) := by
  refine (reports_nameOf .column entry.1).bind ?_
  intro name hname
  simp only [List.map_cons, List.map_nil, check, fault, label_eq (nameOf_eq_ok.1 hname)]
  refine (reports_columnText table name entry.2).bind ?_
  intro text htext
  obtain ⟨_, written, hwritten, rfl⟩ := columnText_eq_ok.1 htext
  simp only [holds, expanded?, label_eq hwritten]
  cases hexpand : defs.expand? (Text.trim written) with
  | none => exact (reports_cons_of_fails rfl).2 rfl
  | some expanded =>
      rw [reports_cons_of_holds rfl]
      cases htake : takeReference? expanded with
      | none =>
          rw [reports_cons_of_fails (by simp [htake])]
          simp only [htake]
      | some taken =>
          rw [reports_cons_of_holds (by simp [htake])]
          simp only [htake]
          exact reports_ok _

theorem spec?_of_readColumn {c : ColumnReading}
    (h : readColumn defs table entry.1 entry.2 = .ok c) : spec? defs entry.2 = some c.spec := by
  obtain ⟨_, text, ⟨_, written, hwritten, rfl⟩, expanded, hexpand, plain, hplain, hscan⟩ :=
    readColumn_eq_ok.1 h
  simp only [spec?, expanded?, label_eq hwritten, hexpand, Option.bind_some, hplain,
    Option.map_some, hscan]

end ColumnRule

/-- Columns are checked in order; `counting` says whether one of the columns before counts up. -/
theorem reports_readColumns {defs : Definitions} {table : Text} {counting : Bool}
    {before entries : List (Value × Value)}
    (hcounting : counting = before.any (ColumnRule.countsUp defs)) :
    Reports (readColumns defs table counting entries)
      (inOrder (columnChecks defs table) before entries) := by
  induction entries generalizing counting before with
  | nil => exact reports_ok []
  | cons entry rest ih =>
      rw [readColumns, inOrder]
      refine (ColumnRule.reports_readColumn before).bind ?_
      intro c hc
      have hspec := ColumnRule.spec?_of_readColumn hc
      have hname := label_eq (readColumn_eq_ok.1 hc).1
      have hcounts : ColumnRule.countsUp defs entry = c.spec.autoIncrement := by
        rw [ColumnRule.countsUp, hspec, Option.any_some]
      have hlater : (before ++ [entry]).any (ColumnRule.countsUp defs) =
          (counting || c.spec.autoIncrement) := by
        rw [List.any_append, ← hcounting, List.any_cons, List.any_nil, Bool.or_false, hcounts]
      -- what is left of the rules are the two that look at the specification
      simp only [List.map_cons, List.map_nil, ColumnRule.check, ColumnRule.fault, ColumnRule.holds,
        hcounts, ← hcounting, hspec, Option.all_some, hname]
      exact reports_guard fun _ => reports_guard fun _ => (ih hlater.symm).bind_pure

theorem markedPrimary_isEmpty (columns : List ColumnReading) :
    (!(markedPrimary columns).isEmpty) = columns.any (·.spec.primary) := by
  induction columns with
  | nil => rfl
  | cons c rest ih =>
      cases hc : c.spec.primary with
      | true => simp [markedPrimary, hc]
      | false =>
          rw [List.any_cons, hc, Bool.false_or, ← ih]
          simp [markedPrimary, hc]

theorem any_isPrimary {defs : Definitions} {table : Text} {entries : List (Value × Value)}
    {columns : List ColumnReading}
    (h : List.Forall₂ (fun entry c => readColumn defs table entry.1 entry.2 = .ok c) entries columns) :
    entries.any (ColumnRule.isPrimary defs) = columns.any (·.spec.primary) := by
  induction h with
  | nil => rfl
  | cons hc _ ih =>
      rw [List.any_cons, List.any_cons, ih, ColumnRule.isPrimary, ColumnRule.spec?_of_readColumn hc,
        Option.any_some]

theorem reports_readTable (defs : Definitions) (composite : IndexSet) (name : Text)
    (columns : Value) :
    Reports (readTable defs composite name columns)
      (ofItems (columnChecks defs name) (.misshapen (.tableNotMapping name))
          (columnEntries? columns) ++
        [⟨.duplicatePrimaryKey name,
          !(((columnEntries? columns).getD []).any (ColumnRule.isPrimary defs) &&
            composite.primary.isSome)⟩]) := by
  unfold readTable ofItems
  rw [tableEntries_eq, List.cons_append]
  refine reports_required.bind ?_
  intro entries hentries
  rw [required_eq_ok.1 hentries, Option.getD_some]
  have hnone : false = ([] : List (Value × Value)).any (ColumnRule.countsUp defs) := rfl
  refine (reports_readColumns hnone).bind ?_
  intro readings hreadings
  rw [any_isPrimary (readColumns_eq_ok.1 hreadings).1, ← markedPrimary_isEmpty]
  exact reports_guard fun _ => reports_ok _

namespace Composite

theorem isSome_primary_indexesOf {table : Text} {composites : List Composite} :
    (indexesOf table composites).primary.isSome = true ↔ table ∈ primaryTables composites := by
  simp only [indexesOf, Option.isSome_map, List.find?_isSome, primaryTables, List.mem_map,
    List.mem_filter, beq_iff_eq]
  constructor
  · rintro ⟨c, ⟨hc, htable⟩, hkind⟩
    exact ⟨c, ⟨hc, hkind⟩, htable⟩
  · rintro ⟨c, ⟨hc, hkind⟩, htable⟩
    exact ⟨c, ⟨hc, htable⟩, hkind⟩

/-- Without the entries of a table, nothing gives that table a primary key. -/
theorem indexesOf_without (table : Text) (composites : List Composite) :
    (indexesOf table (composites.filter fun c => c.table != table)).primary.isSome = false := by
  rw [Bool.eq_false_iff, ne_eq, isSome_primary_indexesOf]
  intro hmem
  simp only [primaryTables, List.mem_map, List.mem_filter, bne_iff_ne] at hmem
  obtain ⟨c, ⟨⟨_, hne⟩, _⟩, htable⟩ := hmem
  exact hne htable

end Composite

/-- Tables are checked in order. The entries of `left` are those that name no table before. -/
theorem reports_readTables {defs : Definitions} {composites left : List Composite}
    {before entries : List (Value × Value)}
    (hleft : ∀ table, (Composite.indexesOf table left).primary.isSome =
      isListed composites before table) :
    Reports (readTables defs left entries)
      (inOrder (tableChecks defs composites) before entries) := by
  induction entries generalizing left before with
  | nil => exact reports_ok []
  | cons entry rest ih =>
      rw [readTables, inOrder]
      unfold tableChecks openingChecks
      rw [List.cons_append, List.cons_append]
      refine (reports_nameOf .table entry.1).bind ?_
      intro name hname
      have hname := nameOf_eq_ok.1 hname
      rw [label_eq hname, ← hleft]
      refine (reports_readTable defs _ name entry.2).bind ?_
      intro t ht
      refine (ih ?_).bind_pure
      intro table
      have hbefore : isListed composites (before ++ [entry]) table =
          (isListed composites before table && !(name == table)) := by
        simp [isListed, label_eq hname, Bool.and_assoc]
      rw [hbefore, ← hleft]
      -- this table takes the entries of its name, and leaves those of other names as they are
      by_cases htable : table = name
      · subst htable
        rw [Composite.indexesOf_without, beq_self_eq_true, Bool.not_true, Bool.and_false]
      · have hapart : (name == table) = false := beq_eq_false_iff_ne.2 (Ne.symm htable)
        rw [Composite.indexesOf_filter left, hapart, Bool.not_false, Bool.and_true]
        rintro c rfl
        exact bne_iff_ne.2 htable

theorem reports_read (document : Value) : Reports (read document) (checks document) := by
  unfold read
  rw [rootEntries_eq]
  refine reports_required.bind ?_
  intro root hroot
  rw [required_eq_ok.1 hroot, Option.getD_some]
  unfold leadingChecks
  rw [List.append_assoc, List.append_assoc]
  refine (reports_readDatabase root).bind ?_
  intro database _
  refine (Composite.reports_readSection _).bind ?_
  intro composites hcomposites
  refine (Definitions.reports_read root).bind ?_
  intro defs hdefs
  have hgiven : compositesOf root = composites := by
    rw [compositesOf, hcomposites]
    rfl
  have hdefined : definitionsOf root = defs := by
    rw [definitionsOf, hdefs]
    rfl
  rw [hgiven, hdefined, sectionEntries_eq]
  refine reports_required.bind ?_
  intro entries hentries
  rw [tableEntries?, required_eq_ok.1 hentries, Option.getD_some]
  refine (reports_readTables ?_).bind_pure
  intro table
  rw [Bool.eq_iff_iff, Composite.isSome_primary_indexesOf]
  simp [isListed]

/-- The answer to documents with the same first checks, one of which fails. -/
theorem read_of_begins {document document' : Value} {cs : List Check}
    (here : cs <+: checks document) (there : cs <+: checks document')
    (hfails : ∃ c ∈ cs, c.holds = false) :
    ∃ fault, read document = .error fault ∧ read document' = .error fault := by
  cases h : firstFault cs with
  | none =>
      obtain ⟨c, hc, hfalse⟩ := hfails
      rw [firstFault_eq_none.1 h c hc] at hfalse
      cases hfalse
  | some fault =>
      refine ⟨fault, (reports_read document).eq_error_iff.2 ?_,
        (reports_read document').eq_error_iff.2 ?_⟩
      · rw [firstFault_of_begins here hfails, h]
      · rw [firstFault_of_begins there hfails, h]

/-- A document is accepted where every check holds. Elsewhere the fault is that of the first check
that fails, so documents with the same checks as far as that one have the same fault, and those that
are the same as far as it goes do, whatever they have behind it. Of the checks of a column, only one
looks at the columns before. -/
theorem read_reports_first (document : Value) :
    ((∃ schema, read document = .ok schema) ↔ ∀ c ∈ checks document, c.holds = true) ∧
      (∀ fault, read document = .error fault ↔
        ∃ before c after, checks document = before ++ c :: after ∧
          (∀ b ∈ before, b.holds = true) ∧ c.holds = false ∧ c.fault = fault) ∧
      (∀ rule : ColumnRule, rule ≠ .countsAlone → ∀ defs entry before before',
        rule.holds defs before entry = rule.holds defs before' entry) ∧
      (∀ document' cs, cs <+: checks document → cs <+: checks document' →
        (∃ c ∈ cs, c.holds = false) →
          ∃ fault, read document = .error fault ∧ read document' = .error fault) ∧
      (∀ document' root root' cs, document.entries? = some root →
        document'.entries? = some root' → AgreeTo root root' cs → (∃ c ∈ cs, c.holds = false) →
          ∃ fault, read document = .error fault ∧ read document' = .error fault) := by
  refine ⟨(reports_read document).exists_ok_iff, ?first, ?alone, ?behind, ?after⟩
  case first =>
    intro fault
    rw [(reports_read document).eq_error_iff, firstFault_eq_some]
  case alone =>
    intro rule hrule defs entry before before'
    cases rule with
    | countsAlone => exact absurd rfl hrule
    | _ => rfl
  case behind =>
    intro document' cs here there hfails
    exact read_of_begins here there hfails
  case after =>
    rintro document' root root' cs hroot hroot' hagree ⟨c, hc, hfalse⟩
    have hbegins {d : Value} {entries : List (Value × Value)} (hentries : d.entries? = some entries)
        (hcs : cs <+: rootChecks entries) : ⟨.misshapen .root, true⟩ :: cs <+: checks d := by
      unfold checks
      rw [hentries]
      exact (List.prefix_cons_inj _).2 hcs
    exact read_of_begins (hbegins hroot hagree.begins) (hbegins hroot' hagree.symm.begins)
      ⟨c, List.mem_cons_of_mem _ hc, hfalse⟩

/-- A document with a table in which two columns count up, and others behind these. -/
def twoCounters (later : List (Value × Value)) : Value :=
  .mapping [
    (.string "database", .mapping [(.string "name", .string "shop")]),
    (.string "tables", .mapping [
      (.string "orders", .mapping (
        [(.string "id", .string "int AUTO_INCREMENT"), (.string "no", .string "AUTO_INCREMENT")]
          ++ later))])]

theorem read_reports_first_twoCounters :
    read (twoCounters []) = .error (.duplicateAutoIncrement "orders") ∧
      read (twoCounters [(.string "at", .string "-> nowhere")]) =
        .error (.duplicateAutoIncrement "orders") := by
  obtain ⟨_, hfirst, _, _, hbehind⟩ := read_reports_first (twoCounters [])
  let second : Check := ⟨.duplicateAutoIncrement "orders", false⟩
  have hfault : read (twoCounters []) = .error second.fault := by
    refine (hfirst _).2 ⟨(checks (twoCounters [])).take 20, second,
      (checks (twoCounters [])).drop 21, ?_, ?_, rfl, rfl⟩
    · decide +kernel
    · decide +kernel
  have hsame : ∃ fault, read (twoCounters []) = .error fault ∧
      read (twoCounters [(.string "at", .string "-> nowhere")]) = .error fault := by
    refine hbehind _ _ _ _ rfl rfl (@AgreeTo.columns _ _ 2 [] [] [] _ _ _ ?_ rfl rfl rfl)
      ⟨second, by decide +kernel, rfl⟩
    intro key hkey
    simp only [List.mem_cons, List.not_mem_nil, or_false] at hkey
    rcases hkey with rfl | rfl | rfl <;> rfl
  obtain ⟨fault, hhere, hthere⟩ := hsame
  rw [hfault] at hhere
  cases hhere
  exact ⟨hfault, hthere⟩

end SchemaScript.Document
