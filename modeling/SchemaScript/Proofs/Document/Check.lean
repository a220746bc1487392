/- Checks: what is checked of a document, one check after the other, each with the fault that it
   reports, and how far two documents are the same to them. -/
import SchemaScript.Document.Text
import SchemaScript.Proofs.Document.Indexes

namespace SchemaScript.Document

structure Check where
  fault : Fault
  holds : Bool
deriving Repr, DecidableEq

namespace Check

def firstFault (checks : List Check) : Option Fault :=
  (checks.find? fun c => !c.holds).map (·.fault)

section

variable {c : Check} {cs ds : List Check} {fault : Fault}

theorem firstFault_append : firstFault (cs ++ ds) = (firstFault cs).or (firstFault ds) := by
  simp only [firstFault, List.find?_append, Option.map_or]

theorem firstFault_singleton : firstFault [c] = if c.holds then none else some c.fault := by
  cases h : c.holds <;> simp [firstFault, h]

theorem firstFault_eq_none : firstFault cs = none ↔ ∀ c ∈ cs, c.holds = true := by
  simp only [firstFault, Option.map_eq_none_iff, List.find?_eq_none, Bool.not_eq_true',
    Bool.not_eq_false]

theorem firstFault_eq_some :
    firstFault cs = some fault ↔ ∃ before c after, cs = before ++ c :: after ∧
      (∀ b ∈ before, b.holds = true) ∧ c.holds = false ∧ c.fault = fault := by
  simp only [firstFault, Option.map_eq_some_iff, List.find?_eq_some_iff_append, Bool.not_eq_true',
    Bool.not_not]
  constructor
  · rintro ⟨c, ⟨hc, before, after, he, hbefore⟩, hfault⟩
    exact ⟨before, c, after, he, hbefore, hc, hfault⟩
  · rintro ⟨before, c, after, he, hbefore, hc, hfault⟩
    exact ⟨c, ⟨hc, before, after, he, hbefore⟩, hfault⟩

/-- Checks behind one that fails do not count. -/
theorem firstFault_of_begins (hbegin : cs <+: ds) (hfails : ∃ c ∈ cs, c.holds = false) :
    firstFault ds = firstFault cs := by
  obtain ⟨later, rfl⟩ := hbegin
  rw [firstFault_append]
  cases h : firstFault cs with
  | none =>
      obtain ⟨c, hc, hfalse⟩ := hfails
      rw [firstFault_eq_none.1 h c hc] at hfalse
      cases hfalse
  | some fault => rfl

end

section

variable {α : Type} (checks : List α → α → List Check)

/-- The checks of items, one item after the other. Those of an item may look at the items before. -/
def inOrder (before : List α) : List α → List Check
  | [] => []
  | item :: rest => checks before item ++ inOrder (before ++ [item]) rest

theorem inOrder_append (before items more : List α) :
    inOrder checks before (items ++ more) =
      inOrder checks before items ++ inOrder checks (before ++ items) more := by
  induction items generalizing before with
  | nil => simp [inOrder]
  | cons item rest ih => simp [inOrder, ih]

/-- The checks of a part that must have some shape, so that it has items at all. -/
def ofItems (shape : Fault) (items? : Option (List α)) : List Check :=
  ⟨shape, items?.isSome⟩ :: inOrder checks [] (items?.getD [])

/-- A part with its first items only. -/
def firstOf (n : Nat) (items? : Option (List α)) : Option (List α) :=
  items?.map fun items => items.take n

theorem ofItems_firstOf_begins (shape : Fault) (items? : Option (List α)) (n : Nat) :
    ofItems checks shape (firstOf n items?) <+: ofItems checks shape items? := by
  cases items? with
  | none => exact List.prefix_refl _
  | some items =>
      have hsplit := inOrder_append checks [] (items.take n) (items.drop n)
      rw [List.take_append_drop] at hsplit
      simp only [ofItems, firstOf, Option.map_some, Option.isSome_some, Option.getD_some, hsplit]
      exact List.prefix_append _ _

end

end Check

open Check

/-- The text of a key or of an entry, or a blank one. -/
def label (v : Value) : Text := v.text?.getD []

def invalidName (role : NameRole) (key : Value) : Check :=
  ⟨.misshapen (.invalidName role), key.text?.isSome⟩

/-- The entries of a part that must be a mapping, and may be missing or null. -/
def mappingEntries? : Option Value → Option (List (Value × Value))
  | none | some .null => some []
  | some (.mapping entries) => some entries
  | some _ => none

def databaseField (key : Text) (database? : Option Value) : Option Text :=
  (Value.field? key ((database?.bind (·.entries?)).getD [])).bind (·.text?)

def databaseChecks (database? : Option Value) : List Check :=
  let source? := databaseField "source" database?
  [⟨.missingDatabaseName, (databaseField "name" database?).isSome⟩,
    ⟨.unsupportedSource (source?.getD []), source?.all fun tag => (Source.ofName? tag).isSome⟩]

namespace Composite

def reading? (entry : Value) : Option Composite :=
  entry.text?.bind fun text => (read text).toOption

def keywordOf (text : Text) : Text := (firstWord (Text.trimStart text)).1

def identifiersOf (text : Text) : List Text :=
  Identifier.all (afterKey (Text.trimStart (firstWord (Text.trimStart text)).2))

/-- Whether an entry gives a primary key to a table that has one from an entry before it. -/
def repeatsPrimary (before : List Value) (entry : Value) : Bool :=
  (reading? entry).any fun c =>
    c.kind == .primary && (primaryTables (before.filterMap reading?)).contains c.table

/-- What is checked of an entry: it is a text, begins with an index keyword, names a table and a
column, and is not the second one that gives a primary key to its table. -/
def entryChecks (before : List Value) (entry : Value) : List Check :=
  let text := label entry
  [⟨.misshapen .compositeEntryNotString, entry.text?.isSome⟩,
    ⟨.unknownIndexKeyword (keywordOf text), (IndexKind.ofKeyword? (keywordOf text)).isSome⟩,
    ⟨.missingCompositeIdentifiers text, decide (2 ≤ (identifiersOf text).length)⟩,
    ⟨.duplicateIndex ((identifiersOf text).headD []) .primary, !repeatsPrimary before entry⟩]

def sectionChecks (items? : Option (List Value)) : List Check :=
  ofItems entryChecks (.misshapen .compositeNotSequence) items?

end Composite

namespace Definitions

def entryChecks (entry : Value × Value) : List Check :=
  [invalidName .definition entry.1,
    ⟨.misshapen (.definitionNotString (label entry.1)), entry.2.text?.isSome⟩]

def sectionChecks (entries? : Option (List (Value × Value))) : List Check :=
  ofItems (fun _ => entryChecks) (.misshapen (.sectionNotMapping .definitions)) entries?

end Definitions

/-- What is checked of a column. -/
inductive ColumnRule
  | named
  | scalar
  | written
  | expands
  | refers
  | countsAlone
  | typed
deriving Repr, DecidableEq

namespace ColumnRule

def inSequence : List ColumnRule :=
  [.named, .scalar, .written, .expands, .refers, .countsAlone, .typed]

def fault (table column : Text) : ColumnRule → Fault
  | named => .misshapen (.invalidName .column)
  | scalar => .misshapen (.columnNotString table column)
  | written => .missingColumnDefinition table column
  | expands => .expansionOverflow table column Definitions.limit
  | refers => .referenceSyntax table column
  | countsAlone => .duplicateAutoIncrement table
  | typed => .emptyColumn table column

def isScalar : Value → Bool
  | .sequence _ | .mapping _ => false
  | _ => true

def expanded? (defs : Definitions) (raw : Value) : Option Text :=
  defs.expand? (Text.trim (label raw))

def spec? (defs : Definitions) (raw : Value) : Option Column.Spec :=
  (expanded? defs raw).bind fun t => (takeReference? t).map fun taken => Column.scan taken.2

def countsUp (defs : Definitions) (entry : Value × Value) : Bool :=
  (spec? defs entry.2).any (·.autoIncrement)

def isPrimary (defs : Definitions) (entry : Value × Value) : Bool :=
  (spec? defs entry.2).any (·.primary)

/-- Whether the entry of a column passes, behind the entries of other columns. What a rule says of
an entry that fails an earlier rule does not matter. -/
def holds (defs : Definitions) (before : List (Value × Value)) (entry : Value × Value) :
    ColumnRule → Bool
  | named => entry.1.text?.isSome
  | scalar => isScalar entry.2
  | written => !(Text.trim (label entry.2)).isEmpty
  | expands => (expanded? defs entry.2).isSome
  | refers => (expanded? defs entry.2).all fun t => (takeReference? t).isSome
  | countsAlone => !(before.any (countsUp defs) && countsUp defs entry)
  | typed => (spec? defs entry.2).all fun spec => !spec.dataType.isEmpty

def check (defs : Definitions) (table : Text) (before : List (Value × Value))
    (entry : Value × Value) (rule : ColumnRule) : Check :=
  ⟨rule.fault table (label entry.1), rule.holds defs before entry⟩

end ColumnRule

def columnChecks (defs : Definitions) (table : Text) (before : List (Value × Value))
    (entry : Value × Value) : List Check :=
  ColumnRule.inSequence.map (ColumnRule.check defs table before entry)

/-- The entries of the columns of a table. -/
def columnEntries? (columns : Value) : Option (List (Value × Value)) :=
  mappingEntries? (some columns)

/-- Whether an entry of the `composite` section gives a primary key to a table. The first table of a
name takes it. -/
def isListed (composites : List Composite) (before : List (Value × Value)) (table : Text) : Bool :=
  (Composite.primaryTables composites).contains table && !before.any fun entry => label entry.1 == table

def openingChecks (defs : Definitions) (key : Value) (columns? : Option (List (Value × Value))) :
    List Check :=
  invalidName .table key ::
    ofItems (columnChecks defs (label key)) (.misshapen (.tableNotMapping (label key))) columns?

/-- What is checked of a table: its name, its columns, and that its primary key is given once. -/
def tableChecks (defs : Definitions) (composites : List Composite) (before : List (Value × Value))
    (entry : Value × Value) : List Check :=
  openingChecks defs entry.1 (columnEntries? entry.2) ++
    [⟨.duplicatePrimaryKey (label entry.1),
      !(((columnEntries? entry.2).getD []).any (ColumnRule.isPrimary defs) &&
        isListed composites before (label entry.1))⟩]

def tablesChecks (defs : Definitions) (composites : List Composite)
    (entries? : Option (List (Value × Value))) : List Check :=
  ofItems (tableChecks defs composites) (.misshapen (.sectionNotMapping .tables)) entries?

section

variable (root : List (Value × Value))

def databaseOf : Option Value := Value.field? "database" root

def compositeItems? : Option (List Value) :=
  Composite.sectionItems? (Value.field? "composite" root)

def definitionEntries? : Option (List (Value × Value)) :=
  mappingEntries? (Value.field? Section.definitions.key root)

def tableEntries? : Option (List (Value × Value)) :=
  mappingEntries? (Value.field? Section.tables.key root)

def definitionsOf : Definitions := (Definitions.read root).toOption.getD []

def compositesOf : List Composite :=
  (Composite.readSection (Value.field? "composite" root)).toOption.getD []

/-- What is checked in front of the tables. -/
def leadingChecks : List Check :=
  databaseChecks (databaseOf root) ++ Composite.sectionChecks (compositeItems? root) ++
    Definitions.sectionChecks (definitionEntries? root)

def rootChecks : List Check :=
  leadingChecks root ++
    tablesChecks (definitionsOf root) (compositesOf root) (tableEntries? root)

end

/-- What is checked of a document, in order. -/
def checks (document : Value) : List Check :=
  ⟨.misshapen .root, document.entries?.isSome⟩ :: rootChecks (document.entries?.getD [])

section

variable (root root' : List (Value × Value))

def AgreeOn (keys : List Text) : Prop :=
  ∀ key ∈ keys, Value.field? key root' = Value.field? key root

/-- Two documents are the same as far as some checks go. They may differ in any way behind them. -/
inductive AgreeTo : List Check → Prop
  | database (before : AgreeOn root root' ["database"]) :
      AgreeTo (databaseChecks (databaseOf root))
  | composite (n : Nat) (before : AgreeOn root root' ["database"])
      (items : firstOf n (compositeItems? root') = firstOf n (compositeItems? root)) :
      AgreeTo (databaseChecks (databaseOf root) ++
        Composite.sectionChecks (firstOf n (compositeItems? root)))
  | definitions (n : Nat) (before : AgreeOn root root' ["database", "composite"])
      (entries : firstOf n (definitionEntries? root') = firstOf n (definitionEntries? root)) :
      AgreeTo (databaseChecks (databaseOf root) ++ Composite.sectionChecks (compositeItems? root) ++
        Definitions.sectionChecks (firstOf n (definitionEntries? root)))
  | tables (n : Nat)
      (before : AgreeOn root root' ["database", "composite", Section.definitions.key])
      (entries : firstOf n (tableEntries? root') = firstOf n (tableEntries? root)) :
      AgreeTo (leadingChecks root ++
        tablesChecks (definitionsOf root) (compositesOf root) (firstOf n (tableEntries? root)))
  | columns (n : Nat) {tables later later' : List (Value × Value)} {key value value' : Value}
      (before : AgreeOn root root' ["database", "composite", Section.definitions.key])
      (here : tableEntries? root = some (tables ++ (key, value) :: later))
      (there : tableEntries? root' = some (tables ++ (key, value') :: later'))
      (entries : firstOf n (columnEntries? value') = firstOf n (columnEntries? value)) :
      AgreeTo (leadingChecks root ++
        (tablesChecks (definitionsOf root) (compositesOf root) (some tables) ++
          openingChecks (definitionsOf root) key (firstOf n (columnEntries? value))))

end

section

variable {root root' : List (Value × Value)} {cs : List Check}

section

variable {keys : List Text} (h : AgreeOn root root' keys)
include h

theorem AgreeOn.symm : AgreeOn root' root keys := fun key hkey => (h key hkey).symm

theorem AgreeOn.databaseOf (hkey : "database".toList ∈ keys) :
    databaseOf root' = databaseOf root := h _ hkey

theorem AgreeOn.compositeItems? (hkey : "composite".toList ∈ keys) :
    compositeItems? root' = compositeItems? root := by
  rw [Document.compositeItems?, h _ hkey, Document.compositeItems?]

theorem AgreeOn.compositesOf (hkey : "composite".toList ∈ keys) :
    compositesOf root' = compositesOf root := by
  rw [Document.compositesOf, h _ hkey, Document.compositesOf]

theorem AgreeOn.definitionsOf (hkey : Section.definitions.key ∈ keys) :
    definitionsOf root' = definitionsOf root := by
  simp only [Document.definitionsOf, Definitions.read, sectionEntries, h _ hkey]

theorem AgreeOn.definitionEntries? (hkey : Section.definitions.key ∈ keys) :
    definitionEntries? root' = definitionEntries? root := by
  rw [Document.definitionEntries?, h _ hkey, Document.definitionEntries?]

end

theorem AgreeOn.leadingChecks
    (h : AgreeOn root root' ["database", "composite", Section.definitions.key]) :
    leadingChecks root' = leadingChecks root := by
  unfold Document.leadingChecks
  rw [h.databaseOf (by simp), h.compositeItems? (by simp), h.definitionEntries? (by simp)]

theorem tablesChecks_begins (defs : Definitions) (composites : List Composite)
    (tables later : List (Value × Value)) (key value : Value) (n : Nat) :
    tablesChecks defs composites (some tables) ++
        openingChecks defs key (firstOf n (columnEntries? value)) <+:
      tablesChecks defs composites (some (tables ++ (key, value) :: later)) := by
  have hopening : openingChecks defs key (firstOf n (columnEntries? value)) <+:
      tableChecks defs composites tables (key, value) := by
    refine List.IsPrefix.trans ?_ (List.prefix_append _ _)
    exact (List.prefix_cons_inj _).2 (ofItems_firstOf_begins _ _ _ n)
  have hnext : tableChecks defs composites tables (key, value) <+:
      inOrder (tableChecks defs composites) ([] ++ tables) ((key, value) :: later) :=
    List.prefix_append _ _
  unfold tablesChecks ofItems
  rw [Option.getD_some, Option.getD_some, inOrder_append, List.cons_append]
  exact (List.prefix_cons_inj _).2 ((List.prefix_append_right_inj _).2 (hopening.trans hnext))

/-- The checks that documents agree to are the first ones of either. -/
theorem AgreeTo.begins (h : AgreeTo root root' cs) : cs <+: rootChecks root := by
  unfold rootChecks leadingChecks
  cases h with
  | database =>
      rw [List.append_assoc, List.append_assoc]
      exact List.prefix_append _ _
  | composite n =>
      have hitems := ofItems_firstOf_begins Composite.entryChecks
        (.misshapen .compositeNotSequence) (compositeItems? root) n
      rw [List.append_assoc, List.append_assoc]
      exact (List.prefix_append_right_inj _).2 (hitems.trans (List.prefix_append _ _))
  | definitions n =>
      have hentries := ofItems_firstOf_begins (fun _ => Definitions.entryChecks)
        (.misshapen (.sectionNotMapping .definitions)) (definitionEntries? root) n
      exact ((List.prefix_append_right_inj _).2 hentries).trans (List.prefix_append _ _)
  | tables n =>
      exact (List.prefix_append_right_inj _).2 (ofItems_firstOf_begins _ _ _ n)
  | @columns n tables later _ key value _ _ here =>
      rw [here]
      exact (List.prefix_append_right_inj _).2 (tablesChecks_begins _ _ tables later key value n)

theorem AgreeTo.symm (h : AgreeTo root root' cs) : AgreeTo root' root cs := by
  -- what the checks look at is the same in both documents, so they are the checks of either
  cases h with
  | database before =>
      rw [← before.databaseOf (by simp)]
      exact .database before.symm
  | composite n before items =>
      rw [← before.databaseOf (by simp), ← items]
      exact .composite n before.symm items.symm
  | definitions n before entries =>
      rw [← before.databaseOf (by simp), ← before.compositeItems? (by simp), ← entries]
      exact .definitions n before.symm entries.symm
  | tables n before entries =>
      rw [← before.leadingChecks, ← before.definitionsOf (by simp), ← before.compositesOf (by simp),
        ← entries]
      exact .tables n before.symm entries.symm
  | columns n before here there entries =>
      rw [← before.leadingChecks, ← before.definitionsOf (by simp), ← before.compositesOf (by simp),
        ← entries]
      exact .columns n before.symm there here entries.symm

end

end SchemaScript.Document
