/- Independence: a table is what its own entry and the composite entries for it say. The order of
   the tables only orders the result, and the order of composite entries matters to one table at a
   time. -/
import SchemaScript.Proofs.Document.Check
import SchemaScript.Proofs.Document.Edited
import SchemaScript.Proofs.Document.Names

namespace SchemaScript.Document

/-- Results that are found element by element are what the elements give. -/
theorem forall₂_eq_some_iff {α β : Type} {f : α → Option β} {l : List α} {m : List β} :
    List.Forall₂ (fun a b => f a = some b) l m ↔
      m = l.filterMap f ∧ ∀ a ∈ l, (f a).isSome = true := by
  induction l generalizing m with
  | nil => simp
  | cons a l ih =>
      rw [List.forall₂_cons_left_iff, List.forall_mem_cons]
      constructor
      · rintro ⟨b, rest, hb, hrest, rfl⟩
        obtain ⟨rfl, hall⟩ := ih.1 hrest
        exact ⟨(List.filterMap_cons_some hb).symm, by rw [hb, Option.isSome_some], hall⟩
      · rintro ⟨rfl, hsome, hall⟩
        obtain ⟨b, hb⟩ := Option.isSome_iff_exists.1 hsome
        exact ⟨b, _, hb, ih.2 ⟨rfl, hall⟩, List.filterMap_cons_some hb⟩

namespace Composite

/-- Whether an entry names a table of a given sort. -/
def names (p : Text → Bool) (entry : Value) : Bool := (reading? entry).any fun c => p c.table

theorem reading?_eq_some {entry : Value} {c : Composite} :
    reading? entry = some c ↔ ∃ text, entry.text? = some text ∧ read text = .ok c := by
  unfold reading?
  rw [Option.bind_eq_some_iff]
  refine exists_congr fun text => and_congr_right fun _ => ?_
  cases read text with
  | ok c' => simp [Except.toOption]
  | error fault => simp [Except.toOption]

theorem listed_iff {section? : Option Value} {items : List Value} {composites : List Composite}
    (h : sectionItems? section? = some items) :
    Listed section? composites ↔
      composites = items.filterMap reading? ∧ ∀ item ∈ items, (reading? item).isSome = true := by
  unfold Listed
  simp only [← forall₂_eq_some_iff, ← reading?_eq_some, h, Option.some.injEq, exists_eq_left']

theorem filter_filterMap_reading? (p : Text → Bool) (items : List Value) :
    (items.filterMap reading?).filter (fun c => p c.table) =
      (items.filter (names p)).filterMap reading? := by
  rw [List.filter_filterMap, List.filterMap_filter]
  congr 1
  funext item
  unfold names
  cases reading? item with
  | none => rfl
  | some c => cases h : p c.table <;> simp [h]

/-- Only the entries that name a table matter to its indexes, in their order. -/
theorem indexesOf_reordered {table : Text} {items items' : List Value}
    (h : items'.filter (names (· == table)) = items.filter (names (· == table))) :
    indexesOf table (items'.filterMap reading?) = indexesOf table (items.filterMap reading?) := by
  unfold indexesOf
  rw [filter_filterMap_reading? (· == table), filter_filterMap_reading? (· == table), h]

theorem primaryTables_perm {composites composites' : List Composite}
    (h : composites'.Perm composites) :
    (primaryTables composites').Perm (primaryTables composites) :=
  (h.filter _).map _

theorem primaryTables_sublist {composites composites' : List Composite}
    (h : composites'.Sublist composites) :
    (primaryTables composites').Sublist (primaryTables composites) :=
  (h.filter _).map _

end Composite

variable {defs : Definitions} {composites composites' : List Composite}
  {root root' entries entries' : List (Value × Value)} {document document' : Value} {schema : Schema}

/-- The table that an entry gives, whatever other tables there are. -/
def tableOf? (defs : Definitions) (composites : List Composite) (entry : Value × Value) :
    Option Table :=
  entry.1.text?.bind fun name =>
    (readTable defs (Composite.indexesOf name composites) name entry.2).toOption

theorem tableOf?_eq_some {entry : Value × Value} {t : Table} :
    tableOf? defs composites entry = some t ↔ entry.1.text? = some t.name ∧
      readTable defs (Composite.indexesOf t.name composites) t.name entry.2 = .ok t := by
  unfold tableOf?
  have htoOption (name : Text) :
      (readTable defs (Composite.indexesOf name composites) name entry.2).toOption = some t ↔
        readTable defs (Composite.indexesOf name composites) name entry.2 = .ok t := by
    cases readTable defs (Composite.indexesOf name composites) name entry.2 with
    | ok t' => simp [Except.toOption]
    | error fault => simp [Except.toOption]
  simp only [Option.bind_eq_some_iff, htoOption]
  constructor
  · rintro ⟨name, hname, ht⟩
    rw [readTable_name ht]
    exact ⟨hname, ht⟩
  · exact fun ⟨hname, ht⟩ => ⟨t.name, hname, ht⟩

theorem tableOf?_congr {entry : Value × Value}
    (h : ∀ name, entry.1.text? = some name →
      Composite.indexesOf name composites' = Composite.indexesOf name composites) :
    tableOf? defs composites' entry = tableOf? defs composites entry := by
  unfold tableOf?
  refine Option.bind_congr fun name hname => ?_
  rw [h name hname]

/-- The names of tables are the texts of the keys of their entries. -/
theorem names_filterMap_tableOf? (h : ∀ entry ∈ entries, (tableOf? defs composites entry).isSome = true) :
    (entries.filterMap (tableOf? defs composites)).map (·.name) =
      entries.filterMap fun entry => entry.1.text? := by
  rw [List.map_filterMap]
  refine List.filterMap_congr fun entry hentry => ?_
  obtain ⟨t, ht⟩ := Option.isSome_iff_exists.1 (h entry hentry)
  rw [ht, (tableOf?_eq_some.1 ht).1, Option.map_some]

theorem names_of_readTables {tables : List Table}
    (h : readTables defs composites entries = .ok tables) :
    (entries.filterMap fun entry => entry.1.text?) = tables.map (·.name) := by
  have htexts := texts_eq ((tablesReflect_of_readTables h).imp fun _ _ ht => ht.name)
  have hread := congrArg (List.filterMap id) htexts
  simpa [List.filterMap_map, Function.comp_def] using hread

theorem readTables_iff {tables : List Table}
    (hnames : (entries.filterMap fun entry => entry.1.text?).Nodup) :
    readTables defs composites entries = .ok tables ↔
      tables = entries.filterMap (tableOf? defs composites) ∧
        ∀ entry ∈ entries, (tableOf? defs composites entry).isSome = true := by
  have hone (hn : (tables.map (·.name)).Nodup) :
      readTables defs composites entries = .ok tables ↔ _ :=
    readTables_eq_ok (fun name => Composite.indexesOf name composites) hn fun _ _ => rfl
  simp only [← tableOf?_eq_some, forall₂_eq_some_iff] at hone
  constructor
  · intro h
    refine (hone ?_).1 h
    rw [← names_of_readTables h]
    exact hnames
  · intro h
    refine (hone ?_).2 h
    rw [h.1, names_filterMap_tableOf? h.2]
    exact hnames

/-- An accepted document whose tables have different names: each entry gives its table. -/
theorem read_iff (hroot : document.entries? = some root)
    (hentries : sectionEntries .tables root = .ok entries)
    (hnames : (entries.filterMap fun entry => entry.1.text?).Nodup) :
    read document = .ok schema ↔
      readDatabase root = .ok schema.database ∧
        ∃ composites, Composite.readSection (Value.field? "composite" root) = .ok composites ∧
          ∃ defs, Definitions.read root = .ok defs ∧
            schema.tables = entries.filterMap (tableOf? defs composites) ∧
              ∀ entry ∈ entries, (tableOf? defs composites entry).isSome = true := by
  rw [read_eq_ok]
  constructor
  · rintro ⟨root₁, hroot₁, hdatabase, composites, hcomposites, defs, hdefs, entries₁, hentries₁,
      htables⟩
    cases hroot₁.symm.trans hroot
    cases hentries₁.symm.trans hentries
    exact ⟨hdatabase, composites, hcomposites, defs, hdefs, (readTables_iff hnames).1 htables⟩
  · rintro ⟨hdatabase, composites, hcomposites, defs, hdefs, htables⟩
    exact ⟨root, hroot, hdatabase, composites, hcomposites, defs, hdefs, entries, hentries,
      (readTables_iff hnames).2 htables⟩

theorem AgreeOn.readDatabase {keys : List Text} (h : AgreeOn root root' keys)
    (hkey : "database".toList ∈ keys) : readDatabase root' = readDatabase root :=
  readDatabase_congr (h _ hkey)

theorem AgreeOn.readDefinitions {keys : List Text} (h : AgreeOn root root' keys)
    (hkey : Section.definitions.key ∈ keys) : Definitions.read root' = Definitions.read root := by
  unfold Definitions.read
  rw [sectionEntries_congr (h _ hkey)]

theorem agreeOn_updateField {name : Text} {keys : List Text} (f : Value → Value)
    (hname : name ∉ keys) : AgreeOn root (Value.updateField name f root) keys := by
  intro key hkey
  exact Value.field?_updateField_of_ne fun he => hname (he ▸ hkey)

/-- Where the tables of an accepted document are put into another order, each entry still gives its
table. -/
theorem read_permuted (hroot : document.entries? = some root)
    (hentries : sectionEntries .tables root = .ok entries)
    (hnames : (entries.filterMap fun entry => entry.1.text?).Nodup)
    (h : read document = .ok schema) :
    ∃ table : Value × Value → Table, schema.tables = entries.map table ∧
      ∀ document' root' entries', document'.entries? = some root' →
        AgreeOn root root' ["database", "composite", Section.definitions.key] →
          sectionEntries .tables root' = .ok entries' → entries'.Perm entries →
            read document' = .ok { schema with tables := entries'.map table } := by
  obtain ⟨hdatabase, composites, hcomposites, defs, hdefs, htables, hall⟩ :=
    (read_iff hroot hentries hnames).1 h
  let table := fun entry => (tableOf? defs composites entry).getD { name := [], columns := [] }
  have htable : ∀ entry ∈ entries, tableOf? defs composites entry = some (table entry) := by
    intro entry hentry
    obtain ⟨t, ht⟩ := Option.isSome_iff_exists.1 (hall entry hentry)
    simp only [table, ht, Option.getD_some]
  refine ⟨table, ?_, ?_⟩
  · rw [htables]
    exact List.filterMap_eq_map_iff_forall_eq_some.2 htable
  · intro document' root' entries' hroot' hsame hentries' hperm
    have htable' : ∀ entry ∈ entries', tableOf? defs composites entry = some (table entry) :=
      fun entry hentry => htable entry (hperm.mem_iff.1 hentry)
    have hnames' : (entries'.filterMap fun entry => entry.1.text?).Nodup :=
      (hperm.filterMap _).nodup_iff.2 hnames
    refine (read_iff hroot' hentries' hnames').2 ⟨?_, composites, ?_, defs, ?_, ?_, ?_⟩
    · rw [hsame.readDatabase (by simp), hdatabase]
    · rw [hsame _ (by simp), hcomposites]
    · rw [hsame.readDefinitions (by simp), hdefs]
    · exact (List.filterMap_eq_map_iff_forall_eq_some.2 htable').symm
    · exact fun entry hentry => by rw [htable' entry hentry, Option.isSome_some]

/-- Where other composite entries give every table of an accepted document the same indexes, the
schema is the same. -/
theorem read_recomposed (hroot : document.entries? = some root)
    (hentries : sectionEntries .tables root = .ok entries)
    (hnames : (entries.filterMap fun entry => entry.1.text?).Nodup)
    (h : read document = .ok schema) (hroot' : document'.entries? = some root')
    (hsame : AgreeOn root root' ["database", Section.definitions.key, Section.tables.key])
    (hread : Composite.readSection (Value.field? "composite" root) = .ok composites)
    (hread' : Composite.readSection (Value.field? "composite" root') = .ok composites')
    (hindexes : ∀ name ∈ entries.filterMap fun entry => entry.1.text?,
      Composite.indexesOf name composites' = Composite.indexesOf name composites) :
    read document' = .ok schema := by
  obtain ⟨hdatabase, composites₁, hread₁, defs, hdefs, htables, hall⟩ :=
    (read_iff hroot hentries hnames).1 h
  cases hread₁.symm.trans hread
  have htable : ∀ entry ∈ entries,
      tableOf? defs composites' entry = tableOf? defs composites entry := by
    intro entry hentry
    exact tableOf?_congr fun name hname =>
      hindexes name (List.mem_filterMap.2 ⟨entry, hentry, hname⟩)
  have hentries' : sectionEntries .tables root' = .ok entries := by
    rw [sectionEntries_congr (hsame _ (by simp)), hentries]
  refine (read_iff hroot' hentries' hnames).2 ⟨?_, composites', hread', defs, ?_, ?_, ?_⟩
  · rw [hsame.readDatabase (by simp), hdatabase]
  · rw [hsame.readDefinitions (by simp), hdefs]
  · rw [htables]
    exact (List.filterMap_congr htable).symm
  · exact fun entry hentry => htable entry hentry ▸ hall entry hentry

/-- A document with other entries for its tables. -/
def withTables (entries : List (Value × Value)) (document : Value) : Value :=
  document.mapEntries (Value.updateField Section.tables.key fun _ => .mapping entries)

/-- A document with other entries for its composite indexes. -/
def withComposites (items : List Value) (document : Value) : Value :=
  document.mapEntries (Value.updateField "composite" fun _ => .sequence items)

theorem entries?_withTables (hroot : document.entries? = some root) :
    (withTables entries document).entries? =
      some (Value.updateField Section.tables.key (fun _ => .mapping entries) root) := by
  unfold withTables
  rw [Value.entries?_mapEntries, hroot, Option.map_some]

theorem entries?_withComposites {items : List Value} (hroot : document.entries? = some root) :
    (withComposites items document).entries? =
      some (Value.updateField "composite" (fun _ => .sequence items) root) := by
  unfold withComposites
  rw [Value.entries?_mapEntries, hroot, Option.map_some]

theorem sectionEntries_withTables (hentries : sectionEntries .tables root = .ok entries)
    (hperm : entries'.Perm entries) :
    sectionEntries .tables (Value.updateField Section.tables.key (fun _ => .mapping entries') root) =
      .ok entries' := by
  refine sectionEntries_updateField hentries rfl fun hnil => ?_
  rw [hnil] at hperm
  cases hperm.eq_nil
  exact ⟨rfl, .inr rfl⟩

theorem compositeItems?_withComposites {items items' : List Value}
    (hitems : compositeItems? root = some items) (hempty : items = [] → items' = []) :
    compositeItems? (Value.updateField "composite" (fun _ => .sequence items') root) =
      some items' := by
  unfold compositeItems? at hitems ⊢
  rw [Value.field?_updateField]
  cases hfield : Value.field? "composite" root with
  | none =>
      rw [hfield] at hitems
      cases hitems
      rw [hempty rfl]
      rfl
  | some v => rfl

/-- What the order of an accepted document has no part in. -/
structure OrderFree (document : Value) (root entries : List (Value × Value)) (schema : Schema) :
    Prop where
  /-- The tables of the schema follow the entries, and nothing else depends on their order. -/
  tables : ∃ table : Value × Value → Table, schema.tables = entries.map table ∧
    ∀ entries' : List (Value × Value), entries'.Perm entries →
      read (withTables entries' document) = .ok { schema with tables := entries'.map table }
  /-- Composite entries may change places with those for other tables. -/
  composites : ∀ items items' : List Value, compositeItems? root = some items →
    items'.Perm items →
      (∀ table, items'.filter (Composite.names (· == table)) =
        items.filter (Composite.names (· == table))) →
          read (withComposites items' document) = .ok schema
  /-- Composite entries for tables that the document does not have may be left out. -/
  strangers : ∀ items : List Value, compositeItems? root = some items →
    read (withComposites
      (items.filter (Composite.names (entries.filterMap fun entry => entry.1.text?).contains))
      document) = .ok schema

/-- A section of entries that are all read, with no second primary key among them. -/
theorem readSection_of_items {section? : Option Value} {items : List Value}
    (hitems : Composite.sectionItems? section? = some items)
    (hall : ∀ item ∈ items, (Composite.reading? item).isSome = true)
    (hone : (Composite.primaryTables (items.filterMap Composite.reading?)).Nodup) :
    Composite.readSection section? = .ok (items.filterMap Composite.reading?) :=
  Composite.readSection_eq_ok.2 ⟨(Composite.listed_iff hitems).2 ⟨rfl, hall⟩, hone⟩

theorem orderFree_of_read (hroot : document.entries? = some root)
    (hentries : sectionEntries .tables root = .ok entries)
    (hnames : (entries.filterMap fun entry => entry.1.text?).Nodup)
    (h : read document = .ok schema) : OrderFree document root entries schema := by
  obtain ⟨_, composites, hread, _⟩ := (read_iff hroot hentries hnames).1 h
  obtain ⟨hlisted, hone⟩ := Composite.readSection_eq_ok.1 hread
  have hsame (items : List Value) :
      AgreeOn root (Value.updateField "composite" (fun _ => .sequence items) root)
        ["database", Section.definitions.key, Section.tables.key] :=
    agreeOn_updateField _ (by decide)
  constructor
  case tables =>
    obtain ⟨table, htables, hpermuted⟩ := read_permuted hroot hentries hnames h
    refine ⟨table, htables, fun entries' hperm => ?_⟩
    exact hpermuted _ _ entries' (entries?_withTables hroot) (agreeOn_updateField _ (by decide))
      (sectionEntries_withTables hentries hperm) hperm
  case composites =>
    intro items items' hitems hperm horder
    obtain ⟨rfl, hall⟩ := (Composite.listed_iff hitems).1 hlisted
    have hempty : items = [] → items' = [] := by
      rintro rfl
      exact hperm.eq_nil
    refine read_recomposed hroot hentries hnames h (entries?_withComposites hroot) (hsame items') hread
      (readSection_of_items (compositeItems?_withComposites hitems hempty) ?_ ?_) ?_
    · exact fun item hitem => hall item (hperm.mem_iff.1 hitem)
    · exact (Composite.primaryTables_perm (hperm.filterMap _)).nodup_iff.2 hone
    · exact fun name _ => Composite.indexesOf_reordered (horder name)
  case strangers =>
    intro items hitems
    obtain ⟨rfl, hall⟩ := (Composite.listed_iff hitems).1 hlisted
    refine read_recomposed hroot hentries hnames h (entries?_withComposites hroot) (hsame _) hread
      (readSection_of_items (compositeItems?_withComposites hitems ?_) ?_ ?_) ?_
    · exact fun hnil => by rw [hnil, List.filter_nil]
    · exact fun item hitem => hall item (List.mem_of_mem_filter hitem)
    · exact hone.sublist (Composite.primaryTables_sublist (List.filter_sublist.filterMap _))
    · intro name hname
      rw [← Composite.filter_filterMap_reading?]
      exact Composite.indexesOf_filter _ fun c hc => by rw [hc, List.contains_iff_mem]; exact hname

/-- The tables of a document with different names for them do not depend on each other. If it is
accepted, its tables may stand in any order, and so may composite entries as far as they are for
different tables; those for no table may be left out. If it is rejected, no order of its tables makes
it acceptable. -/
theorem read_independent (hroot : document.entries? = some root)
    (hentries : sectionEntries .tables root = .ok entries)
    (hnames : (entries.filterMap fun entry => entry.1.text?).Nodup) :
    (∀ schema, read document = .ok schema → OrderFree document root entries schema) ∧
      ∀ fault, read document = .error fault → ∀ entries' : List (Value × Value),
        entries'.Perm entries →
          ∃ fault', read (withTables entries' document) = .error fault' := by
  refine ⟨fun schema => orderFree_of_read hroot hentries hnames, ?_⟩
  intro fault hfault entries' hperm
  cases h : read (withTables entries' document) with
  | error fault' => exact ⟨fault', rfl⟩
  | ok schema =>
      -- the document is an order of the accepted one, so it would be accepted as well
      have hsame :
          AgreeOn root (Value.updateField Section.tables.key (fun _ => .mapping entries') root)
            ["database", "composite", Section.definitions.key] :=
        agreeOn_updateField _ (by decide)
      obtain ⟨_, _, hpermuted⟩ := read_permuted (entries?_withTables hroot)
        (sectionEntries_withTables hentries hperm) ((hperm.filterMap _).nodup_iff.2 hnames) h
      have hok := hpermuted document root entries hroot hsame.symm hentries hperm.symm
      rw [hfault] at hok
      cases hok

def ordersIndex : Value := .string "UNIQUE KEY orders (id, customer)"

def stockIndex : Value := .string "PRIMARY stock item"

def pricesIndex : Value := .string "UNIQUE prices item"

/-- A document with a reference that names no column. -/
def astray (tables : List (Value × Value)) : Value :=
  .mapping
    [(.string "database", .mapping [(.string "name", .string "shop")]),
      (.string "tables", .mapping tables)]

def notes : Value × Value := (.string "notes", .null)

def strayOrders : Value × Value :=
  (.string "orders", .mapping [(.string "customer", .string "int -> customers")])

theorem names_of_table (item : Value) (table : Text)
    (h : (Composite.reading? item).map (·.table) = some table) (p : Text → Bool) :
    Composite.names p item = p table := by
  obtain ⟨c, hc, rfl⟩ := Option.map_eq_some_iff.1 h
  rw [Composite.names, hc, Option.any_some]

theorem read_independent_shop :
    (read shop = .ok shopSchema ∧
      read (withTables shopTables.reverse shop) =
        .ok { shopSchema with tables := shopSchema.tables.reverse } ∧
      read (withComposites [stockIndex, ordersIndex, pricesIndex] shop) = .ok shopSchema ∧
      read (withComposites [ordersIndex, stockIndex] shop) = .ok shopSchema) ∧
    read (astray [notes, strayOrders]) = .error (.referenceSyntax "orders" "customer") ∧
      ∃ fault, read (withTables [strayOrders, notes] (astray [notes, strayOrders])) =
        .error fault := by
  have h : read shop = .ok shopSchema := by decide +kernel
  have hastray : read (astray [notes, strayOrders]) =
      .error (.referenceSyntax "orders" "customer") := by decide +kernel
  have hshopRoot : shop.entries? = some _ := rfl
  have hastrayRoot : (astray [notes, strayOrders]).entries? = some _ := rfl
  have horders := names_of_table ordersIndex "orders" (by decide +kernel)
  have hstock := names_of_table stockIndex "stock" (by decide +kernel)
  have hprices := names_of_table pricesIndex "prices" (by decide +kernel)
  refine ⟨?_, hastray, ?_⟩
  · have hfree := (read_independent hshopRoot rfl (by decide +kernel)).1 shopSchema h
    refine ⟨h, ?_, ?_, ?_⟩
    · obtain ⟨table, htables, hpermuted⟩ := hfree.tables
      have hreverse := hpermuted shopTables.reverse (List.reverse_perm shopTables)
      rw [List.map_reverse, ← htables] at hreverse
      exact hreverse
    · refine hfree.composites [ordersIndex, stockIndex, pricesIndex] _ rfl (.swap _ _ _) ?_
      intro table
      have hapart : ("orders".toList == table) = false ∨ ("stock".toList == table) = false := by
        by_cases ho : "orders".toList = table
        · subst ho
          exact .inr (by decide)
        · exact .inl (beq_eq_false_iff_ne.2 ho)
      rcases hapart with hapart | hapart
      · simp only [List.filter_cons, horders, hstock, hapart, Bool.false_eq_true, if_false]
      · simp only [List.filter_cons, horders, hstock, hapart, Bool.false_eq_true, if_false]
    · have hknown : (shopTables.filterMap fun entry => entry.1.text?) =
          ["customers", "orders", "stock", "notes"] := by decide +kernel
      have hkept := hfree.strangers [ordersIndex, stockIndex, pricesIndex] rfl
      simp only [List.filter_cons, List.filter_nil, horders, hstock, hprices, hknown] at hkept
      exact hkept
  · exact (read_independent hastrayRoot rfl (by decide +kernel)).2 _
      hastray _ (.swap _ _ [])

end SchemaScript.Document
