/- Listings: how an entry of a `composite` section may be written, and what it changes. -/
import SchemaScript.Proofs.Document.FirstFault
import SchemaScript.Proofs.Identifier.Grammar

namespace SchemaScript

namespace Text

theorem toLower_of_isBlank {c : Char} (h : SchemaScript.isBlank c = true) : c.toLower = c := by
  unfold Char.toLower
  split
  · next hupper =>
    have hlow : 65 ≤ c.toNat := UInt32.le_iff_toNat_le.1 hupper.1
    have hhigh : c.toNat ≤ 90 := UInt32.le_iff_toNat_le.1 hupper.2
    simp only [SchemaScript.isBlank, Bool.or_eq_true, Bool.and_eq_true, beq_iff_eq,
      decide_eq_true_eq] at h
    omega
  · rfl

/-- A word that is not empty and has no blank. -/
structure Solid (word : Text) : Prop where
  ne_nil : word ≠ []
  solid : ∀ c ∈ word, SchemaScript.isBlank c = false

variable {word rest : Text}

theorem solid_iff : Solid word ↔
    (!word.isEmpty && word.all fun c => !SchemaScript.isBlank c) = true := by
  simp only [Bool.and_eq_true, Bool.not_eq_true', List.isEmpty_eq_false_iff, List.all_eq_true]
  exact ⟨fun h => ⟨h.ne_nil, h.solid⟩, fun h => ⟨h.1, h.2⟩⟩

instance : Decidable (Solid word) := decidable_of_iff _ solid_iff.symm

theorem Solid.of_same {keyword : Text} (h : Solid (lower keyword))
    (hsame : sameIgnoringCase word keyword = true) : Solid word := by
  rw [sameIgnoringCase, beq_iff_eq] at hsame
  constructor
  · intro hnil
    apply h.ne_nil
    rw [← hsame, hnil]
    rfl
  · intro c hc
    by_contra hblank
    rw [Bool.not_eq_false] at hblank
    -- a blank is its own lower case, so the keyword would have one
    have hlower : c.toLower ∈ lower word := List.mem_map_of_mem hc
    rw [toLower_of_isBlank hblank, hsame] at hlower
    rw [h.solid c hlower] at hblank
    cases hblank

theorem trimStart_of_head {t : Text} (h : ∀ c ∈ t.head?, SchemaScript.isBlank c = false) :
    trimStart t = t := by
  cases t with
  | nil => rfl
  | cons c t =>
      unfold trimStart
      rw [List.dropWhile_cons, h c rfl]
      rfl

theorem trimStart_spaces {t : Text} (h : ∀ c ∈ t.head?, SchemaScript.isBlank c = false) (n : Nat) :
    trimStart (spaces n ++ t) = t := by
  unfold trimStart
  rw [List.dropWhile_append_of_pos]
  · exact trimStart_of_head h
  · intro c hc
    rw [List.eq_of_mem_replicate hc]
    decide

theorem Solid.head (h : Solid word) : ∀ c ∈ (word ++ rest).head?, SchemaScript.isBlank c = false := by
  intro c hc
  rw [List.head?_append_of_ne_nil _ h.ne_nil] at hc
  exact h.solid c (List.mem_of_mem_head? hc)

theorem Solid.cutAtBlank? (h : Solid word) :
    Text.cutAtBlank? (word ++ ' ' :: rest) = some (word, rest) :=
  cutAt?_eq_some.2 ⟨' ', rfl, rfl, h.solid⟩

end Text

namespace Identifier

/-- The written forms that have no blank outside quotes. -/
inductive Unbroken : (written text : Text) → Prop
  | bare {t : Text} (h : Text.Solid t) (hbare : ∀ c ∈ t, isBare c = true) : Unbroken t t
  | quoted {t : Text} (hne : t ≠ []) (h : Inner t) : Unbroken ('\x60' :: t ++ ['\x60']) t

theorem Unbroken.isWritten {written text : Text} (h : Unbroken written text) :
    Written written text := by
  cases h with
  | bare h hbare => exact .bare h.ne_nil hbare
  | quoted hne h => exact .quoted hne h

theorem Unbroken.head {written text : Text} (h : Unbroken written text) (rest : Text) :
    ∀ c ∈ (written ++ rest).head?, SchemaScript.isBlank c = false := by
  cases h with
  | bare h _ => exact h.head
  | quoted _ _ =>
      intro c hc
      cases hc
      decide

theorem inner_iff {t : Text} : Inner t ↔ closeQuoted? (t ++ ['\x60']) = some (t, []) := by
  constructor
  · exact fun h => closeQuoted?_inner h (by simp)
  · exact fun h => (inner_of_closeQuoted? h).1

theorem unbroken_iff {written text : Text} : Unbroken written text ↔
    (written = text ∧ Text.Solid text ∧ text.all isBare = true) ∨
      (written = '\x60' :: text ++ ['\x60'] ∧ text ≠ [] ∧
        closeQuoted? (text ++ ['\x60']) = some (text, [])) := by
  constructor
  · intro h
    cases h with
    | bare h hbare => exact .inl ⟨rfl, h, List.all_eq_true.2 hbare⟩
    | quoted hne h => exact .inr ⟨rfl, hne, inner_iff.1 h⟩
  · rintro (⟨rfl, h, hbare⟩ | ⟨rfl, hne, h⟩)
    · exact .bare h (List.all_eq_true.1 hbare)
    · exact .quoted hne (inner_iff.2 h)

instance {written text : Text} : Decidable (Unbroken written text) :=
  decidable_of_iff _ unbroken_iff.symm

theorem all_of_read? {t inner behind : Text} (h : read? t = some (inner, behind)) :
    all t = inner :: all behind := by
  rw [all]
  split
  · next h' =>
    rw [h] at h'
    cases h'
    rfl
  · next h' =>
    rw [h] at h'
    cases h'

theorem all_nil : all [] = [] := by
  rw [all]
  rfl

theorem all_space (t : Text) : all (' ' :: t) = all t := by
  have hnone : read? (' ' :: t) = none := by
    simp [read?, quoted?, bare?, isBare]
  rw [all]
  split
  · next h =>
    rw [hnone] at h
    cases h
  · rfl

theorem all_spaces (n : Nat) (t : Text) : all (Text.spaces n ++ t) = all t := by
  induction n with
  | zero => rfl
  | succ n ih =>
      rw [Text.spaces, List.replicate_succ, List.cons_append, all_space]
      exact ih

end Identifier

namespace Document.Composite

/-- An identifier of an entry, with how many spaces there are in front of it besides one. -/
structure Item where
  gap : Nat
  written : Text
  text : Text

def Item.run (i : Item) : Text := Text.spaces (i.gap + 1) ++ i.written

theorem stops_runs (items : List Item) : Identifier.Stops (items.flatMap Item.run) := by
  intro c hc
  cases items with
  | nil => cases hc
  | cons i items =>
      cases hc
      decide

/-- All identifiers are found, whatever stands in quotes between them. -/
theorem all_runs {items : List Item} (h : ∀ i ∈ items, Identifier.Unbroken i.written i.text) :
    Identifier.all (items.flatMap Item.run) = items.map Item.text := by
  induction items with
  | nil => exact Identifier.all_nil
  | cons i items ih =>
      obtain ⟨hi, hitems⟩ := List.forall_mem_cons.1 h
      have hread := Identifier.read?_written hi.isWritten (stops_runs items)
      rw [List.flatMap_cons, Item.run, List.append_assoc, Identifier.all_spaces,
        Identifier.all_of_read? hread, ih hitems, List.map_cons]

/-- The parts that an entry is written from. The word `KEY` may be left out; it has spaces in front
of it as an identifier has. -/
structure Listing where
  kind : IndexKind
  keyword : Text
  key : Option (Nat × Text)
  table : Item
  column : Item
  columns : List Item

namespace Listing

def items (l : Listing) : List Item := l.table :: l.column :: l.columns

def names (l : Listing) : Text := l.items.flatMap Item.run

def text (l : Listing) : Text :=
  match l.key with
  | none => l.keyword ++ l.names
  | some (gap, word) => l.keyword ++ (Text.spaces (gap + 1) ++ (word ++ l.names))

def composite (l : Listing) : Composite :=
  { kind := l.kind, table := l.table.text, columns := l.column.text :: l.columns.map Item.text }

/-- What makes parts an entry. -/
structure Valid (l : Listing) : Prop where
  keyword : Text.sameIgnoringCase l.keyword l.kind.keyword = true
  key : ∀ k ∈ l.key, Text.sameIgnoringCase k.2 "KEY" = true
  items : ∀ i ∈ l.items, Identifier.Unbroken i.written i.text
  table : l.key = none → Text.sameIgnoringCase l.table.written "KEY" = false

end Listing

theorem solid_keyword (kind : IndexKind) : Text.Solid (Text.lower kind.keyword) := by
  cases kind <;> decide

theorem solid_key : Text.Solid (Text.lower "KEY") := by decide

theorem ofKeyword?_same {kind : IndexKind} {word : Text}
    (h : Text.sameIgnoringCase word kind.keyword = true) : IndexKind.ofKeyword? word = some kind := by
  rw [Text.sameIgnoringCase, beq_iff_eq] at h
  have hsame (other : IndexKind) :
      Text.sameIgnoringCase other.keyword word = decide (other = kind) := by
    rw [Text.sameIgnoringCase, h]
    cases other <;> cases kind <;> decide
  simp only [IndexKind.ofKeyword?, hsame]
  cases kind <;> rfl

theorem afterKey_key {word rest : Text} (h : Text.sameIgnoringCase word "KEY" = true) :
    afterKey (word ++ ' ' :: rest) = rest := by
  rw [afterKey, (solid_key.of_same h).cutAtBlank?]
  simp only [h, if_true]

theorem not_key_quote (t : Text) : Text.sameIgnoringCase ('\x60' :: t) "KEY" = false := by
  rw [Text.sameIgnoringCase, beq_eq_false_iff_ne]
  intro h
  exact absurd (List.cons.inj h).1 (by decide)

theorem afterKey_quote (t : Text) : afterKey ('\x60' :: t) = '\x60' :: t := by
  have hcut : Text.cutAtBlank? ('\x60' :: t) =
      (Text.cutAtBlank? t).map fun cut => ('\x60' :: cut.1, cut.2) := rfl
  rw [afterKey, hcut]
  cases Text.cutAtBlank? t with
  | none => simp only [Option.map_none, not_key_quote, Bool.false_eq_true, if_false]
  | some p => simp only [Option.map_some, not_key_quote, Bool.false_eq_true, if_false]

/-- A table is not taken for the word `KEY`, even if that word stands first between its quotes. -/
theorem afterKey_table {written text : Text} (h : Identifier.Unbroken written text)
    (hkey : Text.sameIgnoringCase written "KEY" = false) (rest : Text) :
    afterKey (written ++ ' ' :: rest) = written ++ ' ' :: rest := by
  cases h with
  | bare h _ =>
      rw [afterKey, h.cutAtBlank?]
      simp only [hkey, Bool.false_eq_true, if_false]
  | quoted _ _ => exact afterKey_quote _

theorem Item.run_append (i : Item) (rest : Text) :
    i.run ++ rest = ' ' :: (Text.spaces i.gap ++ (i.written ++ rest)) := by
  rw [Item.run, Text.spaces, List.replicate_succ, List.cons_append, List.cons_append,
    List.append_assoc]
  rfl

theorem firstWord_solid {word rest : Text} (h : Text.Solid word) :
    firstWord (Text.trimStart (word ++ ' ' :: rest)) = (word, rest) := by
  rw [Text.trimStart_of_head h.head, firstWord, h.cutAtBlank?]
  rfl

namespace Listing

variable {l : Listing}

theorem names_eq (l : Listing) : l.names = ' ' :: (Text.spaces l.table.gap ++
    (l.table.written ++ (l.column :: l.columns).flatMap Item.run)) :=
  l.table.run_append _

theorem columns_eq (l : Listing) : ∃ rest, (l.column :: l.columns).flatMap Item.run = ' ' :: rest :=
  ⟨_, l.column.run_append _⟩

/-- Behind the keyword and the word `KEY`, all identifiers are left. -/
theorem Valid.exists_behind (h : l.Valid) :
    ∃ rest, firstWord (Text.trimStart l.text) = (l.keyword, rest) ∧
      Identifier.all (afterKey (Text.trimStart rest)) = l.items.map Item.text := by
  have hkeyword := (solid_keyword l.kind).of_same h.keyword
  have hall : Identifier.all l.names = l.items.map Item.text := all_runs h.items
  rw [names_eq, Identifier.all_space] at hall
  cases hkey : l.key with
  | none =>
      have htable := h.items l.table List.mem_cons_self
      refine ⟨Text.spaces l.table.gap ++
        (l.table.written ++ (l.column :: l.columns).flatMap Item.run), ?_, ?_⟩
      · simp only [text, hkey]
        rw [names_eq]
        exact firstWord_solid hkeyword
      · -- the spaces in front of the table are trimmed, and no word is left out
        obtain ⟨rest, hrest⟩ := l.columns_eq
        rw [Identifier.all_spaces] at hall
        rw [Text.trimStart_spaces (htable.head _), hrest, afterKey_table htable (h.table hkey),
          ← hrest]
        exact hall
  | some k =>
      obtain ⟨gap, word⟩ := k
      have hword := h.key (gap, word) hkey
      refine ⟨Text.spaces gap ++ (word ++ l.names), ?_, ?_⟩
      · simp only [text, hkey]
        exact firstWord_solid hkeyword
      · rw [Text.trimStart_spaces (solid_key.of_same hword).head, names_eq, afterKey_key hword]
        exact hall

/-- An entry is read as what its parts say. -/
theorem Valid.read_text (h : l.Valid) : Composite.read l.text = .ok l.composite := by
  obtain ⟨rest, hfirst, hall⟩ := h.exists_behind
  unfold Composite.read
  simp only [hfirst, ofKeyword?_same h.keyword, hall]
  rfl

end Listing

section Reading

variable {v : Value} {text : Text} {c : Composite} {filled : List Text}

theorem readEntries_unique (hv : v.text? = some text) (hread : read text = .ok c)
    (hkind : c.kind = .unique) (behind : List Value) :
    readEntries filled (v :: behind) = (readEntries filled behind).map (c :: ·) := by
  simp only [readEntries, hv, hread, bind, Except.bind, hkind, IndexKind.slots]
  cases readEntries filled behind <;> rfl

theorem readEntries_primary (hv : v.text? = some text) (hread : read text = .ok c)
    (hkind : c.kind = .primary) (behind : List Value) :
    readEntries filled (v :: behind) =
      if c.table ∈ filled then .error (.duplicateIndex c.table c.kind)
      else (readEntries (c.table :: filled) behind).map (c :: ·) := by
  simp only [readEntries, hv, hread, bind, Except.bind, hkind, IndexKind.slots,
    List.contains_iff_mem]
  by_cases hfilled : c.table ∈ filled
  · rw [if_pos hfilled, if_pos hfilled]
  · rw [if_neg hfilled, if_neg hfilled]
    cases readEntries (c.table :: filled) behind <;> rfl

/-- Reading goes on behind entries with the tables that these have given a primary key. -/
theorem readEntries_append {before : List Value} {composites : List Composite}
    (h : readEntries filled before = .ok composites) (behind : List Value) :
    readEntries filled (before ++ behind) =
      (readEntries ((primaryTables composites).reverse ++ filled) behind).map (composites ++ ·) := by
  induction before generalizing filled composites with
  | nil =>
      cases h
      change readEntries filled behind = (readEntries filled behind).map id
      exact (id_map (readEntries filled behind)).symm
  | cons v before ih =>
      obtain ⟨text, c, later, hv, hread, rfl, hkind⟩ := readEntries_cons_eq_ok.1 h
      rw [List.cons_append]
      rcases hkind with ⟨hkind, hlater⟩ | ⟨hkind, hfree, hlater⟩
      · rw [readEntries_unique hv hread hkind, ih hlater, primaryTables_cons_unique hkind]
        cases readEntries ((primaryTables later).reverse ++ filled) behind <;> rfl
      · rw [readEntries_primary hv hread hkind, if_neg hfree, ih hlater,
          primaryTables_cons_primary hkind, List.reverse_cons, List.append_assoc,
          List.singleton_append]
        cases readEntries ((primaryTables later).reverse ++ c.table :: filled) behind <;> rfl

/-- Where an entry is accepted, its index stands behind those of the entries before it, and reading
goes on with the entries behind it. -/
theorem readEntries_next {before : List Value} {composites : List Composite}
    (hbefore : readEntries [] before = .ok composites) (hv : v.text? = some text)
    (hread : read text = .ok c)
    (hfree : c.kind = .primary → (indexesOf c.table composites).primary = none) :
    ∃ filled, ∀ behind, readEntries [] (before ++ v :: behind) =
      (readEntries filled behind).map (composites ++ [c] ++ ·) := by
  cases hkind : c.kind with
  | unique =>
      refine ⟨(primaryTables composites).reverse ++ [], fun behind => ?_⟩
      rw [readEntries_append hbefore, readEntries_unique hv hread hkind]
      cases readEntries ((primaryTables composites).reverse ++ []) behind <;> simp [Except.map]
  | primary =>
      have hnew : c.table ∉ (primaryTables composites).reverse ++ [] := by
        rw [List.append_nil, List.mem_reverse, ← isSome_primary_indexesOf, hfree hkind]
        simp
      refine ⟨c.table :: ((primaryTables composites).reverse ++ []), fun behind => ?_⟩
      rw [readEntries_append hbefore, readEntries_primary hv hread hkind, if_neg hnew]
      cases readEntries (c.table :: ((primaryTables composites).reverse ++ [])) behind <;>
        simp [Except.map]

theorem readEntries_repeated {before : List Value} {composites : List Composite}
    (hbefore : readEntries [] before = .ok composites) (hv : v.text? = some text)
    (hread : read text = .ok c) (hkind : c.kind = .primary)
    (htaken : (indexesOf c.table composites).primary ≠ none) (behind : List Value) :
    readEntries [] (before ++ v :: behind) = .error (.duplicateIndex c.table .primary) := by
  have hmem : c.table ∈ (primaryTables composites).reverse ++ [] := by
    rw [List.append_nil, List.mem_reverse, ← isSome_primary_indexesOf, Option.isSome_iff_ne_none]
    exact htaken
  rw [readEntries_append hbefore, readEntries_primary hv hread hkind, if_pos hmem, hkind]
  rfl

end Reading

section Indexes

variable {c : Composite}

theorem indexesOf_append_other {name : Text} (h : name ≠ c.table) (composites : List Composite) :
    indexesOf name (composites ++ [c]) = indexesOf name composites := by
  have hother : (c.table == name) = false := beq_eq_false_iff_ne.2 h.symm
  simp [indexesOf, hother]

theorem indexesOf_append_unique (h : c.kind = .unique) (composites : List Composite) :
    indexesOf c.table (composites ++ [c]) =
      { indexesOf c.table composites with
        unique := (indexesOf c.table composites).unique ++ [c.columns] } := by
  simp [indexesOf, h]

theorem indexesOf_append_primary (h : c.kind = .primary) {composites : List Composite}
    (hnone : (indexesOf c.table composites).primary = none) :
    indexesOf c.table (composites ++ [c]) =
      { indexesOf c.table composites with primary := some c.columns } := by
  simp only [indexesOf] at hnone ⊢
  rw [Option.map_eq_none_iff] at hnone
  simp [h, hnone]

end Indexes

/-- What one more entry does to the indexes of all tables. The table that it names gets the columns
as its primary key, if it has none, or as one more unique key. -/
structure Adds (c : Composite) (before after : Text → IndexSet) : Prop where
  primary : c.kind = .primary → (before c.table).primary = none ∧
    after c.table = { before c.table with primary := some c.columns }
  unique : c.kind = .unique →
    after c.table = { before c.table with unique := (before c.table).unique ++ [c.columns] }
  others : ∀ name, name ≠ c.table → after name = before name

theorem adds_append {c : Composite} {composites : List Composite}
    (hfree : c.kind = .primary → (indexesOf c.table composites).primary = none) :
    c.Adds (fun name => indexesOf name composites)
      (fun name => indexesOf name (composites ++ [c])) := by
  constructor
  · exact fun hkind => ⟨hfree hkind, indexesOf_append_primary hkind (hfree hkind)⟩
  · exact fun hkind => indexesOf_append_unique hkind composites
  · exact fun name hname => indexesOf_append_other hname composites

/-- An entry adds the columns that it lists to the table that it names, and nothing to another one.
Only a second primary key for one table is refused. -/
theorem readSection_listing {l : Listing} (h : l.Valid) {v : Value} (hv : v.text? = some l.text)
    {before : List Value} {composites : List Composite}
    (hbefore : readSection (some (.sequence before)) = .ok composites) :
    ((l.kind = .primary → (indexesOf l.table.text composites).primary = none) →
        readSection (some (.sequence (before ++ [v]))) = .ok (composites ++ [l.composite]) ∧
          l.composite.Adds (fun name => indexesOf name composites)
            (fun name => indexesOf name (composites ++ [l.composite])) ∧
          ∀ behind all, readSection (some (.sequence (before ++ v :: behind))) = .ok all →
            composites ++ [l.composite] <+: all) ∧
      (l.kind = .primary → (indexesOf l.table.text composites).primary ≠ none →
        ∀ behind, readSection (some (.sequence (before ++ v :: behind))) =
          .error (.duplicateIndex l.table.text .primary)) := by
  constructor
  · intro hfree
    obtain ⟨filled, hnext⟩ := readEntries_next hbefore hv h.read_text hfree
    refine ⟨?_, adds_append hfree, ?_⟩
    · have hlast := hnext []
      rw [readEntries, Except.map, List.append_nil] at hlast
      exact hlast
    · intro behind all hall
      have hgo := (hnext behind).symm.trans hall
      cases hlater : readEntries filled behind with
      | error fault =>
          rw [hlater] at hgo
          cases hgo
      | ok later =>
          rw [hlater] at hgo
          cases hgo
          exact List.prefix_append _ _
  · intro hkind htaken behind
    exact readEntries_repeated hbefore hv h.read_text hkind htaken behind

/-- An entry without the word `KEY`, for a table whose name begins with that word. -/
def things : Listing :=
  { kind := .primary
    keyword := "pRiMaRy"
    key := none
    table := ⟨1, "\x60KEY \x60\x60of\x60\x60 things\x60", "KEY \x60\x60of\x60\x60 things"⟩
    column := ⟨0, "\x60a,  (b)\x60", "a,  (b)"⟩
    columns := [⟨2, "unique", "unique"⟩, ⟨0, "clé$1", "clé$1"⟩] }

def thingsEntry : Value :=
  .string "pRiMaRy  \x60KEY \x60\x60of\x60\x60 things\x60 \x60a,  (b)\x60   unique clé$1"

def entriesBefore : List Value :=
  [.string "UNIQUE KEY \x60KEY \x60\x60of\x60\x60 things\x60 unique", .string "PRIMARY KEY key id"]

def readBefore : List Composite :=
  [⟨.unique, "KEY \x60\x60of\x60\x60 things", ["unique"]⟩, ⟨.primary, "key", ["id"]⟩]

theorem things_valid : things.Valid where
  keyword := by decide
  key := by simp [things]
  items := by decide +kernel
  table := by decide

theorem readSection_listing_things :
    (things.Valid ∧ thingsEntry.text? = some things.text ∧
      readSection (some (.sequence entriesBefore)) = .ok readBefore ∧
        (things.kind = .primary → (indexesOf things.table.text readBefore).primary = none)) ∧
      readSection (some (.sequence (entriesBefore ++ [thingsEntry]))) =
        .ok (readBefore ++
          [⟨.primary, "KEY \x60\x60of\x60\x60 things", ["a,  (b)", "unique", "clé$1"]⟩]) ∧
        things.composite.Adds (fun name => indexesOf name readBefore)
          (fun name => indexesOf name (readBefore ++ [things.composite])) ∧
        ∀ behind all, readSection (some (.sequence (entriesBefore ++ thingsEntry :: behind))) = .ok all →
          readBefore ++ [things.composite] <+: all := by
  have hentry : thingsEntry.text? = some things.text := by decide +kernel
  have hbefore : readSection (some (.sequence entriesBefore)) = .ok readBefore := by decide +kernel
  have hfree : things.kind = .primary →
      (indexesOf things.table.text readBefore).primary = none := by decide +kernel
  exact ⟨⟨things_valid, hentry, hbefore, hfree⟩,
    (readSection_listing things_valid hentry hbefore).1 hfree⟩

end Document.Composite

end SchemaScript
