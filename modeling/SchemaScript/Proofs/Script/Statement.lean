/- Statements: the block of a statement determines everything that the statement was made from. -/
import SchemaScript.Proofs.Text.Lines
import SchemaScript.Script.Statement

namespace SchemaScript

/-- An identifier without the closing quote ends where its quotes do. -/
theorem Dialect.quote_append_inj {d : Dialect} {a b x y : Text} (ha : d.closing ∉ a)
    (hb : d.closing ∉ b) (h : d.quote a ++ x = d.quote b ++ y) : a = b ∧ x = y := by
  refine append_mark_inj ha hb ?_
  simpa only [Dialect.quote, List.cons_append, List.append_assoc, List.nil_append,
    List.cons.injEq, true_and] using h

theorem Dialect.quote_inj {d : Dialect} {a b : Text} (h : d.quote a = d.quote b) : a = b := by
  simpa only [Dialect.quote, List.cons_append, List.cons.injEq, true_and,
    List.append_cancel_right_eq] using h

/-- Where one function tells apart what another does, equal images under the one are equal under
the other. -/
theorem map_eq_of_map_eq {α β γ : Type*} {f : α → β} {g : α → γ} {xs ys : List α}
    (hf : ∀ x ∈ xs, ∀ y ∈ ys, f x = f y → g x = g y) (h : xs.map f = ys.map f) :
    xs.map g = ys.map g := by
  induction xs generalizing ys with
  | nil => rw [List.map_eq_nil_iff.1 h.symm]
  | cons x xs ih =>
      cases ys with
      | nil => cases h
      | cons y ys =>
          obtain ⟨hhead, htail⟩ := List.cons.inj h
          have hxy := hf x List.mem_cons_self y List.mem_cons_self hhead
          have hrest := ih (fun a ha b hb => hf a (List.mem_cons_of_mem _ ha) b
            (List.mem_cons_of_mem _ hb)) htail
          rw [List.map_cons, List.map_cons, hxy, hrest]

theorem map_inj_on {α β : Type*} {f : α → β} {xs ys : List α}
    (hf : ∀ x ∈ xs, ∀ y ∈ ys, f x = f y → x = y) (h : xs.map f = ys.map f) : xs = ys := by
  simpa only [List.map_id] using map_eq_of_map_eq (g := id) hf h

/-- The names that stand between quotes in the line of a foreign key. -/
def ForeignKey.identifiers (k : ForeignKey) : List Text :=
  [k.column, k.references.table, k.references.column]

/-- The names that stand between quotes in the statements of a table. -/
def Table.identifiers (t : Table) : List Text :=
  t.name :: t.columns.map (·.name) ++ t.indexes.primary.toList.flatten ++ t.indexes.unique.flatten
    ++ t.foreignKeys.flatMap (·.identifiers)

namespace Table
variable {t : Table}

theorem mem_identifiers_name (t : Table) : t.name ∈ t.identifiers := by
  simp [identifiers]

theorem mem_identifiers_column {c : Column} (hc : c ∈ t.columns) : c.name ∈ t.identifiers := by
  simp only [identifiers, List.mem_append, List.mem_cons, List.mem_map]
  exact .inl (.inl (.inl (.inr ⟨c, hc, rfl⟩)))

theorem mem_identifiers_primary {columns : List Text} (hp : t.indexes.primary = some columns)
    {n : Text} (hn : n ∈ columns) : n ∈ t.identifiers := by
  simp only [identifiers, List.mem_append, List.mem_flatten]
  exact .inl (.inl (.inr ⟨columns, by simp [hp], hn⟩))

theorem mem_identifiers_unique {columns : List Text} (hu : columns ∈ t.indexes.unique)
    {n : Text} (hn : n ∈ columns) : n ∈ t.identifiers := by
  simp only [identifiers, List.mem_append, List.mem_flatten]
  exact .inl (.inr ⟨columns, hu, hn⟩)

theorem mem_identifiers_foreignKey {k : ForeignKey} (hk : k ∈ t.foreignKeys) {n : Text}
    (hn : n ∈ k.identifiers) : n ∈ t.identifiers := by
  simp only [identifiers, List.mem_append, List.mem_flatMap]
  exact .inr ⟨k, hk, hn⟩

end Table

/-- The column that counts up by itself is one of the columns. -/
def Table.CountsOwn (t : Table) : Prop :=
  ∀ name ∈ t.autoIncrement, name ∈ t.columns.map (·.name)

instance (t : Table) : Decidable t.CountsOwn :=
  inferInstanceAs (Decidable (∀ name ∈ t.autoIncrement, name ∈ t.columns.map (·.name)))

namespace Script

theorem length_endLines (last others : Text) (b : Block) :
    (endLines last others b).length = b.length := by
  fun_induction endLines last others b with
  | case1 => rfl
  | case2 => rfl
  | case3 line next rest ih => exact congrArg Nat.succ ih

theorem endLines_inj {last others : Text} {b b' : Block}
    (h : endLines last others b = endLines last others b') : b = b' := by
  have hlength := congrArg List.length h
  simp only [length_endLines] at hlength
  induction b generalizing b' with
  | nil => exact (List.eq_nil_of_length_eq_zero hlength.symm).symm
  | cons line rest ih =>
      cases b' with
      | nil => cases hlength
      | cons line' rest' =>
          cases rest with
          | nil =>
              cases rest' with
              | nil => simpa [endLines] using h
              | cons next' rest' => simp at hlength
          | cons next rest =>
              cases rest' with
              | nil => simp at hlength
              | cons next' rest' =>
                  simp only [endLines, List.cons.injEq, List.append_cancel_right_eq] at h
                  rw [h.1, ih h.2 (Nat.succ.inj hlength)]

namespace Style

variable {s : Style}

theorem columnLine_inj {c c' : Column} (hc : s.dialect.closing ∉ c.name)
    (hc' : s.dialect.closing ∉ c'.name) (h : s.columnLine c = s.columnLine c') : c = c' := by
  simp only [columnLine, List.append_assoc, List.append_cancel_left_eq] at h
  obtain ⟨hname, hrest⟩ := Dialect.quote_append_inj hc hc' h
  cases c
  cases c'
  simp_all

theorem columnTail_inj {xs ys : List Text} (hx : ∀ x ∈ xs, s.dialect.closing ∉ x)
    (hy : ∀ y ∈ ys, s.dialect.closing ∉ y)
    (h : xs.flatMap (fun x => [',', ' '] ++ s.dialect.quote x) =
      ys.flatMap fun y => [',', ' '] ++ s.dialect.quote y) : xs = ys := by
  induction xs generalizing ys with
  | nil =>
      cases ys with
      | nil => rfl
      | cons y ys => cases h
  | cons x xs ih =>
      cases ys with
      | nil => cases h
      | cons y ys =>
          simp only [List.flatMap_cons, List.append_assoc, List.append_cancel_left_eq] at h
          obtain ⟨rfl, tails⟩ := Dialect.quote_append_inj (hx x List.mem_cons_self)
            (hy y List.mem_cons_self) h
          have hrest := ih (fun a ha => hx a (List.mem_cons_of_mem _ ha))
            (fun a ha => hy a (List.mem_cons_of_mem _ ha)) tails
          rw [hrest]

theorem columnList_cons (x : Text) (xs : List Text) :
    s.columnList (x :: xs) =
      s.dialect.quote x ++ xs.flatMap fun y => [',', ' '] ++ s.dialect.quote y := by
  induction xs generalizing x with
  | nil => simp [columnList, Text.join]
  | cons y ys ih =>
      have hy := ih y
      simp only [columnList, List.map_cons, Text.join] at hy ⊢
      rw [hy, List.flatMap_cons, List.append_assoc, List.append_assoc]

theorem columnList_inj {xs ys : List Text} (hx : ∀ x ∈ xs, s.dialect.closing ∉ x)
    (hy : ∀ y ∈ ys, s.dialect.closing ∉ y) (h : s.columnList xs = s.columnList ys) : xs = ys := by
  cases xs with
  | nil =>
      cases ys with
      | nil => rfl
      | cons y ys =>
          rw [columnList_cons] at h
          cases h
  | cons x xs =>
      cases ys with
      | nil =>
          rw [columnList_cons] at h
          cases h
      | cons y ys =>
          rw [columnList_cons, columnList_cons] at h
          obtain ⟨rfl, tails⟩ := Dialect.quote_append_inj (hx x List.mem_cons_self)
            (hy y List.mem_cons_self) h
          rw [columnTail_inj (fun a ha => hx a (List.mem_cons_of_mem _ ha))
            (fun a ha => hy a (List.mem_cons_of_mem _ ha)) tails]

theorem primaryLine_inj {xs ys : List Text} (hx : ∀ x ∈ xs, s.dialect.closing ∉ x)
    (hy : ∀ y ∈ ys, s.dialect.closing ∉ y) (h : s.primaryLine xs = s.primaryLine ys) : xs = ys := by
  simp only [primaryLine, List.append_cancel_left_eq, List.append_cancel_right_eq] at h
  exact columnList_inj hx hy h

theorem uniqueLine_inj {xs ys : List Text} (hx : ∀ x ∈ xs, s.dialect.closing ∉ x)
    (hy : ∀ y ∈ ys, s.dialect.closing ∉ y) (h : s.uniqueLine xs = s.uniqueLine ys) : xs = ys := by
  simp only [uniqueLine, List.append_cancel_left_eq, List.append_cancel_right_eq] at h
  exact columnList_inj hx hy h

theorem primaryLine_ne_uniqueLine (xs ys : List Text) : s.primaryLine xs ≠ s.uniqueLine ys := by
  intro h
  simp [primaryLine, uniqueLine] at h

theorem foreignKeyLine_inj {k k' : ForeignKey} (hk : ∀ n ∈ k.identifiers, s.dialect.closing ∉ n)
    (hk' : ∀ n ∈ k'.identifiers, s.dialect.closing ∉ n)
    (h : s.foreignKeyLine k = s.foreignKeyLine k') : k = k' := by
  obtain ⟨column, table, reference⟩ := k
  obtain ⟨column', table', reference'⟩ := k'
  simp only [ForeignKey.identifiers, List.mem_cons, List.not_mem_nil, or_false,
    forall_eq_or_imp, forall_eq] at hk hk'
  simp only [foreignKeyLine, List.append_assoc, List.append_cancel_left_eq] at h
  obtain ⟨rfl, afterColumn⟩ := Dialect.quote_append_inj hk.1 hk'.1 h
  obtain ⟨rfl, afterTable⟩ :=
    Dialect.quote_append_inj hk.2.1 hk'.2.1 (List.append_cancel_left afterColumn)
  obtain ⟨rfl, -⟩ := Dialect.quote_append_inj hk.2.2 hk'.2.2 (List.append_cancel_left afterTable)
  rfl

theorem countingLine_inj {c c' : Column} (hc : s.dialect.closing ∉ c.name)
    (hc' : s.dialect.closing ∉ c'.name) (h : s.countingLine c = s.countingLine c') :
    c.name = c'.name := by
  simp only [countingLine, List.append_assoc, List.append_cancel_left_eq] at h
  exact (Dialect.quote_append_inj hc hc' h).1

/-- The names of a table can stand between the quotes of a style. -/
def Quotes (s : Style) (t : Table) : Prop := ∀ n ∈ t.identifiers, s.dialect.closing ∉ n

section
variable {t u : Table}

theorem Quotes.columns (h : s.Quotes t) {c : Column} (hc : c ∈ t.columns) :
    s.dialect.closing ∉ c.name := h _ (Table.mem_identifiers_column hc)

theorem Quotes.primary (h : s.Quotes t) {columns : List Text}
    (hp : t.indexes.primary = some columns) {n : Text} (hn : n ∈ columns) :
    s.dialect.closing ∉ n := h _ (Table.mem_identifiers_primary hp hn)

theorem Quotes.unique (h : s.Quotes t) {columns : List Text} (hu : columns ∈ t.indexes.unique)
    {n : Text} (hn : n ∈ columns) : s.dialect.closing ∉ n := h _ (Table.mem_identifiers_unique hu hn)

theorem Quotes.foreignKeys (h : s.Quotes t) {k : ForeignKey} (hk : k ∈ t.foreignKeys)
    {n : Text} (hn : n ∈ k.identifiers) : s.dialect.closing ∉ n :=
  h _ (Table.mem_identifiers_foreignKey hk hn)

theorem createTable_inj {charset : Text} (ht : s.Quotes t) (hu : s.Quotes u)
    (h : s.createTable charset t = s.createTable charset u) :
    t.name = u.name ∧ t.columns = u.columns := by
  simp only [createTable, List.append_cancel_right_eq, List.cons.injEq, List.append_assoc,
    List.append_cancel_left_eq] at h
  obtain ⟨hname, hlines⟩ := h
  exact ⟨Dialect.quote_inj hname,
    map_inj_on (fun c hc c' hc' => columnLine_inj (ht.columns hc) (hu.columns hc'))
      (endLines_inj hlines)⟩

theorem alterTable_inj {changes changes' : Block}
    (h : s.alterTable t changes = s.alterTable u changes') :
    t.name = u.name ∧ changes = changes' := by
  simp only [alterTable, List.cons.injEq, List.append_cancel_left_eq] at h
  exact ⟨Dialect.quote_inj h.1, endLines_inj h.2⟩

theorem uniqueLines_inj (ht : s.Quotes t) (hu : s.Quotes u)
    (h : t.indexes.unique.map s.uniqueLine = u.indexes.unique.map s.uniqueLine) :
    t.indexes.unique = u.indexes.unique :=
  map_inj_on (fun _ hx _ hy => uniqueLine_inj (fun _ hn => ht.unique hx hn)
    (fun _ hn => hu.unique hy hn)) h

theorem primaryLine_not_mem (columns : List Text) (uniques : List (List Text)) :
    s.primaryLine columns ∉ uniques.map s.uniqueLine := by
  intro h
  obtain ⟨columns', _, he⟩ := List.mem_map.1 h
  exact primaryLine_ne_uniqueLine columns columns' he.symm

/-- The line of a primary key, if there is one, is the first of the lines for indexes. -/
theorem indexLines_inj (ht : s.Quotes t) (hu : s.Quotes u)
    (h : t.indexes.primary.toList.map s.primaryLine ++ t.indexes.unique.map s.uniqueLine =
      u.indexes.primary.toList.map s.primaryLine ++ u.indexes.unique.map s.uniqueLine) :
    t.indexes = u.indexes := by
  have hprimary : t.indexes.primary = u.indexes.primary := by
    cases hp : t.indexes.primary with
    | none =>
        cases hp' : u.indexes.primary with
        | none => rfl
        | some columns' =>
            simp only [hp, hp', Option.toList, List.map_nil, List.nil_append, List.map_cons,
              List.cons_append] at h
            refine absurd ?_ (primaryLine_not_mem (s := s) columns' t.indexes.unique)
            rw [h]
            exact List.mem_cons_self
    | some columns =>
        cases hp' : u.indexes.primary with
        | none =>
            simp only [hp, hp', Option.toList, List.map_nil, List.nil_append, List.map_cons,
              List.cons_append] at h
            refine absurd ?_ (primaryLine_not_mem (s := s) columns u.indexes.unique)
            rw [← h]
            exact List.mem_cons_self
        | some columns' =>
            rw [hp, hp'] at h
            have hline := primaryLine_inj (fun _ hn => ht.primary hp hn)
              (fun _ hn => hu.primary hp' hn) (List.cons.inj h).1
            rw [hline]
  have hunique : t.indexes.unique = u.indexes.unique := by
    rw [hprimary] at h
    exact uniqueLines_inj ht hu (List.append_cancel_left h)
  calc t.indexes = ⟨t.indexes.primary, t.indexes.unique⟩ := rfl
    _ = ⟨u.indexes.primary, u.indexes.unique⟩ := by rw [hprimary, hunique]

/-- A table has no statement for its indexes only if it has no indexes. -/
theorem addIndexes?_inj (ht : s.Quotes t) (hu : s.Quotes u)
    (h : s.addIndexes? t = s.addIndexes? u) : t.indexes = u.indexes := by
  have hempty {i : IndexSet} (hi : i.isEmpty = true) : i = {} := by
    obtain ⟨primary, unique⟩ := i
    simp only [IndexSet.isEmpty, Bool.and_eq_true, Option.isNone_iff_eq_none,
      List.isEmpty_iff] at hi
    rw [hi.1, hi.2]
  unfold addIndexes? at h
  split at h <;> split at h
  · next ht' hu' => rw [hempty ht', hempty hu']
  · cases h
  · cases h
  · exact indexLines_inj ht hu (alterTable_inj (Option.some.inj h)).2

theorem addForeignKeys?_inj (ht : s.Quotes t) (hu : s.Quotes u)
    (h : s.addForeignKeys? t = s.addForeignKeys? u) : t.foreignKeys = u.foreignKeys := by
  unfold addForeignKeys? at h
  split at h <;> split at h
  · next ht' hu' => rw [List.isEmpty_iff.1 ht', List.isEmpty_iff.1 hu']
  · cases h
  · cases h
  · exact map_inj_on (fun _ hk _ hk' => foreignKeyLine_inj (fun _ hn => ht.foreignKeys hk hn)
      (fun _ hn => hu.foreignKeys hk' hn)) (alterTable_inj (Option.some.inj h)).2

theorem column?_eq_some {name : Text} {c : Column} (h : t.column? name = some c) :
    c ∈ t.columns ∧ c.name = name := by
  refine ⟨List.mem_of_find?_eq_some h, ?_⟩
  simpa only [beq_iff_eq] using List.find?_some h

theorem exists_column? {name : Text} (h : name ∈ t.columns.map (·.name)) :
    ∃ c, t.column? name = some c := by
  obtain ⟨c, hc, hname⟩ := List.mem_map.1 h
  refine Option.isSome_iff_exists.1 (List.find?_isSome.2 ⟨c, hc, ?_⟩)
  simpa only [beq_iff_eq] using hname

/-- Where the column that counts up by itself is a column, its statement tells which it is. -/
theorem addAutoIncrement?_inj (ht : s.Quotes t) (hu : s.Quotes u) (htc : t.CountsOwn)
    (huc : u.CountsOwn) (h : s.addAutoIncrement? t = s.addAutoIncrement? u) :
    t.autoIncrement = u.autoIncrement := by
  cases hn : t.autoIncrement with
  | none =>
      cases hn' : u.autoIncrement with
      | none => rfl
      | some name' =>
          obtain ⟨c', hc'⟩ := exists_column? (huc name' hn')
          simp only [addAutoIncrement?, hn, hn', Option.bind_none, Option.bind_some, hc'] at h
          cases h
  | some name =>
      obtain ⟨c, hc⟩ := exists_column? (htc name hn)
      cases hn' : u.autoIncrement with
      | none =>
          simp only [addAutoIncrement?, hn, hn', Option.bind_none, Option.bind_some, hc] at h
          cases h
      | some name' =>
          obtain ⟨c', hc'⟩ := exists_column? (huc name' hn')
          simp only [addAutoIncrement?, hn, hn', Option.bind_some, hc, hc', Option.map_some,
            Option.some.injEq] at h
          obtain ⟨hmem, rfl⟩ := column?_eq_some hc
          obtain ⟨hmem', rfl⟩ := column?_eq_some hc'
          have hline := List.head_eq_of_cons_eq (alterTable_inj h).2
          rw [countingLine_inj (ht.columns hmem) (hu.columns hmem') hline]

end
end Style
end Script
end SchemaScript
