/- A schema is read back from its JSON as it is, from one line or from several: what was left out for
   being empty is empty again. -/
import SchemaScript.Exchange.Options
import SchemaScript.Proofs.Json.RoundTrip
import SchemaScript.Schema.Json

namespace SchemaScript

namespace Json

section Members

variable (name other : Text)

@[simp]
theorem member?_nil : member? name [] = none := rfl

@[simp]
theorem member?_append (a b : List (Text × Json)) :
    member? name (a ++ b) = (member? name b).or (member? name a) := by
  simp [member?, List.find?_append, Option.map_or]

@[simp]
theorem member?_cons (m : Text × Json) (rest : List (Text × Json)) :
    member? name (m :: rest) = (member? name rest).or (if m.1 = name then some m.2 else none) := by
  rw [← List.singleton_append, member?_append]
  by_cases h : m.1 = name <;> simp [member?, h]

@[simp]
theorem member?_textMember (t : Option Text) :
    member? name (textMember other t) = if other = name then t.map .string else none := by
  cases t <;> simp [textMember]

@[simp]
theorem member?_memberUnless (absent : Bool) (v : Json) :
    member? name (memberUnless absent other v)
      = if other = name then (if absent then none else some v) else none := by
  cases absent <;> simp [memberUnless]

@[simp]
theorem occurrences_nil : occurrences name [] = 0 := rfl

@[simp]
theorem occurrences_append (a b : List (Text × Json)) :
    occurrences name (a ++ b) = occurrences name a + occurrences name b := List.countP_append

@[simp]
theorem occurrences_cons (m : Text × Json) (rest : List (Text × Json)) :
    occurrences name (m :: rest) = occurrences name rest + if m.1 = name then 1 else 0 := by
  simp [occurrences, List.countP_cons]

@[simp]
theorem occurrences_textMember (t : Option Text) :
    occurrences name (textMember other t) = if other = name then t.isSome.toNat else 0 := by
  cases t <;> simp [textMember]

@[simp]
theorem occurrences_memberUnless (absent : Bool) (v : Json) :
    occurrences name (memberUnless absent other v)
      = if other = name then (!absent).toNat else 0 := by
  cases absent <;> simp [memberUnless]

theorem of?_object {fields : List Text} {members : List (Text × Json)}
    (h : ∀ name ∈ fields, occurrences name members ≤ 1) :
    Record.of? fields (.object members) = some (.named members) := by
  have hfields : (fields.all fun name => occurrences name members ≤ 1) = true := by simpa using h
  rw [Record.of?, if_pos hfields]

end Members

section Fields

variable {α : Type} {name : Text} {members : List (Text × Json)} {read : Json → Option α} {v : Json}
  {x : α} (position : Nat)

theorem required_eq_some (hget : member? name members = some v) (hread : read v = some x) :
    (Record.named members).required position name read = some x := by
  rw [Record.required, Record.get?, hget, Option.bind_some, hread]

theorem required_text (t : Text) (hget : member? name members = some (.string t)) :
    (Record.named members).required position name string? = some t :=
  required_eq_some position hget rfl

/-- A field that is left out where it has the value that a missing one has. -/
theorem defaulted_eq_some {absent : Bool} {missing : α}
    (hget : member? name members = if absent then none else some v) (hread : read v = some x)
    (habsent : absent = true → x = missing) :
    (Record.named members).defaulted position name read missing = some x := by
  rw [Record.defaulted, Record.get?, hget]
  cases absent with
  | true =>
      rw [habsent rfl]
      rfl
  | false => exact hread

theorem nullable_eq_some {write : α → Json} (value : Option α)
    (hget : member? name members = value.map write) (hnull : ∀ x, write x ≠ .null)
    (hread : ∀ x, read (write x) = some x) :
    (Record.named members).nullable position name read = some value := by
  rw [Record.nullable, Record.get?, hget]
  cases value with
  | none => rfl
  | some x =>
      rw [Option.map_some]
      split
      · next h => exact absurd (Option.some.inj h) (hnull x)
      · next h =>
        cases h
        rw [hread]
        rfl
      · next h => cases h

theorem nullable_text (t : Option Text) (hget : member? name members = t.map .string) :
    (Record.named members).nullable position name string? = some t :=
  nullable_eq_some position t hget (fun _ h => by cases h) fun _ => rfl

theorem list?_array {write : α → Json} (hread : ∀ x, read (write x) = some x) (l : List α) :
    list? read (.array (l.map write)) = some l := by
  have hback : read ∘ write = fun x => pure (id x) := funext hread
  rw [list?, List.mapM_map, hback, List.mapM_pure, List.map_id]
  rfl

theorem list?_ofTexts (ts : List Text) : list? string? (ofTexts ts) = some ts := by
  have htext (t : Text) : string? (.string t) = some t := rfl
  exact list?_array htext ts

end Fields

section Depth

variable {depth : Nat} {v : Json}

theorem shallow_ofTexts (ts : List Text) : Shallow (depth + 1) (ofTexts ts) :=
  .array (List.forall_mem_map.2 fun t _ => .string depth t)

theorem shallow_textMember (name : Text) (t : Option Text) :
    ∀ m ∈ textMember name t, Shallow depth m.2 := by
  cases t with
  | none => exact List.forall_mem_nil _
  | some t => exact List.forall_mem_singleton.2 (.string depth t)

theorem shallow_memberUnless (h : Shallow depth v) (absent : Bool) (name : Text) :
    ∀ m ∈ memberUnless absent name v, Shallow depth m.2 := by
  cases absent with
  | true => exact List.forall_mem_nil _
  | false => exact List.forall_mem_singleton.2 h

theorem shallow_map {α : Type} {write : α → Json} (h : ∀ x, Shallow depth (write x)) (l : List α) :
    Shallow (depth + 1) (.array (l.map write)) :=
  .array (List.forall_mem_map.2 fun x _ => h x)

end Depth

end Json

open Json

theorem Metadata.eq_of_isEmpty {m : Metadata} (h : m.isEmpty = true) : m = {} := by
  cases m
  simp_all [Metadata.isEmpty]

theorem IndexSet.eq_of_isEmpty {s : IndexSet} (h : s.isEmpty = true) : s = {} := by
  cases s
  simp_all [IndexSet.isEmpty]

theorem Metadata.ofJson?_toJson (m : Metadata) : ofJson? m.toJson = some m := by
  rw [ofJson?, toJson, of?_object (by simp [fields, Bool.toNat_le]),
    Option.bind_eq_bind, Option.bind_some,
    nullable_text 0 m.project ?_, nullable_text 1 m.description ?_, nullable_text 2 m.version ?_,
    nullable_text 3 m.license ?_,
    defaulted_eq_some 4 ?_ (list?_ofTexts m.authors) List.isEmpty_iff.1]
  · rfl
  all_goals simp

theorem Source.ofJson?_name (s : Source) : ofJson? (.string s.name) = some s := by
  cases s
  rfl

theorem Database.ofJson?_toJson (d : Database) : ofJson? d.toJson = some d := by
  rw [ofJson?, toJson, of?_object (by simp [fields, Bool.toNat_le]),
    Option.bind_eq_bind, Option.bind_some,
    required_text 0 d.name ?_, required_eq_some 1 ?_ (Source.ofJson?_name d.source),
    required_text 2 d.charset ?_, required_text 3 d.collate ?_,
    defaulted_eq_some 4 ?_ d.metadata.ofJson?_toJson Metadata.eq_of_isEmpty]
  · rfl
  all_goals simp

theorem Column.ofJson?_toJson (c : Column) : ofJson? c.toJson = some c := rfl

theorem IndexSet.ofJson?_toJson (s : IndexSet) : ofJson? s.toJson = some s := by
  have hprimary (columns : List Text) : ofTexts columns ≠ .null := nofun
  rw [ofJson?, toJson, of?_object (by cases s.primary <;> simp [fields, Bool.toNat_le]),
    Option.bind_eq_bind, Option.bind_some,
    nullable_eq_some 0 s.primary ?_ hprimary list?_ofTexts,
    defaulted_eq_some 1 ?_ (list?_array list?_ofTexts s.unique) List.isEmpty_iff.1]
  · rfl
  all_goals cases s.primary <;> simp

/-- An empty primary key is written, and so it is not taken for none. -/
example : IndexSet.ofJson? (IndexSet.toJson { primary := some [] }) = some { primary := some [] } := by
  decide

theorem Reference.ofJson?_toJson (r : Reference) : ofJson? r.toJson = some r := rfl

theorem ForeignKey.ofJson?_toJson (k : ForeignKey) : ofJson? k.toJson = some k := rfl

theorem Table.ofJson?_toJson (t : Table) : ofJson? t.toJson = some t := by
  rw [ofJson?, toJson, of?_object (by simp [fields, Bool.toNat_le]),
    Option.bind_eq_bind, Option.bind_some,
    required_text 0 t.name ?_,
    required_eq_some 1 ?_ (list?_array Column.ofJson?_toJson t.columns),
    defaulted_eq_some 2 ?_ t.indexes.ofJson?_toJson IndexSet.eq_of_isEmpty,
    defaulted_eq_some 3 ?_ (list?_array ForeignKey.ofJson?_toJson t.foreignKeys) List.isEmpty_iff.1,
    nullable_text 4 t.autoIncrement ?_]
  · rfl
  all_goals simp

theorem Schema.ofJson?_toJson (s : Schema) : ofJson? s.toJson = some s := by
  rw [ofJson?, toJson, of?_object (by simp [fields]),
    Option.bind_eq_bind, Option.bind_some,
    required_eq_some 0 ?_ s.database.ofJson?_toJson,
    required_eq_some 1 ?_ (list?_array Table.ofJson?_toJson s.tables)]
  · rfl
  all_goals simp

theorem Metadata.shallow_toJson (m : Metadata) : Shallow 2 m.toJson := by
  refine .object ?_
  simp only [List.forall_mem_append]
  exact ⟨⟨⟨⟨shallow_textMember _ _, shallow_textMember _ _⟩, shallow_textMember _ _⟩,
    shallow_textMember _ _⟩, shallow_memberUnless (shallow_ofTexts m.authors) _ _⟩

theorem Database.shallow_toJson (d : Database) : Shallow 3 d.toJson := by
  refine .object ?_
  simp only [List.forall_mem_append, List.forall_mem_cons]
  exact ⟨⟨.string _ _, .string _ _, .string _ _, .string _ _, List.forall_mem_nil _⟩,
    shallow_memberUnless d.metadata.shallow_toJson _ _⟩

theorem Column.shallow_toJson (c : Column) : Shallow 1 c.toJson := by
  refine .object ?_
  simp only [List.forall_mem_cons]
  exact ⟨.string _ _, .string _ _, List.forall_mem_nil _⟩

theorem IndexSet.shallow_toJson (s : IndexSet) : Shallow 3 s.toJson := by
  refine .object (List.forall_mem_append.2 ⟨?_, ?_⟩)
  · cases s.primary with
    | none => exact List.forall_mem_nil _
    | some columns => exact List.forall_mem_singleton.2 (shallow_ofTexts columns)
  · exact shallow_memberUnless (shallow_map shallow_ofTexts s.unique) _ _

theorem ForeignKey.shallow_toJson (k : ForeignKey) : Shallow 2 k.toJson := by
  have hreferences : Shallow 1 k.references.toJson := by
    refine .object ?_
    simp only [List.forall_mem_cons]
    exact ⟨.string _ _, .string _ _, List.forall_mem_nil _⟩
  refine .object ?_
  simp only [List.forall_mem_cons]
  exact ⟨.string _ _, hreferences, List.forall_mem_nil _⟩

theorem Table.shallow_toJson (t : Table) : Shallow 4 t.toJson := by
  have hcolumns (c : Column) : Shallow 2 c.toJson := c.shallow_toJson.mono (by decide)
  refine .object ?_
  simp only [List.forall_mem_append, List.forall_mem_cons]
  exact ⟨⟨⟨⟨.string _ _, shallow_map hcolumns t.columns, List.forall_mem_nil _⟩,
    shallow_memberUnless t.indexes.shallow_toJson _ _⟩,
    shallow_memberUnless (shallow_map ForeignKey.shallow_toJson t.foreignKeys) _ _⟩,
    shallow_textMember _ _⟩

theorem Schema.shallow_toJson (s : Schema) : Shallow 6 s.toJson := by
  refine .object ?_
  simp only [List.forall_mem_cons]
  exact ⟨s.database.shallow_toJson.mono (by decide), shallow_map Table.shallow_toJson s.tables,
    List.forall_mem_nil _⟩

/-- The schema in a text of strict JSON. -/
def Schema.ofJsonText? (t : Text) : Option Schema :=
  (Json.read? Exchange.Options.depthLimit t).bind ofJson?

/-- No part of a schema is lost in JSON: its text in one line and its text over several lines, with
and without the newline behind the last, are read back as the schema. -/
theorem Schema.ofJsonText?_toJson (s : Schema) :
    ofJsonText? s.toJson.compact = some s ∧
      ofJsonText? s.toJson.pretty = some s ∧
        ofJsonText? (s.toJson.pretty ++ ['\n']) = some s := by
  have hshallow : Shallow Exchange.Options.depthLimit s.toJson := s.shallow_toJson.mono (by decide)
  have hread {t gap : Text} (h : Json.read? Exchange.Options.depthLimit (t ++ gap) = some s.toJson) :
      ofJsonText? (t ++ gap) = some s := by
    rw [ofJsonText?, h, Option.bind_some, s.ofJson?_toJson]
  refine ⟨?_, ?_, hread (read?_pretty hshallow (isGap_newline 0))⟩
  · rw [← List.append_nil s.toJson.compact]
    exact hread (read?_compact hshallow isGap_nil)
  · rw [← List.append_nil s.toJson.pretty]
    exact hread (read?_pretty hshallow isGap_nil)

end SchemaScript
