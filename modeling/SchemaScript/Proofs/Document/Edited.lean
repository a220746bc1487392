/- Edited documents: one field of the root is given another value or left out, and the rest of the
   document is read as before. -/
import SchemaScript.Document.Text

namespace SchemaScript

namespace Value

/-- Does something to the entries of a mapping and keeps the tags around it. -/
def mapEntries (f : List (Value × Value) → List (Value × Value)) : Value → Value
  | .tagged tag v => .tagged tag (mapEntries f v)
  | .mapping entries => .mapping (f entries)
  | v => v

/-- Does something to the value of a field. A field that is missing stays so. -/
def updateField (name : Text) (f : Value → Value) (entries : List (Value × Value)) :
    List (Value × Value) :=
  entries.map fun entry => if entry.1.isString name then (entry.1, f entry.2) else entry

def eraseField (name : Text) (entries : List (Value × Value)) : List (Value × Value) :=
  entries.filter fun entry => !entry.1.isString name

variable {name other : Text} {f : Value → Value} {entries : List (Value × Value)}

theorem entries?_mapEntries (f : List (Value × Value) → List (Value × Value)) (v : Value) :
    (v.mapEntries f).entries? = v.entries?.map f := by
  fun_induction mapEntries f v with
  | case1 tag v ih => exact ih
  | case2 entries => rfl
  | case3 v htag hmapping =>
      cases v with
      | tagged tag v => exact absurd rfl (htag tag v)
      | mapping entries => exact absurd rfl (hmapping entries)
      | _ => rfl

theorem eq_of_isString {key : Value} (h : key.isString name = true)
    (ho : key.isString other = true) : name = other := by
  cases key with
  | string t => exact (beq_iff_eq.1 h).symm.trans (beq_iff_eq.1 ho)
  | _ => cases h

theorem field?_cons (entry : Value × Value) :
    field? name (entry :: entries) =
      if entry.1.isString name then some entry.2 else field? name entries := by
  unfold field?
  rw [List.find?_cons]
  cases entry.1.isString name <;> rfl

theorem field?_updateField : field? name (updateField name f entries) = (field? name entries).map f := by
  induction entries with
  | nil => rfl
  | cons entry rest ih =>
      unfold updateField at ih ⊢
      rw [List.map_cons, field?_cons, field?_cons, ih]
      cases h : entry.1.isString name <;> simp [h]

theorem field?_updateField_of_ne (hne : other ≠ name) :
    field? other (updateField name f entries) = field? other entries := by
  induction entries with
  | nil => rfl
  | cons entry rest ih =>
      unfold updateField at ih ⊢
      rw [List.map_cons, field?_cons, field?_cons, ih]
      cases h : entry.1.isString name with
      | false => simp
      | true =>
          have hother : entry.1.isString other = false :=
            Bool.eq_false_iff.2 fun ho => hne (eq_of_isString ho h)
          simp [hother]

theorem field?_eraseField : field? name (eraseField name entries) = none := by
  unfold field? eraseField
  rw [Option.map_eq_none_iff, List.find?_eq_none]
  intro entry hentry
  simpa using (List.mem_filter.1 hentry).2

theorem field?_eraseField_of_ne (hne : other ≠ name) :
    field? other (eraseField name entries) = field? other entries := by
  unfold field? eraseField
  rw [List.find?_filter]
  congr 2
  funext entry
  cases h : entry.1.isString other with
  | false => simp
  | true =>
      have hname : entry.1.isString name = false :=
        Bool.eq_false_iff.2 fun ho => hne (eq_of_isString h ho)
      simp [hname]

end Value

namespace Document

variable {root root' : List (Value × Value)}

theorem readDatabase_congr
    (h : Value.field? "database" root' = Value.field? "database" root) :
    readDatabase root' = readDatabase root := by
  simp only [readDatabase, h]

theorem sectionEntries_congr {s : Section}
    (h : Value.field? s.key root' = Value.field? s.key root) :
    sectionEntries s root' = sectionEntries s root := by
  simp only [sectionEntries, h]

theorem sectionEntries_eq_ok {s : Section} {entries : List (Value × Value)} :
    sectionEntries s root = .ok entries ↔
      Value.field? s.key root = some (.mapping entries) ∨
        entries = [] ∧ (Value.field? s.key root = none ∨ Value.field? s.key root = some .null) := by
  unfold sectionEntries
  cases Value.field? s.key root with
  | none => simp [eq_comm]
  | some v => cases v <;> simp [eq_comm]

/-- A section with other entries is read as those. One that is missing or null has none before and
none afterwards. -/
theorem sectionEntries_updateField {s : Section} {f : Value → Value}
    {entries entries' : List (Value × Value)} (h : sectionEntries s root = .ok entries)
    (hmapping : f (.mapping entries) = .mapping entries')
    (hempty : entries = [] → entries' = [] ∧ (f .null = .null ∨ f .null = .mapping [])) :
    sectionEntries s (Value.updateField s.key f root) = .ok entries' := by
  rw [sectionEntries_eq_ok] at h ⊢
  rw [Value.field?_updateField]
  rcases h with h | ⟨hnone, h⟩
  · rw [h, Option.map_some, hmapping]
    exact .inl rfl
  · obtain ⟨rfl, hnull⟩ := hempty hnone
    rcases h with h | h
    · rw [h]
      exact .inr ⟨rfl, .inl rfl⟩
    · rw [h, Option.map_some]
      rcases hnull with hnull | hnull
      · exact .inr ⟨rfl, .inr (congrArg some hnull)⟩
      · exact .inl (congrArg some hnull)

end Document
end SchemaScript
