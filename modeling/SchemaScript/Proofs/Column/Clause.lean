/- Clauses as words: a rendered clause is its type, the attributes that rendering writes and the words of
   the trailing clause, with a space between neighbours. -/
import SchemaScript.Column.Spec

namespace SchemaScript

namespace Text

theorem join_cons_eq (t : Text) (ts : List Text) :
    join [' '] (t :: ts) = t ++ ts.flatMap (' ' :: ·) := by
  induction ts generalizing t with
  | nil => simp [join]
  | cons u ts ih => simp [join, ih]

/-- A joined text at the head of a list is joined like its parts. -/
theorem join_join_cons {ts : List Text} (hne : ts ≠ []) (us : List Text) :
    join [' '] (join [' '] ts :: us) = join [' '] (ts ++ us) := by
  obtain ⟨t, ts, rfl⟩ := List.exists_cons_of_ne_nil hne
  rw [join_cons_eq, join_cons_eq, List.cons_append, join_cons_eq, List.flatMap_append,
    List.append_assoc]

end Text

namespace Column

def Nullability.words : Nullability → List Text
  | .null => ["NULL"]
  | .notNull => ["NOT", "NULL"]

theorem Nullability.words_ne_nil (n : Nullability) : n.words ≠ [] := by
  cases n <;> exact List.cons_ne_nil _ _

/-- The words that are written behind a numeric type. -/
def signWords (numeric signed zerofill : Bool) : List Text :=
  if numeric then
    (if signed then [] else ["UNSIGNED".toList]) ++ (if zerofill then ["ZEROFILL".toList] else [])
  else []

namespace Spec

/-- The words that rendering writes between the type and the trailing clause. -/
def attributes (s : Spec) : List Text :=
  signWords s.numeric s.signed s.zerofill ++ (s.nullability.getD .notNull).words

theorem attributes_ne_nil (s : Spec) : s.attributes ≠ [] :=
  List.append_ne_nil_of_right_ne_nil _ (Nullability.words_ne_nil _)

/-- Attributes are four words and no others. -/
theorem mem_attributes {s : Spec} {w : Text} (h : w ∈ s.attributes) :
    w ∈ (["UNSIGNED", "ZEROFILL", "NULL", "NOT"] : List Text) := by
  have hall : ∀ w ∈ s.attributes, w ∈ (["UNSIGNED", "ZEROFILL", "NULL", "NOT"] : List Text) := by
    unfold attributes
    generalize s.numeric = numeric
    generalize s.signed = signed
    generalize s.zerofill = zerofill
    generalize s.nullability.getD .notNull = nullability
    cases numeric <;> cases signed <;> cases zerofill <;> cases nullability <;> decide
  exact hall w h

theorem clauses_eq_flatMap (s : Spec) :
    s.signClause ++ s.nullClause = s.attributes.flatMap (' ' :: ·) := by
  unfold signClause nullClause attributes
  generalize s.numeric = numeric
  generalize s.signed = signed
  generalize s.zerofill = zerofill
  generalize s.nullability.getD .notNull = nullability
  cases numeric <;> cases signed <;> cases zerofill <;> cases nullability <;> decide

end Spec

theorem Parts.trailingClause_spec (p : Parts) :
    p.spec.trailingClause = p.trailing.flatMap (' ' :: ·) := by
  unfold spec Spec.trailingClause
  cases p.trailing with
  | nil => rfl
  | cons t ts => simp [Text.join_cons_eq]

theorem Parts.render_eq_trim (p : Parts) :
    p.spec.render =
      Text.trim (Text.join [' '] (p.spec.dataType :: (p.spec.attributes ++ p.trailing))) := by
  rw [Spec.render, trailingClause_spec, List.append_assoc p.spec.dataType,
    Spec.clauses_eq_flatMap, List.append_assoc, ← List.flatMap_append, ← Text.join_cons_eq]

end Column

end SchemaScript
