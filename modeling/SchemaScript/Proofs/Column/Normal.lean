/- Rendered clauses are a normal form: their tokens are those of the type, the attributes that rendering
   writes, and those of the trailing clause, and they are read as what they say. Only a word NOT that is
   left at the end of a type is read with the NULL that rendering writes behind it. -/
import SchemaScript.Proofs.Column.Clause
import SchemaScript.Proofs.Column.Sorting
import SchemaScript.Proofs.Column.Whole

namespace SchemaScript.Column

theorem Spec.whole_of_mem_attributes {s : Spec} : ∀ w ∈ s.attributes, Whole w := by
  have hwords : ∀ w ∈ (["UNSIGNED", "ZEROFILL", "NULL", "NOT"] : List Text),
      w ≠ [] ∧ pieces .start w = (w, []) ∧ (Place.start.afterText w).IsOuter := by decide
  intro w hw
  obtain ⟨hne, hsingle, houter⟩ := hwords w (Spec.mem_attributes hw)
  exact ⟨hne, hsingle, houter⟩

/-- The sign words are written once each, where they are written. -/
theorem Spec.countP_attributes {s : Spec} (hsigned : s.signed = false) :
    (s.attributes.countP fun w => decide (role w = .unsigned)) = s.numeric.toNat ∧
      (s.attributes.countP fun w => decide (role w = .zerofill)) = (s.numeric && s.zerofill).toNat := by
  unfold attributes
  rw [hsigned]
  generalize s.numeric = numeric
  generalize s.zerofill = zerofill
  generalize s.nullability.getD .notNull = nullability
  cases numeric <;> cases zerofill <;> cases nullability <;> decide

/-- The clause of an unsigned specification is its words, joined by spaces. -/
theorem Parts.render_eq_join {p : Parts} (hsigned : p.spec.signed = false)
    (h : ∀ w ∈ p.body ++ p.spec.attributes ++ p.trailing, Whole w) :
    p.spec.render = Text.join [' '] (p.body ++ p.spec.attributes ++ p.trailing) := by
  have hjoin := trimmed_join (by simp [p.spec.attributes_ne_nil]) h
  rw [render_eq_trim, (p.dataType_of_plain hsigned).1]
  rw [List.append_assoc] at hjoin ⊢
  have hrest : p.spec.attributes ++ p.trailing ≠ [] :=
    List.append_ne_nil_of_left_ne_nil p.spec.attributes_ne_nil _
  generalize p.spec.attributes ++ p.trailing = ws at hjoin hrest ⊢
  cases hbody : p.body with
  | nil =>
      -- The space in front of the first attribute is trimmed.
      obtain ⟨w, ws, rfl⟩ := List.exists_cons_of_ne_nil hrest
      rw [hbody, List.nil_append] at hjoin
      exact hjoin.trim_eq
  | cons w body =>
      rw [hbody] at hjoin
      rw [Text.join_join_cons (List.cons_ne_nil w body)]
      exact hjoin.trim_eq

/-- Words that are kept in a type: none is a marker, a `NULL` or an opening word. -/
def TypeWords (ws : List Text) : Prop :=
  ∀ w ∈ ws, role w = .key ∨ role w = .other ∨ role w = .not

/-- Words that are kept in a trailing clause, which the first of them opens. -/
structure ClauseWords (ws : List Text) : Prop where
  kept : ∀ w ∈ ws, (role w).isMarker = false
  opening : ∀ w ∈ ws.head?, role w = .opening

theorem sorts_kept {ws : List Text} (h : ∀ w ∈ ws, (role w).isMarker = false) :
    Sorts true ws { trailing := ws } := by
  induction ws with
  | nil => exact .nil
  | cons w ws ih =>
      obtain ⟨hw, hws⟩ := List.forall_mem_cons.1 h
      exact .trailing hw (.inl rfl) (ih hws)

/-- A trailing clause is read as it is. -/
theorem ClauseWords.sorts {ws : List Text} (h : ClauseWords ws) : Sorts false ws { trailing := ws } := by
  cases ws with
  | nil => exact .nil
  | cons w ws =>
      obtain ⟨hw, hws⟩ := List.forall_mem_cons.1 h.kept
      exact .trailing hw (.inr (h.opening w rfl)) (sorts_kept hws)

/-- The words of a type are read as they are, unless the last of them is a `NOT` in front of a `NULL`. -/
theorem TypeWords.sorts {ws rest : List Text} {p : Parts} (h : TypeWords ws)
    (hlast : ∀ w ∈ ws.getLast?, role w = .not → ∀ next ∈ rest.head?, role next ≠ .null)
    (hrest : Sorts false rest p) : Sorts false (ws ++ rest) { p with body := ws ++ p.body } := by
  induction ws with
  | nil => exact hrest
  | cons w ws ih =>
      obtain ⟨hw, hws⟩ := List.forall_mem_cons.1 h
      have hlater : Sorts false (ws ++ rest) { p with body := ws ++ p.body } := by
        refine ih hws fun v hv => hlast v ?_
        rw [List.getLast?_cons, Option.mem_def.1 hv]
        rfl
      refine .body ?_ hlater
      rcases hw with hw | hw | hw
      · exact .inl hw
      · exact .inr (.inl hw)
      · refine .inr (.inr ⟨hw, ?_⟩)
        cases ws with
        | nil => exact hlast w rfl hw
        | cons v ws =>
            rintro _ ⟨⟩
            rcases hws v List.mem_cons_self with hv | hv | hv <;> simp [hv]

theorem signWords_and (numeric signed zerofill : Bool) :
    signWords numeric signed (numeric && zerofill) = signWords numeric signed zerofill := by
  cases numeric <;> rfl

/-- The attributes are read as what they say. -/
theorem sorts_attributes {numeric zerofill : Bool} {n : Nullability} {ws : List Text}
    (h : ClauseWords ws) :
    Sorts false (signWords numeric false zerofill ++ n.words ++ ws)
      { trailing := ws, zerofill := numeric && zerofill, nullability := some n } := by
  have hnull : Sorts false (n.words ++ ws) { trailing := ws, nullability := some n } := by
    cases n with
    | null => exact .null (by decide) h.sorts
    | notNull => exact .notNull (by decide) (by decide) h.sorts
  unfold signWords
  rw [List.append_assoc]
  cases numeric with
  | false => exact hnull
  | true =>
      refine .unsigned (by decide) ?_
      cases zerofill with
      | false => exact hnull
      | true => exact .zerofill (by decide) hnull

/-- A type of a column without a number ends with a word NOT that is not in capitals, and the column
was said to hold null. -/
structure StrayNot (s : Spec) (front : List Text) (word : Text) : Prop where
  numeric : s.numeric = false
  nullability : s.nullability = some .null
  type : tokenize s.dataType = front ++ [word]
  role : role word = .not
  spelling : word ≠ "NOT".toList

/-- What the clause of a specification says when it is read again. -/
structure Normal (s : Spec) : Prop where
  tokens : tokenize s.render =
    tokenize s.dataType ++ s.attributes ++ (s.trailing.map tokenize).getD []
  unsigned : ((tokenize s.render).countP fun w => Text.sameIgnoringCase w "UNSIGNED") =
    s.numeric.toNat
  zerofill : ((tokenize s.render).countP fun w => Text.sameIgnoringCase w "ZEROFILL") =
    (s.numeric && s.zerofill).toNat
  again : (∀ front word, ¬ StrayNot s front word) → (scan s.render).render = s.render
  /-- The stray word is read with the `NULL` behind it and is written in capitals. -/
  stray : ∀ front word, StrayNot s front word → ∃ rest,
    s.render = Text.join [' '] (front ++ word :: "NULL".toList :: rest) ∧
      (scan s.render).render = Text.join [' '] (front ++ "NOT".toList :: "NULL".toList :: rest)

section
variable {p q : Parts}

theorem signed_of_body_eq (h : q.body = p.body) : q.spec.signed = p.spec.signed := by
  simp only [Parts.spec, h]

theorem scan_render {q : Parts} {s : Spec} (h : Sorts false (tokenize s.render) q) :
    scan s.render = q.spec := by
  rw [scan, sortTokens_eq_of_sorts h]

theorem signed_eq_false_of_not_numeric (h : hasNumericType p.body = false) :
    p.spec.signed = false := by
  simp [Parts.spec, h]

end

/-- Sorted tokens that are whole, and of which each stands where it would be sorted to again. -/
structure Settled (p : Parts) : Prop where
  type : TypeWords p.body
  clause : ClauseWords p.trailing
  whole : ∀ w ∈ p.body ++ p.trailing, Whole w

theorem settled_of_outer {t : Text} (houter : (Place.start.afterText t).IsOuter) :
    Settled (sortTokens false (tokenize t)) := by
  have h := sorts_sortTokens false (tokenize t)
  refine ⟨h.role_of_mem_body, ⟨h.not_isMarker_of_mem_trailing, h.opening_of_mem_head? rfl⟩, ?_⟩
  exact fun w hw => whole_of_mem_tokenize houter (h.thinned.mem w hw)

namespace Settled

variable {p : Parts}

theorem whole_words (h : Settled p) : ∀ w ∈ p.body ++ p.spec.attributes ++ p.trailing, Whole w := by
  intro w hw
  simp only [List.mem_append] at hw
  rcases hw with (hw | hw) | hw
  · exact h.whole w (List.mem_append_left _ hw)
  · exact Spec.whole_of_mem_attributes w hw
  · exact h.whole w (List.mem_append_right _ hw)

theorem tokenize_render (h : Settled p) (hsigned : p.spec.signed = false) :
    tokenize p.spec.render = p.body ++ p.spec.attributes ++ p.trailing := by
  rw [Parts.render_eq_join hsigned h.whole_words, tokenize_join h.whole_words]

theorem tokenize_dataType (h : Settled p) (hsigned : p.spec.signed = false) :
    tokenize p.spec.dataType = p.body := by
  rw [(p.dataType_of_plain hsigned).1, tokenize_join fun w hw => h.whole w (List.mem_append_left _ hw)]

theorem tokenize_trailing (h : Settled p) : (p.spec.trailing.map tokenize).getD [] = p.trailing := by
  have hjoin := tokenize_join fun w hw => h.whole w (List.mem_append_right p.body hw)
  unfold Parts.spec
  cases ht : p.trailing with
  | nil => rfl
  | cons w ws =>
      rw [ht] at hjoin
      exact hjoin

/-- Kept words are no markers, so a marker in the clause is one that rendering wrote. -/
theorem countP_marker (h : Settled p) (hsigned : p.spec.signed = false) {r : Role}
    (hr : r.isMarker = true) :
    ((tokenize p.spec.render).countP fun w => decide (role w = r)) =
      p.spec.attributes.countP fun w => decide (role w = r) := by
  have hbody : (p.body.countP fun w => decide (role w = r)) = 0 := by
    refine List.countP_eq_zero.2 fun w hw hrole => ?_
    rw [← of_decide_eq_true hrole] at hr
    rcases h.type w hw with hw | hw | hw <;> rw [hw] at hr <;> cases hr
  have htrailing : (p.trailing.countP fun w => decide (role w = r)) = 0 := by
    refine List.countP_eq_zero.2 fun w hw hrole => ?_
    rw [← of_decide_eq_true hrole, h.clause.kept w hw] at hr
    cases hr
  rw [h.tokenize_render hsigned, List.countP_append, List.countP_append, hbody, htrailing,
    Nat.zero_add, Nat.add_zero]

/-- Unless the type ends with a NOT in front of a NULL, the clause is read as what it says. -/
theorem again (h : Settled p) (hsigned : p.spec.signed = false)
    (hlast : ∀ w ∈ p.body.getLast?, role w = .not →
      p.spec.numeric = true ∨ p.spec.nullability ≠ some .null) :
    (scan p.spec.render).render = p.spec.render := by
  let q : Parts :=
    { body := p.body, trailing := p.trailing, zerofill := p.spec.numeric && p.spec.zerofill
      nullability := some (p.spec.nullability.getD .notNull) }
  have hq : Settled q := ⟨h.type, h.clause, h.whole⟩
  have hnext : ∀ w ∈ p.body.getLast?, role w = .not →
      ∀ next ∈ (p.spec.attributes ++ p.trailing).head?, role next ≠ .null := by
    intro w hw hrole
    rw [Spec.attributes, hsigned]
    rcases hlast w hw hrole with hnumeric | hnull
    · rw [hnumeric]
      rintro _ ⟨⟩
      decide
    · have hnot : p.spec.nullability.getD .notNull = .notNull := by
        cases hn : p.spec.nullability with
        | none => rfl
        | some n => cases n <;> simp_all
      rw [hnot]
      cases p.spec.numeric <;>
        · rintro _ ⟨⟩
          decide
  have hsorts : Sorts false (tokenize p.spec.render) q := by
    rw [h.tokenize_render hsigned, List.append_assoc]
    have hattributes : Sorts false (p.spec.attributes ++ p.trailing) { q with body := [] } := by
      rw [Spec.attributes, hsigned]
      exact sorts_attributes h.clause
    simpa using h.type.sorts hnext hattributes
  have hattributes : q.spec.attributes = p.spec.attributes :=
    congrArg (· ++ (p.spec.nullability.getD .notNull).words) (signWords_and _ _ _)
  rw [scan_render hsorts, Parts.render_eq_join (signed_of_body_eq (p := p) rfl ▸ hsigned) hq.whole_words,
    hattributes, Parts.render_eq_join hsigned h.whole_words]

/-- A NOT at the end of the type is read with the NULL behind it. -/
theorem again_of_not (h : Settled p) {front : List Text} {word : Text}
    (hbody : p.body = front ++ [word]) (hrole : role word = .not) (hnumeric : p.spec.numeric = false)
    (hnull : p.spec.nullability = some .null) :
    p.spec.render = Text.join [' '] (front ++ word :: "NULL".toList :: p.trailing) ∧
      (scan p.spec.render).render =
        Text.join [' '] (front ++ "NOT".toList :: "NULL".toList :: p.trailing) := by
  have hsigned : p.spec.signed = false := signed_eq_false_of_not_numeric hnumeric
  have hattributes : p.spec.attributes = ["NULL".toList] := by
    rw [Spec.attributes, hnumeric, hnull]
    rfl
  have hwords : p.body ++ p.spec.attributes ++ p.trailing =
      front ++ word :: "NULL".toList :: p.trailing := by
    rw [hattributes, hbody]
    simp
  refine ⟨by rw [Parts.render_eq_join hsigned h.whole_words, hwords], ?_⟩
  let q : Parts := { body := front, trailing := p.trailing, nullability := some .notNull }
  have hmem : ∀ w ∈ front, w ∈ p.body := fun w hw => hbody ▸ List.mem_append_left _ hw
  have hq : Settled q := by
    refine ⟨fun w hw => h.type w (hmem w hw), h.clause, fun w hw => h.whole w ?_⟩
    exact (List.mem_append.1 hw).elim (fun hw => List.mem_append_left _ (hmem w hw))
      (List.mem_append_right _)
  have hplain : q.spec.numeric = false := by
    have htype : hasNumericType p.body = false := hnumeric
    rw [hbody] at htype
    cases front with
    | nil => rfl
    | cons w front => exact htype
  have hsorts : Sorts false (tokenize p.spec.render) q := by
    rw [h.tokenize_render hsigned, hwords]
    have hlast : ∀ w ∈ front.getLast?, role w = .not →
        ∀ next ∈ (word :: "NULL".toList :: p.trailing).head?, role next ≠ .null := by
      rintro _ _ _ _ ⟨⟩
      simp [hrole]
    simpa [q] using hq.type.sorts hlast (.notNull hrole (by decide) h.clause.sorts)
  rw [scan_render hsorts, Parts.render_eq_join (signed_eq_false_of_not_numeric hplain) hq.whole_words,
    Spec.attributes, hplain]
  simp [q, Parts.spec, signWords, Nullability.words]

end Settled

/-- A clause of an unsigned specification consists of the words it was made of, and it says the same when
it is read again, a stray `NOT` apart. -/
theorem scan_normal {t : Text} (houter : (Place.start.afterText t).IsOuter)
    (hsigned : (scan t).signed = false) : Normal (scan t) := by
  have h := settled_of_outer houter
  unfold scan at hsigned ⊢
  generalize sortTokens false (tokenize t) = p at h hsigned
  constructor
  · rw [h.tokenize_render hsigned, h.tokenize_dataType hsigned, h.tokenize_trailing]
  · simp only [same_word .unsigned rfl]
    rw [h.countP_marker hsigned rfl, (Spec.countP_attributes hsigned).1]
  · simp only [same_word .zerofill rfl]
    rw [h.countP_marker hsigned rfl, (Spec.countP_attributes hsigned).2]
  · intro hstray
    by_cases hlast : ∀ w ∈ p.body.getLast?, role w = .not →
        p.spec.numeric = true ∨ p.spec.nullability ≠ some .null
    · exact h.again hsigned hlast
    · -- The type ends with a NOT, which is written in capitals already.
      push Not at hlast
      obtain ⟨word, hlast, hrole, hnumeric, hnull⟩ := hlast
      obtain ⟨front, hbody⟩ := List.getLast?_eq_some_iff.1 hlast
      have hnumeric : p.spec.numeric = false := by simpa using hnumeric
      have hspelling : word = "NOT".toList := by
        by_contra hne
        exact hstray front word
          ⟨hnumeric, hnull, (h.tokenize_dataType hsigned).trans hbody, hrole, hne⟩
      obtain ⟨hfirst, hsecond⟩ := h.again_of_not hbody hrole hnumeric hnull
      rw [hsecond, hfirst, hspelling]
  · intro front word hstray
    have hbody := (h.tokenize_dataType hsigned).symm.trans hstray.type
    exact ⟨p.trailing, h.again_of_not hbody hstray.role hstray.numeric hstray.nullability⟩

theorem scan_normal_price :
    (Place.start.afterText "decimal(8, 2) unsigned ZEROFILL NOT zerofill DEFAULT (1 + 2) NULLABLE").IsOuter ∧
      (scan "decimal(8, 2) unsigned ZEROFILL NOT zerofill DEFAULT (1 + 2) NULLABLE").signed = false ∧
        Normal (scan "decimal(8, 2) unsigned ZEROFILL NOT zerofill DEFAULT (1 + 2) NULLABLE") :=
  ⟨by decide +kernel, by decide +kernel, scan_normal (by decide +kernel) (by decide +kernel)⟩

/-- The word `not` is left in the type of a column that may be null. In the clause it stands in front of
the `NULL` that rendering writes, so reading it again gives a column that holds no null. -/
theorem stray_not_changes_clause :
    (Place.start.afterText "text not NULLABLE").IsOuter ∧
      (scan "text not NULLABLE").signed = false ∧
        (scan "text not NULLABLE").render = "text not NULL".toList ∧
          (scan (scan "text not NULLABLE").render).render = "text NOT NULL".toList ∧
            (scan (scan "text not NULLABLE").render).render ≠ (scan "text not NULLABLE").render := by
  decide +kernel

end SchemaScript.Column
