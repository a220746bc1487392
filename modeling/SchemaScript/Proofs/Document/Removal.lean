/- A column text without its reference: what stood around the reference keeps its tokens, unless two
   words meet where it was taken out. -/
import SchemaScript.Proofs.Column.Tokens
import SchemaScript.Proofs.Document.Accepted
import SchemaScript.Proofs.Identifier.Behind

namespace SchemaScript

/-- A text is cut before its first arrow. -/
theorem Text.cutBefore?_arrow {before : Text} (rest : Text)
    (h : ¬ Reference.arrow <:+: before) :
    cutBefore? Reference.arrow (before ++ (Reference.arrow ++ rest)) =
      some (before, Reference.arrow ++ rest) := by
  induction before with
  | nil => rfl
  | cons c before ih =>
      obtain ⟨hhead, hlater⟩ := not_or.1 (mt List.infix_cons_iff.2 h)
      -- An arrow that starts here would end here, because an arrow does not start with its end.
      have hnot : ¬ Reference.arrow <+: c :: (before ++ (Reference.arrow ++ rest)) := by
        intro hprefix
        cases before with
        | nil =>
            obtain ⟨_, he⟩ := hprefix
            cases he
        | cons d before =>
            obtain ⟨_, he⟩ := hprefix
            cases he
            exact hhead ⟨before, rfl⟩
      rw [List.cons_append, cutBefore?, if_neg (mt List.isPrefixOf_iff_prefix.1 hnot), ih hlater]
      rfl

namespace Document

theorem takeReference?_around {before marker after : Text} {r : Reference}
    (hfirst : ¬ Reference.arrow <:+: before)
    (hread : Reference.read? (marker ++ after) = some (r, after)) :
    takeReference? (before ++ (marker ++ after)) = some (some r, before ++ after) := by
  obtain ⟨marker', hmarker, harrow⟩ := Reference.eq_of_read? hread
  rw [← List.append_cancel_right hmarker] at harrow
  obtain ⟨names, rfl⟩ := harrow
  rw [List.append_assoc] at hread ⊢
  unfold takeReference?
  rw [Text.cutBefore?_arrow _ hfirst]
  simp only [hread, Option.map_some]

open Column (tokenize Apart Place)

/-- Tokens around an outer place stay as they are exactly where no word reaches over it. -/
theorem tokenize_append_iff {before after : Text} (houter : (Place.start.afterText before).IsOuter) :
    tokenize (before ++ after) = tokenize before ++ tokenize after ↔ Apart before after := by
  constructor
  · intro htokens
    by_contra happart
    obtain ⟨front, a, b, back, -, -, hbefore, hafter, hfused⟩ := Column.tokenize_fused houter happart
    rw [hbefore, hafter, hfused] at htokens
    simpa using congrArg List.length htokens
  · exact Column.tokenize_append houter

/-- A reference is taken out of a column text, and the specification is read from what is in front of
it and what is behind it. Where something keeps the two apart their tokens stay as they are; where
nothing does, the last word in front and the first word behind become one. -/
theorem readColumn_around {defs : Definitions} {table name text before marker after : Text}
    {key raw : Value} {r : Reference} (hname : key.text? = some name)
    (htext : columnText table name raw = .ok text)
    (hexpand : defs.expand? text = some (before ++ (marker ++ after)))
    (hfirst : ¬ Reference.arrow <:+: before)
    (hread : Reference.read? (marker ++ after) = some (r, after))
    (houter : (Place.start.afterText before).IsOuter) :
    readColumn defs table key raw =
        .ok { name, reference := some r, spec := Column.scan (before ++ after) } ∧
      (tokenize (before ++ after) = tokenize before ++ tokenize after ↔ Apart before after) ∧
        (Apart before after → Column.scan (before ++ after) =
          (Column.sortTokens false (tokenize before ++ tokenize after)).spec) ∧
          (¬ Apart before after → ∃ front a b back, tokenize before = front ++ [a] ∧
            tokenize after = b :: back ∧ tokenize (before ++ after) = front ++ (a ++ b) :: back) := by
  refine ⟨?_, tokenize_append_iff houter, ?_, ?_⟩
  · have hcolumn := columnText_eq_ok.1 htext
    have htaken := takeReference?_around hfirst hread
    exact (@readColumn_eq_ok defs table (key, raw)
      ⟨name, some r, Column.scan (before ++ after)⟩).2
        ⟨hname, text, hcolumn, _, hexpand, _, htaken, rfl⟩
  · intro happart
    rw [Column.scan, Column.tokenize_append houter happart]
  · intro happart
    obtain ⟨front, a, b, back, -, -, hbefore, hafter, hfused⟩ := Column.tokenize_fused houter happart
    exact ⟨front, a, b, back, hbefore, hafter, hfused⟩

theorem readColumn_around_spaced :
    readColumn [] "orders" (.string "customer") (.string "int -> customers.id NULL") =
        .ok { name := "customer", reference := some { table := "customers", column := "id" },
              spec := Column.scan "int NULL" } ∧
      tokenize "int NULL" = tokenize "int " ++ tokenize "NULL" := by
  have happart : Apart "int " "NULL" := by decide +kernel
  have hname : (Value.string "customer").text? = some "customer".toList := rfl
  have htext : columnText "orders" "customer" (.string "int -> customers.id NULL") =
      .ok "int -> customers.id NULL".toList := by decide +kernel
  have hexpand : Definitions.expand? [] "int -> customers.id NULL" =
      some ("int ".toList ++ ("-> customers.id ".toList ++ "NULL".toList)) := by decide +kernel
  have hread : Reference.read? ("-> customers.id ".toList ++ "NULL".toList) =
      some ({ table := "customers", column := "id" }, "NULL".toList) := by decide +kernel
  have h := readColumn_around hname htext hexpand (by decide +kernel) hread (by decide +kernel)
  exact ⟨h.1, h.2.1.2 happart⟩

/-- An arrow right behind a word: the reference is taken out together with the space behind it, so that
the word and the next one become a type that nobody wrote, and the column holds no null. -/
theorem words_meet_around_arrow :
    readColumn [] "orders" (.string "customer") (.string "int-> customers.id NULL") =
        .ok { name := "customer", reference := some { table := "customers", column := "id" },
              spec := Column.scan "intNULL" } ∧
      ¬ Reference.arrow <:+: "int".toList ∧
        Reference.read? "-> customers.id NULL" =
          some ({ table := "customers", column := "id" }, "NULL".toList) ∧
          (Place.start.afterText "int").IsOuter ∧
            tokenize ("int".toList ++ "NULL".toList) ≠ tokenize "int" ++ tokenize "NULL" ∧
              (Column.scan "intNULL").render = "intNULL UNSIGNED NOT NULL".toList := by
  decide +kernel

end Document

end SchemaScript
