/- Tokens found again: white space at an outer place parts the tokens of a text, and each token but the
   last ends at one. So a text may be taken apart into tokens and joined by spaces again. -/
import SchemaScript.Proofs.Column.Partition

namespace SchemaScript.Column

open Column.Partition

/-- The tokens in a cut stand apart where spaces join them: behind each but the last there is a gap. -/
theorem Partition.Divides.rejoinable {d : Partition} {t : Text} (h : d.Divides t) :
    Rejoinable d.tokens := by
  obtain ⟨lead, parts⟩ := d
  induction parts generalizing lead t with
  | nil => exact ⟨nofun, nofun⟩
  | cons part parts ih =>
      cases parts with
      | nil => exact ⟨List.forall_mem_singleton.2 h.tokenize_first, nofun⟩
      | cons next parts =>
          have hlater := ih _ (h.rest h.gap_ne_nil)
          have houter := h.outer_of_gap h.gap_ne_nil
          exact ⟨List.forall_mem_cons.2 ⟨h.tokenize_first, hlater.single⟩,
            List.forall_mem_cons.2 ⟨houter, hlater.outer⟩⟩

theorem rejoinable_tokenize (t : Text) : Rejoinable (tokenize t) := by
  obtain ⟨d, hd⟩ := exists_divides t
  rw [← hd.tokens_eq]
  exact hd.rejoinable

theorem single_of_tokenize {w : Text} (h : tokenize w = [w]) : pieces .start w = (w, []) := by
  obtain ⟨⟨lead, parts⟩, hd⟩ := exists_divides w
  rw [← hd.tokens_eq] at h
  obtain ⟨part, rfl, hpart⟩ := List.map_eq_singleton_iff.1 h
  rw [← hpart]
  exact hd.first.1

/-- A text is its own only token exactly if it is not empty and no character of it separates. -/
theorem tokenize_eq_self_iff {w : Text} : tokenize w = [w] ↔ w ≠ [] ∧
    ∀ before c behind, w = before ++ c :: behind →
      (Place.start.afterText before).separates c = false := by
  rw [← single_iff]
  refine ⟨fun h => ⟨?_, single_of_tokenize h⟩, fun ⟨hne, h⟩ => tokenize_of_single hne h⟩
  rintro rfl
  cases h

/-- White space at an outer place parts the tokens of a text into those before it and those behind it. So
each token of any text is its own only token, and the tokens are found again in the text that joins them
by spaces. A text is its own only token exactly if it is not empty and no character of it separates. -/
theorem tokenize_composes :
    (∀ a w b : Text, (Place.start.afterText a).IsOuter → w ≠ [] → (∀ c ∈ w, isBlank c = true) →
        tokenize (a ++ (w ++ b)) = tokenize a ++ tokenize b) ∧
      (∀ x : Text, (∀ token ∈ tokenize x, tokenize token = [token]) ∧
        tokenize (Text.join [' '] (tokenize x)) = tokenize x) ∧
      ∀ x : Text, tokenize x = [x] ↔ x ≠ [] ∧ ∀ before c behind, x = before ++ c :: behind →
        (Place.start.afterText before).separates c = false := by
  refine ⟨fun a w b houter hne hblank => tokenize_append_blanks houter hne hblank b, fun x => ?_,
    fun x => tokenize_eq_self_iff⟩
  have hx := rejoinable_tokenize x
  exact ⟨hx.single, hx.tokenize_join⟩

/-- Behind a parenthesis that closes nothing, and with a literal that stays open at the end. -/
theorem tokenize_composes_open :
    ((Place.start.afterText "enum('a  b') )").IsOuter ∧ "\t ".toList ≠ [] ∧
        (∀ c ∈ "\t ".toList, isBlank c = true) ∧
        tokenize ("enum('a  b') )".toList ++ ("\t ".toList ++ "COMMENT 'x  (y".toList)) =
          tokenize "enum('a  b') )" ++ tokenize "COMMENT 'x  (y") ∧
      ("'x  (y".toList ∈ tokenize "enum('a  b') )\t COMMENT 'x  (y" ∧
        tokenize "'x  (y" = ["'x  (y".toList]) ∧
      tokenize (Text.join [' '] (tokenize "enum('a  b') )\t COMMENT 'x  (y")) =
        tokenize "enum('a  b') )\t COMMENT 'x  (y" := by
  obtain ⟨hparts, htokens, -⟩ := tokenize_composes
  have hblank : ∀ c ∈ "\t ".toList, isBlank c = true := List.all_eq_true.1 (by decide)
  refine ⟨⟨by decide, by decide, hblank, hparts _ _ _ (by decide) (by decide) hblank⟩, ?_, ?_⟩
  · exact ⟨by decide, (htokens "enum('a  b') )\t COMMENT 'x  (y").1 _ (by decide)⟩
  · exact (htokens _).2

end SchemaScript.Column
