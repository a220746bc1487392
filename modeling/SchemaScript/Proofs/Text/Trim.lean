/- Trimmed texts: those from which trimming has nothing to take. -/
import SchemaScript.Proofs.Text.Search
import Mathlib.Data.List.DropRight

namespace SchemaScript.Text

/-- A text that is not empty and has no blank at either end. -/
structure Trimmed (t : Text) : Prop where
  ne_nil : t ≠ []
  first : ∀ c ∈ t.head?, SchemaScript.isBlank c = false
  last : ∀ c ∈ t.getLast?, SchemaScript.isBlank c = false

theorem trimEnd_eq_rdropWhile (t : Text) : trimEnd t = t.rdropWhile SchemaScript.isBlank := rfl

theorem Trimmed.trim_eq {t : Text} (h : Trimmed t) : trim t = t := by
  have hstart : trimStart t = t := by
    unfold trimStart
    rw [List.dropWhile_eq_self_iff]
    intro hpos hblank
    have hfirst := h.first t[0] (by rw [List.head?_eq_getElem?, List.getElem?_eq_getElem hpos]; rfl)
    rw [hfirst] at hblank
    cases hblank
  have hend : trimEnd t = t := by
    rw [trimEnd_eq_rdropWhile, List.rdropWhile_eq_self_iff]
    intro hne hblank
    rw [h.last _ (List.getLast?_eq_some_getLast hne)] at hblank
    cases hblank
  rw [trim, hstart, hend]

/-- What is left by trimming is trimmed, if anything is left. -/
theorem trimmed_trim {t : Text} (h : trim t ≠ []) : Trimmed (trim t) := by
  have hprefix : trim t <+: trimStart t := by
    unfold trim
    rw [trimEnd_eq_rdropWhile]
    exact List.rdropWhile_prefix _ _
  refine ⟨h, ?_, ?_⟩
  · intro c hc
    have hstart : c ∈ (trimStart t).head? := by
      obtain ⟨rest, hrest⟩ := hprefix
      rw [← hrest, List.head?_append_of_ne_nil _ h]
      exact hc
    have hnot := List.head?_dropWhile_not SchemaScript.isBlank t
    unfold trimStart at hstart
    rw [Option.mem_def.1 hstart] at hnot
    exact hnot
  · intro c hc
    have hlast := List.rdropWhile_last_not SchemaScript.isBlank (trimStart t) h
    rw [List.getLast?_eq_some_getLast h, Option.mem_some_iff] at hc
    rw [← hc]
    exact Bool.eq_false_iff.2 hlast

theorem Trimmed.not_isBlank {t : Text} (h : Trimmed t) : isBlank t = false := by
  obtain ⟨c, rest, rfl⟩ := List.exists_cons_of_ne_nil h.ne_nil
  have hfirst := h.first c rfl
  simp [isBlank, hfirst]

theorem trim_ne_nil {t : Text} (h : isBlank t = false) : trim t ≠ [] := by
  obtain ⟨c, hc, hsolid⟩ := List.all_eq_false.1 h
  have hmem : c ∈ trim t := mem_trim (by simpa using hsolid) hc
  exact List.ne_nil_of_mem hmem

/-- Where a trimmed text goes on behind a blank, another one may go on in the same way. -/
theorem Trimmed.replace {word text rest : Text} {blank : Char} (ht : Trimmed text)
    (h : Trimmed (word ++ blank :: rest)) (hb : SchemaScript.isBlank blank = true) (sep : Char) :
    Trimmed (text ++ sep :: rest) := by
  have hrest : rest ≠ [] := by
    rintro rfl
    have hblank := h.last blank (by simp)
    rw [hb] at hblank
    cases hblank
  refine ⟨List.append_ne_nil_of_left_ne_nil ht.ne_nil _, ?_, ?_⟩
  · rw [List.head?_append_of_ne_nil _ ht.ne_nil]
    exact ht.first
  · have hlast (before : Text) (c : Char) : (before ++ c :: rest).getLast? = rest.getLast? := by
      rw [List.getLast?_append_of_ne_nil _ (List.cons_ne_nil _ _), List.getLast?_cons_of_ne_nil hrest]
    rw [hlast text sep, ← hlast word blank]
    exact h.last

end SchemaScript.Text
