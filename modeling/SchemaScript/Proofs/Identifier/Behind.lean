/- What stands behind an identifier or a reference is the end of the text it was read from. -/
import SchemaScript.Identifier.Reference
import SchemaScript.Proofs.Text.Search

namespace SchemaScript

namespace Identifier

theorem suffix_of_bare? {t i rest : Text} (h : bare? t = some (i, rest)) : rest <:+ t := by
  unfold bare? at h
  split at h
  · cases h
  · cases h
    exact List.dropWhile_suffix _

theorem suffix_of_closeQuoted? {t inner behind : Text}
    (h : closeQuoted? t = some (inner, behind)) : behind <:+ t := by
  fun_induction closeQuoted? t generalizing inner behind with
  | case1 => cases h
  | case2 rest i b hr ih =>
      cases h
      exact (ih hr).trans ((List.suffix_cons _ _).trans (List.suffix_cons _ _))
  | case3 rest hr ih =>
      cases h
      exact List.suffix_cons _ _
  | case4 rest =>
      cases h
      exact List.suffix_cons _ _
  | case5 c rest _ _ _ ih =>
      obtain ⟨⟨i, b⟩, hr, he⟩ := Option.map_eq_some_iff.1 h
      cases he
      exact (ih hr).trans (List.suffix_cons _ _)
  | case6 => cases h

theorem suffix_of_quoted? {t inner behind : Text} (h : quoted? t = some (inner, behind)) :
    behind <:+ t := by
  unfold quoted? at h
  split at h
  · have hclose := (Option.filter_eq_some_iff.1 h).1
    exact (suffix_of_closeQuoted? hclose).trans (List.suffix_cons _ _)
  · cases h

theorem suffix_of_read? {t i rest : Text} (h : read? t = some (i, rest)) : rest <:+ t := by
  unfold read? at h
  cases hq : quoted? t with
  | none =>
      rw [hq] at h
      exact suffix_of_bare? h
  | some r =>
      rw [hq] at h
      cases h
      exact suffix_of_quoted? hq

end Identifier

namespace Reference

theorem suffix_of_afterDot? {t rest : Text} (h : afterDot? t = some rest) : rest <:+ t := by
  unfold afterDot? at h
  split at h
  · next fromDot hdot =>
    cases h
    have hdrop : '.' :: fromDot <:+ t := by
      rw [← hdot]
      exact List.dropWhile_suffix _
    exact (List.dropWhile_suffix _).trans ((List.suffix_cons _ _).trans hdrop)
  · cases h

theorem suffix_of_afterEnd? {t rest : Text} (h : afterEnd? t = some rest) : rest <:+ t := by
  unfold afterEnd? at h
  split at h
  · cases h
    exact List.suffix_refl _
  · cases h
    exact List.suffix_cons _ _
  · cases h

/-- A reference starts with an arrow, and what stands behind it is left as it was. -/
theorem eq_of_read? {t rest : Text} {r : Reference} (h : read? t = some (r, rest)) :
    ∃ marker, t = marker ++ rest ∧ arrow <+: marker := by
  unfold read? at h
  simp only [Option.bind_eq_bind, Option.bind_eq_some_iff] at h
  obtain ⟨fromTable, hstart, ⟨table, behindTable⟩, htable, fromColumn, hdot,
    ⟨column, behindColumn⟩, hcolumn, rest', hend, h⟩ := h
  split at h
  · cases h
  · cases h
    have hrest : rest <:+ fromTable :=
      (suffix_of_afterEnd? hend).trans <| (Identifier.suffix_of_read? hcolumn).trans <|
        (suffix_of_afterDot? hdot).trans (Identifier.suffix_of_read? htable)
    obtain ⟨names, rfl⟩ := hrest
    refine ⟨arrow ++ ([' '] ++ names), ?_, List.prefix_append _ _⟩
    rw [Text.after?_eq_some.1 hstart]
    simp

end Reference

end SchemaScript
