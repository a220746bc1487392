/- Lines: pieces without a separator are found again in the text that joins them. -/
import SchemaScript.Text.Basic
import Mathlib.Data.List.Basic

namespace SchemaScript

/-- A mark that stands in neither beginning shows where both of them end. -/
theorem append_mark_inj {α : Type*} {mark : α} {a b r s : List α} (ha : mark ∉ a) (hb : mark ∉ b)
    (h : a ++ mark :: r = b ++ mark :: s) : a = b ∧ r = s := by
  induction a generalizing b with
  | nil =>
      cases b with
      | nil => exact ⟨rfl, List.tail_eq_of_cons_eq h⟩
      | cons y b => exact absurd (List.head_eq_of_cons_eq h ▸ List.mem_cons_self) hb
  | cons x a ih =>
      cases b with
      | nil => exact absurd (List.head_eq_of_cons_eq h ▸ List.mem_cons_self) ha
      | cons y b =>
          obtain ⟨rfl, tails⟩ := List.cons.inj h
          obtain ⟨rfl, hr⟩ := ih (List.not_mem_of_not_mem_cons ha)
            (List.not_mem_of_not_mem_cons hb) tails
          exact ⟨rfl, hr⟩

namespace Text

theorem join_eq_intercalate (sep : Text) (ts : List Text) : join sep ts = sep.intercalate ts := by
  induction ts with
  | nil => rfl
  | cons t ts ih =>
      cases ts with
      | nil => simp [join]
      | cons u rest => rw [join, ih, List.intercalate_cons_cons]

theorem splitOn_eq (sep : Char) (t : Text) : splitOn sep t = List.splitOn sep t := by
  induction t with
  | nil => rfl
  | cons c rest ih =>
      rw [splitOn, ih, List.splitOn_cons_eq_if_modifyHead]
      cases h : List.splitOn sep rest with
      | nil => exact absurd h (List.splitOn_ne_nil sep rest)
      | cons piece pieces => by_cases hc : c = sep <;> simp [hc]

/-- Cutting a joined text gives back its pieces. -/
theorem splitOn_join {sep : Char} {ts : List Text} (hne : ts ≠ []) (h : ∀ t ∈ ts, sep ∉ t) :
    splitOn sep (join [sep] ts) = ts := by
  rw [splitOn_eq, join_eq_intercalate, List.splitOn_intercalate sep h hne]

theorem join_append {sep : Text} {ts us : List Text} (ht : ts ≠ []) (hu : us ≠ []) :
    join sep (ts ++ us) = join sep ts ++ sep ++ join sep us := by
  induction ts with
  | nil => exact absurd rfl ht
  | cons t ts ih =>
      cases ts with
      | nil =>
          obtain ⟨u, us, rfl⟩ := List.exists_cons_of_ne_nil hu
          rfl
      | cons next rest =>
          have hrest := ih (List.cons_ne_nil next rest)
          simp only [List.cons_append, join, List.append_assoc] at hrest ⊢
          rw [hrest]

theorem splitOn_append_cons (sep : Char) (t u : Text) :
    splitOn sep (t ++ sep :: u) = splitOn sep t ++ splitOn sep u := by
  rw [splitOn_eq, splitOn_eq, splitOn_eq, List.splitOn_append_cons_self]

theorem join_inj {sep : Char} {ts us : List Text} (ht : ts ≠ []) (hu : us ≠ [])
    (hts : ∀ t ∈ ts, sep ∉ t) (hus : ∀ u ∈ us, sep ∉ u) (h : join [sep] ts = join [sep] us) :
    ts = us := by
  rw [← splitOn_join ht hts, h, splitOn_join hu hus]

theorem not_mem_of_mem_splitOn {sep : Char} {t piece : Text} (h : piece ∈ splitOn sep t) :
    sep ∉ piece := by
  induction t generalizing piece with
  | nil =>
      rw [List.mem_singleton.1 h]
      exact List.not_mem_nil
  | cons c rest ih =>
      rw [splitOn] at h
      cases hs : splitOn sep rest with
      | nil => simp [splitOn_eq] at hs
      | cons first pieces =>
          rw [hs] at h ih
          by_cases hc : c = sep
          · simp only [hc, if_true, List.mem_cons] at h
            rcases h with rfl | h
            · exact List.not_mem_nil
            · exact ih (List.mem_cons.2 h)
          · simp only [hc, if_false, List.mem_cons] at h
            rcases h with rfl | h
            · simp [Ne.symm hc, ih List.mem_cons_self]
            · exact ih (List.mem_cons_of_mem _ h)

theorem not_mem_of_mem_closeLines {pieces : List Text} {line : Text} {c : Char}
    (hp : ∀ piece ∈ pieces, c ∉ piece) (h : line ∈ closeLines pieces) : c ∉ line := by
  induction pieces with
  | nil => cases h
  | cons piece pieces ih =>
      cases pieces with
      | nil =>
          rw [closeLines] at h
          split at h
          · cases h
          · exact hp line h
      | cons next rest =>
          rcases List.mem_cons.1 h with rfl | h
          · intro hc
            refine hp piece List.mem_cons_self ?_
            unfold dropReturn at hc
            split at hc
            · exact List.dropLast_subset _ hc
            · exact hc
          · exact ih (fun p hm => hp p (List.mem_cons_of_mem _ hm)) h

/-- A line holds no newline. -/
theorem newline_not_mem_of_mem_lines {t line : Text} (h : line ∈ lines t) : '\n' ∉ line :=
  not_mem_of_mem_closeLines (fun _ hp => not_mem_of_mem_splitOn hp) h

end Text
end SchemaScript
