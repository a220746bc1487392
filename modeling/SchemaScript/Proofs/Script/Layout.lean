/- Layout: a text determines the blocks of its script, and the head of a script is all comment. -/
import SchemaScript.Proofs.Script.Timestamp
import SchemaScript.Proofs.Text.Lines
import SchemaScript.Script.Header

namespace SchemaScript.Script

/-- A line that can stand in a block: it is not empty and holds no newline. -/
def IsLine (t : Text) : Prop := t ≠ [] ∧ '\n' ∉ t

/-- No empty line stands inside a block, so empty lines only end blocks. -/
def Tidy (s : Script) : Prop := ∀ block ∈ s, ∀ line ∈ block, IsLine line

theorem IsLine.append {t u : Text} (ht : IsLine t) (hu : '\n' ∉ u) : IsLine (t ++ u) :=
  ⟨List.append_ne_nil_of_left_ne_nil ht.1 u, by
    rw [List.mem_append, not_or]
    exact ⟨ht.2, hu⟩⟩

theorem Tidy.append {s t : Script} (hs : Tidy s) (ht : Tidy t) : Tidy (s ++ t) := by
  intro block hb
  rcases List.mem_append.1 hb with hb | hb
  · exact hs block hb
  · exact ht block hb

theorem Tidy.nil_not_mem {s : Script} (hs : Tidy s) {block : Block} (hb : block ∈ s) :
    [] ∉ block := fun h => (hs block hb [] h).1 rfl

/-- The lines of a script, with an empty line behind every block, are its blocks in disguise. -/
theorem flatMap_ended_inj {s t : Script} (hs : Tidy s) (ht : Tidy t)
    (h : s.flatMap (fun block => block ++ [[]]) = t.flatMap (fun block => block ++ [[]])) :
    s = t := by
  induction s generalizing t with
  | nil =>
      cases t with
      | nil => rfl
      | cons block rest => simp at h
  | cons block rest ih =>
      cases t with
      | nil => simp at h
      | cons block' rest' =>
          simp only [List.flatMap_cons, List.append_assoc, List.singleton_append] at h
          obtain ⟨rfl, tails⟩ := append_mark_inj (hs.nil_not_mem List.mem_cons_self)
            (ht.nil_not_mem List.mem_cons_self) h
          have hrest := ih (fun b hb => hs b (List.mem_cons_of_mem _ hb))
            (fun b hb => ht b (List.mem_cons_of_mem _ hb)) tails
          rw [hrest]

theorem newline_not_mem_of_mem_ended {s : Script} (hs : Tidy s) {line : Text}
    (h : line ∈ s.flatMap (fun block => block ++ [[]])) : '\n' ∉ line := by
  obtain ⟨block, hb, hl⟩ := List.mem_flatMap.1 h
  rcases List.mem_append.1 hl with hl | hl
  · exact (hs block hb line hl).2
  · rw [List.mem_singleton.1 hl]
    exact List.not_mem_nil

theorem ended_ne_nil {s : Script} (hne : s ≠ []) :
    s.flatMap (fun block => block ++ [[]]) ≠ [] := by
  cases s with
  | nil => exact absurd rfl hne
  | cons block rest => simp

/-- Tidy scripts with the same text are the same. -/
theorem text_inj {s t : Script} (hs : Tidy s) (ht : Tidy t) (hsne : s ≠ []) (htne : t ≠ [])
    (h : s.text = t.text) : s = t :=
  flatMap_ended_inj hs ht (Text.join_inj (ended_ne_nil hsne) (ended_ne_nil htne)
    (fun _ hl => newline_not_mem_of_mem_ended hs hl)
    (fun _ hl => newline_not_mem_of_mem_ended ht hl) h)

/-- A line that is read as a comment. -/
def IsComment (line : Text) : Prop := "--".toList <+: line ∧ '\n' ∉ line

theorem IsComment.isLine {line : Text} (h : IsComment line) : IsLine line := by
  refine ⟨?_, h.2⟩
  rintro rfl
  exact absurd (List.prefix_nil.1 h.1) (by decide)

theorem IsComment.append {t u : Text} (ht : IsComment t) (hu : '\n' ∉ u) : IsComment (t ++ u) :=
  ⟨ht.1.trans (List.prefix_append t u), (ht.isLine.append hu).2⟩

theorem entryLines_isComment {opening value line : Text} (ho : IsComment opening)
    (h : line ∈ entryLines opening value) : IsComment line := by
  unfold entryLines at h
  split at h
  · rw [List.mem_singleton.1 h]
    exact ho
  · next first rest hlines =>
    have hline : ∀ t ∈ first :: rest, '\n' ∉ t := fun t ht =>
      Text.newline_not_mem_of_mem_lines (hlines ▸ ht)
    rcases List.mem_cons.1 h with rfl | h
    · exact ho.append (hline first List.mem_cons_self)
    · obtain ⟨t, ht, rfl⟩ := List.mem_map.1 h
      exact IsComment.append ⟨by decide, by decide⟩ (hline t (List.mem_cons_of_mem _ ht))

theorem entry_isComment {label line : Text} {value : Option Text} (hl : '\n' ∉ label)
    (h : line ∈ entry label value) : IsComment line := by
  cases value with
  | none => cases h
  | some value =>
      refine entryLines_isComment ?_ h
      exact (IsComment.append ⟨by decide, by decide⟩ hl).append (by decide)

theorem authorLines_isComment {authors : List Text} {line : Text}
    (h : line ∈ authorLines authors) : IsComment line := by
  cases authors with
  | nil => cases h
  | cons first rest =>
      rcases List.mem_append.1 h with h | h
      · exact entryLines_isComment ⟨by decide, by decide⟩ h
      · obtain ⟨author, _, h⟩ := List.mem_flatMap.1 h
        exact entryLines_isComment ⟨by decide, by decide⟩ h

theorem metadataLines_isComment {m : Metadata} {line : Text} (h : line ∈ metadataLines m) :
    IsComment line := by
  simp only [metadataLines, List.mem_append] at h
  rcases h with (((h | h) | h) | h) | h
  · exact entry_isComment (by decide) h
  · exact entry_isComment (by decide) h
  · exact entry_isComment (by decide) h
  · exact entry_isComment (by decide) h
  · exact authorLines_isComment h

theorem newline_not_mem_timestamp (time : Timestamp) : '\n' ∉ time.text := by
  have sign : '\n' ≠ (if time.offset < 0 then '-' else '+') := by split <;> decide
  have year : '\n' ∉ Timestamp.yearText time.year := by
    intro h
    rcases Timestamp.mem_yearText h with h | h | h
    · exact absurd h (by decide)
    · exact absurd h (by decide)
    · exact Text.newline_not_mem_ofNatPadded _ _ h
  simp [Timestamp.text, year, Text.newline_not_mem_ofNatPadded, sign]

/-- Whatever is known about a database, the head of its script is all comment. -/
theorem header_isComment {time : Timestamp} {m : Metadata} {line : Text}
    (h : line ∈ header time m) : IsComment line := by
  simp only [header, List.mem_append, List.mem_cons, List.not_mem_nil, or_false] at h
  rcases h with (rfl | rfl | rfl | rfl) | h
  · exact ⟨by decide, by decide⟩
  · exact ⟨by decide, by decide⟩
  · exact IsComment.append ⟨by decide, by decide⟩ (newline_not_mem_timestamp time)
  · exact ⟨by decide, by decide⟩
  · split at h
    · cases h
    · rcases List.mem_cons.1 h with rfl | h
      · exact ⟨by decide, by decide⟩
      · exact metadataLines_isComment h

end SchemaScript.Script
