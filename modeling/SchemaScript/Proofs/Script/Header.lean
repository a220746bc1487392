/- Headers: what is known about a database stays in the comment at the head of its script. The
   comment ends at the first empty line, and what follows that line has nothing of it. -/
import SchemaScript.Proofs.Script.Layout
import SchemaScript.Script.Statement

namespace SchemaScript

/-- A schema with other descriptive texts. -/
def Schema.describedBy (s : Schema) (m : Metadata) : Schema :=
  { s with database := { s.database with metadata := m } }

namespace Script

/-- The lines of a text in front of its first empty line. -/
def linesBeforeGap (t : Text) : List Text :=
  (Text.splitOn '\n' t).takeWhile fun line => !line.isEmpty

/-- The lines of a text from its first empty line on. -/
def linesFromGap (t : Text) : List Text :=
  (Text.splitOn '\n' t).dropWhile fun line => !line.isEmpty

/-- The lines of the first block stand by themselves, whatever the other blocks hold. -/
theorem splitOn_text_cons {block : Block} {s : Script} (hs : s ≠ [])
    (hb : ∀ line ∈ block, '\n' ∉ line) :
    Text.splitOn '\n' (text (block :: s)) = block ++ [] :: Text.splitOn '\n' s.text := by
  have hlines : ∀ line ∈ block ++ [[]], '\n' ∉ line := by
    intro line hl
    rcases List.mem_append.1 hl with hl | hl
    · exact hb line hl
    · rw [List.mem_singleton.1 hl]
      exact List.not_mem_nil
  have hne : block ++ [[]] ≠ [] := List.append_ne_nil_of_right_ne_nil _ (List.cons_ne_nil _ _)
  unfold text
  rw [List.flatMap_cons, Text.join_append hne (ended_ne_nil hs), List.append_assoc,
    List.singleton_append, Text.splitOn_append_cons, Text.splitOn_join hne hlines, List.append_assoc,
    List.singleton_append]

theorem statements_ne_nil (s : Style) (schema : Schema) : s.statements schema ≠ [] := by
  simp [Style.statements]

/-- The lines of a script are the lines of its head, an empty line, and the lines of its
statements. -/
theorem splitOn_render (time : Timestamp) (indent : Nat) (s : Schema) :
    Text.splitOn '\n' (render time indent s) =
      header time s.database.metadata ++ [] :: Text.splitOn '\n'
        (Script.text (Style.statements ⟨s.database.source.dialect, indent⟩ s)) :=
  splitOn_text_cons (statements_ne_nil _ _) fun _ hl => (header_isComment hl).2

theorem header_not_isEmpty {time : Timestamp} {m : Metadata} :
    ∀ line ∈ header time m, (!line.isEmpty) = true := by
  intro line hl
  have hne : line ≠ [] := (header_isComment hl).isLine.1
  simpa using hne

theorem linesBeforeGap_render (time : Timestamp) (indent : Nat) (s : Schema) :
    linesBeforeGap (render time indent s) = header time s.database.metadata := by
  unfold linesBeforeGap
  rw [splitOn_render, List.takeWhile_append_of_pos header_not_isEmpty]
  simp

theorem linesFromGap_render (time : Timestamp) (indent : Nat) (s : Schema) :
    linesFromGap (render time indent s) = [] :: Text.splitOn '\n'
      (Script.text (Style.statements ⟨s.database.source.dialect, indent⟩ s)) := by
  unfold linesFromGap
  rw [splitOn_render, List.dropWhile_append_of_pos header_not_isEmpty]
  simp

/-- Whatever a database is described by, the lines of its script down to the first empty one are
comment, there is an empty one, and from there on the script is the same for all descriptions. -/
theorem description_in_comment (time : Timestamp) (indent : Nat) (s : Schema) :
    (∀ line ∈ linesBeforeGap (render time indent s), "--".toList <+: line) ∧
      [] ∈ Text.splitOn '\n' (render time indent s) ∧
        ∀ m : Metadata, linesFromGap (render time indent (s.describedBy m)) =
          linesFromGap (render time indent s) := by
  refine ⟨?_, ?_, ?_⟩
  · intro line hl
    rw [linesBeforeGap_render] at hl
    exact (header_isComment hl).1
  · rw [splitOn_render]
    exact List.mem_append_right _ List.mem_cons_self
  · intro m
    rw [linesFromGap_render, linesFromGap_render]
    rfl

end Script
end SchemaScript
