/- Searching: where a word occurs first, and that nothing is lost around it. -/
import SchemaScript.Text.Blank
import Mathlib.Data.List.Infix
import Mathlib.Data.List.TakeWhile

namespace SchemaScript.Text

theorem cutBefore?_eq_none {word t : Text} : cutBefore? word t = none ↔ ¬ word <:+: t := by
  induction t with
  | nil => simp [cutBefore?]
  | cons c rest ih =>
      rw [cutBefore?, List.infix_cons_iff]
      split
      · next h => simp [List.isPrefixOf_iff_prefix.1 h]
      · next h =>
        have hnot : ¬ word <+: c :: rest := fun hp => h (List.isPrefixOf_iff_prefix.2 hp)
        simp [hnot, ih]

/-- The word stands at the head of the second part, and nowhere further to the left. -/
theorem eq_of_cutBefore? {word t before fromWord : Text} (hw : word ≠ [])
    (h : cutBefore? word t = some (before, fromWord)) :
    t = before ++ fromWord ∧ word <+: fromWord ∧ ¬ word <:+: before := by
  induction t generalizing before with
  | nil => simp [cutBefore?, hw] at h
  | cons c rest ih =>
      rw [cutBefore?] at h
      split at h
      · next hp =>
        cases h
        refine ⟨rfl, List.isPrefixOf_iff_prefix.1 hp, ?_⟩
        rw [List.infix_nil]
        exact hw
      · next hp =>
        obtain ⟨⟨before', fromWord'⟩, hcut, he⟩ := Option.map_eq_some_iff.1 h
        cases he
        obtain ⟨rfl, hword, hbefore⟩ := ih hcut
        refine ⟨rfl, hword, ?_⟩
        rw [List.infix_cons_iff]
        rintro (hhead | hlater)
        · refine hp (List.isPrefixOf_iff_prefix.2 (hhead.trans ?_))
          exact List.prefix_append (c :: before') fromWord
        · exact hbefore hlater

theorem cutAt?_eq_none {p : Char → Bool} {t : Text} :
    cutAt? p t = none ↔ ∀ c ∈ t, p c = false := by
  induction t with
  | nil => simp [cutAt?]
  | cons c rest ih =>
      rw [cutAt?, List.forall_mem_cons, ← ih]
      cases p c <;> simp

/-- The two sides of a cut, and the character of the class that stood between them. -/
theorem cutAt?_eq_some {p : Char → Bool} {t a b : Text} :
    cutAt? p t = some (a, b) ↔ ∃ c, p c = true ∧ t = a ++ c :: b ∧ ∀ x ∈ a, p x = false := by
  induction t generalizing a with
  | nil => simp [cutAt?]
  | cons c rest ih =>
      rw [cutAt?]
      cases hc : p c with
      | true =>
          constructor
          · intro h
            cases h
            exact ⟨c, hc, rfl, fun _ hx => (List.not_mem_nil hx).elim⟩
          · rintro ⟨d, hd, ht, ha⟩
            cases a with
            | nil =>
                cases ht
                rfl
            | cons x a =>
                cases ht
                rw [ha c List.mem_cons_self] at hc
                cases hc
      | false =>
          constructor
          · intro h
            obtain ⟨⟨a', b'⟩, hcut, he⟩ := Option.map_eq_some_iff.1 h
            cases he
            obtain ⟨d, hd, rfl, ha⟩ := ih.1 hcut
            exact ⟨d, hd, rfl, List.forall_mem_cons.2 ⟨hc, ha⟩⟩
          · rintro ⟨d, hd, ht, ha⟩
            cases a with
            | nil =>
                cases ht
                rw [hc] at hd
                cases hd
            | cons x a =>
                cases ht
                have hcut := ih.2 ⟨d, hd, rfl, (List.forall_mem_cons.1 ha).2⟩
                rw [hcut]
                rfl

theorem after?_eq_some {start t rest : Text} : after? start t = some rest ↔ t = start ++ rest := by
  induction start generalizing t with
  | nil => simp [after?, eq_comm]
  | cons s start ih =>
      cases t with
      | nil => simp [after?]
      | cons c t =>
          rw [after?]
          by_cases hc : s = c
          · simp [hc, ih]
          · simp [hc, Ne.symm hc]

theorem mem_dropWhile {p : Char → Bool} {c : Char} {t : Text} (hc : p c = false) (h : c ∈ t) :
    c ∈ t.dropWhile p := by
  rw [← List.takeWhile_append_dropWhile (p := p) (l := t), List.mem_append] at h
  rcases h with h | h
  · rw [List.mem_takeWhile_imp h] at hc
    cases hc
  · exact h

/-- Trimming takes nothing but white space. -/
theorem mem_trim {c : Char} {t : Text} (hc : SchemaScript.isBlank c = false) (h : c ∈ t) :
    c ∈ trim t := by
  unfold trim trimEnd trimStart dropRightWhile
  rw [List.mem_reverse]
  apply mem_dropWhile hc
  rw [List.mem_reverse]
  exact mem_dropWhile hc h

end SchemaScript.Text
