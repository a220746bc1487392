/- Outer places without the scanner: a place is outside every literal if what is before it consists of
   complete literals and characters that are no quotes, and outside every group if no end of these
   characters opens more parentheses than it closes. -/
import SchemaScript.Proofs.Column.Tokens

namespace SchemaScript.Column

/-- What may stand between two quotes: any character but the quote, and behind a backslash any character
at all. Between backquotes a backslash is a character like others. -/
inductive Contents (q : Char) : Text → Prop
  | nil : Contents q []
  | char {c : Char} {t : Text} (hquote : c ≠ q) (hplain : c = '\\' → q = '\x60') (h : Contents q t) :
      Contents q (c :: t)
  | escape {c : Char} {t : Text} (hq : q ≠ '\x60') (h : Contents q t) : Contents q ('\\' :: c :: t)

/-- The characters that a literal starts and ends with. -/
def IsQuote (c : Char) : Prop := c = '\'' ∨ c = '"' ∨ c = '\x60'

/-- A text in which all literals are complete, and what is left of it without them. -/
inductive Bared : (text bare : Text) → Prop
  | nil : Bared [] []
  | char {c : Char} {t bare : Text} (hc : ¬ IsQuote c) (h : Bared t bare) : Bared (c :: t) (c :: bare)
  | literal {q : Char} {inner t bare : Text} (hq : IsQuote q) (hinner : Contents q inner)
      (h : Bared t bare) : Bared (q :: (inner ++ q :: t)) bare

/-- All literals are complete, and each parenthesis that is opened outside of them is closed behind it.
A closing one that closes nothing does not count for those that are opened later. -/
def Outermost (t : Text) : Prop :=
  ∃ bare, Bared t bare ∧ ∀ back, back <:+ bare → back.count '(' ≤ back.count ')'

theorem opensQuote_iff {c : Char} : Place.opensQuote c = true ↔ IsQuote c := by
  simp [Place.opensQuote, IsQuote, or_assoc]

section
variable {q c : Char} {depth : Nat} {t : Text}

theorem afterText_cons (p : Place) : p.afterText (c :: t) = (p.after c).afterText t := rfl

theorem after_opening (hq : Place.opensQuote q = true) :
    (⟨.outside, depth⟩ : Place).after q = ⟨.inside q false, depth⟩ := by
  simp [Place.after, hq]

theorem after_backslash (hq : q ≠ '\x60') :
    (⟨.inside q false, depth⟩ : Place).after '\\' = ⟨.inside q true, depth⟩ := by
  simp [Place.after, hq]

theorem after_closing (hq : Place.opensQuote q = true) :
    (⟨.inside q false, depth⟩ : Place).after q = ⟨.outside, depth⟩ := by
  have hslash : q ≠ '\\' := by
    rintro rfl
    exact absurd hq (by decide)
  simp [Place.after, hslash]

theorem after_inside (hquote : c ≠ q) (hplain : c = '\\' → q = '\x60') :
    (⟨.inside q false, depth⟩ : Place).after c = ⟨.inside q false, depth⟩ := by
  have hnot : ¬ (c = '\\' ∧ q ≠ '\x60') := fun h => h.2 (hplain h.1)
  simp [Place.after, hnot, hquote]

theorem Contents.afterText {inner : Text} (h : Contents q inner) (hq : Place.opensQuote q = true) :
    (⟨.inside q false, depth⟩ : Place).afterText (inner ++ q :: t) =
      (⟨.outside, depth⟩ : Place).afterText t := by
  induction h with
  | nil => rw [List.nil_append, afterText_cons, after_closing hq]
  | char hquote hplain _ ih => rw [List.cons_append, afterText_cons, after_inside hquote hplain, ih]
  | escape hback _ ih =>
      rw [List.cons_append, List.cons_append, afterText_cons, after_backslash hback, afterText_cons]
      exact ih

/-- The parentheses that are open behind a text without literals. -/
def unclosed (depth : Nat) (bare : Text) : Nat :=
  bare.foldl (fun depth c => if c = '(' then depth + 1 else if c = ')' then depth - 1 else depth) depth

theorem after_bare (hc : ¬ IsQuote c) :
    (⟨.outside, depth⟩ : Place).after c = ⟨.outside, unclosed depth [c]⟩ := by
  have hplain : Place.opensQuote c = false := by
    rw [Bool.eq_false_iff]
    exact fun h => hc (opensQuote_iff.1 h)
  simp only [Place.after, hplain, Bool.false_eq_true, if_false, unclosed, List.foldl_cons, List.foldl_nil]
  by_cases hopen : c = '('
  · rw [if_pos hopen, if_pos hopen]
  · rw [if_neg hopen, if_neg hopen]
    by_cases hclose : c = ')'
    · rw [if_pos hclose, if_pos hclose]
    · rw [if_neg hclose, if_neg hclose]

theorem Bared.afterText {bare : Text} (h : Bared t bare) :
    (⟨.outside, depth⟩ : Place).afterText t = ⟨.outside, unclosed depth bare⟩ := by
  induction h generalizing depth with
  | nil => rfl
  | char hc _ ih =>
      rw [afterText_cons, after_bare hc, ih]
      rfl
  | literal hq hinner _ ih =>
      have hopens := opensQuote_iff.2 hq
      rw [afterText_cons, after_opening hopens, hinner.afterText hopens, ih]

/-- What leads outside from a place: the rest of the literal that is open there, if one is, and then
complete literals. Behind a backslash the first character is escaped. -/
def Quoting.LeadsOutside : Quoting → Text → Prop
  | .outside, t => ∃ bare, Bared t bare
  | .inside q escaped, t => ∃ front inner behind bare, t = front ++ (inner ++ q :: behind) ∧
      front.length = escaped.toNat ∧ Contents q inner ∧ Bared behind bare

theorem leadsOutside_of_afterText {p : Place} (hp : p.Proper)
    (h : (p.afterText t).quoting = .outside) : p.quoting.LeadsOutside t := by
  induction t generalizing p with
  | nil =>
      have hquoting : p.quoting = .outside := h
      rw [hquoting]
      exact ⟨[], .nil⟩
  | cons c t ih =>
      have hrest := ih (hp.after c) h
      obtain ⟨quoting, depth⟩ := p
      cases quoting with
      | outside =>
          by_cases hc : IsQuote c
          · rw [after_opening (opensQuote_iff.2 hc)] at hrest
            obtain ⟨front, inner, behind, bare, rfl, hfront, hinner, hbare⟩ := hrest
            obtain rfl := List.eq_nil_of_length_eq_zero hfront
            exact ⟨bare, .literal hc hinner hbare⟩
          · rw [after_bare hc] at hrest
            obtain ⟨bare, hbare⟩ := hrest
            exact ⟨c :: bare, .char hc hbare⟩
      | inside q escaped =>
          cases escaped with
          | true =>
              obtain ⟨front, inner, behind, bare, rfl, hfront, hinner, hbare⟩ := hrest
              obtain rfl := List.eq_nil_of_length_eq_zero hfront
              exact ⟨[c], inner, behind, bare, rfl, rfl, hinner, hbare⟩
          | false =>
              by_cases hescape : c = '\\' ∧ q ≠ '\x60'
              · obtain ⟨rfl, hq⟩ := hescape
                rw [after_backslash hq] at hrest
                obtain ⟨front, inner, behind, bare, rfl, hfront, hinner, hbare⟩ := hrest
                obtain ⟨d, rfl⟩ := List.length_eq_one_iff.1 hfront
                exact ⟨[], '\\' :: d :: inner, behind, bare, rfl, rfl, .escape hq hinner, hbare⟩
              · have hplain : c = '\\' → q = '\x60' := fun hc => by_contra fun hq => hescape ⟨hc, hq⟩
                by_cases hquote : c = q
                · obtain rfl := hquote
                  rw [after_closing hp] at hrest
                  obtain ⟨bare, hbare⟩ := hrest
                  exact ⟨[], [], t, bare, rfl, rfl, .nil, hbare⟩
                · rw [after_inside hquote hplain] at hrest
                  obtain ⟨front, inner, behind, bare, rfl, hfront, hinner, hbare⟩ := hrest
                  obtain rfl := List.eq_nil_of_length_eq_zero hfront
                  exact ⟨[], c :: inner, behind, bare, rfl, rfl, .char hquote hplain hinner, hbare⟩

/-- As many parentheses are open as some end of the text opens more than it closes. -/
theorem unclosed_le_iff {bare : Text} {n : Nat} :
    unclosed 0 bare ≤ n ↔ ∀ back, back <:+ bare → back.count '(' ≤ back.count ')' + n := by
  induction bare using List.reverseRecOn generalizing n with
  | nil => simp [unclosed]
  | append_singleton bare c ih =>
      have hends : (∀ back, back <:+ bare ++ [c] → back.count '(' ≤ back.count ')' + n) ↔
          ∀ back, back <:+ bare →
            back.count '(' + [c].count '(' ≤ back.count ')' + [c].count ')' + n := by
        constructor
        · intro h back hback
          simpa only [List.count_append] using h (back ++ [c])
            (List.suffix_concat_iff.2 (.inr ⟨back, rfl, hback⟩))
        · intro h back hback
          rcases List.suffix_concat_iff.1 hback with rfl | ⟨front, rfl, hfront⟩
          · simp
          · simpa only [List.count_append] using h front hfront
      have hlast : unclosed 0 (bare ++ [c]) = unclosed (unclosed 0 bare) [c] := List.foldl_append
      rw [hends, hlast]
      by_cases hopen : c = '('
      · obtain rfl := hopen
        cases n with
        | zero =>
            -- Already the last character opens one.
            refine iff_of_false (by simp [unclosed]) fun h => ?_
            simpa using h [] List.nil_suffix
        | succ n => simpa [unclosed, ← Nat.add_assoc] using ih (n := n)
      · by_cases hclose : c = ')'
        · obtain rfl := hclose
          simpa [unclosed, Nat.add_assoc, Nat.add_comm 1] using ih (n := n + 1)
        · simpa [unclosed, hopen, hclose] using ih (n := n)

/-- The scanner is outside literals and groups exactly at the outermost places. -/
theorem isOuter_iff_outermost : (Place.start.afterText t).IsOuter ↔ Outermost t := by
  constructor
  · rintro ⟨hquoting, hdepth⟩
    obtain ⟨bare, hbare⟩ := leadsOutside_of_afterText (p := .start) trivial hquoting
    have hplace : Place.start.afterText t = ⟨.outside, unclosed 0 bare⟩ := hbare.afterText
    rw [hplace] at hdepth
    exact ⟨bare, hbare, unclosed_le_iff.1 (Nat.le_of_eq hdepth)⟩
  · rintro ⟨bare, hbare, hends⟩
    have hzero := Nat.le_zero.1 (unclosed_le_iff.2 hends)
    have hplace : Place.start.afterText t = ⟨.outside, unclosed 0 bare⟩ := hbare.afterText
    rw [hplace, hzero]
    exact ⟨rfl, rfl⟩

instance : Decidable (Outermost t) := decidable_of_iff _ isOuter_iff_outermost

example : Outermost ") (a) '\\'('".toList ∧ ¬ Outermost "(a) (b".toList := by decide

end

end SchemaScript.Column
