/- Tokens of two texts put together: what an outer place between them keeps apart, and where the two
   words beside it become one. -/
import SchemaScript.Column.Token
import Mathlib.Data.List.Induction

namespace SchemaScript.Column

namespace Place

/-- A literal that is open was opened by one of the quotes. -/
def Proper (p : Place) : Prop :=
  match p.quoting with
  | .outside => True
  | .inside q _ => opensQuote q = true

theorem Proper.after {p : Place} (h : p.Proper) (c : Char) : (p.after c).Proper := by
  obtain ⟨quoting, depth⟩ := p
  fun_cases Place.after ⟨quoting, depth⟩ c <;> simp_all [Proper]

theorem Proper.afterText {p : Place} (h : p.Proper) (t : Text) : (p.afterText t).Proper := by
  induction t generalizing p with
  | nil => exact h
  | cons c t ih => exact ih (h.after c)

theorem proper_afterText_start (t : Text) : (start.afterText t).Proper :=
  Proper.afterText (p := start) trivial t

theorem afterText_append (p : Place) (l r : Text) :
    p.afterText (l ++ r) = (p.afterText l).afterText r := List.foldl_append

theorem eq_start_of_isOuter {p : Place} (h : p.IsOuter) : p = start := by
  obtain ⟨quoting, depth⟩ := p
  obtain ⟨hquoting, hdepth⟩ := h
  cases hquoting
  cases hdepth
  rfl

theorem not_opensQuote_of_isBlank {c : Char} (h : isBlank c = true) : opensQuote c = false := by
  rw [Bool.eq_false_iff]
  intro hopens
  simp only [opensQuote, Bool.or_eq_true, beq_iff_eq] at hopens
  rcases hopens with (rfl | rfl) | rfl <;> exact absurd h (by decide)

/-- A blank leads out of no literal and no group. -/
theorem isOuter_of_after {p : Place} {c : Char} (hp : p.Proper) (hc : isBlank c = true)
    (h : (p.after c).IsOuter) : p.IsOuter := by
  have hquote := not_opensQuote_of_isBlank hc
  have hopen : c ≠ '(' := by
    rintro rfl
    exact absurd hc (by decide)
  have hclose : c ≠ ')' := by
    rintro rfl
    exact absurd hc (by decide)
  obtain ⟨quoting, depth⟩ := p
  cases quoting with
  | outside => simpa [after, hquote, hopen, hclose] using h
  | inside q escaped =>
      have hne : c ≠ q := by
        rintro rfl
        rw [show opensQuote c = true from hp] at hquote
        cases hquote
      cases escaped with
      | true => exact absurd h.1 (by simp [after])
      | false =>
          refine absurd h.1 ?_
          by_cases hescape : c = '\\' ∧ q ≠ '\x60'
          · simp [after, hescape]
          · simp [after, hescape, hne]

theorem separates_iff {p : Place} {c : Char} (hp : p.Proper) (h : (p.after c).IsOuter) :
    p.separates c = isBlank c := by
  cases hc : isBlank c with
  | false => simp [separates, hc]
  | true => simp [separates, hc, isOuter_of_after hp hc h]

end Place

/-- All pieces of a text, of which there is always a first. -/
def allPieces (p : Place) (t : Text) : List Text := (pieces p t).1 :: (pieces p t).2

theorem tokenize_eq_filter (t : Text) :
    tokenize t = (allPieces .start t).filter fun piece => !piece.isEmpty := rfl

theorem allPieces_cons (p : Place) (c : Char) (t : Text) :
    allPieces p (c :: t) =
      if p.separates c then [] :: allPieces (p.after c) t
      else (c :: (pieces (p.after c) t).1) :: (pieces (p.after c) t).2 := by
  cases hc : p.separates c <;> simp [allPieces, pieces, hc]

/-- The pieces of a text put together are those of its parts, but that the last piece of the first part
goes on with the first piece of the second. -/
theorem exists_allPieces_append (p : Place) (l : Text) :
    ∃ front last, allPieces p l = front ++ [last] ∧ ∀ r, allPieces p (l ++ r) =
      front ++ (last ++ (pieces (p.afterText l) r).1) :: (pieces (p.afterText l) r).2 := by
  induction l generalizing p with
  | nil => exact ⟨[], [], rfl, fun r => rfl⟩
  | cons c l ih =>
      obtain ⟨front, last, hl, happend⟩ := ih (p.after c)
      -- A separator opens a piece of its own; any other character goes to the first piece, which is
      -- the last one too while there is no other.
      cases hc : p.separates c with
      | true =>
          refine ⟨[] :: front, last, ?_, fun r => ?_⟩
          · rw [allPieces_cons, if_pos hc, hl, List.cons_append]
          · rw [List.cons_append, allPieces_cons, if_pos hc, happend r, List.cons_append]
            rfl
      | false =>
          have hnot : ¬ p.separates c = true := by simp [hc]
          cases front with
          | nil =>
              obtain ⟨hfirst, hlater⟩ := List.cons.inj hl
              refine ⟨[], c :: last, ?_, fun r => ?_⟩
              · rw [allPieces_cons, if_neg hnot, hfirst, hlater]
                rfl
              · obtain ⟨hfirst, hlater⟩ := List.cons.inj (happend r)
                rw [List.cons_append, allPieces_cons, if_neg hnot, hfirst, hlater]
                rfl
          | cons piece front =>
              obtain ⟨hfirst, hlater⟩ := List.cons.inj hl
              refine ⟨(c :: piece) :: front, last, ?_, fun r => ?_⟩
              · rw [allPieces_cons, if_neg hnot, hfirst, hlater]
                rfl
              · obtain ⟨hfirst, hlater⟩ := List.cons.inj (happend r)
                rw [List.cons_append, allPieces_cons, if_neg hnot, hfirst, hlater]
                rfl

/-- Nothing or white space stands on one of the two sides of a cut. -/
def Apart (l r : Text) : Prop :=
  (∀ c ∈ l.getLast?, isBlank c = true) ∨ ∀ c ∈ r.head?, isBlank c = true

theorem apart_iff_all {l r : Text} :
    (l.getLast?.all isBlank || r.head?.all isBlank) = true ↔ Apart l r := by
  unfold Apart
  cases l.getLast? <;> cases r.head? <;> simp

instance (l r : Text) : Decidable (Apart l r) := decidable_of_iff _ apart_iff_all

theorem pieces_singleton (p : Place) (c : Char) :
    pieces p [c] = if p.separates c then ([], [[]]) else ([c], []) := rfl

/-- Up to an outer place the last piece is empty where nothing or a blank stands at the end. -/
theorem last_eq_nil_iff {l last : Text} (houter : (Place.start.afterText l).IsOuter)
    (h : (allPieces .start l).getLast? = some last) :
    last = [] ↔ ∀ c ∈ l.getLast?, isBlank c = true := by
  cases l using List.reverseRecOn with
  | nil =>
      have hlast : last = [] := (Option.some.inj h).symm
      simp [hlast]
  | append_singleton before c =>
      obtain ⟨front, piece, -, happend⟩ := exists_allPieces_append .start before
      rw [Place.afterText_append] at houter
      have hseparates := Place.separates_iff (Place.proper_afterText_start before) houter
      rw [happend, pieces_singleton, hseparates] at h
      cases hc : isBlank c with
      | true =>
          rw [hc] at h
          have hlast : last = [] := by simpa using h.symm
          simp [hlast, hc]
      | false =>
          rw [hc] at h
          have hlast : last = piece ++ [c] := by simpa using h.symm
          simp [hlast, hc]

theorem first_eq_nil_iff (r : Text) :
    (pieces .start r).1 = [] ↔ ∀ c ∈ r.head?, isBlank c = true := by
  cases r with
  | nil => simp [pieces]
  | cons c r => cases hc : isBlank c <;> simp [pieces, Place.separates, Place.IsOuter, Place.start, hc]

/-- Behind an outer place tokens start anew, unless a word reaches over it. -/
theorem tokenize_append {l r : Text} (houter : (Place.start.afterText l).IsOuter) (h : Apart l r) :
    tokenize (l ++ r) = tokenize l ++ tokenize r := by
  obtain ⟨front, last, hl, happend⟩ := exists_allPieces_append .start l
  have hlast := last_eq_nil_iff houter (by rw [hl, List.getLast?_concat])
  rw [tokenize_eq_filter, tokenize_eq_filter l, tokenize_eq_filter r, happend,
    Place.eq_start_of_isOuter houter, hl, allPieces, List.filter_append, List.filter_append,
    List.append_assoc]
  congr 1
  rcases h with h | h
  · rw [hlast.2 h]
    rfl
  · rw [(first_eq_nil_iff r).2 h, List.append_nil]
    exact List.filter_append [last] (pieces .start r).2

/-- A word that reaches over an outer place makes one token of two. -/
theorem tokenize_fused {l r : Text} (houter : (Place.start.afterText l).IsOuter)
    (h : ¬ Apart l r) : ∃ front a b back, a ≠ [] ∧ b ≠ [] ∧ tokenize l = front ++ [a] ∧
      tokenize r = b :: back ∧ tokenize (l ++ r) = front ++ (a ++ b) :: back := by
  obtain ⟨front, last, hl, happend⟩ := exists_allPieces_append .start l
  have hlast := last_eq_nil_iff houter (by rw [hl, List.getLast?_concat])
  obtain ⟨hnotLast, hnotFirst⟩ := not_or.1 h
  have ha : last ≠ [] := fun he => hnotLast (hlast.1 he)
  have hb : (pieces .start r).1 ≠ [] := fun he => hnotFirst ((first_eq_nil_iff r).1 he)
  refine ⟨front.filter fun piece => !piece.isEmpty, last, (pieces .start r).1,
    (pieces .start r).2.filter fun piece => !piece.isEmpty, ha, hb, ?_, ?_, ?_⟩
  · rw [tokenize_eq_filter, hl]
    simp [ha]
  · rw [tokenize_eq_filter, allPieces]
    simp [hb]
  · rw [tokenize_eq_filter, happend, Place.eq_start_of_isOuter houter]
    simp [ha]

end SchemaScript.Column
