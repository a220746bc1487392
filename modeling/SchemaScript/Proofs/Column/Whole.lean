/- Whole tokens: each token of a text that ends outside literals and groups is a text of one token, and
   such tokens are found again in the text that joins them. -/
import SchemaScript.Proofs.Column.Tokens
import SchemaScript.Proofs.Text.Trim

namespace SchemaScript.Column

/-- A text that is one token and ends outside every literal and every group. -/
structure Whole (w : Text) : Prop where
  ne_nil : w ≠ []
  single : pieces .start w = (w, [])
  outer : (Place.start.afterText w).IsOuter

theorem Place.after_blank_start {c : Char} (hc : isBlank c = true) : start.after c = start := by
  have hopen : c ≠ '(' := by
    rintro rfl
    exact absurd hc (by decide)
  have hclose : c ≠ ')' := by
    rintro rfl
    exact absurd hc (by decide)
  simp [start, after, not_opensQuote_of_isBlank hc, hopen, hclose]

/-- The pieces of a text that ends outside have no separator in them, and each of them ends outside. -/
theorem pieces_whole {p : Place} {t : Text} (houter : (p.afterText t).IsOuter) :
    pieces p (pieces p t).1 = ((pieces p t).1, []) ∧ (p.afterText (pieces p t).1).IsOuter ∧
      ∀ w ∈ (pieces p t).2, pieces .start w = (w, []) ∧ (Place.start.afterText w).IsOuter := by
  induction t generalizing p with
  | nil => exact ⟨rfl, houter, fun _ h => nomatch h⟩
  | cons c t ih =>
      obtain ⟨hfirst, hends, hlater⟩ := ih (p := p.after c) houter
      cases hc : p.separates c with
      | true =>
          -- A separator stands at an outer place, and the next piece starts at one.
          obtain ⟨hp, hblank⟩ := Bool.and_eq_true_iff.1 hc
          obtain rfl := Place.eq_start_of_isOuter (of_decide_eq_true hp)
          rw [Place.after_blank_start hblank] at hfirst hends hlater
          have hpieces : pieces .start (c :: t) = ([], (pieces .start t).1 :: (pieces .start t).2) := by
            rw [pieces, Place.after_blank_start hblank, hc]
            rfl
          rw [hpieces]
          exact ⟨rfl, ⟨rfl, rfl⟩, List.forall_mem_cons.2 ⟨⟨hfirst, hends⟩, hlater⟩⟩
      | false =>
          have hpieces : pieces p (c :: t) = (c :: (pieces (p.after c) t).1, (pieces (p.after c) t).2) := by
            rw [pieces, hc]
            rfl
          rw [hpieces]
          refine ⟨?_, hends, hlater⟩
          rw [pieces, hc, hfirst]
          rfl

/-- The tokens of a text that ends outside are whole. -/
theorem whole_of_mem_tokenize {t w : Text} (houter : (Place.start.afterText t).IsOuter)
    (h : w ∈ tokenize t) : Whole w := by
  obtain ⟨hfirst, hends, hlater⟩ := pieces_whole houter
  rw [tokenize_eq_filter, List.mem_filter] at h
  obtain ⟨hmem, hne⟩ := h
  have hne : w ≠ [] := by simpa using hne
  rcases List.mem_cons.1 hmem with rfl | hmem
  · exact ⟨hne, hfirst, hends⟩
  · exact ⟨hne, (hlater w hmem).1, (hlater w hmem).2⟩

theorem tokenize_of_single {w : Text} (hne : w ≠ []) (h : pieces .start w = (w, [])) :
    tokenize w = [w] := by
  rw [tokenize_eq_filter, allPieces, h]
  simp [hne]

theorem Whole.tokenize_eq {w : Text} (h : Whole w) : tokenize w = [w] :=
  tokenize_of_single h.ne_nil h.single

/-- No blank stands at either end of a whole token. -/
theorem Whole.trimmed {w : Text} (h : Whole w) : Text.Trimmed w := by
  have hfirst : ¬ ∀ c ∈ w.head?, isBlank c = true := by
    rw [← first_eq_nil_iff, h.single]
    exact h.ne_nil
  have hlast : ¬ ∀ c ∈ w.getLast?, isBlank c = true := by
    have hpieces : (allPieces .start w).getLast? = some w := by
      rw [allPieces, h.single]
      rfl
    rw [← last_eq_nil_iff h.outer hpieces]
    exact h.ne_nil
  refine ⟨h.ne_nil, fun c hc => ?_, fun c hc => ?_⟩
  · refine Bool.eq_false_iff.2 fun hblank => hfirst fun d hd => ?_
    rwa [Option.mem_unique hd hc]
  · refine Bool.eq_false_iff.2 fun hblank => hlast fun d hd => ?_
    rwa [Option.mem_unique hd hc]

/-- White space in front of a text changes none of its tokens. -/
theorem tokenize_blank_append {g : Text} (h : ∀ c ∈ g, isBlank c = true) (t : Text) :
    tokenize (g ++ t) = tokenize t := by
  induction g with
  | nil => rfl
  | cons c g ih =>
      obtain ⟨hc, hg⟩ := List.forall_mem_cons.1 h
      rw [List.cons_append, tokenize_eq_filter, allPieces_cons, Place.after_blank_start hc, if_pos]
      · exact ih hg
      · simp [Place.separates, hc, Place.IsOuter, Place.start]

/-- White space behind an outer place parts the tokens before it from those behind it. -/
theorem tokenize_append_blanks {l w : Text} (houter : (Place.start.afterText l).IsOuter)
    (hne : w ≠ []) (hblank : ∀ c ∈ w, isBlank c = true) (r : Text) :
    tokenize (l ++ (w ++ r)) = tokenize l ++ tokenize r := by
  have happart : Apart l (w ++ r) := by
    refine .inr fun c hc => hblank c ?_
    rw [List.head?_append_of_ne_nil _ hne] at hc
    exact List.mem_of_mem_head? hc
  rw [tokenize_append houter happart, tokenize_blank_append hblank]

/-- Texts that are found again where spaces join them: each is its own only token, and each but the last
ends outside literals and groups. -/
structure Rejoinable (ws : List Text) : Prop where
  single : ∀ w ∈ ws, tokenize w = [w]
  outer : ∀ w ∈ ws.dropLast, (Place.start.afterText w).IsOuter

theorem Rejoinable.tokenize_join {ws : List Text} (h : Rejoinable ws) :
    tokenize (Text.join [' '] ws) = ws := by
  induction ws with
  | nil => rfl
  | cons w ws ih =>
      obtain ⟨hw, hws⟩ := List.forall_mem_cons.1 h.single
      cases ws with
      | nil => exact hw
      | cons v ws =>
          obtain ⟨houter, hlater⟩ := List.forall_mem_cons.1 h.outer
          have hspace : ∀ c ∈ [' '], isBlank c = true := List.forall_mem_singleton.2 rfl
          rw [Text.join, List.append_assoc,
            tokenize_append_blanks houter (List.cons_ne_nil _ _) hspace, hw, ih ⟨hws, hlater⟩]
          rfl

/-- Whole tokens are found again in the text that joins them by spaces. -/
theorem tokenize_join {ws : List Text} (h : ∀ w ∈ ws, Whole w) :
    tokenize (Text.join [' '] ws) = ws := by
  refine Rejoinable.tokenize_join ⟨fun w hw => (h w hw).tokenize_eq, fun w hw => ?_⟩
  exact (h w (List.mem_of_mem_dropLast hw)).outer

theorem trimmed_join {ws : List Text} (hne : ws ≠ []) (h : ∀ w ∈ ws, Whole w) :
    Text.Trimmed (Text.join [' '] ws) := by
  induction ws with
  | nil => exact absurd rfl hne
  | cons w ws ih =>
      obtain ⟨hw, hws⟩ := List.forall_mem_cons.1 h
      cases ws with
      | nil => exact hw.trimmed
      | cons v ws =>
          have hlater := ih (List.cons_ne_nil v ws) hws
          rw [Text.join, List.append_assoc]
          refine ⟨by simp [hw.ne_nil], ?_, ?_⟩
          · rw [List.head?_append_of_ne_nil _ hw.ne_nil]
            exact hw.trimmed.first
          · rw [List.getLast?_append_of_ne_nil _ (by simp), List.getLast?_append_of_ne_nil _ hlater.ne_nil]
            exact hlater.last

end SchemaScript.Column
