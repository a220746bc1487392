/- Quoted literals: a literal stays in one token whatever it holds, a token with a quote in it has no role,
   and sorting goes by roles alone. So the words in a literal are no markers. -/
import SchemaScript.Proofs.Column.Outermost
import SchemaScript.Proofs.Column.Sorting
import Mathlib.Data.List.Forall2

namespace SchemaScript.Column

/-- A character that belongs to no literal and no group by itself. -/
def Neutral (c : Char) : Prop := Place.opensQuote c = false ∧ c ≠ '(' ∧ c ≠ ')'

instance (c : Char) : Decidable (Neutral c) := inferInstanceAs (Decidable (_ ∧ _ ∧ _))

theorem Neutral.after_start {c : Char} (h : Neutral c) : Place.start.after c = .start := by
  obtain ⟨hquote, hopen, hclose⟩ := h
  simp [Place.after, Place.start, hquote, hopen, hclose]

theorem neutral_of_isBlank {c : Char} (h : isBlank c = true) : Neutral c := by
  refine ⟨Place.not_opensQuote_of_isBlank h, ?_, ?_⟩ <;> rintro rfl <;> exact absurd h (by decide)

/-- Quotes and parentheses are their own lower case. -/
theorem neutral_of_toLower {c : Char} (h : Neutral c.toLower) : Neutral c := by
  refine ⟨?_, ?_, ?_⟩
  · rw [Bool.eq_false_iff]
    intro hopens
    simp only [Place.opensQuote, Bool.or_eq_true, beq_iff_eq] at hopens
    rcases hopens with (rfl | rfl) | rfl <;> exact absurd h (by decide)
  · rintro rfl
    exact absurd h (by decide)
  · rintro rfl
    exact absurd h (by decide)

theorem neutral_of_role {w : Text} (h : role w ≠ .other) : ∀ c ∈ w, Neutral c := by
  obtain ⟨entry, hentry, -, hsame⟩ := exists_mem_of_role h
  have hwords : (roleWords.all fun entry => (Text.lower entry.1).all fun d =>
      decide (Neutral d)) = true := by
    decide +kernel
  rw [Text.sameIgnoringCase, beq_iff_eq] at hsame
  intro c hc
  have hlower : c.toLower ∈ Text.lower entry.1 := hsame ▸ List.mem_map_of_mem hc
  have hneutral := List.all_eq_true.1 (List.all_eq_true.1 hwords entry hentry) _ hlower
  exact neutral_of_toLower (of_decide_eq_true hneutral)

theorem role_eq_other {w : Text} {c : Char} (hc : c ∈ w) (h : ¬ Neutral c) : role w = .other := by
  by_contra hrole
  exact h (neutral_of_role hrole c hc)

theorem single_cons {p : Place} {c : Char} {t : Text} :
    pieces p (c :: t) = (c :: t, []) ↔
      p.separates c = false ∧ pieces (p.after c) t = (t, []) := by
  rw [pieces]
  generalize pieces (p.after c) t = rest
  obtain ⟨piece, later⟩ := rest
  cases p.separates c <;> simp

/-- A text is one piece exactly if no character of it separates. -/
theorem single_iff {p : Place} {t : Text} : pieces p t = (t, []) ↔
    ∀ before c behind, t = before ++ c :: behind → (p.afterText before).separates c = false := by
  induction t generalizing p with
  | nil => simp [pieces]
  | cons c t ih =>
      rw [single_cons, ih]
      constructor
      · rintro ⟨hc, ht⟩ before d behind heq
        cases before with
        | nil =>
            cases heq
            exact hc
        | cons b before =>
            cases heq
            exact ht before d behind rfl
      · intro h
        refine ⟨h [] c t rfl, ?_⟩
        rintro before d behind rfl
        exact h (c :: before) d behind rfl

/-- A text without separators goes on with what stands behind it. -/
theorem pieces_append_single {p : Place} {t : Text} (h : pieces p t = (t, [])) (s : Text) :
    pieces p (t ++ s) = (t ++ (pieces (p.afterText t) s).1, (pieces (p.afterText t) s).2) := by
  induction t generalizing p with
  | nil => rfl
  | cons c t ih =>
      obtain ⟨hc, ht⟩ := single_cons.1 h
      rw [List.cons_append, pieces, ih ht, hc]
      rfl

/-- A text between two quotes. -/
def quoted (q : Char) (t : Text) : Text := q :: (t ++ [q])

/-- What may stand between quotes without an escape. -/
def Clean (q : Char) (t : Text) : Prop := ∀ c ∈ t, c ≠ q ∧ c ≠ '\\'

theorem clean_iff {q : Char} {t : Text} :
    Clean q t ↔ (t.all fun c => c != q && c != '\\') = true := by
  simp [Clean]

instance (q : Char) (t : Text) : Decidable (Clean q t) := decidable_of_iff _ clean_iff.symm

section
variable {q : Char} {depth : Nat} {t : Text}

theorem Clean.contents (h : Clean q t) : Contents q t := by
  induction t with
  | nil => exact .nil
  | cons c t ih =>
      obtain ⟨hc, ht⟩ := List.forall_mem_cons.1 h
      exact .char hc.1 (fun hslash => absurd hslash hc.2) (ih ht)

theorem Clean.pieces_inside (h : Clean q t) :
    pieces ⟨.inside q false, depth⟩ (t ++ [q]) = (t ++ [q], []) := by
  induction t with
  | nil => rfl
  | cons c t ih =>
      obtain ⟨hc, ht⟩ := List.forall_mem_cons.1 h
      refine single_cons.2 ⟨rfl, ?_⟩
      rw [after_inside hc.1 fun hslash => absurd hslash hc.2]
      exact ih ht

theorem Clean.afterText_quoted (h : Clean q t) (hq : Place.opensQuote q = true) :
    (⟨.outside, depth⟩ : Place).afterText (quoted q t) = ⟨.outside, depth⟩ := by
  rw [quoted, afterText_cons, after_opening hq, h.contents.afterText hq]
  rfl

/-- No separator stands in a literal. -/
theorem Clean.pieces_quoted (h : Clean q t) (hq : Place.opensQuote q = true) :
    pieces ⟨.outside, depth⟩ (quoted q t) = (quoted q t, []) := by
  have hblank : isBlank q = false := by
    rw [Bool.eq_false_iff]
    intro hblank
    rw [Place.not_opensQuote_of_isBlank hblank] at hq
    cases hq
  refine single_cons.2 ⟨by simp [Place.separates, hblank], ?_⟩
  rw [after_opening hq]
  exact h.pieces_inside

end

/-- A literal stands in the same token among the same others, whatever is between its quotes. -/
theorem exists_tokenize_quoted {before : Text} {q : Char}
    (houtside : (Place.start.afterText before).quoting = .outside)
    (hq : Place.opensQuote q = true) (behind : Text) :
    ∃ front a b back, ∀ t, Clean q t →
      tokenize (before ++ (quoted q t ++ behind)) = front ++ (a ++ quoted q t ++ b) :: back := by
  obtain ⟨front, last, -, happend⟩ := exists_allPieces_append .start before
  generalize Place.start.afterText before = place at houtside happend
  obtain ⟨quoting, depth⟩ := place
  cases houtside
  let rest := pieces ⟨.outside, depth⟩ behind
  refine ⟨front.filter fun piece => !piece.isEmpty, last, rest.1,
    rest.2.filter fun piece => !piece.isEmpty, ?_⟩
  intro t ht
  have hpieces : pieces ⟨.outside, depth⟩ (quoted q t ++ behind) = (quoted q t ++ rest.1, rest.2) := by
    rw [pieces_append_single (ht.pieces_quoted hq), ht.afterText_quoted hq]
  rw [tokenize_eq_filter, happend, hpieces]
  simp [quoted]

/-- Sorted tokens that correspond to each other, with the same flags. -/
structure Alike (R : Text → Text → Prop) (p p' : Parts) : Prop where
  body : List.Forall₂ R p.body p'.body
  trailing : List.Forall₂ R p.trailing p'.trailing
  zerofill : p.zerofill = p'.zerofill
  nullability : p.nullability = p'.nullability
  autoIncrement : p.autoIncrement = p'.autoIncrement
  primary : p.primary = p'.primary
  unique : p.unique = p'.unique

section
variable {R : Text → Text → Prop}

theorem alike_nil : Alike R {} {} := ⟨.nil, .nil, rfl, rfl, rfl, rfl, rfl⟩

theorem Alike.mark {p p' : Parts} (h : Alike R p p') (kind : IndexKind) :
    Alike R (p.mark kind) (p'.mark kind) := by
  cases kind with
  | primary => exact { h with primary := rfl }
  | unique => exact { h with unique := rfl }

theorem head_ne_of_forall₂ (hR : ∀ w v, R w v → role w = role v) {ws vs : List Text}
    (h : List.Forall₂ R ws vs) {r : Role} (hne : ∀ next ∈ ws.head?, role next ≠ r) :
    ∀ next ∈ vs.head?, role next ≠ r := by
  cases h with
  | nil => exact hne
  | cons hw _ =>
      rintro _ ⟨⟩
      rw [← hR _ _ hw]
      exact hne _ rfl

/-- Tokens with the same roles are sorted alike. -/
theorem Sorts.alike (hR : ∀ w v, R w v → role w = role v) {b : Bool} {ws vs : List Text} {p : Parts}
    (h : Sorts b ws p) (hws : List.Forall₂ R ws vs) : ∃ p', Sorts b vs p' ∧ Alike R p p' := by
  induction h generalizing vs with
  | nil =>
      cases hws
      exact ⟨{}, .nil, alike_nil⟩
  | counter h _ ih =>
      cases hws with
      | cons hw hrest =>
          obtain ⟨p', hsorts, halike⟩ := ih hrest
          exact ⟨_, .counter (hR _ _ hw ▸ h) hsorts, { halike with autoIncrement := rfl }⟩
  | index h alone _ ih =>
      cases hws with
      | cons hw hrest =>
          obtain ⟨p', hsorts, halike⟩ := ih hrest
          exact ⟨_, .index (hR _ _ hw ▸ h) (head_ne_of_forall₂ hR hrest alone) hsorts, halike.mark _⟩
  | indexKey h hkey _ ih =>
      cases hws with
      | cons hw hrest =>
          cases hrest with
          | cons hw' hrest =>
              obtain ⟨p', hsorts, halike⟩ := ih hrest
              exact ⟨_, .indexKey (hR _ _ hw ▸ h) (hR _ _ hw' ▸ hkey) hsorts, halike.mark _⟩
  | unsigned h _ ih =>
      cases hws with
      | cons hw hrest =>
          obtain ⟨p', hsorts, halike⟩ := ih hrest
          exact ⟨_, .unsigned (hR _ _ hw ▸ h) hsorts, halike⟩
  | zerofill h _ ih =>
      cases hws with
      | cons hw hrest =>
          obtain ⟨p', hsorts, halike⟩ := ih hrest
          exact ⟨_, .zerofill (hR _ _ hw ▸ h) hsorts, { halike with zerofill := rfl }⟩
  | nullable h _ ih =>
      cases hws with
      | cons hw hrest =>
          obtain ⟨p', hsorts, halike⟩ := ih hrest
          exact ⟨_, .nullable (hR _ _ hw ▸ h) hsorts, { halike with nullability := rfl }⟩
  | trailing h hb _ ih =>
      cases hws with
      | cons hw hrest =>
          obtain ⟨p', hsorts, halike⟩ := ih hrest
          rw [hR _ _ hw] at h hb
          exact ⟨_, .trailing h hb hsorts, { halike with trailing := .cons hw halike.trailing }⟩
  | notNull h hnull _ ih =>
      cases hws with
      | cons hw hrest =>
          cases hrest with
          | cons hw' hrest =>
              obtain ⟨p', hsorts, halike⟩ := ih hrest
              exact ⟨_, .notNull (hR _ _ hw ▸ h) (hR _ _ hw' ▸ hnull) hsorts,
                { halike with nullability := rfl }⟩
  | null h _ ih =>
      cases hws with
      | cons hw hrest =>
          obtain ⟨p', hsorts, halike⟩ := ih hrest
          exact ⟨_, .null (hR _ _ hw ▸ h) hsorts, { halike with nullability := rfl }⟩
  | body h _ ih =>
      cases hws with
      | cons hw hrest =>
          obtain ⟨p', hsorts, halike⟩ := ih hrest
          rw [hR _ _ hw] at h
          refine ⟨_, .body (h.imp_right (.imp_right ?_)) hsorts,
            { halike with body := .cons hw halike.body }⟩
          exact fun hnot => ⟨hnot.1, head_ne_of_forall₂ hR hrest hnot.2⟩

theorem alike_sortTokens (hR : ∀ w v, R w v → role w = role v) {ws vs : List Text}
    (h : List.Forall₂ R ws vs) : Alike R (sortTokens false ws) (sortTokens false vs) := by
  obtain ⟨p', hsorts, halike⟩ := (sorts_sortTokens false ws).alike hR h
  rwa [sortTokens_eq_of_sorts hsorts]

end

/-- Two specifications with the same markers and with a trailing clause in both or in neither. -/
structure SameMarkers (s s' : Spec) : Prop where
  autoIncrement : s.autoIncrement = s'.autoIncrement
  primary : s.primary = s'.primary
  unique : s.unique = s'.unique
  zerofill : s.zerofill = s'.zerofill
  nullability : s.nullability = s'.nullability
  trailing : s.trailing.isSome = s'.trailing.isSome

theorem Alike.sameMarkers {R : Text → Text → Prop} {p p' : Parts} (h : Alike R p p') :
    SameMarkers p.spec p'.spec := by
  have hempty : p.trailing.isEmpty = p'.trailing.isEmpty := by
    rw [Bool.eq_iff_iff, List.isEmpty_iff_length_eq_zero, List.isEmpty_iff_length_eq_zero,
      h.trailing.length_eq]
  have htrailing : p.spec.trailing.isSome = p'.spec.trailing.isSome := by
    unfold Parts.spec
    simp only [hempty]
    split <;> rfl
  exact ⟨h.autoIncrement, h.primary, h.unique, h.zerofill, h.nullability, htrailing⟩

/-- What stands between the quotes of a literal changes no marker, and no token but the one that holds
the literal. -/
theorem scan_literal {before behind x y : Text} {q : Char}
    (houtside : (Place.start.afterText before).quoting = .outside)
    (hq : Place.opensQuote q = true) (hx : Clean q x) (hy : Clean q y) :
    SameMarkers (scan (before ++ (quoted q x ++ behind))) (scan (before ++ (quoted q y ++ behind))) ∧
      ∃ front a b back,
        tokenize (before ++ (quoted q x ++ behind)) = front ++ (a ++ quoted q x ++ b) :: back ∧
          tokenize (before ++ (quoted q y ++ behind)) = front ++ (a ++ quoted q y ++ b) :: back := by
  obtain ⟨front, a, b, back, htokens⟩ := exists_tokenize_quoted houtside hq behind
  refine ⟨?_, front, a, b, back, htokens x hx, htokens y hy⟩
  have hplain (t : Text) : role (a ++ quoted q t ++ b) = .other := by
    apply role_eq_other (c := q)
    · simp [quoted]
    · intro hneutral
      rw [hneutral.1] at hq
      cases hq
  unfold scan
  rw [htokens x hx, htokens y hy]
  apply Alike.sameMarkers (R := fun w v => role w = role v)
  apply alike_sortTokens fun w v h => h
  have hself (ws : List Text) : List.Forall₂ (fun w v => role w = role v) ws ws :=
    List.forall₂_same.2 fun _ _ => rfl
  exact List.rel_append (hself front) (.cons ((hplain x).trans (hplain y).symm) (hself back))

theorem scan_literal_enum :
    ((Place.start.afterText "enum('a', ").quoting = .outside ∧ Place.opensQuote '\'' = true ∧
        Clean '\'' "b" ∧ Clean '\'' "NULL) \"UNIQUE DEFAULT") ∧
      SameMarkers (scan ("enum('a', ".toList ++ (quoted '\'' "b" ++ ") ZEROFILL".toList)))
          (scan ("enum('a', ".toList ++ (quoted '\'' "NULL) \"UNIQUE DEFAULT" ++ ") ZEROFILL".toList))) ∧
        ∃ front a b back,
          tokenize ("enum('a', ".toList ++ (quoted '\'' "b" ++ ") ZEROFILL".toList)) =
              front ++ (a ++ quoted '\'' "b" ++ b) :: back ∧
            tokenize ("enum('a', ".toList ++
                (quoted '\'' "NULL) \"UNIQUE DEFAULT" ++ ") ZEROFILL".toList)) =
              front ++ (a ++ quoted '\'' "NULL) \"UNIQUE DEFAULT" ++ b) :: back :=
  ⟨by decide, scan_literal (by decide) (by decide) (by decide) (by decide)⟩

end SchemaScript.Column
