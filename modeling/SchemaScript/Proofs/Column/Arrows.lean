/- Arrows outside quoted literals: rendering writes none and loses none, so a clause has one exactly where
   the text it was read from has one when the sign of its type is taken out. -/
import SchemaScript.Identifier.Reference
import SchemaScript.Proofs.Column.Clause
import SchemaScript.Proofs.Column.Sorting
import SchemaScript.Proofs.Column.Tokens

namespace SchemaScript.Column

open Reference (arrow)

/-- An arrow stands outside every quoted literal. -/
def HasBareArrow (t : Text) : Prop :=
  ∃ before after, t = before ++ (arrow ++ after) ∧
    (Place.start.afterText before).quoting = .outside

/-- Whether an arrow stands outside every quoted literal, when the text starts at a place. -/
def bareArrow (p : Place) : Text → Bool
  | [] => false
  | c :: rest =>
      decide (p.quoting = .outside) && arrow.isPrefixOf (c :: rest) || bareArrow (p.after c) rest

theorem bareArrow_iff {p : Place} {t : Text} :
    bareArrow p t = true ↔ ∃ before after, t = before ++ (arrow ++ after) ∧
      (p.afterText before).quoting = .outside := by
  induction t generalizing p with
  | nil => simp [bareArrow, Reference.arrow]
  | cons c t ih =>
      rw [bareArrow, Bool.or_eq_true, Bool.and_eq_true, decide_eq_true_iff, List.isPrefixOf_iff_prefix, ih]
      constructor
      · rintro (⟨houtside, after, h⟩ | ⟨before, after, rfl, houtside⟩)
        · exact ⟨[], after, h.symm, houtside⟩
        · exact ⟨c :: before, after, rfl, houtside⟩
      · rintro ⟨before, after, h, houtside⟩
        cases before with
        | nil => exact .inl ⟨houtside, after, h.symm⟩
        | cons d before =>
            obtain ⟨rfl, rfl⟩ := List.cons.inj h
            exact .inr ⟨before, after, rfl, houtside⟩

theorem hasBareArrow_iff {t : Text} : HasBareArrow t ↔ bareArrow .start t = true :=
  bareArrow_iff.symm

instance (t : Text) : Decidable (HasBareArrow t) := decidable_of_iff _ hasBareArrow_iff.symm

/-- The quoting behind a character that is neither a quote nor a backslash: an escape is over. -/
def Quoting.settled : Quoting → Quoting
  | .outside => .outside
  | .inside q _ => .inside q false

namespace Place

/-- What a character does to the quoting does not depend on open groups. -/
theorem after_congr {p q : Place} (h : p.quoting = q.quoting) (c : Char) :
    (p.after c).quoting = (q.after c).quoting := by
  obtain ⟨quoting, depth⟩ := p
  obtain ⟨_, depth'⟩ := q
  cases h
  unfold after
  cases quoting with
  | outside =>
      dsimp only
      split_ifs <;> rfl
  | inside q escaped =>
      cases escaped with
      | true => rfl
      | false =>
          dsimp only
          split_ifs <;> rfl

theorem afterText_congr {p q : Place} (h : p.quoting = q.quoting) (t : Text) :
    (p.afterText t).quoting = (q.afterText t).quoting := by
  induction t generalizing p q with
  | nil => exact h
  | cons c t ih => exact ih (after_congr h c)

end Place

/-- Characters that neither open nor close a literal nor escape another character. -/
def isPlain (c : Char) : Bool := !Place.opensQuote c && c != '\\'

theorem isPlain_of_isBlank {c : Char} (h : isBlank c = true) : isPlain c = true := by
  have hslash : c ≠ '\\' := by
    rintro rfl
    exact absurd h (by decide)
  simp [isPlain, Place.not_opensQuote_of_isBlank h, hslash]

namespace Place

theorem Proper.quoting_after {p : Place} (hp : p.Proper) {c : Char} (hc : isPlain c = true) :
    (p.after c).quoting = p.quoting.settled := by
  obtain ⟨quoting, depth⟩ := p
  simp only [isPlain, Bool.and_eq_true, Bool.not_eq_true', bne_iff_ne, ne_eq] at hc
  unfold Place.after
  cases quoting with
  | outside =>
      simp only [hc.1, Bool.false_eq_true, if_false]
      split_ifs <;> rfl
  | inside q escaped =>
      have hq : c ≠ q := by
        rintro rfl
        rw [show opensQuote c = true from hp] at hc
        cases hc.1
      cases escaped with
      | true => rfl
      | false => simp [hc.2, hq, Quoting.settled]

/-- Plain characters lead from a settled place to a settled place. -/
theorem Proper.quoting_afterText {p : Place} (hp : p.Proper) (hsettled : p.quoting.settled = p.quoting)
    {t : Text} (ht : ∀ c ∈ t, isPlain c = true) : (p.afterText t).quoting = p.quoting := by
  induction t generalizing p with
  | nil => rfl
  | cons c t ih =>
      obtain ⟨hc, ht⟩ := List.forall_mem_cons.1 ht
      have hquoting := (hp.quoting_after hc).trans hsettled
      rw [← hquoting]
      exact ih (hp.after c) (by rw [hquoting, hsettled]) ht

end Place

theorem Quoting.settled_settled (q : Quoting) : q.settled.settled = q.settled := by
  cases q <;> rfl

theorem bareArrow_congr {p q : Place} (h : p.quoting = q.quoting) (t : Text) :
    bareArrow p t = bareArrow q t := by
  induction t generalizing p q with
  | nil => rfl
  | cons c t ih => rw [bareArrow, bareArrow, h, ih (Place.after_congr h c)]

/-- A blank belongs to no arrow. -/
theorem isPrefixOf_blank {c : Char} (hc : isBlank c = true) (d : Char) (u v : Text) :
    arrow.isPrefixOf (d :: (u ++ c :: v)) = arrow.isPrefixOf (d :: u) := by
  have hend : c ≠ '>' := by
    rintro rfl
    exact absurd hc (by decide)
  cases u with
  | nil => simp [Reference.arrow, List.isPrefixOf, Ne.symm hend]
  | cons e u => simp [Reference.arrow, List.isPrefixOf]

/-- Arrows in front of a blank and arrows behind it are all arrows there are. -/
theorem bareArrow_append_blank {c : Char} (hc : isBlank c = true) (p : Place) (u v : Text) :
    bareArrow p (u ++ c :: v) = (bareArrow p u || bareArrow ((p.afterText u).after c) v) := by
  induction u generalizing p with
  | nil =>
      have hstart : c ≠ '-' := by
        rintro rfl
        exact absurd hc (by decide)
      simp [bareArrow, Reference.arrow, List.isPrefixOf, Ne.symm hstart, Place.afterText]
  | cons d u ih =>
      rw [List.cons_append, bareArrow, bareArrow, isPrefixOf_blank hc, ih (p.after d), Bool.or_assoc]
      rfl

/-- Whether a bare arrow is in one of the words, when a space follows each of them. -/
def wordsArrow (p : Place) : List Text → Bool
  | [] => false
  | w :: ws => bareArrow p w || wordsArrow ((p.afterText w).after ' ') ws

theorem wordsArrow_congr {p q : Place} (h : p.quoting = q.quoting) (ws : List Text) :
    wordsArrow p ws = wordsArrow q ws := by
  induction ws generalizing p q with
  | nil => rfl
  | cons w ws ih =>
      rw [wordsArrow, wordsArrow, bareArrow_congr h,
        ih (Place.after_congr (Place.afterText_congr h w) ' ')]

/-- A text that consists of the given words, with a blank between neighbours. -/
inductive Spaced : List Text → Text → Prop
  | one (w : Text) : Spaced [w] w
  | more (w : Text) {c : Char} {ws : List Text} {t : Text} (hc : isBlank c = true)
      (h : Spaced ws t) : Spaced (w :: ws) (w ++ c :: t)

theorem Spaced.bareArrow_eq {ws : List Text} {t : Text} (h : Spaced ws t) {p : Place}
    (hp : p.Proper) : bareArrow p t = wordsArrow p ws := by
  induction h generalizing p with
  | one w => simp [wordsArrow]
  | more w hc _ ih =>
      -- Which blank it is makes no difference to what follows.
      have hproper := hp.afterText w
      have hspace : ((p.afterText w).after ' ').quoting = ((p.afterText w).after _).quoting :=
        (hproper.quoting_after (isPlain_of_isBlank rfl)).trans
          (hproper.quoting_after (isPlain_of_isBlank hc)).symm
      rw [bareArrow_append_blank hc, wordsArrow, ih (hproper.after _), wordsArrow_congr hspace]

theorem spaced_allPieces (p : Place) (t : Text) : Spaced (allPieces p t) t := by
  induction t generalizing p with
  | nil => exact .one []
  | cons c t ih =>
      rw [allPieces_cons]
      have hlater := ih (p.after c)
      split
      · next hc => exact .more [] (Bool.and_eq_true_iff.1 hc).2 hlater
      · -- The character goes to the first piece.
        rw [allPieces] at hlater
        generalize pieces (p.after c) t = rest at hlater
        obtain ⟨first, later⟩ := rest
        cases hlater with
        | one => exact .one _
        | more _ hc h => exact .more (c :: first) hc h

theorem spaced_join {ws : List Text} (hne : ws ≠ []) : Spaced ws (Text.join [' '] ws) := by
  induction ws with
  | nil => exact absurd rfl hne
  | cons w ws ih =>
      cases ws with
      | nil => exact .one w
      | cons v ws =>
          rw [Text.join, List.append_assoc]
          exact .more w rfl (ih (List.cons_ne_nil v ws))

/-- A word of plain characters, without a hyphen and without a plus sign. -/
def Inert (w : Text) : Prop := ∀ c ∈ w, isPlain c = true ∧ c ≠ '-' ∧ c ≠ '+'

theorem inert_nil : Inert [] := fun _ h => nomatch h

/-- Words with a role are made of letters and underscores. -/
theorem inert_of_role {w : Text} (h : role w ≠ .other) : Inert w := by
  obtain ⟨entry, hentry, -, hsame⟩ := exists_mem_of_role h
  have hletters : (roleWords.all fun entry => (Text.lower entry.1).all fun d =>
      isPlain d && d != '-' && d != '+') = true := by
    decide +kernel
  rw [Text.sameIgnoringCase, beq_iff_eq] at hsame
  intro c hc
  have hlower : c.toLower ∈ Text.lower entry.1 := hsame ▸ List.mem_map_of_mem hc
  have hletter := List.all_eq_true.1 (List.all_eq_true.1 hletters entry hentry) _ hlower
  simp only [Bool.and_eq_true, bne_iff_ne, ne_eq] at hletter
  obtain ⟨⟨hplain, hhyphen⟩, hplus⟩ := hletter
  refine ⟨?_, ?_, ?_⟩
  · -- A quote or a backslash would be its own lower case.
    simp only [isPlain, Place.opensQuote, Bool.and_eq_true, Bool.not_eq_true', Bool.or_eq_false_iff,
      beq_eq_false_iff_ne, bne_iff_ne, ne_eq] at hplain ⊢
    refine ⟨⟨⟨?_, ?_⟩, ?_⟩, ?_⟩ <;> rintro rfl
    · exact hplain.1.1.1 rfl
    · exact hplain.1.1.2 rfl
    · exact hplain.1.2 rfl
    · exact hplain.2 rfl
  · rintro rfl
    exact hhyphen rfl
  · rintro rfl
    exact hplus rfl

theorem Inert.bareArrow_eq_false {w : Text} (h : Inert w) (p : Place) : bareArrow p w = false := by
  induction w generalizing p with
  | nil => rfl
  | cons c w ih =>
      obtain ⟨⟨_, hhyphen, _⟩, hw⟩ := List.forall_mem_cons.1 h
      rw [bareArrow, ih hw]
      simp [Reference.arrow, List.isPrefixOf, Ne.symm hhyphen]

/-- A place at which the next character is not escaped. -/
structure Steady (p : Place) : Prop where
  proper : p.Proper
  settled : p.quoting.settled = p.quoting

theorem steady_start : Steady .start := ⟨trivial, rfl⟩

theorem steady_after_space {p : Place} (hp : p.Proper) : Steady (p.after ' ') := by
  refine ⟨hp.after ' ', ?_⟩
  rw [hp.quoting_after (isPlain_of_isBlank rfl), Quoting.settled_settled]

theorem Inert.quoting_behind {w : Text} (h : Inert w) {p : Place} (hp : Steady p) :
    ((p.afterText w).after ' ').quoting = p.quoting := by
  have hw := hp.proper.quoting_afterText hp.settled fun c hc => (h c hc).1
  rw [(hp.proper.afterText w).quoting_after (isPlain_of_isBlank rfl), hw, hp.settled]

/-- Inert words neither are arrows nor change where an arrow is bare. -/
theorem Thinned.wordsArrow_eq {ws vs : List Text} (h : Thinned Inert ws vs) {p : Place}
    (hp : Steady p) : wordsArrow p ws = wordsArrow p vs := by
  induction h generalizing p with
  | nil => rfl
  | keep w _ ih => rw [wordsArrow, wordsArrow, ih (steady_after_space (hp.proper.afterText w))]
  | @drop w ws vs hw _ ih =>
      rw [wordsArrow, hw.bareArrow_eq_false, Bool.false_or, wordsArrow_congr (hw.quoting_behind hp),
        ih hp]

/-- The words without the first plus sign in them. -/
def withoutPlus : List Text → List Text
  | [] => []
  | w :: ws => if '+' ∈ w then w.erase '+' :: ws else w :: withoutPlus ws

/-- No blank is a plus sign, so it is one of the words that loses it. -/
theorem Spaced.withoutPlus {ws : List Text} {t : Text} (h : Spaced ws t) :
    Spaced (withoutPlus ws) (t.erase '+') := by
  induction h with
  | one w =>
      rw [Column.withoutPlus]
      split
      · exact .one _
      · next hw =>
        rw [List.erase_of_not_mem hw]
        exact .one w
  | @more w c ws t hc h ih =>
      rw [Column.withoutPlus]
      split
      · next hw =>
        rw [List.erase_append_left _ hw]
        exact .more _ hc h
      · next hw =>
        have hplus : c ≠ '+' := by
          rintro rfl
          exact absurd hc (by decide)
        rw [List.erase_append_right _ hw, List.erase_cons_tail (by simpa using hplus)]
        exact .more w hc ih

theorem Inert.plus_not_mem {w : Text} (h : Inert w) : '+' ∉ w := fun hw => (h _ hw).2.2 rfl

theorem Thinned.withoutPlus {ws vs : List Text} (h : Thinned Inert ws vs) :
    Thinned Inert (withoutPlus ws) (withoutPlus vs) := by
  induction h with
  | nil => exact .nil
  | keep w h ih =>
      rw [Column.withoutPlus, Column.withoutPlus]
      split
      · exact .keep _ h
      · exact .keep _ ih
  | drop hw _ ih =>
      rw [Column.withoutPlus, if_neg hw.plus_not_mem]
      exact .drop hw ih

/-- Taking the sign out of a type takes the first plus sign out of its words. -/
theorem thinned_of_takePlus? {ws plain : List Text} (h : takePlus? ws = some plain)
    (later : List Text) : Thinned Inert (withoutPlus (ws ++ later)) (plain ++ later) := by
  obtain ⟨front, a, b, back, rfl, hfront, ha, rfl⟩ := takePlus?_eq_some.1 h
  clear h
  induction front with
  | nil =>
      have herase : (a ++ '+' :: b).erase '+' = a ++ b := by
        rw [List.erase_append_right _ ha, List.erase_cons_head]
      rw [List.nil_append, List.cons_append, withoutPlus, if_pos (by simp), herase]
      split
      · next hempty =>
        rw [hempty]
        exact .drop inert_nil (.refl _)
      · exact .refl _
  | cons w front ih =>
      obtain ⟨hw, hfront⟩ := List.forall_mem_cons.1 hfront
      rw [List.cons_append, List.cons_append, withoutPlus, if_neg hw]
      exact .keep w (ih hfront)

theorem bareArrow_trimStart {p : Place} (hp : Steady p) (t : Text) :
    bareArrow p (Text.trimStart t) = bareArrow p t := by
  induction t with
  | nil => rfl
  | cons c t ih =>
      rw [Text.trimStart, List.dropWhile_cons]
      split
      · next hc =>
        have hsame : (p.after c).quoting = p.quoting :=
          (hp.proper.quoting_after (isPlain_of_isBlank hc)).trans hp.settled
        have hblank : bareArrow p (c :: t) = bareArrow (p.after c) t :=
          bareArrow_append_blank hc p [] t
        rw [hblank, bareArrow_congr hsame]
        exact ih
      · rfl

theorem bareArrow_trimEnd (p : Place) (t : Text) : bareArrow p (Text.trimEnd t) = bareArrow p t := by
  unfold Text.trimEnd Text.dropRightWhile
  induction t using List.reverseRecOn with
  | nil => rfl
  | append_singleton t c ih =>
      rw [List.reverse_append, List.reverse_singleton, List.singleton_append, List.dropWhile_cons]
      split
      · next hc => rw [ih, bareArrow_append_blank hc, bareArrow, Bool.or_false]
      · simp

theorem bareArrow_trim {p : Place} (hp : Steady p) (t : Text) :
    bareArrow p (Text.trim t) = bareArrow p t := by
  rw [Text.trim, bareArrow_trimEnd, bareArrow_trimStart hp]

theorem inert_of_mem_attributes {s : Spec} : ∀ w ∈ s.attributes, Inert w := by
  have hroles : ∀ w ∈ (["UNSIGNED", "ZEROFILL", "NULL", "NOT"] : List Text), role w ≠ .other := by
    decide +kernel
  exact fun w hw => inert_of_role (hroles w (Spec.mem_attributes hw))

/-- What rendering writes between the type and the trailing clause has no arrow in it and changes none. -/
theorem bareArrow_render {p : Parts} {kept : List Text} (htype : p.spec.dataType = Text.join [' '] kept) :
    bareArrow .start p.spec.render = wordsArrow .start (kept ++ p.trailing) := by
  have hattributes : Thinned Inert p.spec.attributes [] := thinned_nil inert_of_mem_attributes
  have hlater : Thinned Inert (p.spec.attributes ++ p.trailing) p.trailing :=
    hattributes.append (.refl _)
  rw [Parts.render_eq_trim, bareArrow_trim steady_start, htype]
  cases kept with
  | nil =>
      rw [(spaced_join (List.cons_ne_nil _ _)).bareArrow_eq steady_start.proper]
      exact (Thinned.drop inert_nil hlater).wordsArrow_eq steady_start
  | cons w ws =>
      have hne : w :: ws ++ (p.spec.attributes ++ p.trailing) ≠ [] := List.cons_ne_nil _ _
      rw [Text.join_join_cons (List.cons_ne_nil w ws),
        (spaced_join hne).bareArrow_eq steady_start.proper]
      exact ((Thinned.refl (w :: ws)).append hlater).wordsArrow_eq steady_start

/-- The text that a specification was read from, without the plus sign that was taken as its sign. -/
def withoutSign (t : Text) : Text := if (scan t).signed then t.erase '+' else t

/-- Pieces that are empty and words with a role are left out by scanning; both are inert. -/
theorem thinned_scanned (t : Text) :
    Thinned Inert (allPieces .start t)
      ((sortTokens false (tokenize t)).body ++ (sortTokens false (tokenize t)).trailing) := by
  have hpieces : Thinned Inert (allPieces .start t) (tokenize t) := by
    rw [tokenize_eq_filter]
    refine thinned_filter (fun w hw => ?_) _
    rw [show w = [] by simpa using hw]
    exact inert_nil
  exact hpieces.trans ((sorts_sortTokens false (tokenize t)).thinned.imp fun _ => inert_of_role)

/-- A clause has an arrow outside quoted literals exactly where the text that it was read from has one,
once the sign is out of it. -/
theorem hasBareArrow_render_iff (t : Text) :
    HasBareArrow (scan t).render ↔ HasBareArrow (withoutSign t) := by
  rw [hasBareArrow_iff, hasBareArrow_iff, withoutSign, scan]
  have hthinned := thinned_scanned t
  have hspaced := spaced_allPieces .start t
  generalize sortTokens false (tokenize t) = p at hthinned
  cases hsigned : p.spec.signed with
  | false =>
      rw [if_neg Bool.false_ne_true, bareArrow_render (p.dataType_of_plain hsigned).1,
        hspaced.bareArrow_eq steady_start.proper, hthinned.wordsArrow_eq steady_start]
  | true =>
      obtain ⟨-, plain, hplain, htype⟩ := p.dataType_of_signed hsigned
      rw [if_pos rfl, bareArrow_render htype, hspaced.withoutPlus.bareArrow_eq steady_start.proper,
        hthinned.withoutPlus.wordsArrow_eq steady_start,
        (thinned_of_takePlus? hplain p.trailing).wordsArrow_eq steady_start]

end SchemaScript.Column
