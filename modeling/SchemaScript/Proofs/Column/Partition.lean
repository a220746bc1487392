/- Tokens and gaps: a text has a cut into tokens and white space around them in which a blank stands in a
   gap exactly at the outermost places, and all such cuts have the tokens of the text. -/
import SchemaScript.Proofs.Column.Literals
import SchemaScript.Proofs.Column.Whole

namespace SchemaScript.Column

/-- A gap in front, and tokens with the gap behind each. -/
structure Partition where
  lead : Text
  parts : List (Text × Text)

/-- A character with whether it stands in a gap. -/
abbrev Mark := Char × Bool

namespace Partition

def text (d : Partition) : Text := d.lead ++ d.parts.flatMap fun part => part.1 ++ part.2

def tokens (d : Partition) : List Text := d.parts.map (·.1)

/-- The characters in their order, each with whether it stands in a gap. -/
def marks (d : Partition) : List Mark :=
  d.lead.map (·, true) ++ d.parts.flatMap fun part => part.1.map (·, false) ++ part.2.map (·, true)

/-- A cut of a text in which gaps are white space and keep the tokens apart, tokens start with a character
of their own, and a blank stands in a gap exactly if its place is outside literals and groups. -/
structure Divides (d : Partition) (t : Text) : Prop where
  whole : d.text = t
  blank : ∀ mark ∈ d.marks, mark.2 = true → isBlank mark.1 = true
  apart : ∀ front part next back, d.parts = front ++ part :: next :: back → part.2 ≠ []
  starts : ∀ token ∈ d.tokens, ∃ first rest, token = first :: rest ∧ isBlank first = false
  gaps : ∀ front c inGap back, d.marks = front ++ (c, inGap) :: back → isBlank c = true →
    (inGap = true ↔ Outermost (front.map (·.1)))

end Partition

open Column.Partition

/-- From a place on, blanks stand in gaps exactly at the outer places. -/
def Gapped : Place → List Mark → Prop
  | _, [] => True
  | p, (c, inGap) :: marks =>
      (isBlank c = true → (inGap = true ↔ p.IsOuter)) ∧ Gapped (p.after c) marks

theorem gapped_iff {p : Place} {marks : List Mark} :
    Gapped p marks ↔ ∀ front c inGap back, marks = front ++ (c, inGap) :: back → isBlank c = true →
      (inGap = true ↔ (p.afterText (front.map (·.1))).IsOuter) := by
  induction marks generalizing p with
  | nil => simp [Gapped]
  | cons mark marks ih =>
      obtain ⟨c, inGap⟩ := mark
      rw [Gapped, ih]
      constructor
      · rintro ⟨hhead, hlater⟩ front d inGap' back heq
        cases front with
        | nil =>
            cases heq
            exact hhead
        | cons mark front =>
            cases heq
            exact hlater front d inGap' back rfl
      · intro h
        refine ⟨h [] c inGap marks rfl, fun front d inGap' back heq => ?_⟩
        rw [heq] at h
        exact h ((c, inGap) :: front) d inGap' back rfl

theorem gapped_start_iff {marks : List Mark} :
    Gapped .start marks ↔ ∀ front c inGap back, marks = front ++ (c, inGap) :: back →
      isBlank c = true → (inGap = true ↔ Outermost (front.map (·.1))) := by
  simp only [gapped_iff, isOuter_iff_outermost]

theorem gapped_append {p : Place} {marks later : List Mark} :
    Gapped p (marks ++ later) ↔ Gapped p marks ∧ Gapped (p.afterText (marks.map (·.1))) later := by
  induction marks generalizing p with
  | nil => simp [Gapped, Place.afterText]
  | cons mark marks ih =>
      obtain ⟨c, inGap⟩ := mark
      rw [List.cons_append, Gapped, Gapped, ih, and_assoc]
      rfl

theorem map_fst_mark (inGap : Bool) (t : Text) : (t.map (·, inGap)).map (·.1) = t := by
  simp [Function.comp_def]

/-- A token holds no separator, however it starts. -/
theorem gapped_token {p : Place} {w : Text} : Gapped p (w.map (·, false)) ↔ pieces p w = (w, []) := by
  induction w generalizing p with
  | nil => simp [Gapped, pieces]
  | cons c w ih =>
      rw [List.map_cons, Gapped, ih, single_cons]
      have hhead : (isBlank c = true → (false = true ↔ p.IsOuter)) ↔ p.separates c = false := by
        cases hc : isBlank c <;> simp [Place.separates, hc]
      rw [hhead]

theorem afterText_blank_start {g : Text} (h : ∀ c ∈ g, isBlank c = true) :
    Place.start.afterText g = .start := by
  induction g with
  | nil => rfl
  | cons c g ih =>
      obtain ⟨hc, hg⟩ := List.forall_mem_cons.1 h
      have hcons : Place.start.afterText (c :: g) = (Place.start.after c).afterText g := rfl
      rw [hcons, Place.after_blank_start hc, ih hg]

/-- A piece up to the first separator, if there is one. -/
theorem exists_separator (p : Place) (t : Text) : pieces p t = (t, []) ∨
    ∃ w c rest, t = w ++ c :: rest ∧ pieces p w = (w, []) ∧ (p.afterText w).separates c = true := by
  induction t generalizing p with
  | nil => exact .inl rfl
  | cons c t ih =>
      cases hc : p.separates c with
      | true => exact .inr ⟨[], c, t, rfl, rfl, hc⟩
      | false =>
          rcases ih (p.after c) with hwhole | ⟨w, d, rest, rfl, hw, hd⟩
          · exact .inl (single_cons.2 ⟨hc, hwhole⟩)
          · exact .inr ⟨c :: w, d, rest, rfl, single_cons.2 ⟨hc, hw⟩, hd⟩

namespace Partition

variable {lead t : Text} {part : Text × Text} {parts : List (Text × Text)}

theorem text_cons : text ⟨lead, part :: parts⟩ = lead ++ (part.1 ++ text ⟨part.2, parts⟩) := by
  simp [text]

theorem marks_cons : marks ⟨lead, part :: parts⟩ =
    lead.map (·, true) ++ (part.1.map (·, false) ++ marks ⟨part.2, parts⟩) := by
  simp [marks]

namespace Divides

theorem gapped {d : Partition} (h : d.Divides t) : Gapped .start d.marks := gapped_start_iff.2 h.gaps

theorem blank_lead (h : Divides ⟨lead, parts⟩ t) : ∀ c ∈ lead, isBlank c = true := by
  intro c hc
  refine h.blank (c, true) (List.mem_append_left _ ?_) rfl
  exact List.mem_map_of_mem hc

/-- The first token and what a cut says of it. -/
theorem first (h : Divides ⟨lead, part :: parts⟩ t) : pieces .start part.1 = (part.1, []) ∧
    Gapped (Place.start.afterText part.1) (marks ⟨part.2, parts⟩) := by
  have hgapped := h.gapped
  rw [marks_cons, gapped_append, map_fst_mark, afterText_blank_start h.blank_lead, gapped_append,
    map_fst_mark] at hgapped
  exact ⟨gapped_token.1 hgapped.2.1, hgapped.2.2⟩

theorem tokenize_first (h : Divides ⟨lead, part :: parts⟩ t) : tokenize part.1 = [part.1] := by
  obtain ⟨first, rest, hfirst, -⟩ := h.starts part.1 List.mem_cons_self
  have hne : part.1 ≠ [] := by
    rw [hfirst]
    exact List.cons_ne_nil first rest
  exact tokenize_of_single hne h.first.1

theorem gap_ne_nil {next : Text × Text} (h : Divides ⟨lead, part :: next :: parts⟩ t) :
    part.2 ≠ [] := h.apart [] part next parts rfl

/-- A token with white space behind it ends outside literals and groups. -/
theorem outer_of_gap (h : Divides ⟨lead, part :: parts⟩ t) (hgap : part.2 ≠ []) :
    (Place.start.afterText part.1).IsOuter := by
  obtain ⟨c, gap, hpart⟩ := List.exists_cons_of_ne_nil hgap
  have hgapped := h.first.2
  rw [hpart] at hgapped
  have hc : isBlank c = true := by
    refine h.blank (c, true) ?_ rfl
    rw [marks_cons, hpart]
    simp [marks]
  exact (hgapped.1 hc).1 rfl

/-- Behind a token with white space behind it, the rest of a cut is a cut again. -/
theorem rest (h : Divides ⟨lead, part :: parts⟩ t) (hgap : part.2 ≠ []) :
    Divides ⟨part.2, parts⟩ (text ⟨part.2, parts⟩) where
  whole := rfl
  blank mark hmark := by
    refine h.blank mark ?_
    rw [marks_cons]
    exact List.mem_append_right _ (List.mem_append_right _ hmark)
  apart front p next back hparts := by
    refine h.apart (part :: front) p next back ?_
    exact congrArg (part :: ·) hparts
  starts token htoken := h.starts token (List.mem_cons_of_mem _ htoken)
  gaps := by
    have hgapped := h.first.2
    rw [Place.eq_start_of_isOuter (h.outer_of_gap hgap)] at hgapped
    exact gapped_start_iff.1 hgapped

/-- Every cut has the tokens of the text. -/
theorem tokens_eq {d : Partition} (h : d.Divides t) : d.tokens = tokenize t := by
  obtain ⟨lead, parts⟩ := d
  induction parts generalizing lead t with
  | nil =>
      obtain rfl := h.whole
      have hlead := tokenize_blank_append h.blank_lead []
      exact hlead.symm
  | cons part parts ih =>
      rw [← h.whole, text_cons, tokenize_blank_append h.blank_lead]
      by_cases hgap : part.2 = []
      · -- Only behind the last token there may be nothing.
        cases parts with
        | nil => simp [tokens, text, hgap, h.tokenize_first]
        | cons next parts => exact absurd hgap h.gap_ne_nil
      · have hrest := h.rest hgap
        have hlater : tokens ⟨part.2, parts⟩ = tokenize (text ⟨part.2, parts⟩) := ih _ hrest
        rw [text, tokenize_blank_append hrest.blank_lead] at hlater
        rw [text, tokenize_append_blanks (h.outer_of_gap hgap) hgap hrest.blank_lead,
          h.tokenize_first, ← hlater]
        rfl

/-- One token more in front of a cut, or only one blank more where nothing stands in front of it. -/
theorem exists_extended {w rest : Text} {c : Char} {d : Partition} (h : d.Divides rest)
    (hw : pieces .start w = (w, [])) (hc : (Place.start.afterText w).separates c = true) :
    ∃ e : Partition, e.Divides (w ++ c :: rest) := by
  obtain ⟨lead, parts⟩ := d
  obtain ⟨houter, hblank⟩ := Bool.and_eq_true_iff.1 hc
  have hstart := Place.eq_start_of_isOuter (of_decide_eq_true houter)
  have hlead : ∀ b ∈ c :: lead, isBlank b = true := List.forall_mem_cons.2 ⟨hblank, h.blank_lead⟩
  have hmarks : marks ⟨c :: lead, parts⟩ = (c, true) :: marks ⟨lead, parts⟩ := rfl
  have hgapped : Gapped .start (marks ⟨c :: lead, parts⟩) := by
    rw [hmarks, Gapped, Place.after_blank_start hblank]
    exact ⟨fun _ => ⟨fun _ => ⟨rfl, rfl⟩, fun _ => rfl⟩, h.gapped⟩
  have hblanks : ∀ mark ∈ marks ⟨c :: lead, parts⟩, mark.2 = true → isBlank mark.1 = true := by
    rw [hmarks]
    exact List.forall_mem_cons.2 ⟨fun _ => hblank, h.blank⟩
  have hwhole : text ⟨c :: lead, parts⟩ = c :: rest := congrArg (c :: ·) h.whole
  cases w with
  | nil =>
      exact ⟨⟨c :: lead, parts⟩, hwhole, hblanks, h.apart, h.starts, gapped_start_iff.1 hgapped⟩
  | cons first w =>
      refine ⟨⟨[], (first :: w, c :: lead) :: parts⟩, ?_, ?_, ?_, ?_, ?_⟩
      · rw [text_cons, hwhole]
        rfl
      · rw [marks_cons]
        intro mark hmark
        rcases List.mem_append.1 hmark with hmark | hmark
        · cases hmark
        · rcases List.mem_append.1 hmark with hmark | hmark
          · obtain ⟨_, -, rfl⟩ := List.mem_map.1 hmark
            exact nofun
          · exact hblanks mark hmark
      · rintro front part next back hparts
        cases front with
        | nil =>
            cases hparts
            exact List.cons_ne_nil c lead
        | cons p front => exact h.apart front part next back (List.cons.inj hparts).2
      · refine List.forall_mem_cons.2 ⟨⟨first, w, rfl, ?_⟩, h.starts⟩
        have hfirst := (single_cons.1 hw).1
        simpa [Place.separates, Place.IsOuter, Place.start] using hfirst
      · refine gapped_start_iff.1 ?_
        rw [marks_cons, gapped_append, gapped_append, gapped_token, map_fst_mark, map_fst_mark]
        refine ⟨trivial, hw, ?_⟩
        have hplace : (Place.start.afterText []).afterText (first :: w) = .start := hstart
        rw [hplace]
        exact hgapped

end Divides

theorem divides_nil : Divides ⟨[], []⟩ [] where
  whole := rfl
  blank := nofun
  apart := by simp
  starts := nofun
  gaps := by simp [marks]

/-- A text without separators is one token. -/
theorem divides_single {first : Char} {w : Text} (h : pieces .start (first :: w) = (first :: w, [])) :
    Divides ⟨[], [(first :: w, [])]⟩ (first :: w) where
  whole := by simp [text]
  blank := by simp [marks]
  apart front part next back hparts := by
    have hlength := congrArg List.length hparts
    simp at hlength
    omega
  starts := by
    refine List.forall_mem_singleton.2 ⟨first, w, rfl, ?_⟩
    have hfirst := (single_cons.1 h).1
    simpa [Place.separates, Place.IsOuter, Place.start] using hfirst
  gaps := by
    refine gapped_start_iff.1 ?_
    rw [marks_cons, gapped_append, gapped_append, gapped_token]
    exact ⟨trivial, h, trivial⟩

theorem exists_divides (t : Text) : ∃ d : Partition, d.Divides t := by
  rcases exists_separator .start t with hwhole | ⟨w, c, rest, ht, hw, hc⟩
  · cases t with
    | nil => exact ⟨_, divides_nil⟩
    | cons first t => exact ⟨_, divides_single hwhole⟩
  · have hshorter : rest.length < t.length := by
      rw [ht, List.length_append, List.length_cons]
      omega
    obtain ⟨d, hd⟩ := exists_divides rest
    rw [ht]
    exact hd.exists_extended hw hc
termination_by t.length

/-- A token with another one behind it ends outside literals and groups. -/
theorem Divides.outer {d : Partition} (h : d.Divides t) {front back : List (Text × Text)}
    {next : Text × Text} (hparts : d.parts = front ++ part :: next :: back) :
    Outermost (d.lead ++ (front.flatMap (fun part => part.1 ++ part.2) ++ part.1)) := by
  obtain ⟨c, gap, hpart⟩ := List.exists_cons_of_ne_nil (h.apart front part next back hparts)
  have hmarks : d.marks = (d.lead.map (·, true) ++ (front.flatMap (fun part =>
      part.1.map (·, false) ++ part.2.map (·, true)) ++ part.1.map (·, false))) ++
        (c, true) :: (gap.map (·, true) ++ marks ⟨[], next :: back⟩) := by
    simp [marks, hparts, hpart]
  have hc : isBlank c = true := h.blank (c, true) (by simp [hmarks]) rfl
  have houter := (h.gaps _ c true _ hmarks hc).1 rfl
  simpa only [List.map_append, List.map_flatMap, map_fst_mark] using houter

end Partition

/-- The tokens of a text are those of its cuts: there is one into gaps and tokens with nothing else in
between, in which a blank stands in a gap exactly if its place is outside literals and groups, and every
such cut has these tokens. Only the last token can end inside. -/
theorem tokenize_partition (t : Text) :
    (∀ tokens, (∃ d : Partition, d.Divides t ∧ d.tokens = tokens) ↔ tokens = tokenize t) ∧
      ∀ d : Partition, d.Divides t →
        ∀ front part next back, d.parts = front ++ part :: next :: back →
          Outermost (d.lead ++ (front.flatMap (fun part => part.1 ++ part.2) ++ part.1)) := by
  refine ⟨fun tokens => ⟨?_, ?_⟩, fun d hd front part next back hparts => hd.outer hparts⟩
  · rintro ⟨d, hd, rfl⟩
    exact hd.tokens_eq
  · rintro rfl
    obtain ⟨d, hd⟩ := exists_divides t
    exact ⟨d, hd, hd.tokens_eq⟩

example : tokenize " enum('a b', 'c') DEFAULT 'x  (y" =
    ["enum('a b', 'c')".toList, "DEFAULT".toList, "'x  (y".toList] := by decide

end SchemaScript.Column
