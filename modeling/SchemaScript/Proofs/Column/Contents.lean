/- Contents of literals and groups: a text with all of them emptied has the same tokens, emptied, and they
   are sorted alike. So contents count only by a numeric type name and by a plus sign, and where neither
   stands inside, every literal and every group is kept as it is. -/
import SchemaScript.Proofs.Column.Clause
import SchemaScript.Proofs.Column.Conserved
import SchemaScript.Proofs.Column.Literals
import SchemaScript.Proofs.Column.Whole
import SchemaScript.Proofs.Text.Search

namespace SchemaScript.Column

namespace Place

theorem isOuter_start : start.IsOuter := ⟨rfl, rfl⟩

/-- What leads outside from inside is the end of a literal or of a group. -/
theorem closes_of_outer_after {p : Place} {c : Char} (hp : ¬ p.IsOuter) (h : (p.after c).IsOuter) :
    p = ⟨.inside c false, 0⟩ ∨ p = ⟨.outside, 1⟩ ∧ c = ')' := by
  obtain ⟨quoting, depth⟩ := p
  cases quoting with
  | outside =>
      have hdepth : depth ≠ 0 := fun hdepth => hp ⟨rfl, hdepth⟩
      unfold after at h
      simp only at h
      split_ifs at h with hquote hopen hclose
      · cases h.1
      · cases h.2
      · have hzero : depth - 1 = 0 := h.2
        obtain rfl : depth = 1 := by omega
        exact .inr ⟨rfl, hclose⟩
      · exact absurd h hp
  | inside q escaped =>
      cases escaped with
      | true => cases h.1
      | false =>
          unfold after at h
          simp only at h
          split_ifs at h with hescape hq
          · cases h.1
          · obtain rfl : depth = 0 := h.2
            exact .inl (by rw [hq])
          · exact absurd h hp

theorem isOuter_of_neutral {p : Place} {c : Char} (hp : p.Proper) (hc : Neutral c)
    (h : (p.after c).IsOuter) : p.IsOuter := by
  by_contra hinside
  rcases closes_of_outer_after hinside h with rfl | ⟨-, rfl⟩
  · have hquote : opensQuote c = true := hp
    rw [hc.1] at hquote
    cases hquote
  · exact hc.2.2 rfl

/-- Where an emptied text stands: right behind the sign that opened the outermost literal or group. -/
def opened : Place → Place
  | ⟨.outside, 0⟩ => start
  | ⟨.inside q _, 0⟩ => ⟨.inside q false, 0⟩
  | ⟨_, _ + 1⟩ => ⟨.outside, 1⟩

theorem isOuter_opened {p : Place} : p.opened.IsOuter ↔ p.IsOuter := by
  obtain ⟨quoting, depth⟩ := p
  cases depth with
  | zero => cases quoting <;> simp [opened, start, IsOuter]
  | succ depth => simp [opened, IsOuter]

/-- A sign that stands outside, or leads there, does the same in the emptied text. -/
theorem opened_after {p : Place} {c : Char} (h : p.IsOuter ∨ (p.after c).IsOuter) :
    (p.after c).opened = p.opened.after c := by
  by_cases hp : p.IsOuter
  · obtain rfl := eq_start_of_isOuter hp
    unfold after start
    simp only [opened, start]
    split_ifs <;> rfl
  · have hafter := h.resolve_left hp
    rw [eq_start_of_isOuter hafter]
    rcases closes_of_outer_after hp hafter with rfl | ⟨rfl, rfl⟩
    · exact (eq_start_of_isOuter hafter).symm
    · rfl

/-- Inside, the emptied text stays where it is. -/
theorem opened_after_inside {p : Place} {c : Char} (hp : ¬ p.IsOuter) (h : ¬ (p.after c).IsOuter) :
    (p.after c).opened = p.opened := by
  obtain ⟨quoting, depth⟩ := p
  cases depth with
  | zero =>
      cases quoting with
      | outside => exact absurd ⟨rfl, rfl⟩ hp
      | inside q escaped =>
          cases escaped with
          | true => rfl
          | false =>
              unfold after at h ⊢
              simp only at h ⊢
              split_ifs at h ⊢ with hescape hq
              · rfl
              · exact absurd ⟨rfl, rfl⟩ h
              · rfl
  | succ depth =>
      cases quoting with
      | outside =>
          unfold after at h ⊢
          simp only at h ⊢
          split_ifs at h ⊢ with hquote hopen hclose
          · rfl
          · rfl
          · -- The parenthesis closes a group that is not the outermost one.
            cases depth with
            | zero => exact absurd ⟨rfl, rfl⟩ h
            | succ depth => rfl
          · rfl
      | inside q escaped =>
          cases escaped with
          | true => rfl
          | false =>
              unfold after
              simp only
              split_ifs <;> rfl

end Place

/-- A text with its literals and groups emptied: inside the outermost of them nothing is left. -/
def emptied (p : Place) : Text → Text
  | [] => []
  | c :: rest =>
      if p.IsOuter ∨ (p.after c).IsOuter then c :: emptied (p.after c) rest
      else emptied (p.after c) rest

theorem emptied_start_cons (c : Char) (t : Text) :
    emptied .start (c :: t) = c :: emptied (Place.start.after c) t := by
  rw [emptied, if_pos (.inl Place.isOuter_start)]

theorem emptied_start_eq_nil {t : Text} : emptied .start t = [] ↔ t = [] := by
  cases t with
  | nil => simp [emptied]
  | cons c t => simp [emptied_start_cons]

/-- An emptied text has the same pieces, emptied. -/
theorem pieces_emptied (p : Place) (t : Text) :
    pieces p.opened (emptied p t) =
      (emptied p (pieces p t).1, (pieces p t).2.map (emptied .start)) := by
  induction t generalizing p with
  | nil => rfl
  | cons c t ih =>
      by_cases hkept : p.IsOuter ∨ (p.after c).IsOuter
      · have hseparates : p.opened.separates c = p.separates c := by
          simp only [Place.separates, Place.isOuter_opened]
        rw [emptied, if_pos hkept, pieces, pieces, hseparates, ← Place.opened_after hkept, ih]
        cases hc : p.separates c with
        | true =>
            -- A separator leads from the outer place to itself.
            obtain ⟨houter, hblank⟩ := Bool.and_eq_true_iff.1 hc
            obtain rfl := Place.eq_start_of_isOuter (of_decide_eq_true houter)
            rw [Place.after_blank_start hblank]
            rfl
        | false => simp [emptied, hkept]
      · obtain ⟨hp, hafter⟩ := not_or.1 hkept
        have hseparates : p.separates c = false := by
          simp [Place.separates, hp]
        rw [emptied, if_neg hkept, pieces, hseparates, ← Place.opened_after_inside hp hafter, ih]
        simp [emptied, hkept]

theorem tokenize_emptied (t : Text) :
    tokenize (emptied .start t) = (tokenize t).map (emptied .start) := by
  have hpieces : allPieces .start (emptied .start t) = (allPieces .start t).map (emptied .start) := by
    have h : pieces .start (emptied .start t) = _ := pieces_emptied .start t
    rw [allPieces, allPieces, h]
    rfl
  have hempty (w : Text) : (!(emptied .start w).isEmpty) = !w.isEmpty := by
    rw [Bool.eq_iff_iff]
    simp [emptied_start_eq_nil]
  rw [tokenize_eq_filter, tokenize_eq_filter, hpieces, List.filter_map]
  congr 1
  exact List.filter_congr fun w _ => hempty w

theorem emptied_of_neutral {t : Text} (h : ∀ c ∈ t, Neutral c) : emptied .start t = t := by
  induction t with
  | nil => rfl
  | cons c t ih =>
      obtain ⟨hc, ht⟩ := List.forall_mem_cons.1 h
      rw [emptied_start_cons, hc.after_start, ih ht]

/-- The sign that opens the first literal or group is left. -/
theorem exists_not_neutral_emptied {t : Text} (h : ∃ c ∈ t, ¬ Neutral c) :
    ∃ c ∈ emptied .start t, ¬ Neutral c := by
  induction t with
  | nil => simp at h
  | cons c t ih =>
      rw [emptied_start_cons]
      by_cases hc : Neutral c
      · obtain ⟨d, hd, hsign⟩ := h
        have hd : d ∈ t := (List.mem_cons.1 hd).resolve_left fun he => hsign (he ▸ hc)
        obtain ⟨d, hd, hsign⟩ := ih ⟨d, hd, hsign⟩
        rw [hc.after_start]
        exact ⟨d, List.mem_cons_of_mem _ hd, hsign⟩
      · exact ⟨c, List.mem_cons_self, hc⟩

theorem role_emptied (w : Text) : role (emptied .start w) = role w := by
  by_cases h : ∃ c ∈ w, ¬ Neutral c
  · obtain ⟨c, hc, hsign⟩ := h
    obtain ⟨d, hd, hsign'⟩ := exists_not_neutral_emptied ⟨c, hc, hsign⟩
    rw [role_eq_other hc hsign, role_eq_other hd hsign']
  · push Not at h
    rw [emptied_of_neutral h]

theorem eq_map_of_forall₂ {f : Text → Text} {ws vs : List Text}
    (h : List.Forall₂ (fun w v => v = f w) ws vs) : vs = ws.map f := by
  induction h with
  | nil => rfl
  | cons hv _ ih => rw [List.map_cons, hv, ih]

theorem body_sortTokens (ts : List Text) : (sortTokens false ts).body = typeTokens ts := by
  rw [(sortedFrom_sortTokens ts).body, places_zero, typeTokens]

/-- The type of an emptied text is the emptied type. -/
theorem typeTokens_emptied (t : Text) :
    typeTokens (tokenize (emptied .start t)) = (typeTokens (tokenize t)).map (emptied .start) := by
  have hrole : ∀ w v, v = emptied .start w → role w = role v := by
    rintro w _ rfl
    exact (role_emptied w).symm
  have htokens : List.Forall₂ (fun w v => v = emptied .start w) (tokenize t)
      (tokenize (emptied .start t)) := by
    rw [tokenize_emptied, List.forall₂_map_right_iff]
    exact List.forall₂_same.2 fun _ _ => rfl
  rw [← body_sortTokens, ← body_sortTokens]
  exact eq_map_of_forall₂ (alike_sortTokens hrole htokens).body

theorem prefix_of_emptied {n t : Text} (hn : ∀ c ∈ n, Neutral c) (h : n <+: emptied .start t) :
    n <+: t := by
  induction n generalizing t with
  | nil => exact List.nil_prefix
  | cons c n ih =>
      obtain ⟨hc, hn⟩ := List.forall_mem_cons.1 hn
      cases t with
      | nil => exact h
      | cons d t =>
          rw [emptied_start_cons, List.cons_prefix_cons] at h
          obtain ⟨rfl, h⟩ := h
          rw [hc.after_start] at h
          exact List.cons_prefix_cons.2 ⟨rfl, ih hn h⟩

/-- A word without signs that is left in an emptied text stood in the text as it is. -/
theorem infix_of_emptied {p : Place} {n t : Text} (hp : p.Proper) (hn : ∀ c ∈ n, Neutral c)
    (hne : n ≠ []) (h : n <:+: emptied p t) : n <:+: t := by
  induction t generalizing p with
  | nil => exact absurd (List.infix_nil.1 h) hne
  | cons c t ih =>
      rw [List.infix_cons_iff]
      by_cases hkept : p.IsOuter ∨ (p.after c).IsOuter
      · rw [emptied, if_pos hkept, List.infix_cons_iff] at h
        rcases h with h | h
        · -- The word starts here, so this is no sign and the place is an outer one.
          left
          obtain ⟨d, n, rfl⟩ := List.exists_cons_of_ne_nil hne
          obtain ⟨rfl, hlater⟩ := List.cons_prefix_cons.1 h
          obtain ⟨hd, hn⟩ := List.forall_mem_cons.1 hn
          have houter := hkept.elim id (Place.isOuter_of_neutral hp hd)
          rw [Place.eq_start_of_isOuter houter, hd.after_start] at hlater
          exact List.cons_prefix_cons.2 ⟨rfl, prefix_of_emptied hn hlater⟩
        · exact .inr (ih (hp.after c) h)
      · rw [emptied, if_neg hkept] at h
        exact .inr (ih (hp.after c) h)

theorem isNumericType_iff {w : Text} :
    isNumericType w = true ↔ ∃ name ∈ numericTypes, name <:+: Text.lower w := by
  simp only [isNumericType, List.any_eq_true, Text.occursIn, Option.isSome_iff_ne_none, ne_eq,
    Text.cutBefore?_eq_none, not_not]

theorem neutral_of_mem_numericTypes {name : Text} (h : name ∈ numericTypes) :
    name ≠ [] ∧ ∀ c ∈ name, Neutral c := by
  have hnames : (numericTypes.all fun name => !name.isEmpty && name.all fun c =>
      decide (Neutral c)) = true := by
    decide
  have hname := List.all_eq_true.1 hnames name h
  simpa using hname

theorem isNumericType_of_emptied {w : Text} (h : isNumericType (emptied .start w) = true) :
    isNumericType w = true := by
  obtain ⟨name, hname, hinfix⟩ := isNumericType_iff.1 h
  obtain ⟨hne, hneutral⟩ := neutral_of_mem_numericTypes hname
  obtain ⟨n, hn, rfl⟩ := List.infix_map_iff.1 hinfix
  refine isNumericType_iff.2 ⟨_, hname, List.IsInfix.map _ (infix_of_emptied (p := .start) trivial ?_ ?_ hn)⟩
  · intro c hc
    exact neutral_of_toLower (hneutral _ (List.mem_map_of_mem hc))
  · rintro rfl
    exact hne rfl

theorem neutral_plus : Neutral '+' := by decide

/-- A plus sign is left where it stands outside. -/
theorem plus_mem_emptied {p : Place} {t : Text} (hp : p.Proper) :
    '+' ∈ emptied p t ↔ ∃ a b, t = a ++ '+' :: b ∧ (p.afterText a).IsOuter := by
  induction t generalizing p with
  | nil => simp [emptied]
  | cons c t ih =>
      have hlater : (∃ a b, c :: t = a ++ '+' :: b ∧ (p.afterText a).IsOuter) ↔
          c = '+' ∧ p.IsOuter ∨ '+' ∈ emptied (p.after c) t := by
        rw [ih (hp.after c)]
        constructor
        · rintro ⟨a, b, h, houter⟩
          cases a with
          | nil => exact .inl ⟨(List.cons.inj h).1, houter⟩
          | cons d a =>
              obtain ⟨rfl, rfl⟩ := List.cons.inj h
              exact .inr ⟨a, b, rfl, houter⟩
        · rintro (⟨rfl, houter⟩ | ⟨a, b, rfl, houter⟩)
          · exact ⟨[], t, rfl, houter⟩
          · exact ⟨c :: a, b, rfl, houter⟩
      rw [hlater, emptied]
      split
      · next hkept =>
        rw [List.mem_cons]
        refine or_congr_left ⟨?_, fun h => h.1.symm⟩
        rintro rfl
        exact ⟨rfl, hkept.elim id (Place.isOuter_of_neutral hp neutral_plus)⟩
      · next hkept =>
        have houter : ¬ p.IsOuter := fun houter => hkept (.inl houter)
        simp [houter]

theorem numeric_scan (t : Text) : (scan t).numeric = hasNumericType (typeTokens (tokenize t)) := by
  rw [← body_sortTokens]
  rfl

theorem signed_scan (t : Text) : (scan t).signed = true ↔
    (scan t).numeric = true ∧ ∃ token ∈ typeTokens (tokenize t), '+' ∈ token := by
  rw [numeric_scan, ← body_sortTokens, scan, Parts.spec]
  cases hnumeric : hasNumericType (sortTokens false (tokenize t)).body with
  | false => simp
  | true =>
      rw [if_pos rfl, Option.isSome_iff_ne_none, ne_eq, takePlus?_eq_none]
      simp

/-- A literal or a group behind a text, or a beginning of one: a sign that leads inside, and what follows
it as long as nothing leads outside. -/
structure Enclosed (before enclosed : Text) : Prop where
  outer : (Place.start.afterText before).IsOuter
  opens : ∃ c ∈ enclosed.head?, ¬ (Place.start.after c).IsOuter
  inside : ∀ a b, enclosed = a ++ b → a ≠ [] → b ≠ [] → ¬ (Place.start.afterText a).IsOuter

/-- The plus sign that a numeric type is signed with: the first one in the first token that has one. -/
def SignAt (ts : List Text) (front : List Text) (a b : Text) (back : List Text) : Prop :=
  ts = front ++ (a ++ '+' :: b) :: back ∧ (∀ token ∈ front, '+' ∉ token) ∧ '+' ∉ a

/-- The type of a column is handled by what stands outside literals and groups. It is numeric and signed
as it is with all of them emptied, the plus sign that is taken out stands outside of them, and each of
them is found as it is in the type or in the trailing clause. -/
structure HandledOutside (t : Text) : Prop where
  numeric : (scan t).numeric = (scan (emptied .start t)).numeric
  signed : (scan t).signed = (scan (emptied .start t)).signed
  sign : (scan t).signed = true → ∀ front a b back,
    SignAt (typeTokens (tokenize t)) front a b back → (Place.start.afterText a).IsOuter
  verbatim : ∀ before enclosed behind, t = before ++ (enclosed ++ behind) → Enclosed before enclosed →
    enclosed <:+: (scan t).dataType ∨ ∃ clause ∈ (scan t).trailing, enclosed <:+: clause

/-- The first token of a type has no numeric type name, or has one outside literals and groups; and if the
type is numeric, its first plus sign stands outside of them, if it has any. -/
structure MarkedOutside (ts : List Text) : Prop where
  name : ∀ token ∈ ts.head?, isNumericType token = true →
    isNumericType (emptied .start token) = true
  sign : hasNumericType ts = true → ∀ token ∈ ts.find? fun token => decide ('+' ∈ token),
    (Place.start.afterText (token.takeWhile fun c => c != '+')).IsOuter

theorem MarkedOutside.hasNumericType_eq {ts : List Text} (h : MarkedOutside ts) :
    hasNumericType (ts.map (emptied .start)) = hasNumericType ts := by
  cases ts with
  | nil => rfl
  | cons token ts =>
      rw [List.map_cons, hasNumericType, hasNumericType, Bool.eq_iff_iff]
      exact ⟨isNumericType_of_emptied, h.name token rfl⟩

theorem takeWhile_plus {a b : Text} (ha : '+' ∉ a) :
    (a ++ '+' :: b).takeWhile (fun c => c != '+') = a := by
  have hall : ∀ c ∈ a, (c != '+') = true := by
    intro c hc
    rw [bne_iff_ne]
    rintro rfl
    exact ha hc
  rw [List.takeWhile_append_of_pos hall]
  simp

theorem find?_plus {ts front back : List Text} {a b : Text} (h : SignAt ts front a b back) :
    (ts.find? fun token => decide ('+' ∈ token)) = some (a ++ '+' :: b) := by
  obtain ⟨rfl, hfront, -⟩ := h
  rw [List.find?_append, List.find?_eq_none.2 (by simpa using hfront)]
  simp

theorem exists_signAt {ts : List Text} {token : Text}
    (h : (ts.find? fun token => decide ('+' ∈ token)) = some token) :
    ∃ front a b back, SignAt ts front a b back ∧ token = a ++ '+' :: b := by
  obtain ⟨hplus, front, back, rfl, hfront⟩ := List.find?_eq_some_iff_append.1 h
  obtain ⟨a, b, rfl, ha⟩ := List.eq_append_cons_of_mem (of_decide_eq_true hplus)
  exact ⟨front, a, b, back, ⟨rfl, by simpa using hfront, ha⟩, rfl⟩

theorem MarkedOutside.outer {ts front back : List Text} {a b : Text} (h : MarkedOutside ts)
    (hnumeric : hasNumericType ts = true) (hsign : SignAt ts front a b back) :
    (Place.start.afterText a).IsOuter := by
  have houter := h.sign hnumeric _ (Option.mem_def.2 (find?_plus hsign))
  rwa [takeWhile_plus hsign.2.2] at houter

theorem MarkedOutside.signed_eq {t : Text} (h : MarkedOutside (typeTokens (tokenize t))) :
    (scan t).signed = (scan (emptied .start t)).signed := by
  rw [Bool.eq_iff_iff, signed_scan, signed_scan, numeric_scan, numeric_scan, typeTokens_emptied,
    h.hasNumericType_eq]
  refine and_congr_right fun hnumeric => ?_
  constructor
  · rintro ⟨token, htoken, hplus⟩
    have hsome : ((typeTokens (tokenize t)).find? fun token => decide ('+' ∈ token)).isSome = true :=
      List.find?_isSome.2 ⟨token, htoken, decide_eq_true hplus⟩
    obtain ⟨found, hfound⟩ := Option.isSome_iff_exists.1 hsome
    obtain ⟨front, a, b, back, hsign, rfl⟩ := exists_signAt hfound
    refine ⟨_, List.mem_map_of_mem (List.mem_of_find?_eq_some hfound), ?_⟩
    exact (plus_mem_emptied (p := .start) trivial).2 ⟨a, b, rfl, h.outer hnumeric hsign⟩
  · rintro ⟨_, hmem, hplus⟩
    obtain ⟨token, htoken, rfl⟩ := List.mem_map.1 hmem
    obtain ⟨a, b, rfl, -⟩ := (plus_mem_emptied (p := .start) trivial).1 hplus
    exact ⟨_, htoken, by simp⟩

theorem outer_of_mem_allPieces {t w : Text} (houter : (Place.start.afterText t).IsOuter)
    (h : w ∈ allPieces .start t) : (Place.start.afterText w).IsOuter := by
  obtain ⟨-, hfirst, hlater⟩ := pieces_whole houter
  rcases List.mem_cons.1 h with rfl | h
  · exact hfirst
  · exact (hlater w h).2

section
variable {before enclosed : Text}

theorem Enclosed.single (h : Enclosed before enclosed) : pieces .start enclosed = (enclosed, []) := by
  refine single_iff.2 fun a c b hab => ?_
  cases a with
  | nil =>
      obtain ⟨d, hd, hopens⟩ := h.opens
      rw [hab] at hd
      cases hd
      -- A blank would not lead inside.
      have hblank : isBlank c = false := by
        rw [Bool.eq_false_iff]
        intro hblank
        rw [Place.after_blank_start hblank] at hopens
        exact hopens Place.isOuter_start
      simp [Place.afterText, Place.separates, hblank]
  | cons d a =>
      have hinside := h.inside (d :: a) (c :: b) hab (List.cons_ne_nil _ _) (List.cons_ne_nil _ _)
      simp [Place.separates, hinside]

/-- A literal or a group is in one token, in which it starts at an outer place. -/
theorem Enclosed.exists_token (h : Enclosed before enclosed) (behind : Text) :
    ∃ x y, x ++ (enclosed ++ y) ∈ tokenize (before ++ (enclosed ++ behind)) ∧
      (Place.start.afterText x).IsOuter := by
  obtain ⟨front, last, hbefore, happend⟩ := exists_allPieces_append .start before
  have hlast : last ∈ allPieces .start before := by
    rw [hbefore]
    exact List.mem_append_right _ List.mem_cons_self
  have hne : enclosed ≠ [] := by
    rintro rfl
    obtain ⟨_, hc, _⟩ := h.opens
    cases hc
  refine ⟨last, (pieces (Place.start.afterText enclosed) behind).1, ?_,
    outer_of_mem_allPieces h.outer hlast⟩
  rw [tokenize_eq_filter, happend, Place.eq_start_of_isOuter h.outer,
    pieces_append_single h.single, List.mem_filter]
  refine ⟨List.mem_append_right _ List.mem_cons_self, ?_⟩
  simp [hne]

theorem Enclosed.role_eq (h : Enclosed before enclosed) (x y : Text) :
    role (x ++ (enclosed ++ y)) = .other := by
  obtain ⟨c, hc, hopens⟩ := h.opens
  obtain ⟨rest, rfl⟩ := List.head?_eq_some_iff.1 hc
  apply role_eq_other (c := c)
  · simp
  · intro hneutral
    rw [hneutral.after_start] at hopens
    exact hopens Place.isOuter_start

theorem Enclosed.head_ne_plus (h : Enclosed before enclosed) {y b : Text} :
    enclosed ++ y ≠ '+' :: b := by
  obtain ⟨c, hc, hopens⟩ := h.opens
  obtain ⟨rest, rfl⟩ := List.head?_eq_some_iff.1 hc
  intro he
  obtain ⟨rfl, -⟩ := List.cons.inj he
  rw [neutral_plus.after_start] at hopens
  exact hopens Place.isOuter_start

/-- A plus sign that stands outside is taken from in front of a literal or a group or from behind it. -/
theorem Enclosed.infix_without_plus (h : Enclosed before enclosed) {a b x y : Text}
    (hx : (Place.start.afterText x).IsOuter) (ha : (Place.start.afterText a).IsOuter)
    (he : x ++ (enclosed ++ y) = a ++ '+' :: b) : enclosed <:+: a ++ b := by
  rcases List.append_eq_append_iff.1 he with ⟨middle, rfl, hrest⟩ | ⟨middle, rfl, hrest⟩
  · rcases List.append_eq_append_iff.1 hrest with ⟨later, rfl, -⟩ | ⟨later, henclosed, -⟩
    · exact ⟨x, later ++ b, by simp⟩
    · -- The sign stands right behind it; at its start or inside it would not be taken.
      cases later with
      | nil =>
          rw [List.append_nil] at henclosed
          exact ⟨x, b, by rw [henclosed]⟩
      | cons c later =>
          exfalso
          rw [Place.afterText_append, Place.eq_start_of_isOuter hx] at ha
          by_cases hmiddle : middle = []
          · exact h.head_ne_plus (hrest.trans (by rw [hmiddle]; rfl))
          · exact h.inside middle (c :: later) henclosed hmiddle (List.cons_ne_nil c later) ha
  · cases middle with
    | nil => exact absurd hrest.symm h.head_ne_plus
    | cons c middle =>
        obtain ⟨-, rfl⟩ := List.cons.inj hrest
        exact ⟨a ++ middle, y, by simp⟩

end

theorem Thinned.mem_of_not {P : Text → Prop} {ws vs : List Text} (h : Thinned P ws vs) {w : Text}
    (hw : w ∈ ws) (hP : ¬ P w) : w ∈ vs := by
  induction h with
  | nil => exact hw
  | keep v _ ih =>
      rcases List.mem_cons.1 hw with rfl | hw
      · exact List.mem_cons_self
      · exact List.mem_cons_of_mem _ (ih hw)
  | drop hv _ ih =>
      rcases List.mem_cons.1 hw with rfl | hw
      · exact absurd hv hP
      · exact ih hw

theorem infix_join {w : Text} {ws : List Text} (h : w ∈ ws) : w <:+: Text.join [' '] ws := by
  induction ws with
  | nil => cases h
  | cons v ws ih =>
      rw [Text.join_cons_eq]
      rcases List.mem_cons.1 h with rfl | h
      · exact (List.prefix_append _ _).isInfix
      · cases ws with
        | nil => cases h
        | cons u ws =>
            have hlater := ih h
            rw [Text.join_cons_eq] at hlater
            exact hlater.trans ⟨v ++ [' '], [], by simp⟩

/-- Where the sign of a numeric type stands outside, every literal and every group is kept. -/
theorem MarkedOutside.verbatim {before enclosed behind : Text}
    (h : MarkedOutside (typeTokens (tokenize (before ++ (enclosed ++ behind)))))
    (henclosed : Enclosed before enclosed) :
    enclosed <:+: (scan (before ++ (enclosed ++ behind))).dataType ∨
      ∃ clause ∈ (scan (before ++ (enclosed ++ behind))).trailing, enclosed <:+: clause := by
  obtain ⟨x, y, htoken, hx⟩ := henclosed.exists_token behind
  have hsorts := sorts_sortTokens false (tokenize (before ++ (enclosed ++ behind)))
  have hkept := hsorts.thinned.mem_of_not htoken (by simp [henclosed.role_eq])
  have hbody := body_sortTokens (tokenize (before ++ (enclosed ++ behind)))
  have hinfix : enclosed <:+: x ++ (enclosed ++ y) := ⟨x, y, by simp⟩
  unfold scan
  generalize sortTokens false (tokenize (before ++ (enclosed ++ behind))) = p at hkept hbody
  rw [← hbody] at h
  rcases List.mem_append.1 hkept with hmem | hmem
  · left
    cases hsigned : p.spec.signed with
    | false =>
        rw [(p.dataType_of_plain hsigned).1]
        exact hinfix.trans (infix_join hmem)
    | true =>
        obtain ⟨hnumeric, plain, hplain, htype⟩ := p.dataType_of_signed hsigned
        obtain ⟨front, a, b, back, htokens, hfront, ha, rfl⟩ := takePlus?_eq_some.1 hplain
        have houter := h.outer hnumeric ⟨htokens, hfront, ha⟩
        rw [htype]
        rw [htokens] at hmem
        rcases List.mem_append.1 hmem with hmem | hmem
        · exact hinfix.trans (infix_join (by simp [hmem]))
        · rcases List.mem_cons.1 hmem with he | hmem
          · -- It stands in the token that loses its sign.
            have hrest := henclosed.infix_without_plus hx houter he
            have hne : a ++ b ≠ [] := by
              intro hempty
              rw [hempty, List.infix_nil] at hrest
              subst hrest
              obtain ⟨_, hc, _⟩ := henclosed.opens
              cases hc
            rw [if_neg hne]
            exact hrest.trans (infix_join (by simp))
          · exact hinfix.trans (infix_join (by simp [hmem]))
  · right
    have hclause : p.spec.trailing = some (Text.join [' '] p.trailing) := by
      unfold Parts.spec
      rw [if_neg (by simpa using List.ne_nil_of_mem hmem)]
    exact ⟨_, Option.mem_def.2 hclause, hinfix.trans (infix_join hmem)⟩

/-- Contents of literals and groups have no part in a type, and are kept, exactly where neither its
numeric type name nor its plus sign is found inside one. -/
theorem scan_handledOutside_iff {t : Text} :
    HandledOutside t ↔ MarkedOutside (typeTokens (tokenize t)) := by
  constructor
  · intro h
    have hnumeric := h.numeric
    rw [numeric_scan, numeric_scan, typeTokens_emptied] at hnumeric
    constructor
    · intro token htoken hname
      obtain ⟨rest, hrest⟩ := List.head?_eq_some_iff.1 htoken
      rw [hrest] at hnumeric
      exact hnumeric.symm.trans hname
    · intro hname token htoken
      obtain ⟨front, a, b, back, hsign, rfl⟩ := exists_signAt htoken
      rw [takeWhile_plus hsign.2.2]
      refine h.sign ((signed_scan t).2 ⟨(numeric_scan t).trans hname, a ++ '+' :: b, ?_, by simp⟩)
        front a b back hsign
      rw [hsign.1]
      simp
  · intro h
    constructor
    · rw [numeric_scan, numeric_scan, typeTokens_emptied, h.hasNumericType_eq]
    · exact h.signed_eq
    · intro hsigned front a b back hsign
      exact h.outer ((numeric_scan t).symm.trans ((signed_scan t).1 hsigned).1) hsign
    · rintro before enclosed behind rfl henclosed
      exact h.verbatim henclosed

theorem scan_handledOutside_iff_price :
    HandledOutside "decimal(8, 2)+ AS ('2' + 1) COMMENT 'a+b'" :=
  scan_handledOutside_iff.2 ⟨by decide +kernel, by decide +kernel⟩

/-- The sum that computes a price loses its sign, because the price is a number. The values of an
enumeration make it a number, because `mint` has a numeric type name in it, and one of them loses its
plus sign as the sign of that number. -/
theorem contents_decide_type :
    ((scan "decimal(8, 2) AS (net + tax)").render = "decimal(8, 2) AS (net  tax) NOT NULL".toList ∧
      ¬ HandledOutside "decimal(8, 2) AS (net + tax)") ∧
    ((scan "enum('mint', 'mint+')").numeric = true ∧
      (scan (emptied .start "enum('mint', 'mint+')")).numeric = false ∧
      (scan "enum('mint', 'mint+')").render = "enum('mint', 'mint') NOT NULL".toList ∧
      ¬ HandledOutside "enum('mint', 'mint+')") := by
  have hnumeric : (scan "enum('mint', 'mint+')").numeric = true := by
    decide +kernel
  have hemptied : (scan (emptied .start "enum('mint', 'mint+')")).numeric = false := by
    decide +kernel
  refine ⟨⟨by decide +kernel, ?_⟩, hnumeric, hemptied, by decide +kernel, ?_⟩
  · intro h
    have hsigned : (scan "decimal(8, 2) AS (net + tax)").signed = true := by decide +kernel
    rw [h.signed] at hsigned
    exact absurd hsigned (by decide +kernel)
  · intro h
    have hsame := h.numeric
    rw [hnumeric, hemptied] at hsame
    cases hsame

end SchemaScript.Column
