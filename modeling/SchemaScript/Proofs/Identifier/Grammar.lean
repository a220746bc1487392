/- The grammar of references: what is read as one has exactly one way to be put together from an
   arrow, two identifiers and a dot between them. -/
import SchemaScript.Proofs.Text.Lines
import SchemaScript.Proofs.Text.Search
import SchemaScript.Identifier.Reference

namespace SchemaScript

namespace Identifier

/-- What may stand between quotes: characters that stand for themselves, and quotes written twice. -/
inductive Inner : Text → Prop
  | nil : Inner []
  | char {c : Char} {t : Text} (hc : isQuotable c = true) (h : Inner t) : Inner (c :: t)
  | quotes {t : Text} (h : Inner t) : Inner ('\x60' :: '\x60' :: t)

/-- The two ways to write the text of an identifier. -/
inductive Written : (written text : Text) → Prop
  | bare {t : Text} (hne : t ≠ []) (h : ∀ c ∈ t, isBare c = true) : Written t t
  | quoted {t : Text} (hne : t ≠ []) (h : Inner t) : Written ('\x60' :: t ++ ['\x60']) t

/-- A text that no identifier in front of it can take a character from. -/
def Stops (t : Text) : Prop := ∀ c ∈ t.head?, isBare c = false ∧ c ≠ '\x60'

theorem isBare_quoteMark : isBare '\x60' = false := by decide

theorem isQuotable_quoteMark : isQuotable '\x60' = false := by decide

theorem closeQuoted?_mark {rest : Text} (h : rest.head? ≠ some '\x60') :
    closeQuoted? ('\x60' :: rest) = some ([], rest) := by
  cases rest with
  | nil => rfl
  | cons c rest =>
      have hc : c ≠ '\x60' := fun hc => h (by rw [hc]; rfl)
      rw [closeQuoted?]
      exact fun _ he => hc (List.cons.inj he).1

theorem closeQuoted?_inner {t rest : Text} (h : Inner t) (hr : rest.head? ≠ some '\x60') :
    closeQuoted? (t ++ '\x60' :: rest) = some (t, rest) := by
  induction h with
  | nil => exact closeQuoted?_mark hr
  | char hc _ ih =>
      rw [List.cons_append, closeQuoted?, if_pos hc, ih]
      · rfl
      · rintro _ rfl _
        rw [isQuotable_quoteMark] at hc
        cases hc
      · rintro rfl
        rw [isQuotable_quoteMark] at hc
        cases hc
  | quotes _ ih => rw [List.cons_append, List.cons_append, closeQuoted?, ih]

theorem inner_of_closeQuoted? {t inner behind : Text} (h : closeQuoted? t = some (inner, behind)) :
    Inner inner ∧ t = inner ++ '\x60' :: behind := by
  fun_induction closeQuoted? t generalizing inner behind with
  | case1 => cases h
  | case2 rest i b hr ih =>
      cases h
      obtain ⟨hi, rfl⟩ := ih hr
      exact ⟨.quotes hi, rfl⟩
  | case3 rest hr ih =>
      cases h
      exact ⟨.nil, rfl⟩
  | case4 rest =>
      cases h
      exact ⟨.nil, rfl⟩
  | case5 c rest _ _ hc ih =>
      obtain ⟨⟨i, b⟩, hr, he⟩ := Option.map_eq_some_iff.1 h
      cases he
      obtain ⟨hi, rfl⟩ := ih hr
      exact ⟨.char hc hi, rfl⟩
  | case6 => cases h

theorem written_of_quoted? {t inner behind : Text} (h : quoted? t = some (inner, behind)) :
    ∃ written, Written written inner ∧ t = written ++ behind := by
  unfold quoted? at h
  split at h
  · next rest =>
    obtain ⟨hclose, hne⟩ := Option.filter_eq_some_iff.1 h
    obtain ⟨hinner, rfl⟩ := inner_of_closeQuoted? hclose
    refine ⟨'\x60' :: inner ++ ['\x60'], .quoted ?_ hinner, ?_⟩
    · rintro rfl
      cases hne
    · simp
  · cases h

theorem written_of_bare? {t inner behind : Text} (h : bare? t = some (inner, behind)) :
    ∃ written, Written written inner ∧ t = written ++ behind := by
  have hall := List.takeWhile_append_dropWhile (p := isBare) (l := t)
  unfold bare? at h
  split at h
  · cases h
  · next c cs htake =>
    cases h
    refine ⟨c :: cs, .bare (List.cons_ne_nil c cs) ?_, ?_⟩
    · intro a ha
      rw [← htake] at ha
      exact List.mem_takeWhile_imp ha
    · rw [← htake, hall]

theorem written_of_read? {t inner behind : Text} (h : read? t = some (inner, behind)) :
    ∃ written, Written written inner ∧ t = written ++ behind := by
  unfold read? at h
  cases hq : quoted? t with
  | none =>
      rw [hq] at h
      exact written_of_bare? h
  | some r =>
      rw [hq] at h
      cases h
      exact written_of_quoted? hq

theorem bare?_append {t rest : Text} (hne : t ≠ []) (h : ∀ c ∈ t, isBare c = true)
    (hr : Stops rest) : bare? (t ++ rest) = some (t, rest) := by
  have hstop : rest.takeWhile isBare = [] ∧ rest.dropWhile isBare = rest := by
    cases rest with
    | nil => exact ⟨rfl, rfl⟩
    | cons c rest =>
        have hc := (hr c rfl).1
        simp [hc]
  unfold bare?
  rw [List.takeWhile_append_of_pos h, List.dropWhile_append_of_pos h, hstop.1, hstop.2,
    List.append_nil]
  obtain ⟨c, cs, rfl⟩ := List.exists_cons_of_ne_nil hne
  rfl

theorem quoted?_eq_none_of_bare {t rest : Text} (hne : t ≠ []) (h : ∀ c ∈ t, isBare c = true) :
    quoted? (t ++ rest) = none := by
  obtain ⟨c, cs, rfl⟩ := List.exists_cons_of_ne_nil hne
  have hc : c ≠ '\x60' := by
    rintro rfl
    have hbare := h _ List.mem_cons_self
    rw [isBare_quoteMark] at hbare
    cases hbare
  rw [List.cons_append, quoted?]
  exact fun _ he => hc (List.cons.inj he).1

/-- An identifier is read as a whole, however it is written. -/
theorem read?_written {written inner rest : Text} (h : Written written inner) (hr : Stops rest) :
    read? (written ++ rest) = some (inner, rest) := by
  unfold read?
  cases h with
  | bare hne hbare =>
      rw [quoted?_eq_none_of_bare hne hbare]
      exact bare?_append hne hbare hr
  | quoted hne hinner =>
      have hclose : closeQuoted? (inner ++ '\x60' :: rest) = some (inner, rest) := by
        apply closeQuoted?_inner hinner
        intro hhead
        exact (hr _ (Option.mem_def.2 hhead)).2 rfl
      obtain ⟨c, cs, rfl⟩ := List.exists_cons_of_ne_nil hne
      simp only [List.cons_append, List.append_assoc, List.nil_append, quoted?] at hclose ⊢
      rw [hclose]
      rfl

/-- The written form is determined by what follows it. -/
theorem Written.cancel {w₁ w₂ i₁ i₂ r₁ r₂ : Text} (h₁ : Written w₁ i₁) (h₂ : Written w₂ i₂)
    (hr₁ : Stops r₁) (hr₂ : Stops r₂) (h : w₁ ++ r₁ = w₂ ++ r₂) :
    w₁ = w₂ ∧ i₁ = i₂ ∧ r₁ = r₂ := by
  have hread := read?_written h₁ hr₁
  rw [h, read?_written h₂ hr₂] at hread
  cases hread
  exact ⟨List.append_cancel_right h, rfl, rfl⟩

/-- A written identifier starts with a character of its own, never with a space. -/
theorem Written.head_ne_space {written inner : Text} (h : Written written inner) (rest : Text) :
    (written ++ rest).head? ≠ some ' ' := by
  cases h with
  | bare hne hbare =>
      obtain ⟨c, cs, rfl⟩ := List.exists_cons_of_ne_nil hne
      intro hhead
      cases hhead
      exact absurd (hbare ' ' List.mem_cons_self) (by decide)
  | quoted _ _ =>
      intro hhead
      cases hhead

end Identifier

namespace Text

theorem dropWhile_spaces {n : Nat} {t : Text} (h : t.head? ≠ some ' ') :
    (spaces n ++ t).dropWhile (· == ' ') = t := by
  rw [spaces, List.dropWhile_append_of_pos]
  · cases t with
    | nil => rfl
    | cons c t =>
        have hc : (c == ' ') = false := beq_eq_false_iff_ne.2 fun hc => h (by rw [hc]; rfl)
        rw [List.dropWhile_cons, hc]
        rfl
  · intro c hc
    rw [List.eq_of_mem_replicate hc]
    rfl

theorem exists_spaces (t : Text) : ∃ n, t = spaces n ++ t.dropWhile (· == ' ') := by
  refine ⟨(t.takeWhile (· == ' ')).length, ?_⟩
  have hspaces : t.takeWhile (· == ' ') = spaces (t.takeWhile (· == ' ')).length := by
    apply List.eq_replicate_iff.2
    refine ⟨rfl, fun c hc => ?_⟩
    have hspace := List.mem_takeWhile_imp hc
    exact eq_of_beq hspace
  rw [← hspaces, List.takeWhile_append_dropWhile]

theorem spaces_inj {m n : Nat} {t u : Text} (ht : t.head? ≠ some ' ') (hu : u.head? ≠ some ' ')
    (h : spaces m ++ t = spaces n ++ u) : m = n ∧ t = u := by
  have htail : t = u := by rw [← dropWhile_spaces ht, h, dropWhile_spaces hu]
  subst htail
  have hlength := congrArg List.length (List.append_cancel_right h)
  simpa [spaces] using hlength

end Text

namespace Reference

/-- The parts that a reference is written with: two identifiers in their written forms with their
texts, the numbers of spaces around the dot, and what follows. -/
structure Form where
  writtenTable : Text
  table : Text
  before : Nat
  behind : Nat
  writtenColumn : Text
  column : Text
  rest : Text

namespace Form

/-- A reference as its parts are written, with a text behind it. -/
def written (f : Form) (behind : Text) : Text :=
  arrow ++ ' ' :: (f.writtenTable ++ (Text.spaces f.before ++
    '.' :: (Text.spaces f.behind ++ (f.writtenColumn ++ behind))))

def text (f : Form) : Text := f.written f.rest

/-- What belongs to the reference: all up to the end of the column, and one space behind it if there
is one. -/
def marker (f : Form) : Text := f.written (f.rest.take 1)

def reference (f : Form) : Reference := { table := f.table, column := f.column }

/-- What makes parts a reference. -/
structure Valid (f : Form) : Prop where
  table : Identifier.Written f.writtenTable f.table
  column : Identifier.Written f.writtenColumn f.column
  rest : f.rest = [] ∨ ∃ later, f.rest = ' ' :: later
  tableSolid : Text.isBlank f.table = false
  columnSolid : Text.isBlank f.column = false

/-- What makes parts a reference, were it not for identifiers that are all white space. -/
structure Shaped (f : Form) : Prop where
  table : Identifier.Written f.writtenTable f.table
  column : Identifier.Written f.writtenColumn f.column
  rest : f.rest = [] ∨ ∃ later, f.rest = ' ' :: later

theorem Valid.shaped {f : Form} (h : f.Valid) : f.Shaped := ⟨h.table, h.column, h.rest⟩

theorem marker_append (f : Form) : f.marker ++ f.rest.drop 1 = f.text := by
  simp only [marker, text, written, List.append_assoc, List.cons_append, List.take_append_drop]

theorem stops_spaces {n : Nat} {t : Text} : Identifier.Stops (Text.spaces n ++ '.' :: t) := by
  cases n with
  | zero =>
      intro c hc
      cases hc
      decide
  | succ n =>
      intro c hc
      cases hc
      decide

theorem Shaped.stops_rest {f : Form} (h : f.Shaped) : Identifier.Stops f.rest := by
  rcases h.rest with hrest | ⟨later, hrest⟩
  · rw [hrest]
    intro c hc
    cases hc
  · rw [hrest]
    intro c hc
    cases hc
    decide

/-- The parts of a reference are determined by its text. -/
theorem Shaped.unique {f g : Form} (hf : f.Shaped) (hg : g.Shaped) (h : f.text = g.text) : f = g := by
  obtain ⟨w₁, t₁, m₁, n₁, v₁, c₁, r₁⟩ := f
  obtain ⟨w₂, t₂, m₂, n₂, v₂, c₂, r₂⟩ := g
  have hnames := (List.cons.inj (List.append_cancel_left h)).2
  obtain ⟨rfl, rfl, hdot⟩ := hf.table.cancel hg.table stops_spaces stops_spaces hnames
  obtain ⟨rfl, hdot⟩ := Text.spaces_inj (by simp) (by simp) hdot
  have hcolumns := (List.cons.inj hdot).2
  obtain ⟨rfl, hcolumns⟩ :=
    Text.spaces_inj (hf.column.head_ne_space _) (hg.column.head_ne_space _) hcolumns
  obtain ⟨rfl, rfl, rfl⟩ := hf.column.cancel hg.column hf.stops_rest hg.stops_rest hcolumns
  rfl

end Form

theorem afterDot?_eq_some {t rest : Text} (h : afterDot? t = some rest) :
    ∃ m n, t = Text.spaces m ++ '.' :: (Text.spaces n ++ rest) := by
  unfold afterDot? at h
  split at h
  · next fromDot hdot =>
    cases h
    obtain ⟨m, hm⟩ := Text.exists_spaces t
    obtain ⟨n, hn⟩ := Text.exists_spaces fromDot
    refine ⟨m, n, ?_⟩
    rw [← hn, ← hdot]
    exact hm
  · cases h

theorem afterDot?_spaces {m n : Nat} {t : Text} (h : t.head? ≠ some ' ') :
    afterDot? (Text.spaces m ++ '.' :: (Text.spaces n ++ t)) = some t := by
  rw [afterDot?, Text.dropWhile_spaces (by simp)]
  simp only [Text.dropWhile_spaces h]

theorem afterEnd?_eq_some {t rest : Text} :
    afterEnd? t = some rest ↔ (t = [] ∨ ∃ later, t = ' ' :: later) ∧ t.drop 1 = rest := by
  fun_cases afterEnd? t with
  | case1 => simp
  | case2 later => simp
  | case3 t hnil hspace => simp_all

/-- What is read as a reference is put together as one. -/
theorem exists_form_of_read? {t rest : Text} {r : Reference} (h : read? t = some (r, rest)) :
    ∃ f : Form, f.Valid ∧ f.text = t ∧ f.reference = r ∧ f.rest.drop 1 = rest := by
  unfold read? at h
  simp only [Option.bind_eq_bind, Option.bind_eq_some_iff] at h
  obtain ⟨fromTable, hstart, ⟨table, behindTable⟩, htable, fromColumn, hdot,
    ⟨column, behindColumn⟩, hcolumn, rest', hend, h⟩ := h
  obtain ⟨writtenTable, hwrittenTable, rfl⟩ := Identifier.written_of_read? htable
  obtain ⟨m, n, rfl⟩ := afterDot?_eq_some hdot
  obtain ⟨writtenColumn, hwrittenColumn, rfl⟩ := Identifier.written_of_read? hcolumn
  obtain ⟨hrest, rfl⟩ := afterEnd?_eq_some.1 hend
  split at h
  · cases h
  · next hsolid =>
    cases h
    rw [Bool.not_eq_true, Bool.or_eq_false_iff] at hsolid
    refine ⟨⟨writtenTable, table, m, n, writtenColumn, column, behindColumn⟩, ?_, ?_, rfl, rfl⟩
    · exact ⟨hwrittenTable, hwrittenColumn, hrest, hsolid.1, hsolid.2⟩
    · rw [Text.after?_eq_some.1 hstart]
      simp [Form.text, Form.written]

/-- What is put together as a reference is read as one. -/
theorem read?_form {f : Form} (h : f.Valid) :
    read? f.text = some (f.reference, f.rest.drop 1) := by
  have hstart : Text.after? (arrow ++ [' ']) f.text = some (f.writtenTable ++
      (Text.spaces f.before ++ '.' :: (Text.spaces f.behind ++ (f.writtenColumn ++ f.rest)))) := by
    rw [Text.after?_eq_some]
    simp [Form.text, Form.written]
  have htable := Identifier.read?_written h.table
    (Form.stops_spaces (n := f.before) (t := Text.spaces f.behind ++ (f.writtenColumn ++ f.rest)))
  have hdot := afterDot?_spaces (m := f.before) (n := f.behind) (h.column.head_ne_space f.rest)
  have hcolumn := Identifier.read?_written h.column h.shaped.stops_rest
  have hend := afterEnd?_eq_some.2 ⟨h.rest, rfl⟩
  unfold read?
  simp only [hstart, Option.bind_eq_bind, Option.bind_some, htable, hdot, hcolumn, hend,
    h.tableSolid, h.columnSolid]
  rfl

/-- A text starts with a reference exactly where it is put together as one, for which there is only
one way. The reference has the texts of the two identifiers, and what is left is all behind them but
for one space. -/
theorem read?_iff_form {t rest : Text} {r : Reference} :
    read? t = some (r, rest) ↔
      ∃ f : Form, (f.Valid ∧ f.text = t ∧ f.reference = r ∧ f.marker ++ rest = t) ∧
        ∀ g : Form, g.Valid → g.text = t → g = f := by
  constructor
  · intro h
    obtain ⟨f, hf, rfl, href, rfl⟩ := exists_form_of_read? h
    exact ⟨f, ⟨hf, rfl, href, f.marker_append⟩, fun g hg hgf => hg.shaped.unique hf.shaped hgf⟩
  · rintro ⟨f, ⟨hf, rfl, rfl, hrest⟩, -⟩
    rw [← f.marker_append] at hrest
    rw [List.append_cancel_left hrest]
    exact read?_form hf

theorem read?_iff_form_quotes :
    read? "-> \x60order \x60\x60items\x60 . id  NULL" =
        some ({ table := "order \x60\x60items", column := "id" }, " NULL".toList) ∧
      ∃ f : Form, (f.Valid ∧ f.text = "-> \x60order \x60\x60items\x60 . id  NULL".toList ∧
          f.reference = { table := "order \x60\x60items", column := "id" } ∧
            f.marker ++ " NULL".toList = "-> \x60order \x60\x60items\x60 . id  NULL".toList) ∧
        ∀ g : Form, g.Valid → g.text = "-> \x60order \x60\x60items\x60 . id  NULL".toList → g = f := by
  have h : read? "-> \x60order \x60\x60items\x60 . id  NULL" =
      some ({ table := "order \x60\x60items", column := "id" }, " NULL".toList) := by decide +kernel
  exact ⟨h, read?_iff_form.1 h⟩

end Reference

end SchemaScript
