/- Markers may stand anywhere: the tokens of two texts put together are sorted like those of each, so a
   marker between two tokens that are not read together sets its own flag and nothing else. -/
import SchemaScript.Proofs.Column.Conserved
import SchemaScript.Proofs.Column.Literals
import SchemaScript.Proofs.Column.Whole

namespace SchemaScript.Column

/-- Sorted tokens with others behind them. Of several nullabilities the first counts. -/
def Parts.append (p q : Parts) : Parts where
  body := p.body ++ q.body
  trailing := p.trailing ++ q.trailing
  zerofill := p.zerofill || q.zerofill
  nullability := p.nullability.or q.nullability
  autoIncrement := p.autoIncrement || q.autoIncrement
  primary := p.primary || q.primary
  unique := p.unique || q.unique

theorem Parts.nil_append (p : Parts) : append {} p = p := rfl

theorem Parts.mark_append (p q : Parts) (kind : IndexKind) :
    (p.mark kind).append q = (p.append q).mark kind := by
  cases kind <;> rfl

/-- Whether the trailing clause has begun behind tokens. -/
def begun (b : Bool) (ts : List Text) : Bool := b || ts.any fun token => role token = .opening

/-- A token takes the next one along: an index keyword a `KEY` and, before the trailing clause, a `NOT` a
`NULL`. -/
def Together (begun : Bool) (token next : Text) : Prop :=
  (role token).isIndex = true ∧ role next = .key ∨
    begun = false ∧ role token = .not ∧ role next = .null

/-- Nothing is taken along over the boundary between two lists of tokens. -/
def Free (b : Bool) (l r : List Text) : Prop :=
  ∀ token ∈ l.getLast?, ∀ next ∈ r.head?, ¬ Together (begun b l) token next

section
variable {b later : Bool} {token : Text} {l r : List Text}

theorem begun_cons : begun b (token :: l) = begun (b || decide (role token = .opening)) l := by
  rw [begun, begun, List.any_cons, Bool.or_assoc]

theorem begun_cons_of_ne (h : role token ≠ .opening) : begun b (token :: l) = begun b l := by
  rw [begun_cons, decide_eq_false h, Bool.or_false]

theorem Free.of_cons (h : Free b (token :: l) r) (hlater : begun b (token :: l) = begun later l) :
    Free later l r := by
  intro last hlast next hnext
  rw [← hlater]
  apply h last _ next hnext
  rw [List.getLast?_cons, Option.mem_def.1 hlast]
  rfl

theorem Free.not_key (h : Free b (token :: l) r) (hindex : (role token).isIndex = true)
    (hl : ∀ next ∈ l.head?, role next ≠ .key) : ∀ next ∈ (l ++ r).head?, role next ≠ .key := by
  cases l with
  | nil =>
      intro next hnext hkey
      exact h token rfl next hnext (.inl ⟨hindex, hkey⟩)
  | cons => exact hl

theorem Free.not_null (h : Free false (token :: l) r) (hnot : role token = .not)
    (hl : ∀ next ∈ l.head?, role next ≠ .null) : ∀ next ∈ (l ++ r).head?, role next ≠ .null := by
  cases l with
  | nil =>
      intro next hnext hnull
      have hbegun : begun false [token] = false := by
        simp [begun, hnot]
      exact h token rfl next hnext (.inr ⟨hbegun, hnot, hnull⟩)
  | cons => exact hl

end

/-- Tokens behind others are sorted by themselves, if none of them is taken along over the boundary. -/
theorem Sorts.append {b : Bool} {l r : List Text} {p q : Parts} (h : Sorts b l p)
    (hr : Sorts (begun b l) r q) (hfree : Free b l r) : Sorts b (l ++ r) (p.append q) := by
  induction h with
  | nil =>
      rw [Parts.nil_append]
      simpa [begun] using hr
  | @counter b token rest _ h _ ih =>
      have hbegun : begun b (token :: rest) = begun b rest := begun_cons_of_ne (by simp [h])
      exact .counter h (ih (hbegun ▸ hr) (hfree.of_cons hbegun))
  | @index b token rest _ kind h alone _ ih =>
      have hbegun : begun b (token :: rest) = begun b rest := begun_cons_of_ne (by simp [h])
      rw [Parts.mark_append]
      exact .index h (hfree.not_key (by simp [h, Role.isIndex]) alone)
        (ih (hbegun ▸ hr) (hfree.of_cons hbegun))
  | @indexKey b token key rest _ kind h hkey _ ih =>
      have hbegun : begun b (token :: key :: rest) = begun b (key :: rest) :=
        begun_cons_of_ne (by simp [h])
      have hbegun' : begun b (key :: rest) = begun b rest := begun_cons_of_ne (by simp [hkey])
      rw [Parts.mark_append]
      exact .indexKey h hkey (ih (hbegun' ▸ hbegun ▸ hr) ((hfree.of_cons hbegun).of_cons hbegun'))
  | @unsigned b token rest _ h _ ih =>
      have hbegun : begun b (token :: rest) = begun b rest := begun_cons_of_ne (by simp [h])
      exact .unsigned h (ih (hbegun ▸ hr) (hfree.of_cons hbegun))
  | @zerofill b token rest _ h _ ih =>
      have hbegun : begun b (token :: rest) = begun b rest := begun_cons_of_ne (by simp [h])
      exact .zerofill h (ih (hbegun ▸ hr) (hfree.of_cons hbegun))
  | @nullable b token rest _ h _ ih =>
      have hbegun : begun b (token :: rest) = begun b rest := begun_cons_of_ne (by simp [h])
      exact .nullable h (ih (hbegun ▸ hr) (hfree.of_cons hbegun))
  | @trailing b token rest _ h hstart _ ih =>
      have hbegun : begun b (token :: rest) = begun true rest := by
        rw [begun_cons]
        congr 1
        simpa using hstart
      exact .trailing h hstart (ih (hbegun ▸ hr) (hfree.of_cons hbegun))
  | @notNull token null rest _ h hnull _ ih =>
      have hbegun : begun false (token :: null :: rest) = begun false (null :: rest) :=
        begun_cons_of_ne (by simp [h])
      have hbegun' : begun false (null :: rest) = begun false rest := begun_cons_of_ne (by simp [hnull])
      exact .notNull h hnull (ih (hbegun' ▸ hbegun ▸ hr) ((hfree.of_cons hbegun).of_cons hbegun'))
  | @null token rest _ h _ ih =>
      have hbegun : begun false (token :: rest) = begun false rest := begun_cons_of_ne (by simp [h])
      exact .null h (ih (hbegun ▸ hr) (hfree.of_cons hbegun))
  | @body token rest _ h _ ih =>
      have hopening : role token ≠ .opening := by
        rcases h with h | h | ⟨h, _⟩ <;> simp [h]
      have hbegun : begun false (token :: rest) = begun false rest := begun_cons_of_ne hopening
      refine .body (h.imp_right (.imp_right ?_)) (ih (hbegun ▸ hr) (hfree.of_cons hbegun))
      exact fun hnot => ⟨hnot.1, hfree.not_null hnot.1 hnot.2⟩

theorem sortTokens_append {b : Bool} {l r : List Text} (hfree : Free b l r) :
    sortTokens b (l ++ r) = (sortTokens b l).append (sortTokens (begun b l) r) :=
  sortTokens_eq_of_sorts ((sorts_sortTokens b l).append (sorts_sortTokens _ r) hfree)

theorem lt_clauseStart_append {l rest : List Text} {next : Text} (hl : begun false l = false)
    (hnext : role next ≠ .opening) : l.length < clauseStart (l ++ next :: rest) := by
  rw [begun, Bool.false_or, List.any_eq_false] at hl
  have hnone : l.findIdx (fun token => decide (role token = .opening)) = l.length :=
    List.findIdx_eq_length.2 fun token htoken => Bool.eq_false_iff.2 (hl token htoken)
  rw [clauseStart, List.findIdx_append, hnone, if_neg (Nat.lt_irrefl _), List.findIdx_cons,
    decide_eq_false hnext]
  simp

/-- A boundary at a place that is not taken along is free. -/
theorem free_of_takenAlong {l r : List Text} (h : takenAlong (l ++ r) l.length = false) :
    Free false l r := by
  intro token htoken next hnext htogether
  obtain ⟨front, rfl⟩ := List.getLast?_eq_some_iff.1 htoken
  obtain ⟨rest, rfl⟩ := List.head?_eq_some_iff.1 hnext
  have hat : roleAt (front ++ [token] ++ next :: rest) (front ++ [token]).length = role next := by
    simp [roleAt]
  have hbefore : roleBefore (front ++ [token] ++ next :: rest) (front ++ [token]).length =
      role token := by
    simp [roleBefore, roleAt]
  unfold takenAlong at h
  rw [hat, hbefore] at h
  rcases htogether with ⟨hindex, hkey⟩ | ⟨hbegun, hnot, hnull⟩
  · rw [hkey] at h
    rw [hindex] at h
    cases h
  · have hnext : role next ≠ .opening := by
      rw [hnull]
      exact Role.noConfusion
    have hlt : (front ++ [token]).length < clauseStart (front ++ [token] ++ next :: rest) :=
      lt_clauseStart_append hbegun hnext
    rw [hnull, decide_eq_true hlt, hnot] at h
    cases h

theorem role_congr {w v : Text} (h : Text.sameIgnoringCase w v = true) : role w = role v := by
  rw [Text.sameIgnoringCase, beq_iff_eq] at h
  simp only [role, Text.sameIgnoringCase, h]

/-- What can be written at any boundary between tokens. -/
inductive Marker
  | counter
  | unsigned
  | zerofill
  | key (kind : IndexKind)
deriving Repr, DecidableEq

namespace Marker

def words : Marker → List Text
  | .counter => ["AUTO_INCREMENT"]
  | .unsigned => ["UNSIGNED"]
  | .zerofill => ["ZEROFILL"]
  | .key kind => [kind.keyword, "KEY"]

def roles : Marker → List Role
  | .counter => [.counter]
  | .unsigned => [.unsigned]
  | .zerofill => [.zerofill]
  | .key kind => [.index kind, .key]

/-- What sorting makes of the words of a marker. -/
def parts : Marker → Parts
  | .counter => { autoIncrement := true }
  | .unsigned => {}
  | .zerofill => { zerofill := true }
  | .key kind => ({} : Parts).mark kind

/-- Sets the flag of a marker. `UNSIGNED` has none, because it says what holds without it. -/
def mark : Marker → Spec → Spec
  | .counter, s => { s with autoIncrement := true }
  | .unsigned, s => s
  | .zerofill, s => { s with zerofill := true }
  | .key .primary, s => { s with primary := true }
  | .key .unique, s => { s with unique := true }

/-- The words of a marker, in any letter case. -/
def Spelled (m : Marker) (ts : List Text) : Prop :=
  List.Forall₂ (fun token word => Text.sameIgnoringCase token word = true) ts m.words

/-- The words of a marker written between two texts, apart from both. -/
structure Between (m : Marker) (l written r : Text) : Prop where
  words : m.Spelled (tokenize written)
  front : Apart l written
  behind : Apart written r

variable {m : Marker} {ts : List Text}

theorem Spelled.map_role (h : m.Spelled ts) : ts.map role = m.roles := by
  have hroles : m.words.map role = m.roles := by
    cases m with
    | key kind => cases kind <;> decide +kernel
    | _ => decide +kernel
  rw [← hroles]
  unfold Spelled at h
  generalize m.words = words at h
  induction h with
  | nil => rfl
  | cons hsame _ ih => rw [List.map_cons, List.map_cons, ih, role_congr hsame]

/-- A marker is sorted in the same way in front of the trailing clause and in it. -/
theorem Spelled.sorts (h : m.Spelled ts) (b : Bool) : Sorts b ts m.parts := by
  have hroles := h.map_role
  cases m with
  | counter =>
      obtain ⟨token, rfl, htoken⟩ := List.map_eq_singleton_iff.1 hroles
      exact .counter htoken .nil
  | unsigned =>
      obtain ⟨token, rfl, htoken⟩ := List.map_eq_singleton_iff.1 hroles
      exact .unsigned htoken .nil
  | zerofill =>
      obtain ⟨token, rfl, htoken⟩ := List.map_eq_singleton_iff.1 hroles
      exact .zerofill htoken .nil
  | key kind =>
      obtain ⟨token, rest, rfl, htoken, hrest⟩ := List.map_eq_cons_iff.1 hroles
      obtain ⟨key, rfl, hkey⟩ := List.map_eq_singleton_iff.1 hrest
      exact .indexKey htoken hkey .nil

theorem Spelled.ne_nil (h : m.Spelled ts) : ts ≠ [] := by
  have hroles := h.map_role
  rintro rfl
  cases m <;> cases hroles

theorem Spelled.begun_eq (h : m.Spelled ts) (b : Bool) : begun b ts = b := by
  have hnone : (m.roles.any fun r => decide (r = .opening)) = false := by
    cases m <;> rfl
  rw [← h.map_role, List.any_map] at hnone
  rw [begun, show (ts.any fun token => decide (role token = .opening)) = false from hnone,
    Bool.or_false]

/-- The first word of a marker is taken along by no token. -/
theorem Spelled.free_front (h : m.Spelled ts) (b : Bool) (l r : List Text) : Free b l (ts ++ r) := by
  intro token _ next hnext htogether
  rw [List.head?_append_of_ne_nil _ h.ne_nil] at hnext
  have hrole : role next ∈ m.roles.head? := by
    rw [← h.map_role, List.head?_map]
    exact Option.mem_map_of_mem role hnext
  rcases htogether with ⟨-, hkey⟩ | ⟨-, -, hnull⟩
  · rw [hkey] at hrole
    cases m <;> cases hrole
  · rw [hnull] at hrole
    cases m <;> cases hrole

/-- The last word of a marker takes no token along. -/
theorem Spelled.free_behind (h : m.Spelled ts) (b : Bool) (r : List Text) : Free b ts r := by
  intro token htoken next _ htogether
  have hrole : role token ∈ m.roles.getLast? := by
    rw [← h.map_role, List.getLast?_map]
    exact Option.mem_map_of_mem role htoken
  rcases htogether with ⟨hindex, -⟩ | ⟨-, hnot, -⟩
  · generalize Column.role token = r at hindex hrole
    cases m <;> cases hrole <;> cases hindex
  · rw [hnot] at hrole
    cases m <;> cases hrole

theorem spec_append_parts (m : Marker) (p q : Parts) :
    (p.append (m.parts.append q)).spec = m.mark (p.append q).spec := by
  cases m with
  | counter =>
      have hparts : p.append (counter.parts.append q) = { p.append q with autoIncrement := true } := by
        simp [parts, Parts.append]
      exact congrArg Parts.spec hparts
  | unsigned => exact congrArg (fun q => (p.append q).spec) (Parts.nil_append q)
  | zerofill =>
      have hparts : p.append (zerofill.parts.append q) = { p.append q with zerofill := true } := by
        simp [parts, Parts.append]
      exact congrArg Parts.spec hparts
  | key kind =>
      have hparts : p.append ((key kind).parts.append q) = (p.append q).mark kind := by
        cases kind <;> simp [parts, Parts.mark, Parts.append]
      rw [hparts]
      cases kind <;> rfl

/-- Among tokens a marker sets its flag and changes nothing else. -/
theorem Spelled.spec_sortTokens (h : m.Spelled ts) {l r : List Text} (hfree : Free false l r) :
    (sortTokens false (l ++ (ts ++ r))).spec = m.mark (sortTokens false (l ++ r)).spec := by
  have hts : sortTokens (begun false l) ts = m.parts := sortTokens_eq_of_sorts (h.sorts _)
  rw [sortTokens_append (h.free_front _ l r), sortTokens_append (h.free_behind _ r), hts,
    h.begun_eq, sortTokens_append hfree, spec_append_parts]

end Marker

theorem exists_piece {p : Place} {c : Char} {t : Text} (h : c ∈ t) :
    isBlank c = true ∨ ∃ piece ∈ allPieces p t, c ∈ piece := by
  induction t generalizing p with
  | nil => cases h
  | cons d t ih =>
      rw [allPieces_cons]
      rcases List.mem_cons.1 h with rfl | h
      · split
        · next hd => exact .inl (Bool.and_eq_true_iff.1 hd).2
        · exact .inr ⟨_, List.mem_cons_self, List.mem_cons_self⟩
      · apply (ih h).imp_right
        rintro ⟨piece, hpiece, hc⟩
        split
        · exact ⟨piece, List.mem_cons_of_mem _ hpiece, hc⟩
        · rcases List.mem_cons.1 hpiece with rfl | hpiece
          · exact ⟨_, List.mem_cons_self, List.mem_cons_of_mem _ hc⟩
          · exact ⟨piece, List.mem_cons_of_mem _ hpiece, hc⟩

theorem afterText_of_neutral {t : Text} (h : ∀ c ∈ t, Neutral c) :
    Place.start.afterText t = .start := by
  induction t with
  | nil => rfl
  | cons c t ih =>
      obtain ⟨hc, ht⟩ := List.forall_mem_cons.1 h
      exact (congrArg (Place.afterText · t) hc.after_start).trans (ih ht)

/-- A text whose tokens all have a role opens no literal and no group. -/
theorem afterText_of_roles {t : Text} (h : ∀ token ∈ tokenize t, role token ≠ .other) :
    Place.start.afterText t = .start := by
  apply afterText_of_neutral
  intro c hc
  rcases exists_piece (p := .start) hc with hblank | ⟨piece, hpiece, hc⟩
  · exact neutral_of_isBlank hblank
  · refine neutral_of_role (h piece ?_) c hc
    rw [tokenize_eq_filter, List.mem_filter]
    exact ⟨hpiece, by simpa using List.ne_nil_of_mem hc⟩

/-- A text cut between two of its tokens, with so many tokens in front. -/
structure Cut (t : Text) (k : Nat) (l r : Text) : Prop where
  text : l ++ r = t
  outer : (Place.start.afterText l).IsOuter
  apart : Apart l r
  count : (tokenize l).length = k

theorem Cut.tokenize_eq {t l r : Text} {k : Nat} (h : Cut t k l r) :
    tokenize t = tokenize l ++ tokenize r := by
  rw [← h.text]
  exact tokenize_append h.outer h.apart

/-- More text behind the cut does not matter, unless it comes to stand at the cut. -/
theorem Cut.append {t l r : Text} {k : Nat} (h : Cut t k l r) (hr : r ≠ []) (s : Text) :
    Cut (t ++ s) k l (r ++ s) := by
  refine ⟨by rw [← h.text, List.append_assoc], h.outer, ?_, h.count⟩
  have happart := h.apart
  unfold Apart at happart ⊢
  rwa [List.head?_append_of_ne_nil _ hr]

/-- A text whose last piece is empty ends outside, with a blank if it has a character at all. -/
theorem outer_of_last_eq_nil {t : Text} (h : (allPieces .start t).getLast? = some []) :
    (Place.start.afterText t).IsOuter ∧ ∀ c ∈ t.getLast?, isBlank c = true := by
  cases t using List.reverseRecOn with
  | nil => exact ⟨⟨rfl, rfl⟩, fun _ hc => nomatch hc⟩
  | append_singleton t c =>
      obtain ⟨front, last, -, happend⟩ := exists_allPieces_append .start t
      rw [happend, pieces_singleton] at h
      cases hc : (Place.start.afterText t).separates c with
      | false =>
          rw [hc] at h
          simp at h
      | true =>
          obtain ⟨houter, hblank⟩ := Bool.and_eq_true_iff.1 hc
          rw [Place.afterText_append, Place.eq_start_of_isOuter (of_decide_eq_true houter)]
          refine ⟨?_, ?_⟩
          · rw [show Place.start.afterText [c] = .start from Place.after_blank_start hblank]
            exact ⟨rfl, rfl⟩
          · rw [List.getLast?_concat]
            rintro _ ⟨⟩
            exact hblank

theorem exists_cut_before {t : Text} {k : Nat} (hk : k < (tokenize t).length) :
    ∃ l r, r ≠ [] ∧ Cut t k l r := by
  induction t using List.reverseRecOn with
  | nil => cases hk
  | append_singleton t c ih =>
      have hlonger (h : k < (tokenize t).length) : ∃ l r, r ≠ [] ∧ Cut (t ++ [c]) k l r := by
        obtain ⟨l, r, hr, hcut⟩ := ih h
        exact ⟨l, r ++ [c], by simp, hcut.append hr [c]⟩
      obtain ⟨front, last, hpieces, happend⟩ := exists_allPieces_append .start t
      have htokens : tokenize t = (front ++ [last]).filter fun piece => !piece.isEmpty := by
        rw [tokenize_eq_filter, hpieces]
      rw [tokenize_eq_filter, happend, pieces_singleton] at hk
      by_cases hnew : last = [] ∧ (Place.start.afterText t).separates c = false
      · -- The character starts a token, behind all others.
        obtain ⟨rfl, hc⟩ := hnew
        rcases Nat.lt_or_ge k (tokenize t).length with hlt | hge
        · exact hlonger hlt
        · obtain ⟨houter, hlast⟩ := outer_of_last_eq_nil (by rw [hpieces, List.getLast?_concat])
          refine ⟨t, [c], List.cons_ne_nil c [], rfl, houter, .inl hlast, ?_⟩
          rw [htokens] at hge ⊢
          simp [hc] at hk hge ⊢
          omega
      · -- The tokens are as many as before.
        apply hlonger
        rw [htokens]
        cases hc : (Place.start.afterText t).separates c with
        | true => simpa [hc, List.filter_cons] using hk
        | false =>
            have hlast : last ≠ [] := fun hlast => hnew ⟨hlast, hc⟩
            simpa [hc, hlast] using hk

/-- A text that ends outside can be cut at each boundary between its tokens, and at its ends. -/
theorem exists_cut {t : Text} (houter : (Place.start.afterText t).IsOuter) {k : Nat}
    (hk : k ≤ (tokenize t).length) : ∃ l r, Cut t k l r := by
  rcases Nat.lt_or_eq_of_le hk with hlt | rfl
  · obtain ⟨l, r, -, hcut⟩ := exists_cut_before hlt
    exact ⟨l, r, hcut⟩
  · exact ⟨t, [], List.append_nil t, houter, .inr (fun _ hc => nomatch hc), rfl⟩

theorem Marker.Between.tokenize_eq {m : Marker} {l w r : Text} (h : m.Between l w r)
    (houter : (Place.start.afterText l).IsOuter) :
    tokenize (l ++ (w ++ r)) = tokenize l ++ (tokenize w ++ tokenize r) := by
  have hroles : ∀ token ∈ tokenize w, role token ≠ .other := by
    intro token htoken
    have hmem : role token ∈ m.roles := h.words.map_role ▸ List.mem_map_of_mem htoken
    rintro hrole
    rw [hrole] at hmem
    cases m <;> simp [Marker.roles] at hmem
  have hw : w ≠ [] := by
    rintro rfl
    exact h.words.ne_nil rfl
  have hfront : Apart l (w ++ r) := by
    have hfront := h.front
    unfold Apart at hfront ⊢
    rwa [List.head?_append_of_ne_nil _ hw]
  have hplace : (Place.start.afterText w).IsOuter := by
    rw [afterText_of_roles hroles]
    exact ⟨rfl, rfl⟩
  rw [tokenize_append houter hfront, tokenize_append hplace h.behind]

/-- A text with a marker written at a boundary behind so many of its tokens. -/
def InsertedAt (m : Marker) (t : Text) (k : Nat) (t' : Text) : Prop :=
  ∃ l w r, Cut t k l r ∧ m.Between l w r ∧ t' = l ++ (w ++ r)

theorem exists_insertedAt (m : Marker) {t : Text} (houter : (Place.start.afterText t).IsOuter) {k : Nat}
    (hk : k ≤ (tokenize t).length) : ∃ t', InsertedAt m t k t' := by
  obtain ⟨l, r, hcut⟩ := exists_cut houter hk
  have htokens : tokenize (' ' :: (Text.join [' '] m.words ++ [' '])) = m.words := by
    cases m with
    | key kind => cases kind <;> decide
    | _ => decide
  refine ⟨_, l, ' ' :: (Text.join [' '] m.words ++ [' ']), r, hcut, ⟨?_, .inr ?_, .inl ?_⟩, rfl⟩
  · rw [htokens]
    exact List.forall₂_same.2 fun word _ => beq_self_eq_true _
  · rintro _ ⟨⟩
    rfl
  · rw [← List.cons_append, List.getLast?_concat]
    rintro _ ⟨⟩
    rfl

theorem InsertedAt.scan_eq {m : Marker} {t t' : Text} {k : Nat} (h : InsertedAt m t k t')
    (hfree : takenAlong (tokenize t) k = false) : scan t' = m.mark (scan t) := by
  obtain ⟨l, w, r, hcut, hw, rfl⟩ := h
  rw [hcut.tokenize_eq, ← hcut.count] at hfree
  rw [scan, scan, hw.tokenize_eq hcut.outer, hcut.tokenize_eq]
  exact hw.words.spec_sortTokens (free_of_takenAlong hfree)

/-- A marker may be written at every boundary between tokens, in front of the trailing clause or in it,
but not between two tokens that are read together. It sets its flag and changes nothing else, so it does
not matter where it stands. -/
theorem scan_inserted {t : Text} (houter : (Place.start.afterText t).IsOuter) (m : Marker) :
    (∀ k ≤ (tokenize t).length, ∃ t', InsertedAt m t k t') ∧
      ∀ k t', takenAlong (tokenize t) k = false → InsertedAt m t k t' →
        scan t' = m.mark (scan t) ∧
          ∀ k' t'', takenAlong (tokenize t) k' = false → InsertedAt m t k' t'' → scan t'' = scan t' := by
  refine ⟨fun k hk => exists_insertedAt m houter hk, ?_⟩
  intro k t' hfree hinserted
  have hscan := hinserted.scan_eq hfree
  refine ⟨hscan, ?_⟩
  intro k' t'' hfree' hinserted'
  rw [hscan]
  exact hinserted'.scan_eq hfree'

theorem scan_inserted_flag :
    (Place.start.afterText "bit(1) NOT NULL DEFAULT KEY").IsOuter ∧
      takenAlong (tokenize "bit(1) NOT NULL DEFAULT KEY") 0 = false ∧
        takenAlong (tokenize "bit(1) NOT NULL DEFAULT KEY") 4 = false ∧
          scan "Primary\tkey bit(1) NOT NULL DEFAULT KEY" =
            (Marker.key .primary).mark (scan "bit(1) NOT NULL DEFAULT KEY") ∧
              scan "bit(1) NOT NULL DEFAULT PRIMARY KEY KEY" =
                scan "Primary\tkey bit(1) NOT NULL DEFAULT KEY" := by
  have houter : (Place.start.afterText "bit(1) NOT NULL DEFAULT KEY").IsOuter := by decide
  have hfirst : takenAlong (tokenize "bit(1) NOT NULL DEFAULT KEY") 0 = false := by decide +kernel
  have hfourth : takenAlong (tokenize "bit(1) NOT NULL DEFAULT KEY") 4 = false := by decide +kernel
  have hspelled : (Marker.key .primary).Spelled (tokenize "Primary\tkey ") ∧
      (Marker.key .primary).Spelled (tokenize "PRIMARY KEY ") := by
    unfold Marker.Spelled
    decide +kernel
  have hfront : InsertedAt (.key .primary) "bit(1) NOT NULL DEFAULT KEY" 0
      "Primary\tkey bit(1) NOT NULL DEFAULT KEY" :=
    ⟨[], "Primary\tkey ", "bit(1) NOT NULL DEFAULT KEY",
      ⟨rfl, ⟨rfl, rfl⟩, by decide, rfl⟩, ⟨hspelled.1, by decide, by decide⟩, rfl⟩
  have hclause : InsertedAt (.key .primary) "bit(1) NOT NULL DEFAULT KEY" 4
      "bit(1) NOT NULL DEFAULT PRIMARY KEY KEY" :=
    ⟨"bit(1) NOT NULL DEFAULT ", "PRIMARY KEY ", "KEY",
      ⟨rfl, by decide, by decide, by decide⟩, ⟨hspelled.2, by decide, by decide⟩, rfl⟩
  obtain ⟨hscan, hsame⟩ := (scan_inserted houter (.key .primary)).2 0 _ hfirst hfront
  exact ⟨houter, hfirst, hfourth, hscan, hsame 4 _ hfourth hclause⟩

end SchemaScript.Column
