/- Conservation of tokens: which tokens of a column text are taken out, and what they set, is decided at
   each place by the token there and its two neighbours, and all other tokens are kept in order. -/
import SchemaScript.Proofs.Column.Sorting
import Mathlib.Data.List.Range

namespace SchemaScript.Column

def Role.isIndex : Role → Bool
  | .index _ => true
  | _ => false

/-- The role of the token at a place; there is none behind the end. -/
def roleAt (ts : List Text) (i : Nat) : Role := (ts[i]?.map role).getD .other

/-- The role of the token in front of a place. -/
def roleBefore (ts : List Text) : Nat → Role
  | 0 => .other
  | i + 1 => roleAt ts i

/-- Where the trailing clause starts: at the first word that opens one, or at the end. -/
def clauseStart (ts : List Text) : Nat := ts.findIdx fun token => role token = .opening

/-- A word that the one in front of it takes along: `KEY` behind an index keyword and, before the
trailing clause, `NULL` behind `NOT`. -/
def takenAlong (ts : List Text) (i : Nat) : Bool :=
  match roleAt ts i with
  | .key => (roleBefore ts i).isIndex
  | .null => decide (i < clauseStart ts) && decide (roleBefore ts i = .not)
  | _ => false

/-- Markers are taken out everywhere, together with a `KEY` right behind an index keyword; before
the trailing clause also `NULL`, together with a `NOT` right in front of it. -/
def takenOut (ts : List Text) (i : Nat) : Bool :=
  match roleAt ts i with
  | .counter | .index _ | .unsigned | .zerofill | .nullable => true
  | .key => (roleBefore ts i).isIndex
  | .null => decide (i < clauseStart ts)
  | .not => decide (i < clauseStart ts) && decide (roleAt ts (i + 1) = .null)
  | .opening | .other => false

/-- What a place says about null: `NULLABLE` everywhere, `NULL` and `NOT NULL` before the trailing
clause. -/
def nullabilityAt (ts : List Text) (i : Nat) : Option Nullability :=
  match roleAt ts i with
  | .nullable => some .null
  | .null => if i < clauseStart ts then some .null else none
  | .not => if i < clauseStart ts ∧ roleAt ts (i + 1) = .null then some .notNull else none
  | _ => none

def staysInType (ts : List Text) (i : Nat) : Bool := decide (i < clauseStart ts) && !takenOut ts i

def staysInClause (ts : List Text) (i : Nat) : Bool := decide (clauseStart ts ≤ i) && !takenOut ts i

/-- A marker of the given role that no other word takes along. -/
def marksAt (r : Role) (ts : List Text) (i : Nat) : Bool :=
  decide (roleAt ts i = r) && !takenAlong ts i

/-- The places from a given one on. -/
def places (ts : List Text) (n : Nat) : List Nat := List.range' n (ts.length - n)

/-- The tokens at those places that pass, in their order. -/
def tokensAt (ts : List Text) (places : List Nat) (p : Nat → Bool) : List Text :=
  (places.filter p).filterMap (ts[·]?)

/-- Sorted tokens are those of the places from a given one on. -/
structure SortedFrom (ts : List Text) (n : Nat) (p : Parts) : Prop where
  body : p.body = tokensAt ts (places ts n) (staysInType ts)
  trailing : p.trailing = tokensAt ts (places ts n) (staysInClause ts)
  zerofill : p.zerofill = (places ts n).any (marksAt .zerofill ts)
  nullability : p.nullability = (places ts n).findSome? (nullabilityAt ts)
  autoIncrement : p.autoIncrement = (places ts n).any (marksAt .counter ts)
  primary : p.primary = (places ts n).any (marksAt (.index .primary) ts)
  unique : p.unique = (places ts n).any (marksAt (.index .unique) ts)

/-- Sorted tokens with one more place in front of them. -/
def Parts.withPlace (p : Parts) (ts : List Text) (n : Nat) (token : Text) : Parts where
  body := (if staysInType ts n then [token] else []) ++ p.body
  trailing := (if staysInClause ts n then [token] else []) ++ p.trailing
  zerofill := marksAt .zerofill ts n || p.zerofill
  nullability := (nullabilityAt ts n).or p.nullability
  autoIncrement := marksAt .counter ts n || p.autoIncrement
  primary := marksAt (.index .primary) ts n || p.primary
  unique := marksAt (.index .unique) ts n || p.unique

theorem places_eq_cons {ts : List Text} {n : Nat} {token : Text} (h : ts[n]? = some token) :
    places ts n = n :: places ts (n + 1) := by
  have hn : n < ts.length := (List.getElem?_eq_some_iff.1 h).1
  rw [places, places, show ts.length - n = (ts.length - (n + 1)) + 1 by omega, List.range'_succ]

theorem tokensAt_cons {ts : List Text} {n : Nat} {token : Text} (h : ts[n]? = some token)
    (later : List Nat) (p : Nat → Bool) :
    tokensAt ts (n :: later) p = (if p n then [token] else []) ++ tokensAt ts later p := by
  unfold tokensAt
  cases hp : p n <;> simp [hp, h]

theorem SortedFrom.nil {ts : List Text} {n : Nat} (h : ts.drop n = []) : SortedFrom ts n {} := by
  have hplaces : places ts n = [] := by
    rw [places, Nat.sub_eq_zero_of_le (List.drop_eq_nil_iff.1 h), List.range'_zero]
  constructor <;> simp [hplaces, tokensAt]

theorem SortedFrom.cons {ts : List Text} {n : Nat} {token : Text} {p : Parts}
    (htoken : ts[n]? = some token) (h : SortedFrom ts (n + 1) p) :
    SortedFrom ts n (p.withPlace ts n token) := by
  constructor
  · rw [places_eq_cons htoken, tokensAt_cons htoken, ← h.body, Parts.withPlace]
  · rw [places_eq_cons htoken, tokensAt_cons htoken, ← h.trailing, Parts.withPlace]
  · rw [places_eq_cons htoken, List.any_cons, ← h.zerofill, Parts.withPlace]
  · rw [places_eq_cons htoken, List.findSome?_cons, ← h.nullability, Parts.withPlace]
    cases nullabilityAt ts n <;> rfl
  · rw [places_eq_cons htoken, List.any_cons, ← h.autoIncrement, Parts.withPlace]
  · rw [places_eq_cons htoken, List.any_cons, ← h.primary, Parts.withPlace]
  · rw [places_eq_cons htoken, List.any_cons, ← h.unique, Parts.withPlace]

section
variable {ts rest : List Text} {n : Nat} {token : Text}

theorem getElem?_of_drop (h : ts.drop n = token :: rest) : ts[n]? = some token := by
  rw [← List.head?_drop, h, List.head?_cons]

theorem drop_succ_of_drop (h : ts.drop n = token :: rest) : ts.drop (n + 1) = rest := by
  rw [← List.tail_drop, h, List.tail_cons]

theorem roleAt_of_drop (h : ts.drop n = token :: rest) : roleAt ts n = role token := by
  rw [roleAt, getElem?_of_drop h, Option.map_some, Option.getD_some]

theorem roleAt_eq_head? (h : ts.drop n = rest) :
    roleAt ts n = (rest.head?.map role).getD .other := by
  rw [roleAt, ← List.head?_drop, h]

/-- The clause has begun behind a token if it had begun before or begins with this one. -/
theorem clauseStart_lt_succ (h : ts.drop n = token :: rest) :
    decide (clauseStart ts < n + 1) =
      (decide (clauseStart ts < n) || decide (role token = .opening)) := by
  obtain ⟨hn, htoken⟩ := List.getElem?_eq_some_iff.1 (getElem?_of_drop h)
  rw [Bool.eq_iff_iff, Bool.or_eq_true, decide_eq_true_iff, decide_eq_true_iff, decide_eq_true_iff,
    Nat.lt_succ_iff_lt_or_eq]
  constructor
  · rintro (hlt | heq)
    · exact .inl hlt
    · have hopening := ((List.findIdx_eq hn).1 heq).1
      rw [htoken, decide_eq_true_iff] at hopening
      exact .inr hopening
  · rintro (hlt | hopening)
    · exact .inl hlt
    · have hle : clauseStart ts ≤ n := by
        by_contra hlt
        have hnot := List.not_of_lt_findIdx (Nat.lt_of_not_le hlt)
        simp [htoken, hopening] at hnot
      omega

/-- Sorting that has not come to the clause yet is in front of its start. -/
theorem lt_clauseStart (h : ts.drop n = token :: rest) (hb : decide (clauseStart ts < n) = false)
    (hrole : role token ≠ .opening) :
    n < clauseStart ts ∧ decide (clauseStart ts < n + 1) = false := by
  have hsucc := clauseStart_lt_succ h
  rw [hb, Bool.false_or, decide_eq_false hrole] at hsucc
  have hle := of_decide_eq_false hsucc
  exact ⟨by omega, hsucc⟩

/-- A token is not taken along unless it is a `KEY` or a `NULL` behind its partner. -/
theorem not_takenAlong (h : ts.drop n = token :: rest)
    (hindex : (role token).isIndex = true → ∀ next ∈ rest.head?, role next ≠ .key)
    (hnot : role token = .not → decide (clauseStart ts < n + 1) = false →
      ∀ next ∈ rest.head?, role next ≠ .null) : takenAlong ts (n + 1) = false := by
  have hnext := roleAt_eq_head? (drop_succ_of_drop h)
  have hbefore : roleBefore ts (n + 1) = role token := roleAt_of_drop h
  unfold takenAlong
  rw [hnext, hbefore]
  cases hhead : rest.head? with
  | none => rfl
  | some next =>
      rw [hhead] at hindex hnot
      simp only [Option.map_some, Option.getD_some]
      split
      · next hkey => exact Bool.eq_false_iff.2 fun hi => hindex hi next rfl hkey
      · next hnull =>
        rw [Bool.and_eq_false_iff, decide_eq_false_iff_not, decide_eq_false_iff_not]
        by_contra! hboth
        refine hnot hboth.2 ?_ next rfl hnull
        rw [decide_eq_false_iff_not]
        omega
      · rfl

end

section
variable {ts rest : List Text} {b later : Bool} {n : Nat} {token : Text} {p : Parts}

/-- A marker stays nowhere and sets what it stands for. -/
theorem withPlace_marker {r : Role} (hrole : roleAt ts n = r) (hr : r.isMarker = true) :
    p.withPlace ts n token =
      { p with
        zerofill := decide (r = .zerofill) || p.zerofill
        nullability := if r = .nullable then some .null else p.nullability
        autoIncrement := decide (r = .counter) || p.autoIncrement
        primary := decide (r = .index .primary) || p.primary
        unique := decide (r = .index .unique) || p.unique } := by
  subst hrole
  unfold Parts.withPlace staysInType staysInClause takenOut nullabilityAt marksAt takenAlong
  cases hr' : roleAt ts n <;> simp_all [Role.isMarker]

/-- A token that is no marker sets no flag. -/
theorem withPlace_word {r : Role} (hrole : roleAt ts n = r) (hr : r.isMarker = false) :
    p.withPlace ts n token =
      { p with
        body := (if staysInType ts n then [token] else []) ++ p.body
        trailing := (if staysInClause ts n then [token] else []) ++ p.trailing
        nullability := (nullabilityAt ts n).or p.nullability } := by
  subst hrole
  unfold Parts.withPlace marksAt
  cases hr' : roleAt ts n <;> simp_all [Role.isMarker]

/-- One step of sorting reads one place, and goes on at the next one. -/
theorem SortedFrom.step (hts : ts.drop n = token :: rest) (hb : decide (clauseStart ts < n) = b)
    (hlater : (b || decide (role token = .opening)) = later)
    (hindex : (role token).isIndex = true → ∀ next ∈ rest.head?, role next ≠ .key)
    (hnot : role token = .not → later = false → ∀ next ∈ rest.head?, role next ≠ .null)
    (ih : ∀ {m}, ts.drop m = rest → decide (clauseStart ts < m) = later →
      takenAlong ts m = false → SortedFrom ts m p) :
    SortedFrom ts n (p.withPlace ts n token) := by
  have hstart : decide (clauseStart ts < n + 1) = later := by
    rw [clauseStart_lt_succ hts, hb, hlater]
  refine (ih (drop_succ_of_drop hts) hstart ?_).cons (getElem?_of_drop hts)
  exact not_takenAlong hts hindex fun hrole hbegun => hnot hrole (hstart.symm.trans hbegun)

theorem SortedFrom.marker {r : Role} (hts : ts.drop n = token :: rest)
    (hb : decide (clauseStart ts < n) = b) (h : role token = r) (hr : r.isMarker = true)
    (alone : r.isIndex = true → ∀ next ∈ rest.head?, role next ≠ .key)
    (ih : ∀ {m}, ts.drop m = rest → decide (clauseStart ts < m) = b →
      takenAlong ts m = false → SortedFrom ts m p) :
    SortedFrom ts n
      { p with
        zerofill := decide (r = .zerofill) || p.zerofill
        nullability := if r = .nullable then some .null else p.nullability
        autoIncrement := decide (r = .counter) || p.autoIncrement
        primary := decide (r = .index .primary) || p.primary
        unique := decide (r = .index .unique) || p.unique } := by
  have hplace : p.withPlace ts n token = _ := withPlace_marker ((roleAt_of_drop hts).trans h) hr
  rw [← hplace]
  subst h
  apply SortedFrom.step hts hb _ alone _ ih
  · cases hrole : role token <;> simp_all [Role.isMarker]
  · intro hnot
    rw [hnot] at hr
    cases hr

/-- In the trailing clause a word stays unless it is a marker or taken along by one. -/
theorem withPlace_clause (hr : (roleAt ts n).isMarker = false) (hfree : takenAlong ts n = false)
    (hstart : clauseStart ts ≤ n) :
    p.withPlace ts n token = { p with trailing := token :: p.trailing } := by
  have hlt : ¬ n < clauseStart ts := Nat.not_lt_of_le hstart
  have hout : takenOut ts n = false := by
    unfold takenOut
    unfold takenAlong at hfree
    cases hrole : roleAt ts n <;> simp_all [Role.isMarker]
  have hnull : nullabilityAt ts n = none := by
    unfold nullabilityAt
    cases hrole : roleAt ts n <;> simp_all [Role.isMarker]
  rw [withPlace_word rfl hr, staysInType, staysInClause, hout, hnull]
  simp [hstart, hlt]

/-- In front of the trailing clause a word stays if neither of its neighbours makes it a marker. -/
theorem withPlace_type (hts : ts.drop n = token :: rest)
    (h : role token = .key ∨ role token = .other ∨
      role token = .not ∧ ∀ next ∈ rest.head?, role next ≠ .null)
    (hfree : takenAlong ts n = false) (hstart : n < clauseStart ts) :
    p.withPlace ts n token = { p with body := token :: p.body } := by
  have hrole := roleAt_of_drop hts
  have hnext := roleAt_eq_head? (drop_succ_of_drop hts)
  have hr : (role token).isMarker = false := by
    rcases h with h | h | ⟨h, _⟩ <;> rw [h] <;> rfl
  have hout : takenOut ts n = false := by
    unfold takenAlong at hfree
    unfold takenOut
    rw [hrole] at hfree ⊢
    rcases h with h | h | ⟨h, alone⟩
    · rwa [h] at hfree ⊢
    · rw [h]
    · rw [h, hnext]
      cases hhead : rest.head? <;> simp_all
  have hnull : nullabilityAt ts n = none := by
    unfold nullabilityAt
    rw [hrole]
    rcases h with h | h | ⟨h, alone⟩
    · rw [h]
    · rw [h]
    · rw [h, hnext]
      cases hhead : rest.head? <;> simp_all
  have hle : ¬ clauseStart ts ≤ n := Nat.not_le_of_lt hstart
  rw [withPlace_word hrole hr, staysInType, staysInClause, hout, hnull]
  simp [hstart, hle]

/-- A word that is taken out leaves what it says about null. -/
theorem withPlace_takenOut (hr : (roleAt ts n).isMarker = false) (hout : takenOut ts n = true) :
    p.withPlace ts n token = { p with nullability := (nullabilityAt ts n).or p.nullability } := by
  rw [withPlace_word rfl hr, staysInType, staysInClause, hout]
  simp

end

theorem sortedFrom_of_sorts {ts rest : List Text} {b : Bool} {n : Nat} {p : Parts}
    (h : Sorts b rest p) (hts : ts.drop n = rest) (hb : decide (clauseStart ts < n) = b)
    (hfree : takenAlong ts n = false) : SortedFrom ts n p := by
  induction h generalizing n with
  | nil => exact .nil hts
  | counter h _ ih => simpa using SortedFrom.marker hts hb h rfl (fun hi => nomatch hi) ih
  | @index _ _ _ _ kind h alone _ ih =>
      cases kind <;>
        simpa [Parts.mark] using SortedFrom.marker hts hb h rfl (fun _ => alone) ih
  | @indexKey _ token key _ p kind h hkey _ ih =>
      have hts' := drop_succ_of_drop hts
      have hrole := (roleAt_of_drop hts).trans h
      have hrole' := (roleAt_of_drop hts').trans hkey
      have hb' := clauseStart_lt_succ hts
      rw [hb, h] at hb'
      -- The key is taken along, and the index keyword sets the flag.
      have hstep := (SortedFrom.step hts' hb' (by simp [hkey]) (by simp [hkey, Role.isIndex])
        (by simp [hkey]) ih).cons (getElem?_of_drop hts)
      have hout : takenOut ts (n + 1) = true := by
        simp [takenOut, hrole', roleBefore, hrole, Role.isIndex]
      have hnull : nullabilityAt ts (n + 1) = none := by
        simp [nullabilityAt, hrole']
      rw [withPlace_takenOut (by rw [hrole']; rfl) hout, hnull, withPlace_marker hrole rfl] at hstep
      cases kind <;> simpa [Parts.mark] using hstep
  | unsigned h _ ih => simpa using SortedFrom.marker hts hb h rfl (fun hi => nomatch hi) ih
  | zerofill h _ ih => simpa using SortedFrom.marker hts hb h rfl (fun hi => nomatch hi) ih
  | nullable h _ ih => simpa using SortedFrom.marker hts hb h rfl (fun hi => nomatch hi) ih
  | @trailing b token _ p h hstart _ ih =>
      have hlater : (b || decide (role token = .opening)) = true := by simpa using hstart
      have hle := clauseStart_lt_succ hts
      rw [hb, hlater, decide_eq_true_iff] at hle
      have hindex : (role token).isIndex ≠ true := by
        cases hrole : role token <;> simp_all [Role.isMarker, Role.isIndex]
      have hstep := SortedFrom.step hts hb hlater (fun hi => absurd hi hindex) (by simp) ih
      rwa [withPlace_clause (by rwa [roleAt_of_drop hts]) hfree (Nat.le_of_lt_succ hle)] at hstep
  | @notNull token null _ p h hnull _ ih =>
      have hts' := drop_succ_of_drop hts
      have hrole := (roleAt_of_drop hts).trans h
      have hrole' := (roleAt_of_drop hts').trans hnull
      obtain ⟨hlt, hb'⟩ := lt_clauseStart hts hb (by simp [h])
      obtain ⟨hlt', _⟩ := lt_clauseStart hts' hb' (by simp [hnull])
      have hstep := (SortedFrom.step hts' hb' (by simp [hnull]) (by simp [hnull, Role.isIndex])
        (by simp [hnull]) ih).cons (getElem?_of_drop hts)
      have hout : takenOut ts n = true := by
        simp [takenOut, hrole, hrole', hlt]
      have hout' : takenOut ts (n + 1) = true := by
        simp [takenOut, hrole', hlt']
      have hsays : nullabilityAt ts n = some .notNull := by
        simp [nullabilityAt, hrole, hrole', hlt]
      rwa [withPlace_takenOut (by rw [hrole']; rfl) hout', withPlace_takenOut (by rw [hrole]; rfl) hout,
        hsays] at hstep
  | @null token _ p h _ ih =>
      have hrole := (roleAt_of_drop hts).trans h
      obtain ⟨hlt, _⟩ := lt_clauseStart hts hb (by simp [h])
      have hstep := SortedFrom.step hts hb (by simp [h]) (by simp [h, Role.isIndex]) (by simp [h]) ih
      have hout : takenOut ts n = true := by
        simp [takenOut, hrole, hlt]
      have hsays : nullabilityAt ts n = some .null := by
        simp [nullabilityAt, hrole, hlt]
      rwa [withPlace_takenOut (by rw [hrole]; rfl) hout, hsays] at hstep
  | @body token rest p h _ ih =>
      have hopening : role token ≠ .opening := by
        rcases h with h | h | ⟨h, _⟩ <;> simp [h]
      have hindex : (role token).isIndex ≠ true := by
        rcases h with h | h | ⟨h, _⟩ <;> simp [h, Role.isIndex]
      have hnot : role token = .not → false = false → ∀ next ∈ rest.head?, role next ≠ .null := by
        rcases h with h | h | ⟨h, alone⟩
        · simp [h]
        · simp [h]
        · exact fun _ _ => alone
      obtain ⟨hlt, _⟩ := lt_clauseStart hts hb hopening
      have hstep := SortedFrom.step hts hb (by simp [hopening]) (fun hi => absurd hi hindex) hnot ih
      rwa [withPlace_type hts h hfree hlt] at hstep

/-- The tokens in front of the trailing clause that are not taken out. -/
def typeTokens (ts : List Text) : List Text :=
  tokensAt ts (List.range ts.length) (staysInType ts)

/-- The tokens from the start of the trailing clause on that are not taken out. -/
def clauseTokens (ts : List Text) : List Text :=
  tokensAt ts (List.range ts.length) (staysInClause ts)

/-- What a specification holds of the tokens it was read from. -/
structure Conserved (ts : List Text) (s : Spec) : Prop where
  numeric : s.numeric = true ↔ ∃ token ∈ (typeTokens ts).head?, isNumericType token = true
  /-- Without a sign the type is what was kept, and a numeric type then has no plus sign at all. -/
  plain : s.signed = false → s.dataType = Text.join [' '] (typeTokens ts) ∧
    (s.numeric = true → ∀ token ∈ typeTokens ts, '+' ∉ token)
  /-- The sign of a numeric type is the first plus sign in what was kept. It alone is missing, and
  the token that was nothing else. -/
  sign : s.signed = true → s.numeric = true ∧ ∃ front a b back,
    typeTokens ts = front ++ (a ++ '+' :: b) :: back ∧ (∀ token ∈ front, '+' ∉ token) ∧ '+' ∉ a ∧
      s.dataType = Text.join [' '] (front ++ (if a ++ b = [] then [] else [a ++ b]) ++ back)
  trailing : ∀ clause, s.trailing = some clause ↔
    (∃ token ∈ ts, role token = .opening) ∧ clause = Text.join [' '] (clauseTokens ts)
  nullability : s.nullability = (List.range ts.length).findSome? (nullabilityAt ts)
  autoIncrement : s.autoIncrement = true ↔ ∃ i, roleAt ts i = .counter ∧ takenAlong ts i = false
  primary : s.primary = true ↔ ∃ i, roleAt ts i = .index .primary ∧ takenAlong ts i = false
  unique : s.unique = true ↔ ∃ i, roleAt ts i = .index .unique ∧ takenAlong ts i = false
  zerofill : s.zerofill = true ↔ ∃ i, roleAt ts i = .zerofill ∧ takenAlong ts i = false

theorem places_zero (ts : List Text) : places ts 0 = List.range ts.length := by
  rw [places, Nat.sub_zero, List.range_eq_range']

theorem sortedFrom_sortTokens (ts : List Text) : SortedFrom ts 0 (sortTokens false ts) :=
  sortedFrom_of_sorts (sorts_sortTokens false ts) List.drop_zero rfl
    (by unfold takenAlong; split <;> simp [roleBefore, Role.isIndex])

/-- A flag is set by a marker anywhere among the tokens. -/
theorem any_marksAt {r : Role} (hr : r ≠ .other) (ts : List Text) :
    (places ts 0).any (marksAt r ts) = true ↔ ∃ i, roleAt ts i = r ∧ takenAlong ts i = false := by
  rw [places_zero, List.any_eq_true]
  simp only [marksAt, Bool.and_eq_true, decide_eq_true_iff, Bool.not_eq_true', List.mem_range]
  constructor
  · rintro ⟨i, _, h⟩
    exact ⟨i, h⟩
  · rintro ⟨i, h⟩
    refine ⟨i, ?_, h⟩
    by_contra hi
    rw [roleAt, List.getElem?_eq_none (Nat.le_of_not_lt hi)] at h
    exact hr h.1.symm

theorem mem_clauseTokens {ts : List Text} {token : Text} :
    token ∈ clauseTokens ts ↔ ∃ i, ts[i]? = some token ∧ staysInClause ts i = true := by
  unfold clauseTokens tokensAt
  simp only [List.mem_filterMap, List.mem_filter, List.mem_range]
  constructor
  · rintro ⟨i, ⟨_, hstays⟩, htoken⟩
    exact ⟨i, htoken, hstays⟩
  · rintro ⟨i, htoken, hstays⟩
    exact ⟨i, ⟨(List.getElem?_eq_some_iff.1 htoken).1, hstays⟩, htoken⟩

/-- The clause has a token exactly where a word opens it. -/
theorem clauseTokens_ne_nil (ts : List Text) :
    clauseTokens ts ≠ [] ↔ ∃ token ∈ ts, role token = .opening := by
  constructor
  · intro h
    obtain ⟨token, htoken⟩ := List.exists_mem_of_ne_nil _ h
    obtain ⟨i, hi, hstays⟩ := mem_clauseTokens.1 htoken
    have hle : clauseStart ts ≤ i := by
      rw [staysInClause, Bool.and_eq_true, decide_eq_true_iff] at hstays
      exact hstays.1
    have hlt := Nat.lt_of_le_of_lt hle (List.getElem?_eq_some_iff.1 hi).1
    obtain ⟨opening, hmem, hrole⟩ := List.findIdx_lt_length.1 hlt
    exact ⟨opening, hmem, of_decide_eq_true hrole⟩
  · rintro ⟨opening, hmem, hrole⟩
    have hlt : clauseStart ts < ts.length :=
      List.findIdx_lt_length.2 ⟨opening, hmem, decide_eq_true hrole⟩
    have hfirst : role ts[clauseStart ts] = .opening :=
      of_decide_eq_true (List.findIdx_getElem (w := hlt))
    have hat : roleAt ts (clauseStart ts) = .opening := by
      rw [roleAt, List.getElem?_eq_getElem hlt, Option.map_some, Option.getD_some, hfirst]
    have hstays : staysInClause ts (clauseStart ts) = true := by
      simp [staysInClause, takenOut, hat]
    exact List.ne_nil_of_mem (mem_clauseTokens.2 ⟨_, List.getElem?_eq_getElem hlt, hstays⟩)

theorem hasNumericType_iff {ts : List Text} :
    hasNumericType ts = true ↔ ∃ token ∈ ts.head?, isNumericType token = true := by
  cases ts <;> simp [hasNumericType]

/-- A column text is sorted token by token: what is taken out, kept and set is decided at each place
by the token there and its neighbours. -/
theorem scan_conserves (t : Text) : Conserved (tokenize t) (scan t) := by
  have h := sortedFrom_sortTokens (tokenize t)
  have hbody : (sortTokens false (tokenize t)).body = typeTokens (tokenize t) := by
    rw [h.body, places_zero, typeTokens]
  have htrailing : (sortTokens false (tokenize t)).trailing = clauseTokens (tokenize t) := by
    rw [h.trailing, places_zero, clauseTokens]
  constructor
  · rw [← hbody]
    exact hasNumericType_iff
  · rw [← hbody]
    exact Parts.dataType_of_plain _
  · intro hsigned
    obtain ⟨hnumeric, plain, hplain, htype⟩ := Parts.dataType_of_signed _ hsigned
    obtain ⟨front, a, b, back, htokens, hfront, ha, rfl⟩ := takePlus?_eq_some.1 hplain
    exact ⟨hnumeric, front, a, b, back, hbody ▸ htokens, hfront, ha, htype⟩
  · intro clause
    rw [← clauseTokens_ne_nil, ← htrailing, scan, Parts.spec]
    cases (sortTokens false (tokenize t)).trailing with
    | nil => simp
    | cons token rest => simp [eq_comm]
  · rw [← places_zero, ← h.nullability]
    rfl
  · rw [← any_marksAt (by decide), ← h.autoIncrement]
    rfl
  · rw [← any_marksAt (by decide), ← h.primary]
    rfl
  · rw [← any_marksAt (by decide), ← h.unique]
    rfl
  · rw [← any_marksAt (by decide), ← h.zerofill]
    rfl

end SchemaScript.Column
