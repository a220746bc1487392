/- Sorting of tokens, step by step: the role that a token has by its word, what each role does to the
   tokens, and which roles are left in the type and in the trailing clause. -/
import SchemaScript.Column.Spec

namespace SchemaScript.Column

/-- What a token means, by its word and before its neighbours are looked at. -/
inductive Role
  | counter
  | index (kind : IndexKind)
  | unsigned
  | zerofill
  | nullable
  | not
  | null
  | key
  /-- A word that opens the trailing clause. -/
  | opening
  | other
deriving Repr, DecidableEq

/-- The words with a role of their own. -/
def roleWords : List (Text × Role) :=
  [("AUTO_INCREMENT", .counter), ("PRIMARY", .index .primary), ("UNIQUE", .index .unique),
    ("UNSIGNED", .unsigned), ("ZEROFILL", .zerofill), ("NULLABLE", .nullable), ("NOT", .not),
    ("NULL", .null), ("KEY", .key), ("DEFAULT", .opening), ("COMMENT", .opening),
    ("COLUMN_FORMAT", .opening), ("STORAGE", .opening), ("REFERENCES", .opening)]

/-- The role of a token, in any letter case. -/
def role (token : Text) : Role :=
  ((roleWords.find? fun entry => Text.sameIgnoringCase token entry.1).map (·.2)).getD .other

/-- No two words with a role are one word in different letter cases. -/
theorem roleWords_apart : ∀ a ∈ roleWords, ∀ b ∈ roleWords,
    Text.lower a.1 = Text.lower b.1 → a = b := by
  decide +kernel

theorem role_of_mem {token : Text} {entry : Text × Role} (h : entry ∈ roleWords)
    (hsame : Text.sameIgnoringCase token entry.1 = true) : role token = entry.2 := by
  unfold role
  cases hfind : roleWords.find? fun entry => Text.sameIgnoringCase token entry.1 with
  | none => exact absurd hsame (List.find?_eq_none.1 hfind entry h)
  | some found =>
      have hfound : Text.sameIgnoringCase token found.1 = true := by
        simpa using List.find?_some hfind
      simp only [Text.sameIgnoringCase, beq_iff_eq] at hsame hfound
      have heq := roleWords_apart found (List.mem_of_find?_eq_some hfind) entry h
        (hfound.symm.trans hsame)
      rw [heq]
      rfl

theorem exists_mem_of_role {token : Text} (h : role token ≠ .other) :
    ∃ entry ∈ roleWords, entry.2 = role token ∧ Text.sameIgnoringCase token entry.1 = true := by
  unfold role at h ⊢
  cases hfind : roleWords.find? fun entry => Text.sameIgnoringCase token entry.1 with
  | none => simp [hfind] at h
  | some found =>
      exact ⟨found, List.mem_of_find?_eq_some hfind, rfl, by simpa using List.find?_some hfind⟩

/-- A word that alone has its role is recognized by the role. -/
theorem same_eq_role {word : Text} {r : Role} (hmem : (word, r) ∈ roleWords) (hne : r ≠ .other)
    (honly : ∀ entry ∈ roleWords, entry.2 = r → entry.1 = word) (token : Text) :
    Text.sameIgnoringCase token word = decide (role token = r) := by
  rw [Bool.eq_iff_iff, decide_eq_true_iff]
  constructor
  · exact role_of_mem hmem
  · intro hrole
    obtain ⟨entry, hentry, hr, hsame⟩ := exists_mem_of_role (hrole.symm ▸ hne)
    rwa [honly entry hentry (hr.trans hrole)] at hsame

/-- The word of a role that only one word has. -/
def Role.word? : Role → Option Text
  | .counter => some "AUTO_INCREMENT"
  | .index kind => some kind.keyword
  | .unsigned => some "UNSIGNED"
  | .zerofill => some "ZEROFILL"
  | .nullable => some "NULLABLE"
  | .not => some "NOT"
  | .null => some "NULL"
  | .key => some "KEY"
  | .opening | .other => none

theorem same_word (r : Role) {word : Text} (h : r.word? = some word) (token : Text) :
    Text.sameIgnoringCase token word = decide (role token = r) := by
  cases r with
  | opening => cases h
  | other => cases h
  | index kind =>
      cases h
      cases kind <;> exact same_eq_role (by decide) (by decide) (by decide) token
  | _ =>
      cases h
      exact same_eq_role (by decide) (by decide) (by decide) token

section
variable (token : Text)

theorem opensTrailing_eq : opensTrailing token = decide (role token = .opening) := by
  rw [Bool.eq_iff_iff, decide_eq_true_iff, opensTrailing, List.any_eq_true]
  constructor
  · rintro ⟨word, hword, hsame⟩
    have hall : ∀ word ∈ trailingKeywords, (word, Role.opening) ∈ roleWords := by decide
    exact role_of_mem (hall word hword) hsame
  · intro hrole
    have hne : role token ≠ .other := by simp [hrole]
    obtain ⟨entry, hentry, hr, hsame⟩ := exists_mem_of_role hne
    have hall : ∀ entry ∈ roleWords, entry.2 = .opening → entry.1 ∈ trailingKeywords := by decide
    exact ⟨entry.1, hall entry hentry (hr.trans hrole), hsame⟩

theorem ofKeyword?_eq :
    IndexKind.ofKeyword? token = match role token with
      | .index kind => some kind
      | _ => none := by
  have hsame (kind : IndexKind) :
      Text.sameIgnoringCase kind.keyword token = decide (role token = .index kind) := by
    rw [← same_word (.index kind) rfl, Text.sameIgnoringCase, Text.sameIgnoringCase, Bool.beq_comm]
  simp only [IndexKind.ofKeyword?, IndexKind.all, List.find?, hsame]
  cases role token with
  | index kind => cases kind <;> rfl
  | _ => rfl

end

/-- Roles that are taken out wherever they stand. -/
def Role.isMarker : Role → Bool
  | .counter | .index _ | .unsigned | .zerofill | .nullable => true
  | _ => false

/-- What sorting does with the tokens, one step for each role of the first of them. The first
argument says whether the trailing clause has begun. -/
inductive Sorts : Bool → List Text → Parts → Prop
  | nil {b} : Sorts b [] {}
  | counter {b token rest p} (h : role token = .counter) (hrest : Sorts b rest p) :
      Sorts b (token :: rest) { p with autoIncrement := true }
  | index {b token rest p} {kind : IndexKind} (h : role token = .index kind)
      (alone : ∀ next ∈ rest.head?, role next ≠ .key) (hrest : Sorts b rest p) :
      Sorts b (token :: rest) (p.mark kind)
  | indexKey {b token key rest p} {kind : IndexKind} (h : role token = .index kind)
      (hkey : role key = .key) (hrest : Sorts b rest p) :
      Sorts b (token :: key :: rest) (p.mark kind)
  | unsigned {b token rest p} (h : role token = .unsigned) (hrest : Sorts b rest p) :
      Sorts b (token :: rest) p
  | zerofill {b token rest p} (h : role token = .zerofill) (hrest : Sorts b rest p) :
      Sorts b (token :: rest) { p with zerofill := true }
  | nullable {b token rest p} (h : role token = .nullable) (hrest : Sorts b rest p) :
      Sorts b (token :: rest) { p with nullability := some .null }
  | trailing {b token rest p} (h : (role token).isMarker = false)
      (hb : b = true ∨ role token = .opening) (hrest : Sorts true rest p) :
      Sorts b (token :: rest) { p with trailing := token :: p.trailing }
  | notNull {token null rest p} (h : role token = .not) (hnull : role null = .null)
      (hrest : Sorts false rest p) :
      Sorts false (token :: null :: rest) { p with nullability := some .notNull }
  | null {token rest p} (h : role token = .null) (hrest : Sorts false rest p) :
      Sorts false (token :: rest) { p with nullability := some .null }
  | body {token rest p} (h : role token = .key ∨ role token = .other ∨
        role token = .not ∧ ∀ next ∈ rest.head?, role next ≠ .null) (hrest : Sorts false rest p) :
      Sorts false (token :: rest) { p with body := token :: p.body }

theorem role_of_ofKeyword? {token : Text} {kind : IndexKind}
    (h : IndexKind.ofKeyword? token = some kind) : role token = .index kind := by
  rw [ofKeyword?_eq] at h
  split at h
  · next hrole =>
    rw [hrole, Option.some.inj h]
  · cases h

/-- A token that passes every test for a marker is none. -/
theorem not_isMarker {token : Text} (hcounter : ¬ Text.sameIgnoringCase token "AUTO_INCREMENT" = true)
    (hindex : IndexKind.ofKeyword? token = none)
    (hunsigned : ¬ Text.sameIgnoringCase token "UNSIGNED" = true)
    (hzerofill : ¬ Text.sameIgnoringCase token "ZEROFILL" = true)
    (hnullable : ¬ Text.sameIgnoringCase token "NULLABLE" = true) :
    (role token).isMarker = false := by
  rw [same_word .counter rfl, decide_eq_true_iff] at hcounter
  rw [same_word .unsigned rfl, decide_eq_true_iff] at hunsigned
  rw [same_word .zerofill rfl, decide_eq_true_iff] at hzerofill
  rw [same_word .nullable rfl, decide_eq_true_iff] at hnullable
  rw [ofKeyword?_eq] at hindex
  cases hrole : role token <;> simp_all [Role.isMarker]

theorem startsWith_null {ts : List Text} :
    startsWith "NULL" ts = true ↔ ∃ next ∈ ts.head?, role next = .null := by
  cases ts with
  | nil => simp [startsWith]
  | cons token ts =>
      rw [startsWith, same_word .null rfl, decide_eq_true_iff]
      simp

theorem sorts_sortTokens (b : Bool) (ts : List Text) : Sorts b ts (sortTokens b ts) := by
  fun_induction sortTokens b ts with
  | case1 => exact .nil
  | case2 b token rest h p ih =>
      rw [same_word .counter rfl, decide_eq_true_iff] at h
      exact .counter h ih
  | case3 b token _ kind hkind =>
      exact .index (role_of_ofKeyword? hkind) (fun next h => nomatch h) .nil
  | case4 b token _ kind hkind key rest hkey ih =>
      rw [same_word .key rfl, decide_eq_true_iff] at hkey
      exact .indexKey (role_of_ofKeyword? hkind) hkey ih
  | case5 b token _ kind hkind next rest hkey ih =>
      rw [same_word .key rfl, decide_eq_true_iff] at hkey
      refine .index (role_of_ofKeyword? hkind) ?_ ih
      rintro _ ⟨⟩
      exact hkey
  | case6 b token rest _ _ h ih =>
      rw [same_word .unsigned rfl, decide_eq_true_iff] at h
      exact .unsigned h ih
  | case7 b token rest _ _ _ h p ih =>
      rw [same_word .zerofill rfl, decide_eq_true_iff] at h
      exact .zerofill h ih
  | case8 b token rest _ _ _ _ h p ih =>
      rw [same_word .nullable rfl, decide_eq_true_iff] at h
      exact .nullable h ih
  | case9 b token rest hcounter hindex hunsigned hzerofill hnullable h p ih =>
      rw [opensTrailing_eq, Bool.or_eq_true, decide_eq_true_iff] at h
      exact .trailing (not_isMarker hcounter hindex hunsigned hzerofill hnullable) h ih
  | case10 b token _ _ _ _ _ _ h =>
      cases (Bool.and_eq_true_iff.1 h).2
  | case11 b token _ _ _ _ _ hbody null rest p h ih =>
      obtain ⟨hnot, hnull⟩ := Bool.and_eq_true_iff.1 h
      rw [same_word .not rfl, decide_eq_true_iff] at hnot
      obtain ⟨_, ⟨⟩, hnull⟩ := startsWith_null.1 hnull
      obtain rfl : b = false := by simp_all
      exact .notNull hnot hnull ih
  | case12 b token rest _ _ _ _ _ hbody _ h p ih =>
      rw [same_word .null rfl, decide_eq_true_iff] at h
      obtain rfl : b = false := by simp_all
      exact .null h ih
  | case13 b token rest hcounter hindex hunsigned hzerofill hnullable hbody hnotNull hnull p ih =>
      have hmarker := not_isMarker hcounter hindex hunsigned hzerofill hnullable
      rw [opensTrailing_eq, Bool.or_eq_true, decide_eq_true_iff, not_or] at hbody
      rw [same_word .null rfl, decide_eq_true_iff] at hnull
      rw [same_word .not rfl, Bool.and_eq_true, decide_eq_true_iff, startsWith_null] at hnotNull
      obtain rfl : b = false := by simpa using hbody.1
      refine .body ?_ ih
      cases hrole : role token <;> simp_all [Role.isMarker]

variable {b : Bool} {ts : List Text} {p : Parts}

/-- The role of the first token decides the step, so a list of tokens is sorted in one way only. -/
theorem Sorts.unique {q : Parts} (h : Sorts b ts p) (hq : Sorts b ts q) : p = q := by
  induction h generalizing q with
  | nil =>
      cases hq
      rfl
  | counter h _ ih =>
      cases hq with
      | counter _ hrest => rw [ih hrest]
      | _ => simp_all [Role.isMarker]
  | index h alone _ ih =>
      cases hq with
      | index h' _ hrest =>
          cases h.symm.trans h'
          rw [ih hrest]
      | _ => simp_all [Role.isMarker]
  | indexKey h hkey _ ih =>
      cases hq with
      | indexKey h' _ hrest =>
          cases h.symm.trans h'
          rw [ih hrest]
      | _ => simp_all [Role.isMarker]
  | unsigned h _ ih =>
      cases hq with
      | unsigned _ hrest => exact ih hrest
      | _ => simp_all [Role.isMarker]
  | zerofill h _ ih =>
      cases hq with
      | zerofill _ hrest => rw [ih hrest]
      | _ => simp_all [Role.isMarker]
  | nullable h _ ih =>
      cases hq with
      | nullable _ hrest => rw [ih hrest]
      | _ => simp_all [Role.isMarker]
  | trailing h hstart _ ih =>
      cases hq with
      | trailing _ _ hrest => rw [ih hrest]
      | _ => simp_all [Role.isMarker]
  | notNull h hnull _ ih =>
      cases hq with
      | notNull _ _ hrest => rw [ih hrest]
      | _ => simp_all [Role.isMarker]
  | null h _ ih =>
      cases hq with
      | null _ hrest => rw [ih hrest]
      | _ => simp_all [Role.isMarker]
  | body h _ ih =>
      cases hq with
      | body _ hrest => rw [ih hrest]
      | _ => simp_all [Role.isMarker]

theorem sortTokens_eq_of_sorts (h : Sorts b ts p) : sortTokens b ts = p :=
  (sorts_sortTokens b ts).unique h

/-- In the trailing clause no token goes to the type. -/
theorem Sorts.body_eq_nil (h : Sorts b ts p) (hb : b = true) : p.body = [] := by
  induction h with
  | nil => rfl
  | counter _ _ ih => exact ih hb
  | @index _ _ _ _ kind _ _ _ ih => cases kind <;> exact ih hb
  | @indexKey _ _ _ _ _ kind _ _ _ ih => cases kind <;> exact ih hb
  | unsigned _ _ ih => exact ih hb
  | zerofill _ _ ih => exact ih hb
  | nullable _ _ ih => exact ih hb
  | trailing _ _ _ ih => exact ih rfl
  | notNull => cases hb
  | null => cases hb
  | body => cases hb

namespace Parts

variable (p : Parts) (kind : IndexKind)

@[simp] theorem body_mark : (p.mark kind).body = p.body := by cases kind <;> rfl

@[simp] theorem trailing_mark : (p.mark kind).trailing = p.trailing := by cases kind <;> rfl

end Parts

/-- Some words with a certain property are left out, and the others keep their order. -/
inductive Thinned (P : Text → Prop) : List Text → List Text → Prop
  | nil : Thinned P [] []
  | keep {ws vs} (w : Text) (h : Thinned P ws vs) : Thinned P (w :: ws) (w :: vs)
  | drop {w ws vs} (hw : P w) (h : Thinned P ws vs) : Thinned P (w :: ws) vs

theorem Thinned.mem {P : Text → Prop} {ws vs : List Text} (h : Thinned P ws vs) :
    ∀ w ∈ vs, w ∈ ws := by
  induction h with
  | nil => exact fun _ h => h
  | keep w _ ih =>
      intro v hv
      rcases List.mem_cons.1 hv with rfl | hv
      · exact List.mem_cons_self
      · exact List.mem_cons_of_mem _ (ih v hv)
  | drop _ _ ih => exact fun v hv => List.mem_cons_of_mem _ (ih v hv)

theorem Thinned.refl {P : Text → Prop} (ws : List Text) : Thinned P ws ws := by
  induction ws with
  | nil => exact .nil
  | cons w ws ih => exact .keep w ih

theorem Thinned.imp {P Q : Text → Prop} (himp : ∀ w, P w → Q w) {ws vs : List Text}
    (h : Thinned P ws vs) : Thinned Q ws vs := by
  induction h with
  | nil => exact .nil
  | keep w _ ih => exact .keep w ih
  | drop hw _ ih => exact .drop (himp _ hw) ih

theorem Thinned.trans {P : Text → Prop} {us ws vs : List Text} (h : Thinned P us ws)
    (h' : Thinned P ws vs) : Thinned P us vs := by
  induction h generalizing vs with
  | nil => exact h'
  | keep w _ ih =>
      cases h' with
      | keep _ h' => exact .keep w (ih h')
      | drop hw h' => exact .drop hw (ih h')
  | drop hw _ ih => exact .drop hw (ih h')

theorem Thinned.append {P : Text → Prop} {us vs ws xs : List Text} (h : Thinned P us vs)
    (h' : Thinned P ws xs) : Thinned P (us ++ ws) (vs ++ xs) := by
  induction h with
  | nil => exact h'
  | keep w _ ih => exact .keep w ih
  | drop hw _ ih => exact .drop hw ih

/-- Words that all have the property may be left out. -/
theorem thinned_nil {P : Text → Prop} {ws : List Text} (h : ∀ w ∈ ws, P w) : Thinned P ws [] := by
  induction ws with
  | nil => exact .nil
  | cons w ws ih =>
      obtain ⟨hw, hws⟩ := List.forall_mem_cons.1 h
      exact .drop hw (ih hws)

theorem thinned_filter {P : Text → Prop} {keep : Text → Bool} (hP : ∀ w, keep w = false → P w)
    (ws : List Text) : Thinned P ws (ws.filter keep) := by
  induction ws with
  | nil => exact .nil
  | cons w ws ih =>
      cases hw : keep w with
      | true => simpa [hw] using Thinned.keep w ih
      | false => simpa [hw] using Thinned.drop (hP w hw) ih

/-- Sorting leaves out nothing but words with a role. -/
theorem Sorts.thinned (h : Sorts b ts p) :
    Thinned (fun w => role w ≠ .other) ts (p.body ++ p.trailing) := by
  induction h with
  | nil => exact .nil
  | counter h _ ih => exact .drop (by simp [h]) ih
  | index h _ _ ih => exact .drop (by simp [h]) (by simpa using ih)
  | indexKey h hkey _ ih => exact .drop (by simp [h]) (.drop (by simp [hkey]) (by simpa using ih))
  | unsigned h _ ih => exact .drop (by simp [h]) ih
  | zerofill h _ ih => exact .drop (by simp [h]) ih
  | nullable h _ ih => exact .drop (by simp [h]) ih
  | trailing _ _ hrest ih =>
      rw [hrest.body_eq_nil rfl] at ih ⊢
      exact .keep _ ih
  | notNull h hnull _ ih => exact .drop (by simp [h]) (.drop (by simp [hnull]) ih)
  | null h _ ih => exact .drop (by simp [h]) ih
  | body _ _ ih => exact .keep _ ih

/-- What is left in the type is no marker, no `NULL` and no word that opens the clause. -/
theorem Sorts.role_of_mem_body (h : Sorts b ts p) :
    ∀ token ∈ p.body, role token = .key ∨ role token = .other ∨ role token = .not := by
  induction h with
  | nil => exact fun _ h => nomatch h
  | index | indexKey => simpa
  | body h _ ih =>
      refine List.forall_mem_cons.2 ⟨?_, ih⟩
      rcases h with h | h | ⟨h, _⟩ <;> simp [h]
  | _ => assumption

theorem Sorts.not_isMarker_of_mem_trailing (h : Sorts b ts p) :
    ∀ token ∈ p.trailing, (role token).isMarker = false := by
  induction h with
  | nil => exact fun _ h => nomatch h
  | index | indexKey => simpa
  | trailing h _ _ ih => exact List.forall_mem_cons.2 ⟨h, ih⟩
  | _ => assumption

theorem Sorts.opening_of_mem_head? (h : Sorts b ts p) (hb : b = false) :
    ∀ token ∈ p.trailing.head?, role token = .opening := by
  induction h with
  | nil => exact fun _ h => nomatch h
  | index _ _ _ ih => simpa using ih hb
  | indexKey _ _ _ ih => simpa using ih hb
  | trailing _ hstart _ _ =>
      rintro _ ⟨⟩
      simpa [hb] using hstart
  | counter _ _ ih | unsigned _ _ ih | zerofill _ _ ih | nullable _ _ ih => exact ih hb
  | notNull _ _ _ ih | null _ _ ih | body _ _ ih => exact ih rfl

/-- There is no sign to take where no token has one. -/
theorem takePlus?_eq_none {ts : List Text} : takePlus? ts = none ↔ ∀ token ∈ ts, '+' ∉ token := by
  induction ts with
  | nil => simp [takePlus?]
  | cons token ts ih =>
      rw [takePlus?, List.forall_mem_cons, ← ih]
      by_cases h : '+' ∈ token
      · simp only [List.contains_iff_mem, h, if_true, not_true, false_and, iff_false]
        cases token.erase '+' <;> exact Option.some_ne_none _
      · simp [h]

/-- The token without its first sign; nothing if the sign is all there is. -/
theorem takePlus?_sign {a b : Text} (ha : '+' ∉ a) (ts : List Text) :
    takePlus? ((a ++ '+' :: b) :: ts) = some ((if a ++ b = [] then [] else [a ++ b]) ++ ts) := by
  have herase : (a ++ '+' :: b).erase '+' = a ++ b := by
    rw [List.erase_append_right _ ha, List.erase_cons_head]
  rw [takePlus?, if_pos (by simp), herase]
  cases a ++ b <;> rfl

/-- The first sign of the first token that has one is taken, and the token with it if it has nothing
else. -/
theorem takePlus?_eq_some {ts plain : List Text} :
    takePlus? ts = some plain ↔ ∃ front a b back, ts = front ++ (a ++ '+' :: b) :: back ∧
      (∀ token ∈ front, '+' ∉ token) ∧ '+' ∉ a ∧
        plain = front ++ (if a ++ b = [] then [] else [a ++ b]) ++ back := by
  constructor
  · intro h
    induction ts generalizing plain with
    | nil => cases h
    | cons token ts ih =>
        by_cases hmem : '+' ∈ token
        · obtain ⟨a, b, rfl, ha⟩ := List.eq_append_cons_of_mem hmem
          rw [takePlus?_sign ha] at h
          exact ⟨[], a, b, ts, rfl, by simp, ha, (Option.some.inj h).symm⟩
        · rw [takePlus?, if_neg (by simpa using hmem)] at h
          obtain ⟨later, hlater, rfl⟩ := Option.map_eq_some_iff.1 h
          obtain ⟨front, a, b, back, rfl, hfront, ha, rfl⟩ := ih hlater
          exact ⟨token :: front, a, b, back, rfl, List.forall_mem_cons.2 ⟨hmem, hfront⟩, ha, rfl⟩
  · rintro ⟨front, a, b, back, rfl, hfront, ha, rfl⟩
    induction front with
    | nil => exact takePlus?_sign ha back
    | cons token front ih =>
        obtain ⟨hmem, hfront⟩ := List.forall_mem_cons.1 hfront
        rw [List.cons_append, takePlus?, if_neg (by simpa using hmem), ih hfront]
        rfl

namespace Parts

variable (p : Parts)

/-- Without a sign the type is written as it was sorted. -/
theorem dataType_of_plain (h : p.spec.signed = false) :
    p.spec.dataType = Text.join [' '] p.body ∧
      (p.spec.numeric = true → ∀ token ∈ p.body, '+' ∉ token) := by
  unfold spec at h ⊢
  simp only [Option.isSome_eq_false_iff, Option.isNone_iff_eq_none] at h ⊢
  rw [h]
  refine ⟨rfl, fun hnumeric => ?_⟩
  rw [hnumeric, if_pos rfl] at h
  exact takePlus?_eq_none.1 h

/-- Only a numeric type has a sign, which is taken out of it. -/
theorem dataType_of_signed (h : p.spec.signed = true) :
    p.spec.numeric = true ∧
      ∃ plain, takePlus? p.body = some plain ∧ p.spec.dataType = Text.join [' '] plain := by
  unfold spec at h ⊢
  obtain ⟨plain, hplain⟩ := Option.isSome_iff_exists.1 h
  simp only at hplain ⊢
  split at hplain
  · next hnumeric => exact ⟨hnumeric, plain, hplain, by rw [if_pos hnumeric, hplain]; rfl⟩
  · cases hplain

end Parts

end SchemaScript.Column
