/- Written JSON is read back: in one line or over several, a value without numbers is read as it was
   written, whatever follows it. -/
import SchemaScript.Json.Reader
import SchemaScript.Json.Writer
import Mathlib.Data.List.DropRight

namespace SchemaScript.Json

/-- A value without numbers and with at most so many arrays and objects inside one another. -/
inductive Shallow : Nat → Json → Prop
  | null (depth : Nat) : Shallow depth .null
  | bool (depth : Nat) (b : Bool) : Shallow depth (.bool b)
  | string (depth : Nat) (t : Text) : Shallow depth (.string t)
  | array {depth : Nat} {items : List Json} (h : ∀ v ∈ items, Shallow depth v) :
      Shallow (depth + 1) (.array items)
  | object {depth : Nat} {members : List (Text × Json)} (h : ∀ m ∈ members, Shallow depth m.2) :
      Shallow (depth + 1) (.object members)

theorem Shallow.mono {depth deeper : Nat} {v : Json} (h : Shallow depth v) (hle : depth ≤ deeper) :
    Shallow deeper v := by
  induction h generalizing deeper with
  | null => exact .null deeper
  | bool _ b => exact .bool deeper b
  | string _ t => exact .string deeper t
  | array _ ih =>
      obtain ⟨n, rfl⟩ : ∃ n, deeper = n + 1 := Nat.exists_eq_succ_of_ne_zero (by omega)
      exact .array fun v hv => ih v hv (by omega)
  | object _ ih =>
      obtain ⟨n, rfl⟩ : ∃ n, deeper = n + 1 := Nat.exists_eq_succ_of_ne_zero (by omega)
      exact .object fun m hm => ih m hm (by omega)

section Strings

theorem readString_letter {c letter : Char} (h : unescape? letter = some c) (rest : Text) :
    readString .keep ('\\' :: letter :: rest) = prepend c (readString .keep rest) := by
  have hletter : letter ≠ 'u' := by
    rintro rfl
    cases h
  simp [readString, h, hletter]

theorem hexUnit?_hexDigit :
    ∀ n < 0x20, hexUnit? '0' '0' (hexDigit (n / 16)) (hexDigit (n % 16)) = some n := by
  decide

theorem readString_code {c : Char} (h : c.toNat < 0x20) (rest : Text) :
    readString .keep ('\\' :: 'u' :: '0' :: '0' :: hexDigit (c.toNat / 16) ::
      hexDigit (c.toNat % 16) :: rest) = prepend c (readString .keep rest) := by
  have hunit := hexUnit?_hexDigit c.toNat h
  have hhigh : isHighSurrogate c.toNat = false := by
    simp only [isHighSurrogate, Bool.and_eq_false_iff, decide_eq_false_iff_not]
    omega
  have hlow : isLowSurrogate c.toNat = false := by
    simp only [isLowSurrogate, Bool.and_eq_false_iff, decide_eq_false_iff_not]
    omega
  simp [readString, hunit, hhigh, hlow]

/-- What a character is escaped to is read as that character. -/
theorem readString_escape (c : Char) (rest : Text) :
    readString .keep (escape c ++ rest) = prepend c (readString .keep rest) := by
  unfold escape
  split_ifs with hquote hslash hback hfeed hline hreturn htab hcontrol
  · rw [hquote]
    exact readString_letter rfl rest
  · rw [hslash]
    exact readString_letter rfl rest
  · rw [hback]
    exact readString_letter rfl rest
  · rw [hfeed]
    exact readString_letter rfl rest
  · rw [hline]
    exact readString_letter rfl rest
  · rw [hreturn]
    exact readString_letter rfl rest
  · rw [htab]
    exact readString_letter rfl rest
  · exact readString_code hcontrol rest
  · rw [List.singleton_append, readString.eq_def]
    simp [hslash, hcontrol]

theorem readString_escaped (t rest : Text) :
    readString .keep (t.flatMap escape ++ '"' :: rest) = some (t, rest) := by
  induction t with
  | nil => rfl
  | cons c t ih =>
      rw [List.flatMap_cons, List.append_assoc, readString_escape, ih]
      rfl

end Strings

section Gaps

variable {use : Use} {gap : Text} {fuel depth : Nat}

def IsGap (gap : Text) : Prop := ∀ c ∈ gap, isSpace c = true

theorem skipSpace_append (h : IsGap gap) (t : Text) : skipSpace (gap ++ t) = skipSpace t :=
  List.dropWhile_append_of_pos h

theorem skipSpace_cons {c : Char} (h : isSpace c = false) (t : Text) : skipSpace (c :: t) = c :: t :=
  List.dropWhile_cons_of_neg (by rw [h]; exact Bool.false_ne_true)

theorem skipSpace_skipSpace (t : Text) : skipSpace (skipSpace t) = skipSpace t :=
  List.dropWhile_idempotent _ t

theorem readValue_congr {t u : Text} (h : skipSpace t = skipSpace u) :
    readValue use fuel depth t = readValue use fuel depth u := by
  cases fuel with
  | zero => rfl
  | succ fuel => rw [readValue, readValue, h]

theorem readItems_congr {t u : Text} (h : skipSpace t = skipSpace u) :
    readItems use fuel depth t = readItems use fuel depth u := by
  cases fuel with
  | zero => rfl
  | succ fuel => rw [readItems, readItems, readValue_congr h]

theorem readMembers_congr {t u : Text} (h : skipSpace t = skipSpace u) :
    readMembers use fuel depth t = readMembers use fuel depth u := by
  cases fuel with
  | zero => rfl
  | succ fuel => rw [readMembers, readMembers, readName, readName, h]

theorem readItems_bracket (rest : Text) : readItems use fuel depth (']' :: rest) = none := by
  have hvalue (fuel : Nat) : readValue use fuel depth (']' :: rest) = none := by
    cases fuel with
    | zero => rfl
    | succ fuel =>
        rw [readValue, skipSpace_cons rfl]
        rfl
  cases fuel with
  | zero => rfl
  | succ fuel => rw [readItems, hvalue, Option.bind_eq_bind, Option.bind_none]

theorem readMembers_brace (rest : Text) : readMembers use fuel depth ('\x7d' :: rest) = none := by
  cases fuel with
  | zero => rfl
  | succ fuel =>
      rw [readMembers, readName, skipSpace_cons rfl]
      rfl

/-- An array is what its items are read as, of which there is at least one. -/
theorem readValue_array {t rest : Text} {items : List Json}
    (h : readItems use fuel depth t = some (items, rest)) :
    readValue use (fuel + 1) (depth + 1) ('[' :: t) = some (.array items, rest) := by
  rw [← readItems_congr (skipSpace_skipSpace t)] at h
  simp only [readValue, skipSpace_cons (c := '[') rfl]
  split
  · next rest' hskip =>
    rw [hskip, readItems_bracket] at h
    cases h
  · rw [h, Option.map_some]

theorem readValue_object {t rest : Text} {members : List (Text × Json)}
    (h : readMembers use fuel depth t = some (members, rest)) :
    readValue use (fuel + 1) (depth + 1) ('\x7b' :: t) = some (.object members, rest) := by
  rw [← readMembers_congr (skipSpace_skipSpace t)] at h
  simp only [readValue, skipSpace_cons (c := '\x7b') rfl]
  split
  · next rest' hskip =>
    rw [hskip, readMembers_brace] at h
    cases h
  · rw [h, Option.map_some]

theorem readValue_string {t rest : Text} (text : Text) (h : readString use t = some (text, rest)) :
    readValue use (fuel + 1) depth ('"' :: t) = some (.string text, rest) := by
  simp only [readValue, skipSpace_cons (c := '"') rfl, h, Option.map_some]

theorem readName_string {t rest : Text} (name : Text)
    (h : readString use t = some (name, ':' :: rest)) :
    readName use ('"' :: t) = some (name, rest) := by
  rw [readName, skipSpace_cons rfl]
  simp only [h, Option.bind_eq_bind, Option.bind_some, skipSpace_cons (c := ':') rfl]

variable {t t' rest name : Text} {v : Json}

theorem readItems_last (hgap : IsGap gap)
    (h : readValue use fuel depth t = some (v, gap ++ ']' :: rest)) :
    readItems use (fuel + 1) depth t = some ([v], rest) := by
  simp only [readItems, h, Option.bind_eq_bind, Option.bind_some, skipSpace_append hgap,
    skipSpace_cons (c := ']') rfl]

theorem readItems_more {items : List Json} (h : readValue use fuel depth t = some (v, ',' :: t'))
    (hmore : readItems use fuel depth t' = some (items, rest)) :
    readItems use (fuel + 1) depth t = some (v :: items, rest) := by
  simp only [readItems, h, hmore, Option.bind_eq_bind, Option.bind_some,
    skipSpace_cons (c := ',') rfl]

theorem readMembers_last (hgap : IsGap gap) (hname : readName use t = some (name, t'))
    (h : readValue use fuel depth t' = some (v, gap ++ '\x7d' :: rest)) :
    readMembers use (fuel + 1) depth t = some ([(name, v)], rest) := by
  simp only [readMembers, hname, h, Option.bind_eq_bind, Option.bind_some, skipSpace_append hgap,
    skipSpace_cons (c := '\x7d') rfl]

theorem readMembers_more {later : Text} {members : List (Text × Json)}
    (hname : readName use t = some (name, t'))
    (h : readValue use fuel depth t' = some (v, ',' :: later))
    (hmore : readMembers use fuel depth later = some (members, rest)) :
    readMembers use (fuel + 1) depth t = some ((name, v) :: members, rest) := by
  simp only [readMembers, hname, h, hmore, Option.bind_eq_bind, Option.bind_some,
    skipSpace_cons (c := ',') rfl]

end Gaps

theorem quoted_append (t rest : Text) :
    quoted t ++ rest = '"' :: (t.flatMap escape ++ '"' :: rest) := by
  simp [quoted]

theorem readName_quoted (name rest : Text) :
    readName .keep (quoted name ++ ':' :: rest) = some (name, rest) := by
  rw [quoted_append]
  exact readName_string name (readString_escaped name _)

section Parts

variable {depth fuel : Nat} {gap close : Text} {text : Json → Text}

/-- A text is read as a value, whatever stands behind it. -/
def ReadsAs (depth : Nat) (t : Text) (v : Json) : Prop :=
  ∀ fuel rest, 2 * t.length ≤ fuel → readValue .keep fuel depth (t ++ rest) = some (v, rest)

/-- For a text that is not empty there is a step left. -/
theorem ReadsAs.of_succ {c : Char} {t : Text} {v : Json}
    (h : ∀ fuel rest, 2 * t.length < fuel →
      readValue .keep (fuel + 1) depth (c :: (t ++ rest)) = some (v, rest)) :
    ReadsAs depth (c :: t) v := by
  intro fuel rest hfuel
  rw [List.length_cons] at hfuel
  obtain ⟨fuel, rfl⟩ : ∃ n, fuel = n + 1 := Nat.exists_eq_succ_of_ne_zero (by omega)
  exact h fuel rest (by omega)

theorem readsAs_quoted (t : Text) : ReadsAs depth (quoted t) (.string t) := by
  refine ReadsAs.of_succ fun fuel rest _ => ?_
  change readValue .keep (fuel + 1) depth (quoted t ++ rest) = some (.string t, rest)
  rw [quoted_append]
  exact readValue_string t (readString_escaped t rest)

/-- Items with commas between them, and gaps behind the commas, are read one by one. -/
theorem readItems_join (hgap : IsGap gap) (hclose : IsGap close) {items : List Json}
    (hne : items ≠ []) (h : ∀ v ∈ items, ReadsAs depth (text v) v) (rest : Text)
    (hfuel : 2 * (Text.join (',' :: gap) (items.map text)).length < fuel) :
    readItems .keep fuel depth
        (Text.join (',' :: gap) (items.map text) ++ (close ++ ']' :: rest)) = some (items, rest) := by
  induction items generalizing fuel with
  | nil => exact absurd rfl hne
  | cons v items ih =>
      obtain ⟨fuel, rfl⟩ : ∃ n, fuel = n + 1 := Nat.exists_eq_succ_of_ne_zero (by omega)
      obtain ⟨hv, hitems⟩ := List.forall_mem_cons.1 h
      cases items with
      | nil => exact readItems_last hclose (hv fuel _ (Nat.lt_succ_iff.1 hfuel))
      | cons next more =>
          have hlater (hless : _ < fuel) := ih (List.cons_ne_nil next more) hitems hless
          simp only [List.map_cons, Text.join, List.append_assoc, List.length_append,
            List.cons_append, List.length_cons] at hfuel hlater ⊢
          refine readItems_more (hv fuel _ (by omega)) ?_
          rw [readItems_congr (skipSpace_append hgap _)]
          exact hlater (by omega)

variable {sep opening : Text}

/-- A member as text, with a gap between its colon and its value. -/
def memberText (sep : Text) (text : Json → Text) (m : Text × Json) : Text :=
  quoted m.1 ++ ':' :: (sep ++ text m.2)

theorem readMembers_join (hsep : IsGap sep) (hgap : IsGap gap) (hclose : IsGap close)
    {members : List (Text × Json)} (hne : members ≠ [])
    (h : ∀ m ∈ members, ReadsAs depth (text m.2) m.2) (rest : Text)
    (hfuel : 2 * (Text.join (',' :: gap) (members.map (memberText sep text))).length < fuel) :
    readMembers .keep fuel depth
        (Text.join (',' :: gap) (members.map (memberText sep text)) ++ (close ++ '\x7d' :: rest))
      = some (members, rest) := by
  -- the value behind a name is found behind the gap that follows the colon
  have hvalue {m : Text × Json} (hm : ReadsAs depth (text m.2) m.2) (fuel : Nat) (later : Text)
      (hfuel : 2 * (memberText sep text m).length ≤ fuel) :
      readValue .keep fuel depth (sep ++ text m.2 ++ later) = some (m.2, later) := by
    simp only [memberText, List.length_append, List.length_cons] at hfuel
    rw [List.append_assoc, readValue_congr (skipSpace_append hsep _)]
    exact hm fuel later (by omega)
  have hname (m : Text × Json) (later : Text) :
      readName .keep (memberText sep text m ++ later) = some (m.1, sep ++ text m.2 ++ later) := by
    rw [memberText, List.append_assoc, List.cons_append]
    exact readName_quoted m.1 _
  induction members generalizing fuel with
  | nil => exact absurd rfl hne
  | cons m members ih =>
      obtain ⟨fuel, rfl⟩ : ∃ n, fuel = n + 1 := Nat.exists_eq_succ_of_ne_zero (by omega)
      obtain ⟨hm, hmembers⟩ := List.forall_mem_cons.1 h
      cases members with
      | nil =>
          exact readMembers_last hclose (hname m _) (hvalue hm fuel _ (Nat.lt_succ_iff.1 hfuel))
      | cons next more =>
          have hlater (hless : _ < fuel) := ih (List.cons_ne_nil next more) hmembers hless
          simp only [List.map_cons, Text.join, List.append_assoc, List.length_append,
            List.cons_append, List.length_cons] at hfuel hlater ⊢
          refine readMembers_more (hname m _) (hvalue hm fuel _ (by omega)) ?_
          rw [readMembers_congr (skipSpace_append hgap _)]
          exact hlater (by omega)

theorem readsAs_array (hopening : IsGap opening) (hgap : IsGap gap) (hclose : IsGap close)
    {items : List Json} (hne : items ≠ []) (h : ∀ v ∈ items, ReadsAs depth (text v) v) :
    ReadsAs (depth + 1)
      ('[' :: (opening ++ (Text.join (',' :: gap) (items.map text) ++ (close ++ [']']))))
      (.array items) := by
  refine ReadsAs.of_succ fun fuel rest hfuel => readValue_array ?_
  simp only [List.length_append, List.append_assoc] at hfuel ⊢
  rw [readItems_congr (skipSpace_append hopening _)]
  exact readItems_join hgap hclose hne h rest (by omega)

theorem readsAs_object (hopening : IsGap opening) (hsep : IsGap sep) (hgap : IsGap gap)
    (hclose : IsGap close) {members : List (Text × Json)} (hne : members ≠ [])
    (h : ∀ m ∈ members, ReadsAs depth (text m.2) m.2) :
    ReadsAs (depth + 1)
      ('\x7b' :: (opening ++ (Text.join (',' :: gap) (members.map (memberText sep text))
        ++ (close ++ ['\x7d']))))
      (.object members) := by
  refine ReadsAs.of_succ fun fuel rest hfuel => readValue_object ?_
  simp only [List.length_append, List.append_assoc] at hfuel ⊢
  rw [readMembers_congr (skipSpace_append hopening _)]
  exact readMembers_join hsep hgap hclose hne h rest (by omega)

end Parts

section Layouts

variable {depth : Nat} {v : Json}

theorem readsAs_null : ReadsAs depth "null" .null :=
  ReadsAs.of_succ fun _ _ _ => rfl

theorem readsAs_bool (b : Bool) :
    ReadsAs depth (if b then ("true" : Text) else ("false" : Text)) (.bool b) := by
  cases b with
  | true => exact ReadsAs.of_succ fun _ _ _ => rfl
  | false => exact ReadsAs.of_succ fun _ _ _ => rfl

theorem compactItems_eq (items : List Json) :
    compactItems items = Text.join [','] (items.map compact) := by
  induction items with
  | nil => rfl
  | cons item items ih =>
      cases items with
      | nil => rfl
      | cons next rest => simp [compactItems, ih, Text.join]

theorem compactMembers_eq (members : List (Text × Json)) :
    compactMembers members = Text.join [','] (members.map (memberText [] compact)) := by
  induction members with
  | nil => rfl
  | cons member members ih =>
      cases members with
      | nil => rfl
      | cons next rest => simp [compactMembers, ih, Text.join, memberText]

theorem prettyItems_eq (level : Nat) (items : List Json) :
    prettyItems level items = Text.join (',' :: newline level) (items.map (prettyAt level)) := by
  induction items with
  | nil => rfl
  | cons item items ih =>
      cases items with
      | nil => rfl
      | cons next rest => simp [prettyItems, ih, Text.join]

theorem prettyMembers_eq (level : Nat) (members : List (Text × Json)) :
    prettyMembers level members
      = Text.join (',' :: newline level) (members.map (memberText [' '] (prettyAt level))) := by
  induction members with
  | nil => rfl
  | cons member members ih =>
      cases members with
      | nil => simp [prettyMembers, Text.join, memberText]
      | cons next rest => simp [prettyMembers, ih, Text.join, memberText]

theorem isGap_nil : IsGap [] := fun _ h => absurd h List.not_mem_nil

theorem isGap_space : IsGap [' '] := List.forall_mem_singleton.2 rfl

theorem isGap_newline (level : Nat) : IsGap (newline level) := by
  intro c hc
  obtain rfl | hc := List.mem_cons.1 hc
  · rfl
  · rw [List.eq_of_mem_replicate hc]
    rfl

theorem readsAs_compact (h : Shallow depth v) : ReadsAs depth v.compact v := by
  induction h with
  | null => exact readsAs_null
  | bool _ b => exact readsAs_bool b
  | string _ t => exact readsAs_quoted t
  | @array depth items _ ih =>
      cases items with
      | nil => exact ReadsAs.of_succ fun _ _ _ => rfl
      | cons item items =>
          rw [compact, compactItems_eq]
          exact readsAs_array isGap_nil isGap_nil isGap_nil (List.cons_ne_nil _ _) ih
  | @object depth members _ ih =>
      cases members with
      | nil => exact ReadsAs.of_succ fun _ _ _ => rfl
      | cons member members =>
          rw [compact, compactMembers_eq]
          exact readsAs_object isGap_nil isGap_nil isGap_nil isGap_nil (List.cons_ne_nil _ _) ih

theorem readsAs_prettyAt (h : Shallow depth v) (level : Nat) :
    ReadsAs depth (prettyAt level v) v := by
  induction h generalizing level with
  | null => exact readsAs_null
  | bool _ b => exact readsAs_bool b
  | string _ t => exact readsAs_quoted t
  | @array depth items _ ih =>
      cases items with
      | nil => exact ReadsAs.of_succ fun _ _ _ => rfl
      | cons item items =>
          simp only [prettyAt, prettyItems_eq, List.cons_append, List.append_assoc]
          exact readsAs_array (isGap_newline _) (isGap_newline _) (isGap_newline _)
            (List.cons_ne_nil _ _) fun v hv => ih v hv _
  | @object depth members _ ih =>
      cases members with
      | nil => exact ReadsAs.of_succ fun _ _ _ => rfl
      | cons member members =>
          simp only [prettyAt, prettyMembers_eq, List.cons_append, List.append_assoc]
          exact readsAs_object (isGap_newline _) isGap_space (isGap_newline _) (isGap_newline _)
            (List.cons_ne_nil _ _) fun m hm => ih m hm _

theorem read?_eq_some {t gap : Text} (h : ReadsAs depth t v) (hgap : IsGap gap) :
    read? depth (t ++ gap) = some v := by
  have hvalue : readValue .keep (enough (t ++ gap)) depth (t ++ gap) = some (v, gap) :=
    h _ gap (by rw [enough, List.length_append]; omega)
  have hend : atEnd gap = true := by
    rw [atEnd, ← List.append_nil gap, skipSpace_append hgap]
    rfl
  rw [read?, hvalue]
  simp [hend]

/-- Written in one line a value is read as it is, with or without white space behind it. -/
theorem read?_compact (h : Shallow depth v) {gap : Text} (hgap : IsGap gap) :
    read? depth (v.compact ++ gap) = some v :=
  read?_eq_some (readsAs_compact h) hgap

theorem read?_pretty (h : Shallow depth v) {gap : Text} (hgap : IsGap gap) :
    read? depth (v.pretty ++ gap) = some v :=
  read?_eq_some (readsAs_prettyAt h 0) hgap

end Layouts

end SchemaScript.Json
