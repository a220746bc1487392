/- Expansion: the bounded number of substitutions gives what any number of them would give. With no
   more definitions than substitutions, it is refused only where the definitions go in a circle. -/
import SchemaScript.Document.Table
import SchemaScript.Proofs.Text.Search
import Mathlib.Data.List.Nodup
import Mathlib.Data.List.Perm.Subperm

namespace SchemaScript

namespace Text

/-- The characters of a text in front of its first blank. -/
def leadingWord (t : Text) : Text := t.takeWhile fun c => !SchemaScript.isBlank c

/-- What follows the first word of a text and the blank behind it. -/
def behindWord (t : Text) : Text := (t.dropWhile fun c => !SchemaScript.isBlank c).tail

variable {word rest : Text} {blank : Char}

theorem leadingWord_of_solid (h : ∀ c ∈ word, SchemaScript.isBlank c = false) :
    leadingWord word = word := by
  unfold leadingWord
  rw [List.takeWhile_eq_self_iff]
  intro c hc
  rw [h c hc, Bool.not_false]

theorem leadingWord_append (hb : SchemaScript.isBlank blank = true) (t rest : Text) :
    leadingWord (t ++ blank :: rest) = leadingWord t := by
  induction t with
  | nil => simp [leadingWord, hb]
  | cons c t ih =>
      unfold leadingWord at ih ⊢
      rw [List.cons_append, List.takeWhile_cons, List.takeWhile_cons, ih]

theorem behindWord_append (h : ∀ c ∈ word, SchemaScript.isBlank c = false)
    (hb : SchemaScript.isBlank blank = true) : behindWord (word ++ blank :: rest) = rest := by
  unfold behindWord
  rw [List.dropWhile_append_of_pos fun c hc => by rw [h c hc, Bool.not_false]]
  simp [hb]

theorem behindWord_of_solid (h : ∀ c ∈ word, SchemaScript.isBlank c = false) :
    behindWord word = [] := by
  unfold behindWord
  rw [List.dropWhile_eq_nil_iff.2 fun c hc => by rw [h c hc, Bool.not_false], List.tail_nil]

theorem behindWord_suffix (t : Text) : behindWord t <:+ t :=
  (List.tail_suffix _).trans (List.dropWhile_suffix _)

theorem suffix_behindWord (hb : SchemaScript.isBlank blank = true) (t rest : Text) :
    rest <:+ behindWord (t ++ blank :: rest) := by
  induction t with
  | nil => simp [behindWord, hb]
  | cons c t ih =>
      cases hc : SchemaScript.isBlank c with
      | true =>
          have hbehind : behindWord (c :: t ++ blank :: rest) = t ++ blank :: rest := by
            simp [behindWord, hc]
          rw [hbehind]
          exact (List.suffix_cons blank rest).trans (List.suffix_append t _)
      | false =>
          have hbehind : behindWord (c :: t ++ blank :: rest) = behindWord (t ++ blank :: rest) := by
            simp [behindWord, hc]
          rw [hbehind]
          exact ih

end Text

namespace Document

namespace Definitions

variable {defs : Definitions} {t u v : Text} {n : Nat}

/-- One substitution: the first word names a definition, and the text of the definition takes its
place. What follows the word follows that text, behind one space. -/
inductive Substitutes (defs : Definitions) : Text → Text → Prop
  | alone {word text : Text} (solid : ∀ c ∈ word, isBlank c = false)
      (named : defs.lookup? word = some text) : Substitutes defs word text
  | followed {word text rest : Text} {blank : Char} (solid : ∀ c ∈ word, isBlank c = false)
      (named : defs.lookup? word = some text) (hb : isBlank blank = true) :
      Substitutes defs (word ++ blank :: rest) (text ++ ' ' :: rest)

/-- So many substitutions, one after the other, make one text into another. -/
inductive Reaches (defs : Definitions) : Nat → Text → Text → Prop
  | refl (t : Text) : Reaches defs 0 t t
  | step {n : Nat} {t u v : Text} (first : Substitutes defs t u) (rest : Reaches defs n u v) :
      Reaches defs (n + 1) t v

/-- So many substitutions make one text into another, and in that none is possible. -/
def Settles (defs : Definitions) (n : Nat) (t u : Text) : Prop :=
  Reaches defs n t u ∧ ∀ v, ¬ Substitutes defs u v

theorem substitute?_eq_some : defs.substitute? t = some u ↔ Substitutes defs t u := by
  unfold substitute?
  constructor
  · intro h
    split at h
    · next hcut => exact .alone (Text.cutAt?_eq_none.1 hcut) h
    · next word rest hcut =>
      obtain ⟨blank, hb, rfl, hsolid⟩ := Text.cutAt?_eq_some.1 hcut
      obtain ⟨text, htext, rfl⟩ := Option.map_eq_some_iff.1 h
      exact .followed hsolid htext hb
  · intro h
    cases h with
    | alone hsolid hnamed =>
        have hcut := Text.cutAt?_eq_none.2 hsolid
        simp only [Text.cutAtBlank?, hcut, hnamed]
    | @followed word text rest blank hsolid hnamed hb =>
        have hcut := (Text.cutAt?_eq_some (b := rest)).2 ⟨blank, hb, rfl, hsolid⟩
        simp only [Text.cutAtBlank?, hcut, hnamed, Option.map_some]

theorem substitute?_eq_none : defs.substitute? t = none ↔ ∀ u, ¬ Substitutes defs t u := by
  simp only [← substitute?_eq_some, Option.eq_none_iff_forall_ne_some, ne_eq]

/-- Whether a substitution is possible, and which word leads afterwards, is up to the word that
leads before. -/
theorem Substitutes.leadingWord (h : Substitutes defs t u) :
    ∃ text, defs.lookup? t.leadingWord = some text ∧ u.leadingWord = text.leadingWord := by
  cases h with
  | alone hsolid hnamed =>
      rw [Text.leadingWord_of_solid hsolid]
      exact ⟨u, hnamed, rfl⟩
  | @followed word text rest blank hsolid hnamed hb =>
      rw [Text.leadingWord_append hb, Text.leadingWord_of_solid hsolid]
      exact ⟨text, hnamed, Text.leadingWord_append rfl text rest⟩

theorem exists_substitutes {text : Text} (h : defs.lookup? t.leadingWord = some text) :
    ∃ u, Substitutes defs t u := by
  cases hcut : Text.cutAtBlank? t with
  | none =>
      have hsolid := Text.cutAt?_eq_none.1 hcut
      rw [Text.leadingWord_of_solid hsolid] at h
      exact ⟨text, .alone hsolid h⟩
  | some parts =>
      obtain ⟨word, rest⟩ := parts
      obtain ⟨blank, hb, rfl, hsolid⟩ := Text.cutAt?_eq_some.1 hcut
      rw [Text.leadingWord_append hb, Text.leadingWord_of_solid hsolid] at h
      exact ⟨_, .followed hsolid h hb⟩

/-- What follows the first word is kept by a substitution, and can only get further back. -/
theorem Substitutes.behindWord (h : Substitutes defs t u) : t.behindWord <:+ u.behindWord := by
  cases h with
  | alone hsolid =>
      rw [Text.behindWord_of_solid hsolid]
      exact List.nil_suffix
  | @followed word text rest blank hsolid _ hb =>
      rw [Text.behindWord_append hsolid hb]
      exact Text.suffix_behindWord rfl text rest

theorem Reaches.behindWord (h : Reaches defs n t u) : t.behindWord <:+ u.behindWord := by
  induction h with
  | refl => exact List.suffix_refl _
  | step first _ ih => exact first.behindWord.trans ih

theorem settles_of_stuck (h : defs.substitute? t = none) : Settles defs n t u ↔ n = 0 ∧ u = t := by
  have hstuck := substitute?_eq_none.1 h
  constructor
  · rintro ⟨hreach, _⟩
    cases hreach with
    | refl => exact ⟨rfl, rfl⟩
    | step first _ => exact absurd first (hstuck _)
  · rintro ⟨rfl, rfl⟩
    exact ⟨.refl u, hstuck⟩

theorem settles_of_step (h : defs.substitute? t = some v) :
    Settles defs n t u ↔ ∃ m, n = m + 1 ∧ Settles defs m v u := by
  have hfirst := substitute?_eq_some.1 h
  constructor
  · rintro ⟨hreach, hlast⟩
    cases hreach with
    | refl => exact absurd hfirst (hlast v)
    | @step m _ w _ first rest =>
        have hw : w = v := Option.some.inj ((substitute?_eq_some.2 first).symm.trans h)
        exact ⟨m, rfl, hw ▸ rest, hlast⟩
  · rintro ⟨m, rfl, hreach, hlast⟩
    exact ⟨.step hfirst hreach, hlast⟩

/-- The bounded expansion is the unbounded one as far as the bound goes. -/
theorem expandWithin_eq_some : defs.expandWithin n t = some u ↔ ∃ k ≤ n, Settles defs k t u := by
  induction n generalizing t with
  | zero =>
      rw [expandWithin]
      cases h : defs.substitute? t with
      | none => simp [settles_of_stuck h, eq_comm]
      | some v => simp [settles_of_step h]
  | succ n ih =>
      rw [expandWithin]
      cases h : defs.substitute? t with
      | none => simp [settles_of_stuck h, eq_comm]
      | some v =>
          simp only [ih, settles_of_step h]
          constructor
          · rintro ⟨k, hk, hsettles⟩
            exact ⟨k + 1, Nat.succ_le_succ hk, k, rfl, hsettles⟩
          · rintro ⟨_, hk, m, rfl, hsettles⟩
            exact ⟨m, Nat.le_of_succ_le_succ hk, hsettles⟩

/-- The word that leads after so many substitutions, if so many are possible. -/
def leads (defs : Definitions) (word : Text) : Nat → Option Text
  | 0 => some word
  | n + 1 => (leads defs word n).bind fun w => (defs.lookup? w).map Text.leadingWord

/-- The words that lead, one after the other, come back to the name of a definition. -/
def Circles (defs : Definitions) (word : Text) : Prop :=
  ∃ i j w, i < j ∧ defs.leads word i = some w ∧ defs.leads word j = some w ∧
    (defs.lookup? w).isSome = true

variable {word : Text}

theorem leads_succ (word : Text) (n : Nat) :
    defs.leads word (n + 1) =
      (defs.lookup? word).bind fun text => defs.leads text.leadingWord n := by
  induction n with
  | zero =>
      rw [leads, leads, Option.bind_some, Option.map_eq_bind]
      rfl
  | succ n ih =>
      rw [leads, ih]
      cases defs.lookup? word with
      | none => rfl
      | some text => rfl

theorem leads_add (i m : Nat) (word : Text) :
    defs.leads word (i + m) = (defs.leads word i).bind fun w => defs.leads w m := by
  induction m with
  | zero => simp [leads]
  | succ m ih =>
      rw [← Nat.add_assoc, leads, ih, Option.bind_assoc]
      rfl

theorem leads_isSome_of_le {m n : Nat} (h : m ≤ n) (hn : (defs.leads word n).isSome = true) :
    (defs.leads word m).isSome = true := by
  obtain ⟨k, rfl⟩ := Nat.exists_eq_add_of_le h
  rw [leads_add] at hn
  cases hm : defs.leads word m with
  | none =>
      rw [hm] at hn
      cases hn
  | some w => rfl

/-- The expansion is refused exactly where more substitutions are possible than are allowed. -/
theorem expandWithin_eq_none :
    defs.expandWithin n t = none ↔ (defs.leads t.leadingWord (n + 1)).isSome = true := by
  have hstuck {t : Text} (h : defs.substitute? t = none) : defs.lookup? t.leadingWord = none := by
    cases hnamed : defs.lookup? t.leadingWord with
    | none => rfl
    | some text =>
        obtain ⟨v, hfirst⟩ := exists_substitutes hnamed
        exact absurd hfirst (substitute?_eq_none.1 h v)
  induction n generalizing t with
  | zero =>
      rw [expandWithin, leads_succ]
      cases h : defs.substitute? t with
      | none => simp [hstuck h]
      | some v =>
          obtain ⟨text, hnamed, _⟩ := (substitute?_eq_some.1 h).leadingWord
          simp [hnamed, leads]
  | succ n ih =>
      rw [expandWithin, leads_succ]
      cases h : defs.substitute? t with
      | none => simp [hstuck h]
      | some v =>
          obtain ⟨text, hnamed, hword⟩ := (substitute?_eq_some.1 h).leadingWord
          simp only [ih, hnamed, Option.bind_some, hword]

theorem exists_named_of_lt {i n : Nat} (hi : i < n) (h : (defs.leads word n).isSome = true) :
    ∃ w, defs.leads word i = some w ∧ (defs.lookup? w).isSome = true := by
  have hnext := leads_isSome_of_le hi h
  rw [leads] at hnext
  cases hw : defs.leads word i with
  | none =>
      rw [hw] at hnext
      cases hnext
  | some w =>
      rw [hw, Option.bind_some, Option.isSome_map] at hnext
      exact ⟨w, rfl, hnext⟩

theorem mem_names_of_lookup? {w : Text} (h : (defs.lookup? w).isSome = true) :
    w ∈ defs.map (·.1) := by
  unfold lookup? at h
  rw [Option.isSome_map, List.find?_isSome] at h
  obtain ⟨d, hd, hw⟩ := h
  rw [beq_iff_eq] at hw
  exact hw ▸ List.mem_map_of_mem hd

theorem Circles.leads_isSome (h : Circles defs word) (n : Nat) :
    (defs.leads word n).isSome = true := by
  obtain ⟨i, j, w, hij, hi, hj, _⟩ := h
  induction n using Nat.strongRecOn with
  | ind n ih =>
      by_cases hn : n ≤ j
      · exact leads_isSome_of_le hn (by rw [hj, Option.isSome_some])
      · -- what leads behind `j` is what leads behind `i`, which is less far
        obtain ⟨m, rfl⟩ := Nat.exists_eq_add_of_lt (Nat.lt_of_not_le hn)
        have hback := ih (i + (m + 1)) (by omega)
        rw [leads_add, hi] at hback
        rw [Nat.add_assoc, leads_add, hj]
        exact hback

theorem le_length_of_not_circles (hc : ¬ Circles defs word)
    (h : (defs.leads word n).isSome = true) : n ≤ defs.length := by
  -- words that do not come back are different, and each of them names a definition
  let names := (List.range n).map fun i => (defs.leads word i).getD []
  have hdistinct : names.Nodup := by
    refine List.Nodup.map_on ?_ List.nodup_range
    intro i hi j hj he
    obtain ⟨a, ha, hnamed⟩ := exists_named_of_lt (List.mem_range.1 hi) h
    obtain ⟨b, hb, _⟩ := exists_named_of_lt (List.mem_range.1 hj) h
    have hab : a = b := by simpa [ha, hb] using he
    subst hab
    rcases Nat.lt_trichotomy i j with hij | hij | hij
    · exact absurd ⟨i, j, a, hij, ha, hb, hnamed⟩ hc
    · exact hij
    · exact absurd ⟨j, i, a, hij, hb, ha, hnamed⟩ hc
  have hnames : names ⊆ defs.map (·.1) := by
    intro x hx
    obtain ⟨i, hi, rfl⟩ := List.mem_map.1 hx
    obtain ⟨w, hw, hnamed⟩ := exists_named_of_lt (List.mem_range.1 hi) h
    rw [hw, Option.getD_some]
    exact mem_names_of_lookup? hnamed
  have hlength := (hdistinct.subperm hnames).length_le
  simpa [names] using hlength

theorem expand?_eq_none_iff_circles (hfew : defs.length ≤ limit) :
    defs.expand? t = none ↔ Circles defs t.leadingWord := by
  unfold expand?
  rw [expandWithin_eq_none]
  constructor
  · intro h
    by_contra hc
    have hle := le_length_of_not_circles hc h
    omega
  · exact fun h => h.leads_isSome _

theorem not_circles_of_settles (h : Settles defs n t u) : ¬ Circles defs t.leadingWord := by
  intro hc
  have hsome : defs.expandWithin n t = some u := expandWithin_eq_some.2 ⟨n, Nat.le_refl n, h⟩
  rw [expandWithin_eq_none.2 (hc.leads_isSome (n + 1))] at hsome
  cases hsome

theorem Settles.unique {m : Nat} (hu : Settles defs m t u) (hv : Settles defs n t v) : u = v := by
  have hu' : defs.expandWithin (m + n) t = some u := expandWithin_eq_some.2 ⟨m, by omega, hu⟩
  have hv' : defs.expandWithin (m + n) t = some v := expandWithin_eq_some.2 ⟨n, by omega, hv⟩
  exact Option.some.inj (hu'.symm.trans hv')

theorem lookup?_leadingWord_of_settles (h : Settles defs n t u) :
    defs.lookup? u.leadingWord = none := by
  cases hnamed : defs.lookup? u.leadingWord with
  | none => rfl
  | some text =>
      obtain ⟨v, hnext⟩ := exists_substitutes hnamed
      exact absurd hnext (h.2 v)

end Definitions

theorem readColumn_eq_expansionOverflow {defs : Definitions} {table name text : Text}
    {key raw : Value} (hname : key.text? = some name) (htext : columnText table name raw = .ok text) :
    readColumn defs table key raw = .error (.expansionOverflow table name Definitions.limit) ↔
      defs.expand? text = none := by
  have hkey : nameOf .column key = .ok name := by
    unfold nameOf
    rw [hname]
  unfold readColumn
  rw [hkey]
  simp only [bind, Except.bind, htext]
  cases defs.expand? text with
  | none => simp
  | some expanded =>
      cases hr : takeReference? expanded with
      | none => simp [hr]
      | some taken =>
          obtain ⟨reference, rest⟩ := taken
          simp [hr, pure, Except.pure]

namespace Definitions

/-- The expansion of a text is what any number of substitutions settle on, if 64 or fewer lead there.
Elsewhere it is refused, and a column with that text is reported. What it gives begins with no name
of a definition and ends as the text did behind its first word. Among 64 definitions or fewer, a
text is refused only if its leading words go in a circle, so never if any number of substitutions
would settle. -/
theorem expand?_faithful (defs : Definitions) (t : Text) :
    (∀ u, defs.expand? t = some u ↔ ∃ n ≤ 64, Settles defs n t u) ∧
      (defs.expand? t = none ↔ ¬ ∃ n ≤ 64, ∃ u, Settles defs n t u) ∧
      (∀ table name key raw, key.text? = some name → columnText table name raw = .ok t →
        (readColumn defs table key raw = .error (.expansionOverflow table name 64) ↔
          defs.expand? t = none)) ∧
      (∀ u, defs.expand? t = some u →
        defs.lookup? u.leadingWord = none ∧ t.behindWord <:+ u) ∧
      (defs.length ≤ 64 →
        (defs.expand? t = none ↔ Circles defs t.leadingWord) ∧
          ∀ n u, Settles defs n t u → defs.expand? t = some u) := by
  have hsome (u : Text) : defs.expand? t = some u ↔ ∃ n ≤ 64, Settles defs n t u :=
    expandWithin_eq_some
  refine ⟨hsome, ?refused, ?reported, ?shape, ?few⟩
  case refused =>
    simp only [Option.eq_none_iff_forall_ne_some, ne_eq, hsome]
    constructor
    · rintro h ⟨n, hn, u, hu⟩
      exact h u ⟨n, hn, hu⟩
    · rintro h u ⟨n, hn, hu⟩
      exact h ⟨n, hn, u, hu⟩
  case reported =>
    intro table name key raw hname htext
    exact readColumn_eq_expansionOverflow hname htext
  case shape =>
    intro u hu
    obtain ⟨n, _, hsettles⟩ := (hsome u).1 hu
    exact ⟨lookup?_leadingWord_of_settles hsettles,
      hsettles.1.behindWord.trans (Text.behindWord_suffix u)⟩
  case few =>
    intro hfew
    refine ⟨expand?_eq_none_iff_circles hfew, ?_⟩
    intro n u hsettles
    cases h : defs.expand? t with
    | none => exact absurd ((expand?_eq_none_iff_circles hfew).1 h) (not_circles_of_settles hsettles)
    | some v =>
        -- both stop where no substitution is possible, so they stop at the same place
        obtain ⟨m, _, hv⟩ := (hsome v).1 h
        rw [hv.unique hsettles]

/-- Two definitions, the second of which leads back to the first. -/
def turning : Definitions := [("key", "ref NOT NULL"), ("ref", "key")]

theorem expand?_faithful_turning :
    (Circles turning "key" ∧ turning.expand? "key UNIQUE" = none) ∧
      readColumn turning "users" (.string "id") (.string "key UNIQUE") =
        .error (.expansionOverflow "users" "id" 64) ∧
      turning.expand? "int NOT NULL" = some "int NOT NULL" := by
  obtain ⟨_, _, hreported, _, hfew⟩ := expand?_faithful turning "key UNIQUE"
  have hcircle : Circles turning "key" := ⟨0, 2, "key", by decide, by decide, by decide, by decide⟩
  have hrefused := (hfew (by decide)).1.2 hcircle
  refine ⟨⟨hcircle, hrefused⟩, ?_, ?_⟩
  · exact (hreported "users" "id" (.string "id") (.string "key UNIQUE") (by decide) (by decide)).2
      hrefused
  · exact ((expand?_faithful turning "int NOT NULL").1 "int NOT NULL").2
      ⟨0, by decide, .refl _, substitute?_eq_none.1 (by decide)⟩

end Definitions

end Document
end SchemaScript
