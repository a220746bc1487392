/- Matches of a regular expression: what is taken are the words of its language, what groups capture is
   what they take, and which match is tried first. -/
import Mathlib.Computability.Language
import SchemaScript.Proofs.Text.Search
import SchemaScript.Text.Regex

namespace SchemaScript.Regex

open Computability

variable {whole t rest : Text} {p q : Regex} {m : Match}

/-- The words of an expression, whatever stands around them. -/
def language : Regex → Language Char
  | plain t => {t}
  | escaped t => {t}
  | oneOf s => {w | ∃ c, s.has c = true ∧ w = [c]}
  | seq p q => p.language * q.language
  | alt p q => p.language + q.language
  | star p => p.language∗
  | plus p => p.language * p.language∗
  | group p => p.language
  | bundle p => p.language
  | start => 1
  | finish => 1

theorem mem_language_escaped {s w : Text} : w ∈ (escaped s).language ↔ w = s := Iff.rfl

theorem mem_language_oneOf {s : CharSet} {w : Text} :
    w ∈ (oneOf s).language ↔ ∃ c, s.has c = true ∧ w = [c] := Iff.rfl

theorem mem_language_alt {w : Text} :
    w ∈ (p ||| q).language ↔ w ∈ p.language ∨ w ∈ q.language := Iff.rfl

theorem append_mem_kstar {l : Language Char} {w v : Text} (hw : w ∈ l) (hv : v ∈ l∗) :
    w ++ v ∈ l∗ := by
  obtain ⟨words, rfl, hwords⟩ := Language.mem_kstar.1 hv
  exact Language.join_mem_kstar (L := w :: words) (List.forall_mem_cons.2 ⟨hw, hwords⟩)

/-- What is repeated once or more, where no word is empty, is what is repeated at all and not empty. -/
theorem mem_language_plus {w : Text} (h : [] ∉ p.language) :
    w ∈ (plus p).language ↔ w ≠ [] ∧ w ∈ (star p).language := by
  constructor
  · intro hw
    obtain ⟨u, hu, v, hv, rfl⟩ := Language.mem_mul.1 hw
    refine ⟨fun hnil => h ((List.append_eq_nil_iff.1 hnil).1 ▸ hu), ?_⟩
    exact append_mem_kstar hu hv
  · rintro ⟨hne, hw⟩
    obtain ⟨words, rfl, hwords⟩ := Language.mem_kstar.1 hw
    cases words with
    | nil => exact absurd rfl hne
    | cons u words =>
        obtain ⟨hu, hwords⟩ := List.forall_mem_cons.1 hwords
        exact Language.append_mem_mul hu (Language.join_mem_kstar hwords)

theorem mem_language_star_oneOf {s : CharSet} {w : Text} :
    w ∈ (star (oneOf s)).language ↔ ∀ c ∈ w, s.has c = true := by
  constructor
  · intro hw c hc
    obtain ⟨words, rfl, hwords⟩ := Language.mem_kstar.1 hw
    obtain ⟨u, hu, hcu⟩ := List.mem_flatten.1 hc
    obtain ⟨d, hd, rfl⟩ := hwords u hu
    exact List.mem_singleton.1 hcu ▸ hd
  · intro h
    induction w with
    | nil => exact Language.nil_mem_kstar _
    | cons c w ih =>
        obtain ⟨hc, hw⟩ := List.forall_mem_cons.1 h
        exact append_mem_kstar (mem_language_oneOf.2 ⟨c, hc, rfl⟩) (ih hw)

theorem mem_language_star_plain {c : Char} {w : Text} :
    w ∈ (star (plain [c])).language ↔ ∃ n, w = List.replicate n c := by
  constructor
  · intro hw
    obtain ⟨words, rfl, hwords⟩ := Language.mem_kstar.1 hw
    refine ⟨words.length, ?_⟩
    rw [List.eq_replicate_of_mem hwords, List.flatten_replicate_singleton, List.length_replicate]
  · rintro ⟨n, rfl⟩
    rw [← List.flatten_replicate_singleton]
    exact Language.join_mem_kstar fun u hu => List.eq_of_mem_replicate hu

/-- An expression that captures nothing and matches alike at every place. -/
def Silent : Regex → Prop
  | plain _ | escaped _ | oneOf _ => True
  | seq p q | alt p q => p.Silent ∧ q.Silent
  | star p | plus p | bundle p => p.Silent
  | group _ | start | finish => False

section Repeated

variable {step : Text → List Text} {l : Language Char}

theorem atMost_succ {bound : Nat} (h : t.length ≤ bound) :
    atMost step (bound + 1) t = atMost step bound t := by
  induction bound generalizing t with
  | zero =>
      obtain rfl := List.eq_nil_of_length_eq_zero (Nat.le_zero.1 h)
      simp [atMost]
  | succ bound ih =>
      rw [atMost, atMost]
      congr 1
      apply List.flatMap_congr
      intro u hu
      have hlt := of_decide_eq_true (List.mem_filter.1 hu).2
      exact ih (by omega)

/-- A bound that is no less than the number of characters does not matter. -/
theorem atMost_eq_repeated {bound : Nat} (h : t.length ≤ bound) :
    atMost step bound t = repeated step t := by
  induction bound, h using Nat.le_induction with
  | base => rfl
  | succ bound h ih => rw [atMost_succ h, ih]

/-- The first of any number of steps is followed by any number of them again, and no step comes last. -/
theorem repeated_eq : repeated step t
    = ((step t).filter (·.length < t.length)).flatMap (repeated step) ++ [t] := by
  rw [← atMost_eq_repeated (Nat.le_succ t.length), atMost]
  congr 1
  apply List.flatMap_congr
  intro u hu
  have hlt := of_decide_eq_true (List.mem_filter.1 hu).2
  exact atMost_eq_repeated (Nat.le_of_lt hlt)

theorem suffix_of_mem_repeated (hstep : ∀ t, ∀ u ∈ step t, u <:+ t)
    (h : rest ∈ repeated step t) : rest <:+ t := by
  induction hlength : t.length using Nat.strong_induction_on generalizing t with
  | _ n ih =>
      rw [repeated_eq] at h
      simp only [List.mem_append, List.mem_flatMap, List.mem_filter, List.mem_singleton,
        decide_eq_true_eq] at h
      rcases h with ⟨u, ⟨hu, hlt⟩, h⟩ | rfl
      · exact (ih _ (hlength ▸ hlt) h rfl).trans (hstep t u hu)
      · exact List.suffix_rfl

/-- Steps that take the words of a language take, repeated, the words that are put together of them. -/
theorem mem_repeated (hstep : ∀ t rest, rest ∈ step t ↔ ∃ w ∈ l, t = w ++ rest) :
    rest ∈ repeated step t ↔ ∃ w ∈ l∗, t = w ++ rest := by
  induction hlength : t.length using Nat.strong_induction_on generalizing t with
  | _ n ih =>
      subst hlength
      rw [repeated_eq]
      simp only [List.mem_append, List.mem_flatMap, List.mem_filter, List.mem_singleton,
        decide_eq_true_eq]
      constructor
      · rintro (⟨u, ⟨hu, hlt⟩, h⟩ | rfl)
        · obtain ⟨w, hw, rfl⟩ := (hstep t u).1 hu
          obtain ⟨v, hv, rfl⟩ := (ih _ hlt rfl).1 h
          exact ⟨w ++ v, append_mem_kstar hw hv, (List.append_assoc w v rest).symm⟩
        · exact ⟨[], Language.nil_mem_kstar l, rfl⟩
      · rintro ⟨_, hw, rfl⟩
        obtain ⟨words, rfl, hwords⟩ := Language.mem_kstar_iff_exists_nonempty.1 hw
        cases words with
        | nil => exact .inr rfl
        | cons w words =>
            obtain ⟨⟨hl, hne⟩, hwords⟩ := List.forall_mem_cons.1 hwords
            have hlater : words.flatten ∈ l∗ := Language.join_mem_kstar fun v hv => (hwords v hv).1
            have hlt : (words.flatten ++ rest).length < (w ++ (words.flatten ++ rest)).length := by
              have hpos := List.length_pos_iff.2 hne
              simp only [List.length_append]
              omega
            rw [List.flatten_cons, List.append_assoc] at ih ⊢
            exact .inl ⟨words.flatten ++ rest, ⟨(hstep _ _).2 ⟨w, hl, rfl⟩, hlt⟩,
              (ih _ hlt rfl).2 ⟨_, hlater, rfl⟩⟩

end Repeated

section Runs

theorem mem_map_rest {rests : List Text} :
    m ∈ rests.map (fun rest => (⟨[], rest⟩ : Match)) ↔ m.captures = [] ∧ m.rest ∈ rests := by
  obtain ⟨captures, rest⟩ := m
  simp only [List.mem_map, Match.mk.injEq, eq_comm (a := ([] : List Text))]
  grind

theorem mem_runs_plain {s : Text} :
    m ∈ (plain s).runs whole t ↔ m.captures = [] ∧ t = s ++ m.rest := by
  rw [runs, mem_map_rest, Option.mem_toList, Text.after?_eq_some]

theorem mem_runs_escaped {s : Text} :
    m ∈ (escaped s).runs whole t ↔ m.captures = [] ∧ t = s ++ m.rest :=
  show m ∈ (plain s).runs whole t ↔ _ from mem_runs_plain

theorem runs_seq : (p ++ q).runs whole t = (p.runs whole t).flatMap fun a =>
    (q.runs whole a.rest).map fun b => ⟨a.captures ++ b.captures, b.rest⟩ := rfl

theorem mem_runs_seq : m ∈ (p ++ q).runs whole t ↔
    ∃ a ∈ p.runs whole t, ∃ b ∈ q.runs whole a.rest,
      m.captures = a.captures ++ b.captures ∧ m.rest = b.rest := by
  obtain ⟨captures, rest⟩ := m
  simp only [runs_seq, List.mem_flatMap, List.mem_map, Match.mk.injEq]
  grind

theorem mem_runs_alt :
    m ∈ (p ||| q).runs whole t ↔ m ∈ p.runs whole t ∨ m ∈ q.runs whole t :=
  List.mem_append

theorem mem_runs_oneOf {s : CharSet} : m ∈ (oneOf s).runs whole t ↔
    m.captures = [] ∧ ∃ c, s.has c = true ∧ t = c :: m.rest := by
  obtain ⟨captures, rest⟩ := m
  cases t with
  | nil => simp [runs]
  | cons c t =>
      rw [runs]
      grind

/-- A repetition takes the words that are put together of those its part takes. -/
theorem mem_runs_star {l : Language Char} (hp : ∀ t (a : Match), a ∈ p.runs whole t ↔
      a.captures = [] ∧ ∃ w ∈ l, t = w ++ a.rest) :
    m ∈ (star p).runs whole t ↔ m.captures = [] ∧ ∃ w ∈ l∗, t = w ++ m.rest := by
  have hstep (t rest : Text) :
      rest ∈ (p.runs whole t).map (·.rest) ↔ ∃ w ∈ l, t = w ++ rest := by
    rw [List.mem_map]
    constructor
    · rintro ⟨a, ha, rfl⟩
      exact ((hp t a).1 ha).2
    · intro hw
      exact ⟨⟨[], rest⟩, (hp t _).2 ⟨rfl, hw⟩, rfl⟩
  rw [runs, mem_map_rest, mem_repeated hstep]

theorem mem_runs_plus :
    m ∈ (plus p).runs whole t ↔ ∃ a ∈ p.runs whole t, m ∈ (star p).runs whole a.rest :=
  List.mem_flatMap

theorem mem_runs_start : m ∈ start.runs whole t ↔ m.captures = [] ∧ t = whole ∧ t = m.rest := by
  obtain ⟨captures, rest⟩ := m
  rw [runs]
  grind

theorem mem_runs_finish : m ∈ finish.runs whole t ↔ m.captures = [] ∧ t = [] ∧ m.rest = [] := by
  obtain ⟨captures, rest⟩ := m
  rw [runs]
  grind

end Runs

/-- What a silent expression leaves is what follows a word of its language. -/
theorem mem_runs_iff (h : p.Silent) :
    m ∈ p.runs whole t ↔ m.captures = [] ∧ ∃ w ∈ p.language, t = w ++ m.rest := by
  induction p generalizing m t with
  | plain s =>
      rw [mem_runs_plain]
      exact and_congr_right' ⟨fun ht => ⟨s, rfl, ht⟩, fun ⟨_, hw, ht⟩ => hw ▸ ht⟩
  | escaped s =>
      rw [mem_runs_escaped]
      exact and_congr_right' ⟨fun ht => ⟨s, rfl, ht⟩, fun ⟨_, hw, ht⟩ => hw ▸ ht⟩
  | oneOf s =>
      rw [mem_runs_oneOf]
      refine and_congr_right' ⟨fun ⟨c, hc, ht⟩ => ⟨[c], ⟨c, hc, rfl⟩, ht⟩, ?_⟩
      rintro ⟨_, ⟨c, hc, rfl⟩, ht⟩
      exact ⟨c, hc, ht⟩
  | seq p q ihp ihq =>
      constructor
      · intro hm
        obtain ⟨a, ha, b, hb, hcaptures, hrest⟩ := mem_runs_seq.1 hm
        obtain ⟨hac, w, hw, rfl⟩ := (ihp h.1).1 ha
        obtain ⟨hbc, v, hv, hav⟩ := (ihq h.2).1 hb
        refine ⟨by rw [hcaptures, hac, hbc]; rfl, w ++ v, Language.append_mem_mul hw hv, ?_⟩
        rw [hav, hrest, List.append_assoc]
      · rintro ⟨hcaptures, _, hx, rfl⟩
        obtain ⟨w, hw, v, hv, rfl⟩ := Language.mem_mul.1 hx
        rw [List.append_assoc]
        exact mem_runs_seq.2 ⟨⟨[], v ++ m.rest⟩, (ihp h.1).2 ⟨rfl, w, hw, rfl⟩,
          ⟨[], m.rest⟩, (ihq h.2).2 ⟨rfl, v, hv, rfl⟩, hcaptures, rfl⟩
  | alt p q ihp ihq =>
      rw [show m ∈ (alt p q).runs whole t ↔ _ from mem_runs_alt, ihp h.1, ihq h.2, ← and_or_left]
      simp only [language, Language.mem_add, or_and_right, exists_or]
  | star p ih => exact mem_runs_star fun t a => ih h
  | plus p ih =>
      rw [mem_runs_plus]
      constructor
      · rintro ⟨a, ha, hm⟩
        obtain ⟨-, w, hw, rfl⟩ := (ih h).1 ha
        obtain ⟨hcaptures, v, hv, hav⟩ := (mem_runs_star fun t a => ih h).1 hm
        refine ⟨hcaptures, w ++ v, Language.append_mem_mul hw hv, ?_⟩
        rw [hav, List.append_assoc]
      · rintro ⟨hcaptures, _, hx, rfl⟩
        obtain ⟨w, hw, v, hv, rfl⟩ := Language.mem_mul.1 hx
        rw [List.append_assoc]
        exact ⟨⟨[], v ++ m.rest⟩, (ih h).2 ⟨rfl, w, hw, rfl⟩,
          (mem_runs_star fun t a => ih h).2 ⟨hcaptures, v, hv, rfl⟩⟩
  | group p => exact h.elim
  | bundle p ih => exact ih h
  | start => exact h.elim
  | finish => exact h.elim

/-- A silent expression behind another takes one of its words and changes no captures. -/
theorem mem_runs_seq_of_silent (h : q.Silent) : m ∈ (p ++ q).runs whole t ↔
    ∃ a ∈ p.runs whole t, ∃ w ∈ q.language, a.rest = w ++ m.rest ∧ m.captures = a.captures := by
  rw [mem_runs_seq]
  refine exists_congr fun a => and_congr_right fun _ => ?_
  constructor
  · rintro ⟨b, hb, hcaptures, hrest⟩
    obtain ⟨hnone, w, hw, ht⟩ := (mem_runs_iff h).1 hb
    exact ⟨w, hw, by rw [ht, hrest], by rw [hcaptures, hnone, List.append_nil]⟩
  · rintro ⟨w, hw, ht, hcaptures⟩
    exact ⟨⟨[], m.rest⟩, (mem_runs_iff h).2 ⟨rfl, w, hw, ht⟩,
      by rw [hcaptures, List.append_nil], rfl⟩

section Groups

theorem suffix_of_mem_star (hp : ∀ t, ∀ a ∈ p.runs whole t, a.rest <:+ t)
    (h : m ∈ (star p).runs whole t) : m.rest <:+ t := by
  refine suffix_of_mem_repeated (fun t u hu => ?_) (mem_map_rest.1 h).2
  obtain ⟨a, ha, rfl⟩ := List.mem_map.1 hu
  exact hp t a ha

/-- A match takes the beginning of a text and leaves the end. -/
theorem suffix_of_mem_runs (h : m ∈ p.runs whole t) : m.rest <:+ t := by
  induction p generalizing m t with
  | plain s => exact ⟨s, (mem_runs_plain.1 h).2.symm⟩
  | escaped s => exact ⟨s, (mem_runs_escaped.1 h).2.symm⟩
  | oneOf s =>
      obtain ⟨-, c, -, ht⟩ := mem_runs_oneOf.1 h
      exact ⟨[c], ht.symm⟩
  | seq p q ihp ihq =>
      obtain ⟨a, ha, b, hb, -, hrest⟩ := mem_runs_seq.1 h
      rw [hrest]
      exact (ihq hb).trans (ihp ha)
  | alt p q ihp ihq => exact (mem_runs_alt.1 h).elim ihp ihq
  | star p ih => exact suffix_of_mem_star (fun t a => ih) h
  | plus p ih =>
      obtain ⟨a, ha, hm⟩ := mem_runs_plus.1 h
      exact (suffix_of_mem_star (fun t a => ih) hm).trans (ih ha)
  | group p ih =>
      obtain ⟨a, ha, rfl⟩ := List.mem_map.1 h
      exact (ih ha : a.rest <:+ t)
  | bundle p ih => exact ih h
  | start => exact ⟨[], (mem_runs_start.1 h).2.2.symm⟩
  | finish =>
      rw [(mem_runs_finish.1 h).2.2]
      exact List.nil_suffix

/-- A group captures what it takes, in front of what is captured inside. -/
theorem mem_runs_group : m ∈ (group p).runs whole t ↔
    ∃ a ∈ p.runs whole t, ∃ w, t = w ++ a.rest ∧ m.captures = w :: a.captures ∧ m.rest = a.rest := by
  obtain ⟨captures, rest⟩ := m
  simp only [runs, List.mem_map, Match.mk.injEq]
  refine exists_congr fun a => and_congr_right fun ha => ?_
  obtain ⟨w, hw⟩ := suffix_of_mem_runs ha
  have htaken : t.take (t.length - a.rest.length) = w := by
    rw [← hw, List.length_append, Nat.add_sub_cancel, List.take_left]
  rw [htaken]
  constructor
  · rintro ⟨rfl, rfl⟩
    exact ⟨w, hw.symm, rfl, rfl⟩
  · rintro ⟨v, hv, rfl, rfl⟩
    exact ⟨by rw [List.append_cancel_right (hw.trans hv)], rfl⟩

theorem mem_runs_group_of_silent (h : p.Silent) : m ∈ (group p).runs whole t ↔
    ∃ w ∈ p.language, m.captures = [w] ∧ t = w ++ m.rest := by
  rw [mem_runs_group]
  constructor
  · rintro ⟨a, ha, w, ht, hcaptures, hrest⟩
    obtain ⟨hnone, v, hv, htv⟩ := (mem_runs_iff h).1 ha
    obtain rfl := List.append_cancel_right (ht.symm.trans htv)
    exact ⟨w, hv, by rw [hcaptures, hnone], by rw [hrest, ht]⟩
  · rintro ⟨w, hw, hcaptures, ht⟩
    exact ⟨⟨[], m.rest⟩, (mem_runs_iff h).2 ⟨rfl, w, hw, ht⟩, w, ht, hcaptures, rfl⟩

end Groups

section First

theorem head?_runs_seq : ((p ++ q).runs whole t).head? = (p.runs whole t).findSome? fun a =>
    ((q.runs whole a.rest).head?).map fun b => ⟨a.captures ++ b.captures, b.rest⟩ := by
  rw [runs_seq, List.head?_flatMap]
  simp only [List.head?_map]

theorem head?_runs_alt : ((p ||| q).runs whole t).head?
    = (p.runs whole t).head?.or (q.runs whole t).head? :=
  List.head?_append

/-- A repeated set first takes as many characters as there are. -/
theorem head?_repeated_oneOf {s : CharSet} :
    (repeated (fun u => ((oneOf s).runs whole u).map (·.rest)) t).head?
      = some (t.dropWhile s.has) := by
  induction t with
  | nil => rfl
  | cons c t ih =>
      rw [repeated_eq]
      by_cases hc : s.has c = true
      · simp [runs, hc, ih]
      · simp [runs, hc]

theorem head?_runs_plus_oneOf {s : CharSet} : ((plus (oneOf s)).runs whole t).head?
    = if t.takeWhile s.has = [] then none else some ⟨[], t.dropWhile s.has⟩ := by
  cases t with
  | nil => rfl
  | cons c t =>
      by_cases hc : s.has c = true
      · simp [runs, hc, head?_repeated_oneOf]
      · simp [runs, hc]

end First

end SchemaScript.Regex
