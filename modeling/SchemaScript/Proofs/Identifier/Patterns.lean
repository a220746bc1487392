/- The patterns of a dialect: what is read as an identifier or as a reference is what their first match
   captures. -/
import SchemaScript.Dialect
import SchemaScript.Proofs.Identifier.Grammar
import SchemaScript.Proofs.Text.Regex

namespace SchemaScript

open Dialect (mySQL)
open Regex (Match repeated)

namespace Identifier

variable {whole t rest : Text} {m : Match}

theorem bareSet_has (c : Char) : Dialect.bareSet.has c = isBare c := by
  simp [Dialect.bareSet, Regex.CharSet.has, Regex.Item.has, isBare, Bool.or_assoc]

theorem quotableSet_has (c : Char) : mySQL.quotableSet.has c = isQuotable c := by
  rw [Bool.eq_iff_iff]
  simp [Dialect.quotableSet, Regex.CharSet.has, Regex.Item.has, isQuotable, quoteMark, mySQL]
  omega

section Bare

theorem head?_unquoted : (Dialect.unquoted.runs whole t).head?
    = (bare? t).map fun (inner, rest) => ⟨[inner], rest⟩ := by
  have hset : Dialect.bareSet.has = isBare := funext bareSet_has
  have hall := List.takeWhile_append_dropWhile (p := isBare) (l := t)
  have hlength := congrArg List.length hall
  rw [List.length_append] at hlength
  have htaken : t.take (t.length - (t.dropWhile isBare).length) = t.takeWhile isBare := by
    rw [← hlength, Nat.add_sub_cancel]
    nth_rewrite 2 [← hall]
    exact List.take_left
  rw [Dialect.unquoted, Regex.runs, List.head?_map, Regex.head?_runs_plus_oneOf, hset, bare?]
  split
  · next hnil => rw [hnil]; rfl
  · next hne =>
    obtain ⟨c, cs, hcons⟩ := List.exists_cons_of_ne_nil hne
    simp only [Option.map_some, htaken, hcons]

end Bare

section Quoted

/-- What one piece leaves, for each of the ways to take it. -/
def behindPiece (whole t : Text) : List Text := (mySQL.piece.runs whole t).map (·.rest)

theorem behindPiece_eq : behindPiece whole t = ((Regex.oneOf mySQL.quotableSet).runs whole t
      ++ (Regex.escaped ['\x60', '\x60']).runs whole t
      ++ (Regex.escaped ['\x60', '\x60']).runs whole t).map (·.rest) := rfl

theorem silent_piece : mySQL.piece.Silent := ⟨⟨trivial, trivial⟩, trivial⟩

theorem mem_language_piece {w : Text} :
    w ∈ mySQL.piece.language ↔ (∃ c, isQuotable c = true ∧ w = [c]) ∨ w = ['\x60', '\x60'] := by
  change w ∈ (Regex.oneOf mySQL.quotableSet ||| .escaped ['\x60', '\x60']
    ||| .escaped ['\x60', '\x60']).language ↔ _
  simp only [Regex.mem_language_alt, Regex.mem_language_oneOf, Regex.mem_language_escaped,
    quotableSet_has, or_assoc, or_self]

theorem length_lt_of_behindPiece : ∀ u ∈ behindPiece whole t, u.length < t.length := by
  intro u hu
  obtain ⟨m, hm, rfl⟩ := List.mem_map.1 hu
  obtain ⟨-, w, hw, rfl⟩ := (Regex.mem_runs_iff silent_piece).1 hm
  have hpos : 0 < w.length := by
    rcases mem_language_piece.1 hw with ⟨c, -, rfl⟩ | rfl <;> exact Nat.succ_pos _
  rw [List.length_append]
  omega

theorem behindPiece_quotes : behindPiece whole ('\x60' :: '\x60' :: t) = [t, t] := by
  simp [behindPiece_eq, Regex.runs, quotableSet_has, isQuotable_quoteMark,
    Text.after?]

theorem behindPiece_quotable {c : Char} (hc : isQuotable c = true) :
    behindPiece whole (c :: t) = [t] := by
  have hquote : '\x60' ≠ c := by
    rintro rfl
    rw [isQuotable_quoteMark] at hc
    cases hc
  simp [behindPiece_eq, Regex.runs, quotableSet_has, hc, Text.after?, hquote]

theorem behindPiece_other {c : Char} (hc : isQuotable c = false)
    (hquotes : ¬ (c = '\x60' ∧ t.head? = some '\x60')) : behindPiece whole (c :: t) = [] := by
  have hnone : Text.after? ['\x60', '\x60'] (c :: t) = none := by
    rw [Option.eq_none_iff_forall_ne_some]
    intro rest h
    rw [Text.after?_eq_some] at h
    cases h
    exact hquotes ⟨rfl, rfl⟩
  simp [behindPiece_eq, Regex.runs, quotableSet_has, hc, hnone]

theorem repeated_behindPiece : repeated (behindPiece whole) t
    = (behindPiece whole t).flatMap (repeated (behindPiece whole)) ++ [t] := by
  rw [Regex.repeated_eq, List.filter_eq_self.2 fun u hu =>
    decide_eq_true (length_lt_of_behindPiece u hu)]

theorem closeQuoted?_or : (((closeQuoted? t).filter fun (inner, _) => !inner.isEmpty).map (·.2)).or
    (Text.after? ['\x60'] t) = (closeQuoted? t).map (·.2) := by
  fun_cases closeQuoted? t with
  | case1 => rfl
  | case2 => rfl
  | case3 => rfl
  | case4 rest => rfl
  | case5 c rest _ hquote hc =>
      have hmark : '\x60' ≠ c := fun h => hquote h.symm
      cases closeQuoted? rest <;> simp [Option.filter_some, Text.after?, hmark]
  | case6 c rest _ hquote hc =>
      have hmark : '\x60' ≠ c := fun h => hquote h.symm
      simp [Text.after?, hmark]

/-- If the first way to take one piece or more behind which a quote can be found is that of the reader, then
so is the first way to take any pieces. -/
theorem findSome?_repeated
    (h : ((behindPiece whole t).flatMap (repeated (behindPiece whole))).findSome?
        (Text.after? ['\x60'])
      = ((closeQuoted? t).filter fun (inner, _) => !inner.isEmpty).map (·.2)) :
    (repeated (behindPiece whole) t).findSome? (Text.after? ['\x60'])
      = (closeQuoted? t).map (·.2) := by
  rw [repeated_behindPiece, List.findSome?_append, List.findSome?_singleton, h, closeQuoted?_or]

/-- The first way to take one piece or more behind which a quote can be found is that of the reader. -/
theorem findSome?_pieces :
    ((behindPiece whole t).flatMap (repeated (behindPiece whole))).findSome?
        (Text.after? ['\x60'])
      = ((closeQuoted? t).filter fun (inner, _) => !inner.isEmpty).map (·.2) := by
  fun_induction closeQuoted? t with
  | case1 => rfl
  | case2 rest inner behind hr ih =>
      -- Two quotes are a piece in two ways, as the opening one and as the closing one. The second
      -- leads to what the first leads to.
      rw [behindPiece_quotes]
      simp [findSome?_repeated ih, hr, Option.filter_some]
  | case3 rest hr ih =>
      rw [behindPiece_quotes]
      simp [findSome?_repeated ih, hr, Option.filter_some]
  | case4 rest hquotes =>
      rw [behindPiece_other isQuotable_quoteMark]
      · rfl
      · rintro ⟨-, h⟩
        obtain ⟨later, rfl⟩ := List.head?_eq_some_iff.1 h
        exact hquotes later rfl
  | case5 c rest _ hquote hc ih =>
      rw [behindPiece_quotable hc]
      simp only [List.flatMap_cons, List.flatMap_nil, List.append_nil, findSome?_repeated ih]
      cases closeQuoted? rest <;> rfl
  | case6 c rest _ hquote hc =>
      rw [behindPiece_other (Bool.eq_false_of_not_eq_true hc) fun h => hquote h.1]
      rfl

theorem runs_plus_piece : ((Regex.plus mySQL.piece).runs whole t)
    = ((behindPiece whole t).flatMap (repeated (behindPiece whole))).map (⟨[], ·⟩) := by
  rw [behindPiece, List.flatMap_map, List.map_flatMap]
  rfl

/-- A group of pieces captures all up to the quote that is found behind them. -/
theorem close_pieces {u : Text} : (fun rest => (Text.after? ['\x60'] rest).map fun behind =>
      (⟨[u.take (u.length - rest.length)], behind⟩ : Match))
    = fun rest => (Text.after? ['\x60'] rest).map fun behind =>
      ⟨[u.take (u.length - (behind.length + 1))], behind⟩ := by
  funext rest
  apply Option.map_congr
  intro behind h
  rw [Text.after?_eq_some.1 h]
  rfl

theorem head?_quoted : (mySQL.quoted.runs whole t).head?
    = (quoted? t).map fun (inner, rest) => ⟨[inner], rest⟩ := by
  change ((.escaped ['\x60'] ++ .group (.plus mySQL.piece) ++ .escaped ['\x60'] : Regex).runs
    whole t).head? = _
  rw [Regex.head?_runs_seq]
  fun_cases quoted? t with
  | case1 u =>
      have hopen : (.escaped ['\x60'] ++ .group (.plus mySQL.piece) : Regex).runs whole ('\x60' :: u)
          = (Regex.group (.plus mySQL.piece)).runs whole u := by
        simp [Regex.runs_seq, Regex.runs, Text.after?]
      have hclose (rest : Text) : ((Regex.escaped ['\x60']).runs whole rest).head?
          = (Text.after? ['\x60'] rest).map (⟨[], ·⟩) := by
        rw [Regex.runs, List.head?_map, Option.head?_toList]
      rw [hopen, Regex.runs, runs_plus_piece, List.map_map, List.findSome?_map]
      simp only [Function.comp_def, hclose, Option.map_map, List.append_nil]
      rw [close_pieces]
      refine List.map_findSome?.symm.trans ?_
      rw [findSome?_pieces, Option.map_map]
      apply Option.map_congr
      rintro ⟨inner, behind⟩ h
      obtain ⟨-, rfl⟩ := inner_of_closeQuoted? (Option.filter_eq_some_iff.1 h).1
      simp
  | case2 u hquote =>
      have hnone : Text.after? ['\x60'] t = none :=
        Option.eq_none_iff_forall_ne_some.2 fun rest h => hquote rest (Text.after?_eq_some.1 h)
      rw [Regex.runs_seq, Regex.runs, hnone]
      rfl

end Quoted

/-- What is read as an identifier is what the first match captures, wherever it stands. -/
theorem head?_identifier : (mySQL.identifier.runs whole t).head?
    = (read? t).map fun (inner, rest) => ⟨[inner], rest⟩ := by
  rw [Dialect.identifier, Regex.head?_runs_alt, head?_quoted, head?_unquoted, read?]
  cases quoted? t <;> rfl

theorem allFrom_identifier : mySQL.identifier.allFrom whole t = (all t).map ([·]) := by
  fun_induction all t with
  | case1 t inner behind h ih =>
      have hlt := length_lt_of_read? h
      rw [Regex.allFrom.eq_def, head?_identifier, h]
      simp [hlt, ih]
  | case2 h =>
      rw [Regex.allFrom, head?_identifier, h]
      rfl
  | case3 c rest h ih =>
      rw [Regex.allFrom, head?_identifier, h]
      exact ih

/-- The identifiers of a text are what the matches in it capture, one each. -/
theorem all_identifier (t : Text) : mySQL.identifier.all t = (all t).map ([·]) :=
  allFrom_identifier

section Ways

theorem mem_unquoted : m ∈ Dialect.unquoted.runs whole t ↔
    ∃ w, (w ≠ [] ∧ ∀ c ∈ w, isBare c = true) ∧ m.captures = [w] ∧ t = w ++ m.rest := by
  have hword (w : Text) : w ∈ (Regex.plus (.oneOf Dialect.bareSet)).language ↔
      w ≠ [] ∧ ∀ c ∈ w, isBare c = true := by
    rw [Regex.mem_language_plus (by rintro ⟨c, -, h⟩; cases h), Regex.mem_language_star_oneOf]
    simp only [bareSet_has]
  have hsilent : (Regex.plus (.oneOf Dialect.bareSet)).Silent := trivial
  rw [Dialect.unquoted, Regex.mem_runs_group_of_silent hsilent]
  simp only [hword]

theorem mem_language_star_piece {w : Text} : w ∈ (Regex.star mySQL.piece).language ↔ Inner w := by
  constructor
  · intro h
    obtain ⟨words, rfl, hwords⟩ := Language.mem_kstar.1 h
    clear h
    induction words with
    | nil => exact .nil
    | cons w words ih =>
        obtain ⟨hw, hwords⟩ := List.forall_mem_cons.1 hwords
        have hinner := ih hwords
        rcases mem_language_piece.1 hw with ⟨c, hc, rfl⟩ | rfl
        · exact .char hc hinner
        · exact .quotes hinner
  · intro h
    induction h with
    | nil => exact Language.nil_mem_kstar _
    | char hc _ ih => exact Regex.append_mem_kstar (mem_language_piece.2 (.inl ⟨_, hc, rfl⟩)) ih
    | quotes _ ih => exact Regex.append_mem_kstar (mem_language_piece.2 (.inr rfl)) ih

theorem mem_quoted : m ∈ mySQL.quoted.runs whole t ↔ ∃ inner, (inner ≠ [] ∧ Inner inner) ∧
    m.captures = [inner] ∧ t = '\x60' :: inner ++ '\x60' :: m.rest := by
  have hword (w : Text) : w ∈ (Regex.plus mySQL.piece).language ↔ w ≠ [] ∧ Inner w := by
    rw [Regex.mem_language_plus, mem_language_star_piece]
    intro h
    rcases mem_language_piece.1 h with ⟨c, -, h⟩ | h <;> cases h
  change m ∈ (.escaped ['\x60'] ++ .group (.plus mySQL.piece) ++ .escaped ['\x60'] : Regex).runs
    whole t ↔ _
  simp only [Regex.mem_runs_seq, Regex.mem_runs_escaped,
    Regex.mem_runs_group_of_silent (p := .plus mySQL.piece) silent_piece, hword]
  constructor
  · rintro ⟨a, ⟨o, ⟨ho, rfl⟩, b, ⟨inner, hinner, hb, hob⟩, hab, har⟩, c, ⟨hc, hac⟩, hm, hr⟩
    refine ⟨inner, hinner, by rw [hm, hab, ho, hb, hc]; rfl, ?_⟩
    rw [hob, ← har, hac, hr]
    simp
  · rintro ⟨inner, hinner, hm, rfl⟩
    exact ⟨⟨[inner], '\x60' :: m.rest⟩, ⟨⟨[], inner ++ '\x60' :: m.rest⟩, ⟨rfl, rfl⟩,
      ⟨[inner], '\x60' :: m.rest⟩, ⟨inner, hinner, rfl, rfl⟩, rfl, rfl⟩,
      ⟨[], m.rest⟩, ⟨rfl, rfl⟩, hm, rfl⟩

/-- The ways to match an identifier are the ways to write it in front of what is left. -/
theorem mem_identifier : m ∈ mySQL.identifier.runs whole t ↔
    ∃ written inner, Written written inner ∧ m.captures = [inner] ∧ t = written ++ m.rest := by
  rw [Dialect.identifier, Regex.mem_runs_alt, mem_quoted, mem_unquoted]
  constructor
  · rintro (⟨inner, ⟨hne, hinner⟩, hm, rfl⟩ | ⟨w, ⟨hne, hw⟩, hm, rfl⟩)
    · exact ⟨_, inner, .quoted hne hinner, hm, by simp⟩
    · exact ⟨w, w, .bare hne hw, hm, rfl⟩
  · rintro ⟨written, inner, hwritten, hm, rfl⟩
    cases hwritten with
    | bare hne hw => exact .inr ⟨written, ⟨hne, hw⟩, hm, rfl⟩
    | quoted hne hinner => exact .inl ⟨inner, ⟨hne, hinner⟩, hm, by simp⟩

end Ways

end Identifier

namespace Reference

variable {whole t rest : Text} {m : Match} {p q : Regex}

/-- The ways to match two names with a dot between them. -/
theorem mem_dotted : m ∈ (Dialect.dotted p q).runs whole t ↔
    ∃ a b before behind fromColumn, a ∈ p.runs whole t ∧ b ∈ q.runs whole fromColumn ∧
      a.rest = Text.spaces before ++ '.' :: (Text.spaces behind ++ fromColumn) ∧
        m.captures = a.captures ++ b.captures ∧ m.rest = b.rest := by
  have hspaces : (Regex.star (.plain [' '])).Silent := trivial
  have hdot : (Regex.escaped ['.']).Silent := trivial
  change m ∈ (p ++ .star (.plain [' ']) ++ .escaped ['.'] ++ .star (.plain [' ']) ++ q).runs
    whole t ↔ _
  simp only [Regex.mem_runs_seq (q := q), Regex.mem_runs_seq_of_silent hspaces,
    Regex.mem_runs_seq_of_silent hdot, Regex.mem_language_star_plain, Regex.mem_language_escaped]
  constructor
  · rintro ⟨d, ⟨c, ⟨e, ⟨a, ha, _, ⟨before, rfl⟩, hae, he⟩, _, rfl, hec, hc⟩,
      _, ⟨behind, rfl⟩, hcd, hd⟩, b, hb, hm, hrest⟩
    refine ⟨a, b, before, behind, d.rest, ha, hb, ?_, by rw [hm, hd, hc, he], hrest⟩
    rw [hae, hec, hcd]
    rfl
  · rintro ⟨a, b, before, behind, fromColumn, ha, hb, hrest, hm, hr⟩
    exact ⟨⟨a.captures, fromColumn⟩, ⟨⟨a.captures, Text.spaces behind ++ fromColumn⟩,
      ⟨⟨a.captures, '.' :: (Text.spaces behind ++ fromColumn)⟩, ⟨a, ha, _, ⟨before, rfl⟩, hrest, rfl⟩,
        _, rfl, rfl, rfl⟩, _, ⟨behind, rfl⟩, rfl, rfl⟩, b, hb, hm, hr⟩

theorem mem_dotted_alt {p' : Regex} : m ∈ (Dialect.dotted (p ||| p') q).runs whole t ↔
    m ∈ (Dialect.dotted p q).runs whole t ∨ m ∈ (Dialect.dotted p' q).runs whole t := by
  simp only [mem_dotted, Regex.mem_runs_alt, or_and_right, exists_or]

theorem mem_dotted_alt' {q' : Regex} : m ∈ (Dialect.dotted p (q ||| q')).runs whole t ↔
    m ∈ (Dialect.dotted p q).runs whole t ∨ m ∈ (Dialect.dotted p q').runs whole t := by
  simp only [mem_dotted, Regex.mem_runs_alt, or_and_right, and_or_left, exists_or]

theorem mem_names : m ∈ mySQL.names.runs whole t ↔
    m ∈ (Dialect.dotted mySQL.identifier mySQL.identifier).runs whole t := by
  rw [Dialect.names, Dialect.identifier, mem_dotted_alt, mem_dotted_alt', mem_dotted_alt']
  simp only [Regex.mem_runs_alt, or_assoc, or_comm, or_left_comm]

/-- The names of a reference as they are written, with the dot between them. -/
def Form.names (f : Form) : Text :=
  f.writtenTable ++ (Text.spaces f.before ++ '.' :: (Text.spaces f.behind ++ f.writtenColumn))

theorem Form.text_eq (f : Form) : f.text = "-> ".toList ++ (f.names ++ f.rest) := by
  simp [Form.text, Form.written, Form.names, arrow]

/-- The ways to match the two names of a reference are the ways to write them. -/
theorem mem_group_names : m ∈ (Regex.group mySQL.names).runs whole t ↔
    ∃ f : Form, Identifier.Written f.writtenTable f.table ∧
      Identifier.Written f.writtenColumn f.column ∧ t = f.names ++ f.rest ∧
        m.captures = [f.names, f.table, f.column] ∧ m.rest = f.rest := by
  rw [Regex.mem_runs_group]
  simp only [mem_names, mem_dotted, Identifier.mem_identifier]
  constructor
  · rintro ⟨n, ⟨a, b, before, behind, fromColumn, ⟨writtenTable, table, htable, ha, rfl⟩,
      ⟨writtenColumn, column, hcolumn, hb, rfl⟩, hab, hn, hnr⟩, w, ht, hm, hr⟩
    let f : Form := ⟨writtenTable, table, before, behind, writtenColumn, column, b.rest⟩
    have htext : writtenTable ++ a.rest = f.names ++ f.rest := by simp [hab, f, Form.names]
    have hw : w = f.names := List.append_cancel_right (hnr ▸ ht.symm.trans htext)
    exact ⟨f, htable, hcolumn, htext, by rw [hm, hn, ha, hb, hw]; rfl, by rw [hr, hnr]⟩
  · rintro ⟨f, htable, hcolumn, rfl, hm, hr⟩
    exact ⟨⟨[f.table, f.column], f.rest⟩,
      ⟨⟨[f.table], _⟩, ⟨[f.column], f.rest⟩, f.before, f.behind, _,
      ⟨f.writtenTable, f.table, htable, rfl, by simp [Form.names]⟩,
      ⟨f.writtenColumn, f.column, hcolumn, rfl, rfl⟩, rfl, rfl, rfl⟩, f.names, rfl, hm, hr⟩

theorem mem_end : m ∈ (Regex.group (.plain [' '] ||| .finish)).runs whole t ↔
    (t = [] ∨ ∃ later, t = ' ' :: later) ∧ m.captures = [t.take 1] ∧ m.rest = t.drop 1 := by
  rw [Regex.mem_runs_group]
  simp only [Regex.mem_runs_alt, Regex.mem_runs_plain, Regex.mem_runs_finish]
  constructor
  · rintro ⟨a, ⟨ha, ht⟩ | ⟨ha, ht, har⟩, w, hw, hm, hr⟩
    · obtain rfl := List.append_cancel_right (hw.symm.trans ht)
      rw [hm, ha, hr, ht]
      exact ⟨.inr ⟨a.rest, rfl⟩, rfl, rfl⟩
    · obtain rfl := (List.append_eq_nil_iff.1 (hw.symm.trans ht)).1
      rw [hm, ha, hr, har, ht]
      exact ⟨.inl rfl, rfl, rfl⟩
  · rintro ⟨rfl | ⟨later, rfl⟩, hm, hr⟩
    · exact ⟨⟨[], []⟩, .inr ⟨rfl, rfl, rfl⟩, [], rfl, hm, hr⟩
    · exact ⟨⟨[], later⟩, .inl ⟨rfl, rfl⟩, [' '], rfl, hm, hr⟩

/-- The ways to match a reference are the ways to put it together. -/
theorem mem_reference : m ∈ mySQL.reference.runs t t ↔
    ∃ f : Form, f.Shaped ∧ f.text = t ∧
      m.captures = [f.names, f.table, f.column, f.rest.take 1] ∧ m.rest = f.rest.drop 1 := by
  change m ∈ (.start ++ .plain "-> ".toList ++ .group mySQL.names
    ++ .group (.plain [' '] ||| .finish) : Regex).runs t t ↔ _
  simp only [Regex.mem_runs_seq, mem_end, mem_group_names, Regex.mem_runs_start,
    Regex.mem_runs_plain]
  constructor
  · rintro ⟨c, ⟨b, ⟨a, ⟨ha, -, har⟩, x, ⟨hx, hax⟩, hb, hbx⟩,
      d, ⟨f, htable, hcolumn, hf, hd, hdr⟩, hc, hcd⟩, e, ⟨hend, he, her⟩, hm, hr⟩
    rw [hcd, hdr] at hend he her
    refine ⟨f, ⟨htable, hcolumn, hend⟩, ?_, ?_, by rw [hr, her]⟩
    · rw [f.text_eq, ← hf, hbx, ← hax, ← har]
    · rw [hm, hc, hb, ha, hx, hd, he]
      rfl
  · rintro ⟨f, hf, rfl, hm, hr⟩
    exact ⟨⟨[f.names, f.table, f.column], f.rest⟩, ⟨⟨[], f.names ++ f.rest⟩,
      ⟨⟨[], f.text⟩, ⟨rfl, trivial, rfl⟩, ⟨[], f.names ++ f.rest⟩, ⟨rfl, f.text_eq⟩, rfl, rfl⟩,
      ⟨[f.names, f.table, f.column], f.rest⟩, ⟨f, hf.table, hf.column, rfl, rfl, rfl⟩, rfl, rfl⟩,
      ⟨[f.rest.take 1], f.rest.drop 1⟩, ⟨hf.rest, rfl, rfl⟩, hm, hr⟩

/-- The table and the column are the first two captures of a match, behind that of the whole pair, that are
not all white space. -/
def ofCaptures? (captures : List Text) : Option Reference :=
  match (captures.drop 1).filter (fun t => !Text.isBlank t) with
  | table :: column :: _ => some { table, column }
  | _ => none

theorem ofCaptures?_form {f : Form} (hf : f.Shaped) :
    ofCaptures? [f.names, f.table, f.column, f.rest.take 1]
      = if Text.isBlank f.table || Text.isBlank f.column then none else some f.reference := by
  have hend : Text.isBlank (f.rest.take 1) = true := by
    rcases hf.rest with h | ⟨later, h⟩ <;> rw [h] <;> rfl
  cases htable : Text.isBlank f.table <;> cases hcolumn : Text.isBlank f.column <;>
    simp [ofCaptures?, htable, hcolumn, hend, Form.reference]

theorem first?_eq_none_iff : mySQL.reference.first? t = none ↔ ∀ f : Form, f.Shaped → f.text ≠ t := by
  rw [Regex.first?, List.head?_eq_none_iff, List.eq_nil_iff_forall_not_mem]
  constructor
  · intro h f hf ht
    exact h ⟨_, _⟩ (mem_reference.2 ⟨f, hf, ht, rfl, rfl⟩)
  · intro h m hm
    obtain ⟨f, hf, ht, -, -⟩ := mem_reference.1 hm
    exact h f hf ht

/-- What is read as a reference is what the first match captures. -/
theorem read?_eq_first? (t : Text) : read? t
    = (mySQL.reference.first? t).bind fun m => (ofCaptures? m.captures).map (·, m.rest) := by
  cases hfirst : mySQL.reference.first? t with
  | none =>
      rw [Option.bind_none, Option.eq_none_iff_forall_ne_some]
      rintro ⟨r, rest⟩ h
      obtain ⟨f, hf, ht, -, -⟩ := exists_form_of_read? h
      exact first?_eq_none_iff.1 hfirst f hf.shaped ht
  | some m =>
      obtain ⟨f, hf, rfl, hcaptures, hrest⟩ := mem_reference.1 (List.mem_of_mem_head? hfirst)
      rw [Option.bind_some, hcaptures, ofCaptures?_form hf, hrest]
      split
      · next hblank =>
        rw [Option.map_none, Option.eq_none_iff_forall_ne_some]
        rintro ⟨r, rest⟩ h
        obtain ⟨g, hg, htext, -, -⟩ := exists_form_of_read? h
        obtain rfl := hg.shaped.unique hf htext
        rw [hg.tableSolid, hg.columnSolid] at hblank
        cases hblank
      · next hsolid =>
        rw [Bool.not_eq_true, Bool.or_eq_false_iff] at hsolid
        exact read?_form ⟨hf.table, hf.column, hf.rest, hsolid.1, hsolid.2⟩

end Reference
end SchemaScript
