/- Paths that get longer by one piece after the other: what they are made of, and where they lead. -/
import SchemaScript.Files.Glob
import SchemaScript.Proofs.Files.Growing

namespace SchemaScript

open FileTree

variable {p q : Path} {piece : Text}

namespace Path

/-- A path with a slash at its end, so that a piece can follow. -/
def slashed (p : Path) : Path := if p.endsInSlash then p else p ++ ['/']

theorem exists_slashed_eq (p : Path) : ∃ front, slashed p = front ++ ['/'] ∧
    (p = front ∨ p = front ++ ['/']) := by
  unfold slashed
  split
  · next hend =>
    obtain ⟨front, rfl⟩ := List.getLast?_eq_some_iff.1 (eq_of_beq hend)
    exact ⟨front, rfl, .inr rfl⟩
  · exact ⟨p, rfl, .inl rfl⟩

theorem prefix_slashed (p : Path) : p <+: slashed p := by
  unfold slashed
  split
  · exact List.prefix_rfl
  · exact List.prefix_append p ['/']

theorem slashed_sublist (p : Path) : (slashed p).Sublist (p ++ ['/']) := by
  unfold slashed
  split
  · exact List.sublist_append_left p ['/']
  · exact .refl _

theorem isAbsolute_slashed_append (hq : q ≠ []) (u : Text) :
    isAbsolute (slashed q ++ u) = isAbsolute q := by
  obtain ⟨c, rest, rfl⟩ := List.exists_cons_of_ne_nil hq
  obtain ⟨more, hmore⟩ := prefix_slashed (c :: rest)
  rw [← hmore]
  by_cases hc : c = '/'
  · subst hc
    rfl
  · simp [isAbsolute, hc]

theorem join_eq (hq : q ≠ []) (hpiece : isAbsolute piece = false) :
    q.join piece = slashed q ++ piece := by
  unfold join slashed
  rw [if_neg (by simp [hpiece])]
  split
  · next h =>
    have hend : q.endsInSlash = true := by simpa [hq] using h
    rw [if_pos hend]
  · next h =>
    have hend : q.endsInSlash = false := by
      rw [Bool.or_eq_true, not_or] at h
      exact Bool.eq_false_iff.2 h.2
    rw [if_neg (by simp [hend]), List.append_assoc]
    rfl

theorem splitOn_slashed_append (q u : Text) : ∃ front : List Text, front ≠ [] ∧
    Text.splitOn '/' (slashed q ++ u) = front ++ Text.splitOn '/' u ∧
      (Text.splitOn '/' q = front ∨ Text.splitOn '/' q = front ++ [[]]) := by
  obtain ⟨front, hslashed, hq⟩ := exists_slashed_eq q
  refine ⟨Text.splitOn '/' front, ?_, ?_, ?_⟩
  · rw [Text.splitOn_eq]
    exact List.splitOn_ne_nil '/' front
  · rw [hslashed, List.append_assoc]
    exact Text.splitOn_append_cons '/' front u
  · rcases hq with rfl | rfl
    · exact .inl rfl
    · exact .inr (Text.splitOn_append_cons '/' front [])

theorem parts_slashed_append (hq : q ≠ []) (u : Text) :
    parts (slashed q ++ u) = q.parts ++ (Text.splitOn '/' u).filterMap part? := by
  obtain ⟨front, hfront, hcut, hq'⟩ := splitOn_slashed_append q u
  have hstart : start (slashed q ++ u) = start q := by
    have hhead : (Text.splitOn '/' q).head? = front.head? := by
      obtain ⟨first, rest, rfl⟩ := List.exists_cons_of_ne_nil hfront
      rcases hq' with hq' | hq'
      · rw [hq']
      · rw [hq']
        rfl
    have hhead' : (Text.splitOn '/' (slashed q ++ u)).head? = front.head? := by
      rw [hcut, List.head?_append_of_ne_nil _ hfront]
    rw [start, start, isAbsolute_slashed_append hq, hhead, hhead']
  have hpieces : (Text.splitOn '/' q).filterMap part? = front.filterMap part? := by
    rcases hq' with hq' | hq'
    · rw [hq']
    · rw [hq', List.filterMap_append]
      exact List.append_nil _
  rw [parts, parts, hstart, hpieces, hcut, List.filterMap_append, List.append_assoc]

theorem part?_ne_current (piece : Text) : part? piece ≠ some .current := by
  unfold part?
  split
  · nofun
  · split
    · nofun
    · nofun

end Path

open SchemaScript.Path

theorem FileTree.names_slashed_append (q u : Text) : names (slashed q ++ u) = names q ++ names u := by
  obtain ⟨front, -, hcut, hq | hq⟩ := splitOn_slashed_append q u
  · rw [names, names, names, hcut, hq, List.filter_append]
  · rw [names, names, names, hcut, hq, List.filter_append, List.filter_append]
    simp

theorem FileTree.names_of_not_mem (h : '/' ∉ piece) :
    names piece = if piece = [] then [] else [piece] := by
  rw [names, splitOn_of_not_mem h]
  cases piece <;> rfl

namespace Glob

/-- A path in a search: the place itself, or a path that tells where it leads. -/
def Ready (q : Path) : Prop := q = ['.'] ∨ q ≠ [] ∧ q.isCurrent = false

/-- What a search puts in front of a name in the directory at a path. -/
def opening (q : Path) : Text := if q = ['.'] then [] else slashed q

theorem Ready.ne_nil (h : Ready q) : q ≠ [] := by
  rcases h with rfl | ⟨hne, -⟩
  · exact List.cons_ne_nil _ _
  · exact hne

theorem Ready.within_eq (h : Ready q) (hpiece : '/' ∉ piece) : within q piece = opening q ++ piece := by
  rcases h with rfl | ⟨hne, hcurrent⟩
  · rfl
  · have hdot : q ≠ ['.'] := by
      rintro rfl
      cases hcurrent
    rw [within, opening, if_neg hdot, if_neg (by simp [hcurrent]),
      join_eq hne (isAbsolute_eq_false hpiece)]

theorem parts_of_not_mem (hpiece : '/' ∉ piece) (hdot : piece ≠ ['.']) :
    parts piece = (part? piece).toList := by
  have habsolute := isAbsolute_eq_false hpiece
  rw [parts, start, splitOn_of_not_mem hpiece, habsolute]
  cases hpart : part? piece <;> simp [hdot, hpart]

/-- A path stays ready with every piece, but for the empty piece at the place itself. -/
theorem Ready.within (h : Ready q) (hpiece : '/' ∉ piece) (hne : q = ['.'] → piece ≠ []) :
    Ready (within q piece) := by
  rw [h.within_eq hpiece]
  rcases h with rfl | ⟨hq, hcurrent⟩
  · rw [opening, if_pos rfl, List.nil_append]
    by_cases hdot : piece = ['.']
    · exact .inl hdot
    · refine .inr ⟨hne rfl, ?_⟩
      rw [isCurrent, parts_of_not_mem hpiece hdot]
      have hpart := part?_ne_current piece
      cases hsome : part? piece with
      | none => rfl
      | some part =>
          rw [hsome] at hpart
          simpa using hpart
  · have hdot : q ≠ ['.'] := by
      rintro rfl
      cases hcurrent
    rw [opening, if_neg hdot]
    refine .inr ⟨fun hnil => hq ?_, ?_⟩
    · rw [List.append_eq_nil_iff] at hnil
      exact List.prefix_nil.1 (hnil.1 ▸ prefix_slashed q)
    · rw [isCurrent, parts_slashed_append hq, splitOn_of_not_mem hpiece]
      have hparts : q.parts ≠ [.current] := by simpa [isCurrent] using hcurrent
      have hpart := part?_ne_current piece
      cases hsome : part? piece with
      | none => simpa [hsome] using hparts
      | some part =>
          rw [hsome] at hpart
          rcases hq' : q.parts with _ | ⟨first, rest⟩
          · simpa [hsome] using hpart
          · simp [hsome]

theorem opening_within (h : Ready q) (hpiece : '/' ∉ piece) :
    (opening (within q piece)).Sublist (opening q ++ piece ++ ['/']) := by
  rw [h.within_eq hpiece, opening]
  split
  · exact List.nil_sublist _
  · exact slashed_sublist _

end Glob

end SchemaScript
