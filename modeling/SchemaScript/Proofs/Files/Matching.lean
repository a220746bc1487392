/- Patterns of plain texts, and of an ending behind anything: how they are read, and which names they
   match. -/
import SchemaScript.Files.Glob
import Mathlib.Data.List.Infix

namespace SchemaScript

/-- A text in which no character has a meaning of its own in a pattern. -/
def Plain (u : Text) : Prop := Glob.isPattern u = false

theorem plain_iff {u : Text} : Plain u ↔ ∀ c ∈ u, c ≠ '*' ∧ c ≠ '?' ∧ c ≠ '[' := by
  simp [Plain, Glob.isPattern, and_assoc]

theorem Plain.mono {s u : Text} (h : Plain u) (hsub : s ⊆ u) : Plain s :=
  plain_iff.2 fun c hc => plain_iff.1 h c (hsub hc)

namespace Pattern

variable {u rest name : Text} {fresh : Bool} {position : Nat} {c : Char}

theorem readFrom_literal (hc : c ≠ '*' ∧ c ≠ '?' ∧ c ≠ '[') (rest : Text) :
    readFrom fresh position (c :: rest) =
      (readFrom (c == '/') (position + 1) rest).map (.literal c :: ·) := by
  obtain ⟨hstar, hone, hopen⟩ := hc
  rw [readFrom] <;> simp_all

theorem readFrom_plain (h : Plain u) : readFrom fresh position u = .ok (u.map .literal) := by
  induction u generalizing fresh position with
  | nil => rfl
  | cons c u ih =>
      rw [plain_iff, List.forall_mem_cons] at h
      rw [readFrom_literal h.1, ih (plain_iff.2 h.2)]
      rfl

/-- Behind a plain text and a slash a part of a path starts. -/
theorem readFrom_plain_append (h : Plain u) (rest : Text) :
    readFrom fresh position (u ++ '/' :: rest) =
      (readFrom true (position + u.length + 1) rest).map ((u ++ ['/']).map .literal ++ ·) := by
  induction u generalizing fresh position with
  | nil =>
      rw [List.nil_append, readFrom_literal (by decide)]
      rfl
  | cons c u ih =>
      rw [plain_iff, List.forall_mem_cons] at h
      rw [List.cons_append, readFrom_literal h.1, ih (plain_iff.2 h.2), List.length_cons,
        Nat.add_right_comm position 1, Nat.add_assoc position]
      cases readFrom true (position + (u.length + 1) + 1) rest with
      | error e => rfl
      | ok tokens => rfl

/-- The tokens of an ending behind any characters. -/
def endingTokens (ending : Text) : List Token := .many :: ('.' :: ending).map .literal

theorem readFrom_ending (h : Plain ending) :
    readFrom fresh position ("*.".toList ++ ending) = .ok (endingTokens ending) := by
  have hdot : Plain ('.' :: ending) := plain_iff.2 (List.forall_mem_cons.2 ⟨by decide, plain_iff.1 h⟩)
  have hread : readFrom fresh position ("*.".toList ++ ending) =
      (readFrom false (position + 1) ('.' :: ending)).map (.many :: ·) := rfl
  rw [hread, readFrom_plain hdot]
  rfl

theorem matchesName_literals {u name : Text} :
    matchesName (u.map .literal) name = true ↔ name = u := by
  induction u generalizing name with
  | nil => exact List.isEmpty_iff
  | cons c u ih =>
      cases name with
      | nil =>
          constructor
          · intro h
            cases h
          · intro h
            cases h
      | cons d name =>
          have hcons : matchesName ((c :: u).map .literal) (d :: name) =
              ((c == d) && matchesName (u.map .literal) name) := rfl
          rw [hcons, Bool.and_eq_true, ih, beq_iff_eq, List.cons.injEq, eq_comm (a := c)]

theorem anyEnd_eq_true {holds : Text → Bool} {u : Text} :
    anyEnd holds u = true ↔ ∃ s, s <:+ u ∧ holds s = true := by
  induction u with
  | nil => simp [anyEnd]
  | cons c u ih =>
      simp only [anyEnd, Bool.or_eq_true, ih, List.suffix_cons_iff]
      constructor
      · rintro (h | ⟨s, hs, h⟩)
        · exact ⟨_, .inl rfl, h⟩
        · exact ⟨s, .inr hs, h⟩
      · rintro ⟨s, rfl | hs, h⟩
        · exact .inl h
        · exact .inr ⟨s, hs, h⟩

theorem matchesName_ending {ending : Text} :
    matchesName (endingTokens ending) name = true ↔ '.' :: ending <:+ name := by
  rw [endingTokens, matchesName, anyEnd_eq_true]
  simp only [matchesName_literals]
  constructor
  · rintro ⟨_, hsuffix, rfl⟩
    exact hsuffix
  · exact fun h => ⟨_, h, rfl⟩

end Pattern

namespace NamePattern

theorem read_plain {u : Text} (h : Plain u) : read u = .ok (.exact u) := by
  have hname : (u.map Pattern.Token.literal).mapM literal? = some u := by
    induction u with
    | nil => rfl
    | cons c u ih =>
        rw [plain_iff, List.forall_mem_cons] at h
        rw [List.map_cons, List.mapM_cons, ih (plain_iff.2 h.2)]
        rfl
  have hdepth : (u.map Pattern.Token.literal == [.anyDepth]) = false := by
    rcases u with _ | ⟨c, u⟩
    · rfl
    · refine beq_eq_false_iff_ne.2 fun h => ?_
      cases (List.cons.inj h).1
  have hread : Pattern.read u = .ok (u.map .literal) := Pattern.readFrom_plain h
  rw [read, hread]
  simp [Except.map, ofTokens, hdepth, hname]

theorem read_ending {ending : Text} (h : Plain ending) :
    read ("*.".toList ++ ending) = .ok (.wild (Pattern.endingTokens ending)) := by
  have hread : Pattern.read ("*.".toList ++ ending) = .ok (Pattern.endingTokens ending) :=
    Pattern.readFrom_ending h
  rw [read, hread]
  rfl

end NamePattern

end SchemaScript
