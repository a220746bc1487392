/- Characters below the space: whatever texts a value holds, its JSON in one line has none of them. -/
import SchemaScript.Json.Writer
import SchemaScript.Proofs.Text.Digits
import Mathlib.Tactic.SplitIfs

namespace SchemaScript

namespace Text

/-- No character is below the space, as zero, tab and newline are. -/
def Plain (t : Text) : Prop := ∀ c ∈ t, 0x20 ≤ c.toNat

instance (t : Text) : Decidable t.Plain := List.decidableBAll _ t

theorem plain_nil : Plain [] := List.forall_mem_nil _

theorem Plain.cons {c : Char} {t : Text} (hc : 0x20 ≤ c.toNat) (ht : t.Plain) : Plain (c :: t) :=
  List.forall_mem_cons.2 ⟨hc, ht⟩

theorem Plain.append {t u : Text} (ht : t.Plain) (hu : u.Plain) : Plain (t ++ u) :=
  List.forall_mem_append.2 ⟨ht, hu⟩

theorem Plain.zero_not_mem {t : Text} (h : t.Plain) : '\x00' ∉ t :=
  fun hzero => absurd (h _ hzero) (by decide)

theorem plain_ofNat (n : Nat) : Plain (ofNat n) := by
  intro c hc
  have hdigit := isDigit_bounds (isDigit_of_mem_ofNat hc)
  omega

theorem plain_ofInt (i : Int) : Plain (ofInt i) := by
  cases i with
  | ofNat n => exact plain_ofNat n
  | negSucc n => exact .cons (by decide) (plain_ofNat _)

end Text

namespace Json

open Text

theorem plain_hexDigit : ∀ n < 0x10, 0x20 ≤ (hexDigit n).toNat := by
  decide

theorem plain_escape (c : Char) : Plain (escape c) := by
  unfold escape
  split_ifs with hquote hslash hback hfeed hline hreturn htab hcontrol
  iterate 7 · decide
  · have hhigh := plain_hexDigit (c.toNat / 16) (by omega)
    have hlow := plain_hexDigit (c.toNat % 16) (by omega)
    have hstart : Plain ['\\', 'u', '0', '0'] := by decide
    exact hstart.append (.cons hhigh (.cons hlow plain_nil))
  · exact .cons (Nat.le_of_not_lt hcontrol) plain_nil

/-- Only quotes, backslashes and what is below the space are escaped. -/
theorem escape_eq_singleton {c : Char} (hplain : 0x20 ≤ c.toNat) (hquote : c ≠ '"')
    (hslash : c ≠ '\\') : escape c = [c] := by
  have hne {d : Char} (hd : d.toNat < 0x20) : c ≠ d := by
    rintro rfl
    omega
  rw [escape, if_neg hquote, if_neg hslash, if_neg (hne (by decide)), if_neg (hne (by decide)),
    if_neg (hne (by decide)), if_neg (hne (by decide)), if_neg (hne (by decide)),
    if_neg (Nat.not_lt.2 hplain)]

theorem escape_padded (width n : Nat) : ∀ c ∈ Text.ofNatPadded width n, escape c = [c] := by
  intro c hc
  rcases List.mem_append.1 hc with hc | hc
  · rw [List.eq_of_mem_replicate hc]
    rfl
  · have hdigit := Text.isDigit_bounds (Text.isDigit_of_mem_ofNat hc)
    refine escape_eq_singleton (by omega) ?_ ?_
    · rintro rfl
      exact absurd hdigit (by decide)
    · rintro rfl
      exact absurd hdigit (by decide)

theorem plain_quoted (t : Text) : Plain (quoted t) := by
  have hescaped : Plain (t.flatMap escape) := by
    intro c hc
    obtain ⟨d, _, hd⟩ := List.mem_flatMap.1 hc
    exact plain_escape d c hd
  exact .append (.cons (by decide) hescaped) (.cons (by decide) plain_nil)

theorem plain_numberText (n : JsonNumber) : Plain (numberText n) := by
  refine .append (.append ?_ (plain_ofNat _)) ?_
  · split_ifs
    · exact .cons (by decide) plain_nil
    · exact plain_nil
  · split_ifs
    · exact plain_nil
    · exact .cons (by decide) (plain_ofInt _)

mutual

theorem plain_compact : (v : Json) → Plain v.compact
  | .null => by decide
  | .bool true => by decide
  | .bool false => by decide
  | .number n => plain_numberText n
  | .string t => plain_quoted t
  | .array items =>
      .append (.cons (by decide) (plain_compactItems items)) (.cons (by decide) plain_nil)
  | .object members =>
      .append (.cons (by decide) (plain_compactMembers members)) (.cons (by decide) plain_nil)

theorem plain_compactItems : (items : List Json) → Plain (compactItems items)
  | [] => plain_nil
  | [item] => plain_compact item
  | item :: next :: rest =>
      .append (plain_compact item) (.cons (by decide) (plain_compactItems (next :: rest)))

theorem plain_compactMembers : (members : List (Text × Json)) → Plain (compactMembers members)
  | [] => plain_nil
  | [(name, value)] => .append (plain_quoted name) (.cons (by decide) (plain_compact value))
  | (name, value) :: next :: rest =>
      .append (.append (plain_quoted name) (.cons (by decide) (plain_compact value)))
        (.cons (by decide) (plain_compactMembers (next :: rest)))

end

end Json
end SchemaScript
