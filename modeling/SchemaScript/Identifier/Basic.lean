/- Identifiers in running text: bare ones, and quoted ones with their quotes doubled inside. -/
import SchemaScript.Text.Basic

namespace SchemaScript.Identifier

def quoteMark : Char := '\x60'

/-- Characters of a bare identifier: ASCII letters and digits, the dollar sign, the underscore,
and everything from U+0080 to U+FFFF. -/
def isBare (c : Char) : Bool :=
  ('0' ≤ c && c ≤ '9') || ('a' ≤ c && c ≤ 'z') || ('A' ≤ c && c ≤ 'Z') || c == '$'
    || c == '_' || (0x80 ≤ c.toNat && c.toNat ≤ 0xFFFF)

/-- Characters that stand for themselves in a quoted identifier. -/
def isQuotable (c : Char) : Bool :=
  1 ≤ c.toNat && c.toNat ≤ 0xFFFF && c != quoteMark

/-- The longest bare identifier at the head of a text, and what follows it. -/
def bare? (t : Text) : Option (Text × Text) :=
  match t.takeWhile isBare with
  | [] => none
  | c :: cs => some (c :: cs, t.dropWhile isBare)

/-- The rest of a quoted identifier and what follows its closing quote. Two quotes side by side
belong to the identifier if a closing quote can still be found behind them; otherwise the first
of them closes it. -/
def closeQuoted? : Text → Option (Text × Text)
  | [] => none
  | '\x60' :: '\x60' :: rest =>
      match closeQuoted? rest with
      | some (inner, behind) => some ('\x60' :: '\x60' :: inner, behind)
      | none => some ([], '\x60' :: rest)
  | '\x60' :: rest => some ([], rest)
  | c :: rest =>
      if isQuotable c then (closeQuoted? rest).map fun (inner, behind) => (c :: inner, behind)
      else none

/-- The quoted identifier at the head of a text, without its quotes, and what follows it.
There is at least one character between the quotes. -/
def quoted? : Text → Option (Text × Text)
  | '\x60' :: rest => (closeQuoted? rest).filter fun (inner, _) => !inner.isEmpty
  | _ => none

/-- The identifier at the head of a text, quoted or bare, and what follows it. -/
def read? (t : Text) : Option (Text × Text) :=
  (quoted? t).orElse fun _ => bare? t

theorem length_lt_of_bare? {t i rest : Text} (h : bare? t = some (i, rest)) :
    rest.length < t.length := by
  unfold bare? at h
  split at h
  · cases h
  · next c cs hc =>
    cases h
    have := congrArg List.length (List.takeWhile_append_dropWhile (p := isBare) (l := t))
    simp [hc] at this
    omega

theorem length_lt_of_closeQuoted? {t inner behind : Text}
    (h : closeQuoted? t = some (inner, behind)) : behind.length < t.length := by
  fun_induction closeQuoted? t generalizing inner behind with
  | case1 => cases h
  | case2 rest i b hr ih =>
      cases h
      have := ih hr
      simp only [List.length_cons]
      omega
  | case3 rest hr ih => cases h; simp
  | case4 rest => cases h; simp
  | case5 c rest _ _ _ ih =>
      obtain ⟨⟨i, b⟩, hr, he⟩ := Option.map_eq_some_iff.1 h
      cases he
      have := ih hr
      simp only [List.length_cons]
      omega
  | case6 => cases h

theorem length_lt_of_quoted? {t inner behind : Text} (h : quoted? t = some (inner, behind)) :
    behind.length < t.length := by
  unfold quoted? at h
  split at h
  · next rest =>
    have := length_lt_of_closeQuoted? (Option.filter_eq_some_iff.1 h).1
    simp only [List.length_cons]
    omega
  · cases h

theorem length_lt_of_read? {t inner behind : Text} (h : read? t = some (inner, behind)) :
    behind.length < t.length := by
  unfold read? at h
  cases hq : quoted? t with
  | none => rw [hq] at h; exact length_lt_of_bare? h
  | some r => rw [hq] at h; cases h; exact length_lt_of_quoted? hq

/-- All identifiers of a text, from the left. A character that starts none is passed over. -/
def all (t : Text) : List Text :=
  match _h : read? t with
  | some (inner, behind) => inner :: all behind
  | none =>
      match t with
      | [] => []
      | _ :: rest => all rest
termination_by t.length
decreasing_by
  · exact length_lt_of_read? _h
  · simp

end SchemaScript.Identifier
