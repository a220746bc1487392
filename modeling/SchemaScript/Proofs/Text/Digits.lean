/- Decimal digits: different numbers have different ones, nothing else stands among them, and they are read
   back as the number. -/
import Mathlib.Algebra.Group.Nat.Defs
import SchemaScript.Text.Ascii

namespace SchemaScript.Text

theorem ofNat_inj {m n : Nat} (h : ofNat m = ofNat n) : m = n := by
  have hread := congrArg (fun t => Nat.ofDigitChars 10 t 0) h
  simpa only [ofNat, Nat.ofDigitChars_ten_toDigits] using hread

theorem isDigit_of_mem_ofNat {n : Nat} {c : Char} (h : c ∈ ofNat n) : c.isDigit = true :=
  Nat.isDigit_of_mem_toDigits (by decide) (by decide) h

theorem isDigit_bounds {c : Char} (h : c.isDigit = true) : 48 ≤ c.toNat ∧ c.toNat ≤ 57 := by
  simpa [Char.isDigit, UInt32.le_iff_toNat_le] using h

theorem ofInt_inj {i j : Int} (h : ofInt i = ofInt j) : i = j := by
  have hsign {m n : Nat} : ofNat m ≠ '-' :: ofNat n := by
    intro he
    have hdigit : ('-').isDigit = true := isDigit_of_mem_ofNat (he ▸ List.mem_cons_self)
    cases hdigit
  cases i with
  | ofNat m =>
      cases j with
      | ofNat n => rw [ofNat_inj h]
      | negSucc n => exact absurd h hsign
  | negSucc m =>
      cases j with
      | ofNat n => exact absurd h.symm hsign
      | negSucc n =>
          have hsucc := ofNat_inj (List.cons.inj h).2
          rw [Nat.succ.inj hsucc]

theorem letter_not_mem_ofInt (i : Int) : 'e' ∉ ofInt i := by
  cases i with
  | ofNat n =>
      intro h
      cases isDigit_of_mem_ofNat h
  | negSucc n =>
      intro h
      rcases List.mem_cons.1 h with he | h
      · exact absurd he (by decide)
      · cases isDigit_of_mem_ofNat h

theorem isDigit_of_mem_ofNatPadded {width n : Nat} {c : Char} (h : c ∈ ofNatPadded width n) :
    c.isDigit = true := by
  rcases List.mem_append.1 h with h | h
  · rw [List.eq_of_mem_replicate h]
    rfl
  · exact isDigit_of_mem_ofNat h

theorem newline_not_mem_ofNatPadded (width n : Nat) : '\n' ∉ ofNatPadded width n := by
  intro h
  exact absurd (isDigit_of_mem_ofNatPadded h) (by decide)

theorem length_ofNatPadded {width n : Nat} (hpos : 0 < width) (h : n < 10 ^ width) :
    (ofNatPadded width n).length = width := by
  have hdigits : (ofNat n).length ≤ width := (Nat.length_toDigits_le_iff (by decide) hpos).2 h
  simp only [ofNatPadded, List.length_append, List.length_replicate]
  omega

theorem natFrom?_digits {t : Text} (h : ∀ c ∈ t, c.isDigit = true) (value : Nat) :
    natFrom? 10 value t = some (Nat.ofDigitChars 10 t value) := by
  induction t generalizing value with
  | nil => rfl
  | cons c t ih =>
      obtain ⟨hc, ht⟩ := List.forall_mem_cons.1 h
      obtain ⟨hlow, hhigh⟩ := isDigit_bounds hc
      have hvalue : digitValue? c = some (c.toNat - '0'.toNat) := if_pos ⟨hlow, hhigh⟩
      have hsmall : c.toNat - '0'.toNat < 10 := by
        have hzero : '0'.toNat = 48 := rfl
        omega
      simp only [natFrom?, hvalue, hsmall, if_true]
      rw [ih ht, Nat.ofDigitChars_cons, Nat.mul_comm]

theorem nat?_ofNatPadded (width n : Nat) : nat? 10 (ofNatPadded width n) = some n := by
  have hne : ¬ (ofNatPadded width n).isEmpty = true := by
    have hlength := Nat.length_toDigits_pos (b := 10) (n := n)
    intro hempty
    have hnil := congrArg List.length (List.isEmpty_iff.1 hempty)
    simp only [ofNatPadded, ofNat, List.length_append, List.length_nil] at hnil
    omega
  rw [nat?, if_neg hne, natFrom?_digits fun c hc => isDigit_of_mem_ofNatPadded hc, ofNatPadded,
    Nat.ofDigitChars_append, Nat.ofDigitChars_replicate_zero, Nat.mul_zero, ofNat,
    Nat.ofDigitChars_ten_toDigits]

theorem lt_of_natFrom? {value n : Nat} {t : Text} (h : natFrom? 10 value t = some n) :
    n < (value + 1) * 10 ^ t.length := by
  induction t generalizing value with
  | nil =>
      cases h
      simp
  | cons c t ih =>
      unfold natFrom? at h
      split at h
      · next d _ =>
        split at h
        · next hd =>
          calc n < (value * 10 + d + 1) * 10 ^ t.length := ih h
            _ ≤ ((value + 1) * 10) * 10 ^ t.length := Nat.mul_le_mul_right _ (by omega)
            _ = (value + 1) * 10 ^ (c :: t).length := by
                rw [List.length_cons, Nat.pow_succ, Nat.mul_assoc, Nat.mul_comm 10]
        · cases h
      · cases h

theorem lt_of_nat? {n : Nat} {t : Text} (h : nat? 10 t = some n) : n < 10 ^ t.length := by
  unfold nat? at h
  split at h
  · cases h
  · simpa using lt_of_natFrom? h

end SchemaScript.Text
