/- Texts as bytes: what is encoded is decoded, and only the character of code zero gives a zero. -/
import SchemaScript.Text.Utf8
import Mathlib.Tactic.SplitIfs

namespace SchemaScript.Utf8

theorem toNat_byte {n : Nat} (h : n < 256) : (UInt8.ofNat n).toNat = n := by
  rw [UInt8.toNat_ofNat']
  exact Nat.mod_eq_of_lt h

theorem toNat_trailing (n : Nat) : (trailing n).toNat = 0x80 + n % 0x40 :=
  toNat_byte (by omega)

theorem bits?_trailing (n : Nat) : bits? (trailing n) = some (n % 0x40) := by
  have hrange : 0x80 ≤ 0x80 + n % 0x40 ∧ 0x80 + n % 0x40 < 0xC0 := by omega
  simp only [bits?, toNat_trailing, if_pos hrange, Nat.add_sub_cancel_left]

theorem toNat_lt (c : Char) : c.toNat < 0x110000 := by
  have hvalid : c.toNat < 0xD800 ∨ 0xDFFF < c.toNat ∧ c.toNat < 0x110000 := c.valid
  omega

theorem char?_toNat {c : Char} {least : Nat} (h : least ≤ c.toNat) :
    char? least c.toNat = some c := by
  have hvalid : c.toNat < 0xD800 ∨ 0xDFFF < c.toNat ∧ c.toNat < 0x110000 := c.valid
  have hcode : least ≤ c.toNat ∧ c.toNat ≤ 0x10FFFF ∧ ¬ (0xD800 ≤ c.toNat ∧ c.toNat ≤ 0xDFFF) := by
    omega
  rw [char?, if_pos hcode, Char.ofNat_toNat]

/-- One case for each number of bytes: the bits of the bytes make up the code again. -/
theorem decode?_encodeChar_append (c : Char) (rest : Bytes) :
    decode? (encodeChar c ++ rest) = (decode? rest).map (c :: ·) := by
  have hlast := toNat_lt c
  unfold encodeChar
  simp only []
  split_ifs with hone htwo hthree
  · have hbyte : (UInt8.ofNat c.toNat).toNat = c.toNat := toNat_byte (by omega)
    rw [List.singleton_append, decode?.eq_def]
    simp only [hbyte, if_pos hone, Char.ofNat_toNat]
  · have hbits : (0xC0 + c.toNat / 0x40 - 0xC0) * 0x40 + c.toNat % 0x40 = c.toNat := by omega
    rw [List.cons_append, List.singleton_append, decode?, toNat_byte (by omega),
      if_neg (by omega), if_neg (by omega), if_pos (by omega)]
    simp only [Option.bind_eq_bind]
    rw [bits?_trailing, Option.bind_some,
      hbits, char?_toNat (Nat.le_of_not_lt hone), Option.bind_some]
  · have hbits : (0xE0 + c.toNat / 0x1000 - 0xE0) * 0x1000 + c.toNat / 0x40 % 0x40 * 0x40
        + c.toNat % 0x40 = c.toNat := by omega
    rw [List.cons_append, List.cons_append, List.singleton_append, decode?, toNat_byte (by omega),
      if_neg (by omega), if_neg (by omega), if_neg (by omega), if_pos (by omega)]
    simp only [Option.bind_eq_bind]
    rw [bits?_trailing, Option.bind_some, bits?_trailing, Option.bind_some,
      hbits, char?_toNat (Nat.le_of_not_lt htwo), Option.bind_some]
  · have hbits : (0xF0 + c.toNat / 0x40000 - 0xF0) * 0x40000 + c.toNat / 0x1000 % 0x40 * 0x1000
        + c.toNat / 0x40 % 0x40 * 0x40 + c.toNat % 0x40 = c.toNat := by omega
    rw [List.cons_append, List.cons_append, List.cons_append, List.singleton_append, decode?,
      toNat_byte (by omega), if_neg (by omega), if_neg (by omega), if_neg (by omega),
      if_neg (by omega), if_pos (by omega)]
    simp only [Option.bind_eq_bind]
    rw [bits?_trailing, Option.bind_some, bits?_trailing, Option.bind_some, bits?_trailing,
      Option.bind_some, hbits, char?_toNat (Nat.le_of_not_lt hthree), Option.bind_some]

theorem decode?_encode (t : Text) : decode? (encode t) = some t := by
  induction t with
  | nil => rfl
  | cons c t ih =>
      rw [encode, List.flatMap_cons, decode?_encodeChar_append, ← encode, ih, Option.map_some]

theorem zero_not_mem_encodeChar {c : Char} (h : c ≠ '\x00') : 0 ∉ encodeChar c := by
  have hcode : c.toNat ≠ 0 := fun hzero => h (Char.toNat_inj.1 hzero)
  have hlast := toNat_lt c
  have hbyte {n : Nat} (hpos : 0 < n) (hless : n < 256) : (0 : UInt8) ≠ UInt8.ofNat n := by
    intro hzero
    have hn : (0 : UInt8).toNat = n := hzero ▸ toNat_byte hless
    exact absurd hn (Nat.ne_of_lt hpos)
  have htrailing (n : Nat) : 0 ≠ trailing n := hbyte (by omega) (by omega)
  unfold encodeChar
  simp only []
  split_ifs with hone htwo hthree
  all_goals simp only [List.mem_cons, List.not_mem_nil, or_false, not_or]
  · exact hbyte (by omega) (by omega)
  · exact ⟨hbyte (by omega) (by omega), htrailing _⟩
  · exact ⟨hbyte (by omega) (by omega), htrailing _, htrailing _⟩
  · exact ⟨hbyte (by omega) (by omega), htrailing _, htrailing _, htrailing _⟩

theorem zero_not_mem_encode {t : Text} (h : '\x00' ∉ t) : 0 ∉ encode t := by
  intro hzero
  obtain ⟨c, hc, hbyte⟩ := List.mem_flatMap.1 hzero
  exact zero_not_mem_encodeChar (fun he => h (he ▸ hc)) hbyte

theorem encode_ne_nil {t : Text} (h : t ≠ []) : encode t ≠ [] := by
  intro hnil
  have hback := decode?_encode t
  rw [hnil] at hback
  exact h (Option.some.inj hback).symm

end SchemaScript.Utf8
