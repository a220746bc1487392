/- Texts as bytes: the encoding UTF-8, and its strict reading. -/
import SchemaScript.Text.Basic

namespace SchemaScript

abbrev Bytes := List UInt8

namespace Utf8

def trailing (bits : Nat) : UInt8 := UInt8.ofNat (0x80 + bits % 0x40)

/-- The one to four bytes of a character. -/
def encodeChar (c : Char) : Bytes :=
  let n := c.toNat
  if n < 0x80 then [UInt8.ofNat n]
  else if n < 0x800 then [UInt8.ofNat (0xC0 + n / 0x40), trailing n]
  else if n < 0x10000 then [UInt8.ofNat (0xE0 + n / 0x1000), trailing (n / 0x40), trailing n]
  else [UInt8.ofNat (0xF0 + n / 0x40000), trailing (n / 0x1000), trailing (n / 0x40), trailing n]

def encode (t : Text) : Bytes := t.flatMap encodeChar

def size : Text → Nat
  | [] => 0
  | c :: rest => c.utf8Size + size rest

/-- The six bits of a byte behind the first; nothing for any other byte. -/
def bits? (b : UInt8) : Option Nat :=
  let n := b.toNat
  if 0x80 ≤ n ∧ n < 0xC0 then some (n - 0x80) else none

/-- The character of a code, if it needs as many bytes as were used and is no surrogate. -/
def char? (least code : Nat) : Option Char :=
  if least ≤ code ∧ code ≤ 0x10FFFF ∧ ¬ (0xD800 ≤ code ∧ code ≤ 0xDFFF) then
    some (Char.ofNat code)
  else none

/-- Reads bytes as text. There is no text for bytes that no text is written as. -/
def decode? : Bytes → Option Text
  | [] => some []
  | b :: rest =>
      let n := b.toNat
      if n < 0x80 then (decode? rest).map (Char.ofNat n :: ·)
      else if n < 0xC0 then none
      else if n < 0xE0 then
        match rest with
        | x :: rest => do
            let c ← char? 0x80 ((n - 0xC0) * 0x40 + (← bits? x))
            (decode? rest).map (c :: ·)
        | [] => none
      else if n < 0xF0 then
        match rest with
        | x :: y :: rest => do
            let c ← char? 0x800 ((n - 0xE0) * 0x1000 + (← bits? x) * 0x40 + (← bits? y))
            (decode? rest).map (c :: ·)
        | _ => none
      else if n < 0xF8 then
        match rest with
        | x :: y :: z :: rest => do
            let c ← char? 0x10000
              ((n - 0xF0) * 0x40000 + (← bits? x) * 0x1000 + (← bits? y) * 0x40 + (← bits? z))
            (decode? rest).map (c :: ·)
        | _ => none
      else none

end Utf8
end SchemaScript
