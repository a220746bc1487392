/- Texts as lists of characters: joining, cutting and searching. -/
namespace SchemaScript

/-- A text is the list of its characters, so each operation on it is a recursion on a list. -/
abbrev Text := List Char

instance : Coe String Text := ⟨String.toList⟩

namespace Text

/-- Puts the separator between neighbours, and nowhere else. -/
def join (sep : Text) : List Text → Text
  | [] => []
  | [t] => t
  | t :: u :: rest => t ++ sep ++ join sep (u :: rest)

/-- Cuts at every occurrence of a character; `n` occurrences leave `n + 1` pieces. -/
def splitOn (sep : Char) : Text → List Text
  | [] => [[]]
  | c :: rest =>
      match splitOn sep rest with
      | [] => [[c]]
      | piece :: pieces =>
          if c = sep then [] :: piece :: pieces else (c :: piece) :: pieces

/-- Cuts at the first character of a class, which belongs to neither side. -/
def cutAt? (p : Char → Bool) : Text → Option (Text × Text)
  | [] => none
  | c :: rest =>
      if p c then some ([], rest) else (cutAt? p rest).map fun (a, b) => (c :: a, b)

/-- Cuts before the first occurrence of a word, which stays at the head of the second part. -/
def cutBefore? (word : Text) : Text → Option (Text × Text)
  | [] => if word.isEmpty then some ([], []) else none
  | c :: rest =>
      if word.isPrefixOf (c :: rest) then some ([], c :: rest)
      else (cutBefore? word rest).map fun (a, b) => (c :: a, b)

/-- Whether a word occurs anywhere in a text. -/
def occursIn (word : Text) (t : Text) : Bool :=
  (cutBefore? word t).isSome

/-- What follows a given beginning, if the text begins with it. -/
def after? : (start : Text) → Text → Option Text
  | [], t => some t
  | _ :: _, [] => none
  | s :: start, c :: t => if s = c then after? start t else none

def dropRightWhile (p : Char → Bool) (t : Text) : Text :=
  (t.reverse.dropWhile p).reverse

/-- The carriage return of a line that ended in a carriage return and a newline is not its own. -/
def dropReturn (line : Text) : Text :=
  if line.getLast? = some '\r' then line.dropLast else line

/-- Every piece but the last was ended by a newline; an empty last piece is no line. -/
def closeLines : List Text → List Text
  | [] => []
  | [last] => if last.isEmpty then [] else [last]
  | line :: next :: rest => dropReturn line :: closeLines (next :: rest)

/-- The lines of a text. A newline, or a carriage return and a newline, ends a line;
no other character does. -/
def lines (t : Text) : List Text :=
  closeLines (splitOn '\n' t)

def spaces (width : Nat) : Text := List.replicate width ' '

def ofNat (n : Nat) : Text := Nat.toDigits 10 n

/-- The decimal digits of a natural number, with zeros in front up to a width. -/
def ofNatPadded (width n : Nat) : Text :=
  let digits := ofNat n
  List.replicate (width - digits.length) '0' ++ digits

/-- An integer in decimal, with a minus sign only where it is below zero. -/
def ofInt : Int → Text
  | .ofNat n => ofNat n
  | .negSucc n => '-' :: ofNat (n + 1)

end Text
end SchemaScript
