import TwigLayout.Text.Surrogate

/-!
# Quoted texts

A text as a message shows it: in quotes, on one line, and with every character visible.
-/

namespace TwigLayout.Text

/-- A character that shows as itself. -/
def isPrintable (c : Char) : Bool := Tables.holds Tables.printable c.toNat

/-- The hexadecimal digits of a number, filled up with zeros to a width. -/
def hexDigits (width n : Nat) : Text :=
  let digits := Nat.toDigits 16 n
  List.replicate (width - digits.length) '0' ++ digits

/-- The code point of a character after a backslash: two, four or eight digits after a letter that
tells how many. -/
def codeEscape (c : Char) : Text :=
  let n := codeOf c
  if n < 0x100 then '\\' :: 'x' :: hexDigits 2 n
  else if n < 0x10000 then '\\' :: 'u' :: hexDigits 4 n
  else '\\' :: 'U' :: hexDigits 8 n

/-- The letter that stands for a line end or a tab after a backslash. -/
def escapeLetter? : Char → Option Char
  | '\n' => some 'n'
  | '\r' => some 'r'
  | '\t' => some 't'
  | _ => none

/-- A character between the quotes `q`. -/
def quotedChar (q c : Char) : Text :=
  match escapeLetter? c with
  | some letter => ['\\', letter]
  | none =>
    if c = '\\' || c = q then ['\\', c] else if isPrintable c then [c] else codeEscape c

/-- The quotes for a text: double ones if it holds single ones only. -/
def quoteFor (s : Text) : Char := if s.contains '\'' && !s.contains '"' then '"' else '\''

/-- A text in quotes. -/
def quoted (s : Text) : Text := quoteFor s :: s.flatMap (quotedChar (quoteFor s)) ++ [quoteFor s]

/-- Bytes in quotes after a letter that tells them from a text. Of the characters with their numbers
only those of ASCII show as themselves. -/
def quotedBytes (bytes : List UInt8) : Text :=
  let s : Text := bytes.map fun b => Char.ofNat b.toNat
  let q := quoteFor s
  let shown := fun c => if c.toNat < 0x80 then quotedChar q c else codeEscape c
  'b' :: q :: s.flatMap shown ++ [q]

end TwigLayout.Text
