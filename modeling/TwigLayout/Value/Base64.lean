/-!
# Base 64

Bytes written as letters: four letters of six bits each stand for three bytes. Characters that are
no such letters are passed over. The last group may be short and is then filled up with marks, after
which nothing counts any more.
-/

namespace TwigLayout.Base64

/-- The six bits of a letter. -/
def bits? (c : Char) : Option Nat :=
  if c.isUpper then some (c.toNat - 'A'.toNat)
  else if c.isLower then some (c.toNat - 'a'.toNat + 26)
  else if c.isDigit then some (c.toNat - '0'.toNat + 52)
  else if c == '+' then some 62
  else if c == '/' then some 63
  else none

/-- What is known inside a group of four letters: how many of them have come, the bits of the last
one that no byte has taken, and the marks since then. -/
structure Group where
  letters : Nat
  left : Nat
  marks : Nat

def Group.start : Group := ⟨0, 0, 0⟩

/-- The next letter of a group, with the byte that is full by then. -/
def Group.add (g : Group) (bits : Nat) : Group × Option UInt8 :=
  match g.letters with
  | 0 => (⟨1, bits, 0⟩, none)
  | 1 => (⟨2, bits % 16, 0⟩, some (g.left * 4 + bits / 16).toUInt8)
  | 2 => (⟨3, bits % 4, 0⟩, some (g.left * 16 + bits / 4).toUInt8)
  | _ => (.start, some (g.left * 64 + bits).toUInt8)

/-- The bytes from inside a group on. A text that ends there has too few letters. -/
def decodeFrom : Group → List Char → Option (List UInt8)
  | g, [] => if g.letters = 0 then some [] else none
  | g, c :: s =>
    if c == '=' then
      if g.letters < 2 then decodeFrom g s
      else if 4 ≤ g.letters + g.marks + 1 then some []
      else decodeFrom { g with marks := g.marks + 1 } s
    else
      match bits? c with
      | none => decodeFrom g s
      | some bits =>
        let (g, byte) := g.add bits
        (decodeFrom g s).map (byte.toList ++ ·)

/-- The bytes of a text of ASCII characters. -/
def decode (s : List Char) : Option (List UInt8) :=
  if s.all (·.toNat < 0x80) then decodeFrom .start s else none

end TwigLayout.Base64
