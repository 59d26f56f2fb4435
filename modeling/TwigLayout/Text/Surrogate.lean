import TwigLayout.Text.Basic

/-!
# Surrogates

A character beyond the first 65536 may be written in two halves, its surrogates. A half on its own
is no character. It is kept as a character that no text needs, so that it stays apart from all
others and can be written as what it was.
-/

namespace TwigLayout.Text

def isHighSurrogate (n : Nat) : Bool := 0xD800 ≤ n && n < 0xDC00

def isLowSurrogate (n : Nat) : Bool := 0xDC00 ≤ n && n < 0xE000

def isSurrogate (n : Nat) : Bool := 0xD800 ≤ n && n < 0xE000

/-- How far the characters kept for surrogates are above them, in the last private plane. -/
def surrogateShift : Nat := 0x100000

/-- The character of a code point, or the one that a surrogate is kept as. -/
def charOf (n : Nat) : Char := Char.ofNat (if isSurrogate n then n + surrogateShift else n)

/-- Whether a character is kept for a surrogate. -/
def isKept (c : Char) : Bool := isSurrogate (c.toNat - surrogateShift)

/-- The code point of a character, or the surrogate that it is kept for. -/
def codeOf (c : Char) : Nat := if isKept c then c.toNat - surrogateShift else c.toNat

theorem toNat_charOf {n : Nat} (h : isSurrogate n = true) :
    (charOf n).toNat = n + surrogateShift := by
  have hn : 0xD800 ≤ n ∧ n < 0xE000 := by simpa [isSurrogate] using h
  have hv : (n + surrogateShift).isValidChar := by
    simp only [Nat.isValidChar, surrogateShift]
    omega
  rw [charOf, if_pos h, Char.ofNat, dif_pos hv]
  rfl

/-- A surrogate can be told from the character that it is kept as. -/
theorem codeOf_charOf {n : Nat} (h : isSurrogate n = true) : codeOf (charOf n) = n := by
  simp [codeOf, isKept, toNat_charOf h, h]

end TwigLayout.Text
