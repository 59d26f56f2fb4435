import TwigLayout.Text.Tables

/-!
# Template text

A template is a list of characters, so that every length, offset and column counts characters.
This module has the character classes that template scanning depends on, trimming, and the search
for a literal. A search finds exactly the literals that occur (`occursIn_iff`), and `cut?` takes the
first of them (`cut?_eq_some`, `cut?_first`).
-/

namespace TwigLayout

/-- The text of a template, or a part of it. -/
abbrev Text := List Char

namespace Text

/-! ## Character classes -/

/-- White space: the tab to carriage return block, the information separators, and the spaces and
line separators of Unicode. -/
def isBlank (c : Char) : Bool :=
  let n := c.toNat
  (0x9 ≤ n && n ≤ 0xD) || (0x1C ≤ n && n ≤ 0x20) || n == 0x85 || n == 0xA0 || n == 0x1680 ||
    (0x2000 ≤ n && n ≤ 0x200A) || n == 0x2028 || n == 0x2029 || n == 0x202F || n == 0x205F ||
    n == 0x3000

/-- A character of a name: a letter, a digit or other numeric character, or an underscore. -/
def isWord (c : Char) : Bool := c == '_' || Tables.holds Tables.alphanumeric c.toNat

/-- A decimal digit of any script. -/
def isDecimal (c : Char) : Bool := Tables.holds Tables.decimalDigit c.toNat

/-- The value of a decimal digit of any script. The ten digits of a script follow one another. -/
def decimalValue? (c : Char) : Option Nat :=
  (Tables.offset? Tables.decimalDigit c.toNat).map (· % 10)

def isQuote (c : Char) : Bool := c == '\'' || c == '"'

/-! ## Trimming -/

def trimLeft (s : Text) : Text := s.dropWhile isBlank

def trimRight (s : Text) : Text := (s.reverse.dropWhile isBlank).reverse

/-- The text without the white space at its two ends. -/
def trim (s : Text) : Text := trimRight (trimLeft s)

/-- The stretches of the text between white space. -/
def words (s : Text) : List Text := (s.splitOnP isBlank).filter (!·.isEmpty)

/-- The text with white space removed at the ends and every other run of it made one space. -/
def collapse (s : Text) : Text := [' '].intercalate (words s)

/-! ## Literals -/

/-- What follows the literal `lit` in a text that starts with it. -/
def after? : (lit s : Text) → Option Text
  | [], s => some s
  | _ :: _, [] => none
  | c :: lit, d :: s => if c = d then after? lit s else none

/-- The text before and after the first occurrence of `lit`. -/
def cut? (lit : Text) : Text → Option (Text × Text)
  | [] => (after? lit []).map fun rest => ([], rest)
  | c :: s =>
    match after? lit (c :: s) with
    | some rest => some ([], rest)
    | none => (cut? lit s).map fun parts => (c :: parts.1, parts.2)

/-- The text before and after the last occurrence of `lit`, which is the first one seen from the end
of the text. -/
def lastCut? (lit s : Text) : Option (Text × Text) :=
  (cut? lit.reverse s.reverse).map fun parts => (parts.2.reverse, parts.1.reverse)

/-- Whether `lit` stands somewhere in `s`. The empty literal stands everywhere. -/
def occursIn (lit : Text) : Text → Bool
  | [] => lit.isEmpty
  | c :: s => (after? lit (c :: s)).isSome || occursIn lit s

def startsWith (lit s : Text) : Bool := (after? lit s).isSome

def endsWith (lit s : Text) : Bool := lit.isSuffixOf s

theorem after?_eq_some_iff {lit s rest : Text} : after? lit s = some rest ↔ s = lit ++ rest := by
  fun_induction after? lit s with
  | case1 s => simp [eq_comm]
  | case2 => simp
  | case3 lit c s ih => simp [ih]
  | case4 c lit d s h => simp [Ne.symm h]

theorem startsWith_iff {lit s : Text} : startsWith lit s = true ↔ lit <+: s := by
  simp only [startsWith, Option.isSome_iff_exists, after?_eq_some_iff]
  exact ⟨fun ⟨rest, h⟩ => ⟨rest, h.symm⟩, fun ⟨rest, h⟩ => ⟨rest, h.symm⟩⟩

theorem after?_eq_none_iff {lit s : Text} : after? lit s = none ↔ ¬ lit <+: s := by
  rw [← startsWith_iff, startsWith, Bool.not_eq_true, Option.isSome_eq_false_iff,
    Option.isNone_iff_eq_none]

theorem cut?_eq_some {lit s before rest : Text} (h : cut? lit s = some (before, rest)) :
    s = before ++ lit ++ rest := by
  fun_induction cut? lit s generalizing before rest with
  | case1 =>
    obtain ⟨r, hr, he⟩ := Option.map_eq_some_iff.1 h
    cases he
    simpa using after?_eq_some_iff.1 hr
  | case2 c s r hr =>
    cases h
    simpa using after?_eq_some_iff.1 hr
  | case3 c s _ ih =>
    obtain ⟨parts, hp, he⟩ := Option.map_eq_some_iff.1 h
    cases he
    simpa using ih hp

theorem cut?_eq_none_iff {lit s : Text} : cut? lit s = none ↔ ¬ lit <:+: s := by
  fun_induction cut? lit s with
  | case1 => simp [after?_eq_none_iff]
  | case2 c s r hr =>
    have : lit <+: c :: s := ⟨r, (after?_eq_some_iff.1 hr).symm⟩
    simp [this.isInfix]
  | case3 c s hn ih =>
    simp [ih, List.infix_cons_iff, after?_eq_none_iff.1 hn]

/-- A literal occurs in a text if it is the text of consecutive characters of it. -/
theorem occursIn_iff {lit s : Text} : occursIn lit s = true ↔ lit <:+: s := by
  induction s with
  | nil => simp [occursIn]
  | cons c s ih =>
    have h : (after? lit (c :: s)).isSome = true ↔ lit <+: c :: s := startsWith_iff
    simp [occursIn, ih, h, List.infix_cons_iff]

/-- The cut is at the first occurrence: the literal does not occur earlier. -/
theorem cut?_first {lit s before rest : Text} (h : cut? lit s = some (before, rest)) :
    ∀ n < before.length, ¬ lit <+: s.drop n := by
  fun_induction cut? lit s generalizing before rest with
  | case1 =>
    obtain ⟨r, _, he⟩ := Option.map_eq_some_iff.1 h
    cases he
    simp
  | case2 c s r hr =>
    cases h
    simp
  | case3 c s hn ih =>
    obtain ⟨parts, hp, he⟩ := Option.map_eq_some_iff.1 h
    cases he
    rintro (_ | n) hlt
    · simpa using after?_eq_none_iff.1 hn
    · simpa using ih hp n (by simpa using hlt)

theorem lastCut?_eq_some {lit s before rest : Text} (h : lastCut? lit s = some (before, rest)) :
    s = before ++ lit ++ rest := by
  obtain ⟨parts, hp, he⟩ := Option.map_eq_some_iff.1 h
  cases he
  simpa using congrArg List.reverse (cut?_eq_some hp)

theorem lastCut?_eq_none_iff {lit s : Text} : lastCut? lit s = none ↔ ¬ lit <:+: s := by
  simp [lastCut?, cut?_eq_none_iff]

end Text

end TwigLayout
