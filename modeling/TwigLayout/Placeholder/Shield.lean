import TwigLayout.Log
import TwigLayout.Placeholder.Region
import TwigLayout.Placeholder.Table

/-!
# Shielding and restoring

Shielding puts a token in the place of every region to be hidden, and restoring puts the regions
back. Tokens that are gone by then are dropped, or are a fault if nothing may be lost.
-/

namespace TwigLayout.Placeholder

open Text

/-- What a table hides. -/
inductive Kind where
  | comment
  | inline
  deriving DecidableEq, Repr

/-- The label of a kind in its tokens. -/
def Kind.label : Kind → Text
  | .comment => "COMMENT".toList
  | .inline => "INLINE".toList

/-- The word for a kind in messages. -/
def Kind.word : Kind → String
  | .comment => "comment"
  | .inline => "inline"

variable {α : Type}

/-- Gives every accepted finding a token, which is its value from then on, and adds the token to the
table. A finding that is not accepted is text as any other. -/
def assign (supply : Supply) (source : Text) (accepts : α → Text → Except Fault Bool) :
    List (Piece α) → Table → Except Fault (List (Piece Text) × Table)
  | [], t => .ok ([], t)
  | .plain c :: pieces, t => do
    let (parts, t) ← assign supply source accepts pieces t
    return (.plain c :: parts, t)
  | .found value text :: pieces, t => do
    if ← accepts value text then
      match t.add? supply text source with
      | none => .error .suffixesExhausted
      | some (token, t) =>
        let (parts, t) ← assign supply source accepts pieces t
        return (.found token text :: parts, t)
    else
      let (parts, t) ← assign supply source accepts pieces t
      return (text.map .plain ++ parts, t)

/-- What a part of a shielded text shows: a region shows its token. -/
def shown : Piece Text → Text
  | .plain c => [c]
  | .found token _ => token

/-- The comments of a text with their tokens. -/
def assignComments (supply : Supply) (marks : Marks) (s : Text) :
    Except Fault (List (Piece Text) × Table) :=
  assign supply s (fun _ _ => .ok true) (Comment.pieces marks s) (.empty Kind.comment.label)

/-- The elements of a text that a rule accepts, with their tokens. -/
def assignElements (supply : Supply) (rule : Element.Rule) (s : Text) :
    Except Fault (List (Piece Text) × Table) :=
  assign supply s rule.accepts (Element.pieces s) (.empty Kind.inline.label)

/-- Hides the comments of a text. -/
def shieldComments (supply : Supply) (marks : Marks) (s : Text) : Except Fault (Text × Table) := do
  let (parts, t) ← assignComments supply marks s
  return (parts.flatMap shown, t)

/-- Hides the elements of a text that a rule accepts. -/
def shieldElements (supply : Supply) (rule : Element.Rule) (s : Text) :
    Except Fault (Text × Table) := do
  let (parts, t) ← assignElements supply rule s
  return (parts.flatMap shown, t)

/-- Puts the texts of the entries back one token after the other, and collects the tokens that are
not there when their turn comes. -/
def restoreEntries : List (Text × Text) → Text → Text × List Text
  | [], s => (s, [])
  | (token, region) :: entries, s =>
    if occursIn token s then restoreEntries entries (replaceAll token region s)
    else
      let (s, missing) := restoreEntries entries s
      (s, token :: missing)

/-- Puts the texts of a table back. A missing token is a fault if `strict`. -/
def restore (kind : Kind) (strict : Bool) (t : Table) (s : Text) : Logged Text :=
  match restoreEntries t.entries s with
  | (s, []) => pure s
  | (s, missing) =>
    if strict then ⟨.error (.lostTokens kind.word missing), []⟩
    else do
      Logged.warning .shields
        s!"Dropped {missing.length} {kind.word} placeholder(s) lost during formatting"
      return s

/-- Notes how many regions were hidden. -/
def noteShielded (kind : Kind) (t : Table) : Logged Unit :=
  Logged.debug .shields s!"Shielded {t.entries.length} {kind.word} region(s)"

/-! ## Leaks -/

def isSuffixChar (c : Char) : Bool := c.isLower || c.isDigit

/-- Reads anything of the form of a token: a label of capital letters, a decimal number and a suffix
of eight small letters and digits. -/
def readLeak : Reader Unit := fun _ s => do
  let s ← after? "__TWIG_CS_".toList s
  if (s.takeWhile Char.isUpper).isEmpty then none
  let s ← after? ['_'] (s.dropWhile Char.isUpper)
  if (s.takeWhile isDecimal).isEmpty then none
  let s ← after? ['_'] (s.dropWhile isDecimal)
  if (s.take 8).length = 8 && (s.take 8).all isSuffixChar then
    let rest ← after? ['_', '_'] (s.drop 8)
    return ((), rest)
  else none

/-- The texts in `s` that have the form of a token. -/
def leaks (s : Text) : List Text := (locate 0 (scan readLeak s)).map (·.text)

end TwigLayout.Placeholder
