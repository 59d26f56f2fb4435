import TwigLayout.Text.Scan

/-!
# Terminal codes

Sequences of characters that change how a terminal shows a text: an escape character and a bracket,
numbers with their separators, and a letter.
-/

namespace TwigLayout.Text

def isCodeParameter (c : Char) : Bool := c.isDigit || c == ';' || c == '?'

/-- Reads a terminal code. -/
def terminalCode : Reader Unit := fun _ s => do
  let s ← after? ['\x1b', '['] s
  match s.dropWhile isCodeParameter with
  | c :: rest => if c.isAlpha then some ((), rest) else none
  | [] => none

/-- The text without its terminal codes. -/
def withoutCodes (s : Text) : Text :=
  (scan terminalCode s).flatMap fun
    | .plain c => [c]
    | .found _ _ => []

end TwigLayout.Text
