import TwigLayout.Text.Basic

/-!
# Hash literal bodies

The body of a hash literal is the text between its braces. It splits into properties at the commas
outside brackets and string literals, and nothing else of it is lost (`intercalate_segments`). A
property that starts with a bare key gets quotes around it.
-/

namespace TwigLayout.Hash

open Text

/-! ## Splitting -/

/-- What splitting remembers of the text before a place: the quote that opened the string literal
around the place, the number of brackets open outside strings, and the character before. -/
structure State where
  quote : Option Char
  depth : Nat
  last : Option Char
  deriving DecidableEq, Repr

def State.start : State := ⟨none, 0, none⟩

def isOpening (c : Char) : Bool := c == '(' || c == '[' || c == '{'

def isClosing (c : Char) : Bool := c == ')' || c == ']' || c == '}'

/-- The state after one more character. The quote that opened a string closes it, unless the
character before is a backslash. A bracket that closes nothing is passed over. -/
def State.step (st : State) (c : Char) : State :=
  match st.quote with
  | some q =>
    if c = q && st.last != some '\\' then { st with quote := none, last := some c }
    else { st with last := some c }
  | none =>
    if isQuote c then { st with quote := some c, last := some c }
    else if isOpening c then { st with depth := st.depth + 1, last := some c }
    else if isClosing c then { st with depth := st.depth - 1, last := some c }
    else { st with last := some c }

/-- The state after a text. -/
def State.run (st : State) (s : Text) : State := s.foldl State.step st

/-- Whether the character `c` ends a property: a comma outside strings and brackets. -/
def State.splits (st : State) (c : Char) : Bool :=
  st.quote.isNone && c == ',' && st.depth == 0

/-- The texts between the commas that end a property. -/
def segments : State → Text → List Text
  | _, [] => [[]]
  | st, c :: s =>
    if st.splits c then [] :: segments (st.step c) s
    else
      match segments (st.step c) s with
      | [] => [[c]]
      | segment :: rest => (c :: segment) :: rest

theorem segments_ne_nil (st : State) (s : Text) : segments st s ≠ [] := by
  fun_induction segments st s <;> simp

/-- Splitting loses nothing: the segments with commas between them are the text. -/
theorem intercalate_segments (st : State) (s : Text) :
    [','].intercalate (segments st s) = s := by
  fun_induction segments st s with
  | case1 => simp [List.intercalate]
  | case2 st c s h ih =>
    obtain ⟨x, xs, hx⟩ := List.exists_cons_of_ne_nil (segments_ne_nil (st.step c) s)
    have hc : c = ',' := by simp_all [State.splits]
    simp_all [List.intercalate]
  | case3 st c s _ hf => exact absurd hf (segments_ne_nil _ s)
  | case4 st c s _ x xs hx ih => cases xs <;> simp_all [List.intercalate]

/-- The properties of a body: the segments, trimmed, without the blank ones. -/
def properties (body : Text) : List Text :=
  ((segments .start body).map trim).filter (!·.isEmpty)

/-! ## Quoting keys -/

def isKeyStart (c : Char) : Bool := c.isAlpha || c == '_'

def isKeyChar (c : Char) : Bool := isWord c || c == '-'

/-- A bare key and the value after its colon, without the white space around the colon. -/
def bareKey? : Text → Option (Text × Text)
  | [] => none
  | c :: s =>
    if isKeyStart c then
      match trimLeft (s.dropWhile isKeyChar) with
      | ':' :: value => some (c :: s.takeWhile isKeyChar, trimLeft value)
      | _ => none
    else none

/-- The property with its bare key in single quotes and one space after the colon. A property that
starts otherwise stays as it is. -/
def quoteKey (property : Text) : Text :=
  match bareKey? property with
  | some (key, value) => '\'' :: key ++ ['\'', ':', ' '] ++ value
  | none => property

/-! ## Layout -/

/-- The body with one quoted property on each line, or nothing for a body without properties. -/
def layout (body indent newline : Text) : Option Text :=
  match properties body with
  | [] => none
  | props => some ((',' :: newline).intercalate (props.map fun p => indent ++ quoteKey p))

end TwigLayout.Hash
