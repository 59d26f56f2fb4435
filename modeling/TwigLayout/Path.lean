import TwigLayout.Text.Scan

/-!
# Paths

An absolute path is the list of names from the root down. Paths are resolved by their text alone: a
name followed by `..` cancels out, and `..` at the root stays there.
-/

namespace TwigLayout

open Text

abbrev Path := List String

namespace Path

/-- The names in a written path. Empty names and single dots are left out. -/
def names (s : String) : List String :=
  ((splitOn ['/'] s.toList).map String.ofList).filter fun name => name != "" && name != "."

/-- Adds a name to a path. Two dots take the last name away. -/
def step (p : Path) (name : String) : Path := if name = ".." then p.dropLast else p ++ [name]

/-- The path that a written absolute path stands for. -/
def resolve (s : String) : Path := (names s).foldl step []

/-- The path that a written path stands for, seen from a directory if it is relative. -/
def resolveFrom (dir : Path) (s : String) : Path :=
  if s.toList.head? == some '/' then resolve s else (names s).foldl step dir

def render (p : Path) : String := "/" ++ "/".intercalate p

/-- A written absolute path without empty names, single dots and a slash at its end. -/
def tidy (s : String) : String := render (names s)

/-- Whether a name holds the character that no file name can have. -/
def hasNull (p : Path) : Bool := p.any fun name => name.toList.contains '\x00'

/-- The last name, which is empty for the root. -/
def name (p : Path) : String := p.getLast?.getD ""

/-- The path itself and the directories above it, from the inside out. -/
def ancestors (p : Path) : List Path :=
  (List.range (p.length + 1)).map fun n => p.take (p.length - n)

/-- The names that lead from a directory to a path inside it. -/
def below? : (dir p : Path) → Option Path
  | [], p => some p
  | _ :: _, [] => none
  | d :: dir, n :: p => if d = n then below? dir p else none

theorem below?_eq_some_iff {dir p rest : Path} :
    below? dir p = some rest ↔ p = dir ++ rest := by
  fun_induction below? dir p with
  | case1 p => simp [eq_comm]
  | case2 => simp
  | case3 dir n p ih => simp [ih]
  | case4 d dir n p h => simp [Ne.symm h]

/-- The names of a written absolute path as they stand, with nothing cancelled. A path that is
relative, or that starts with exactly two slashes, has another root and gives nothing. -/
def written? (s : String) : Option Path :=
  match s.toList with
  | '/' :: '/' :: '/' :: _ => some (names s)
  | '/' :: '/' :: _ => none
  | '/' :: _ => some (names s)
  | _ => none

/-- A path relative to a directory with slashes between the names, or a dot for the directory
itself. -/
def renderRelative : Path → String
  | [] => "."
  | p => "/".intercalate p

/-- The directory that a written path lies in. -/
def directoryOf (s : String) : String := render (resolve s).dropLast

/-- The ending of a file name: the text after its last dot, if something other than dots stands
before that. -/
def ending (s : String) : String :=
  let base := lastPart s.toList
  match lastCut? ['.'] base with
  | some (stem, rest) => if stem.all (· == '.') then "" else String.ofList rest
  | none => ""
where
  /-- The text after the last slash. -/
  lastPart (s : Text) : Text := ((lastCut? ['/'] s).map (·.2)).getD s

end Path

end TwigLayout
