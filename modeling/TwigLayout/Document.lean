import TwigLayout.Pipeline

/-!
# Documents

A document as an editor hands it over, and the edits that formatting it gives back: one that
replaces the whole text, or none and a message when anything fails.
-/

namespace TwigLayout

open Text

/-- The language of templates. -/
def templateLanguage : String := "twig"

/-- The language that a file name tells: the ending of the name. -/
def languageOf (path : String) : String :=
  if endsWith ".twig".toList path.toList then templateLanguage
  else if Path.ending path = "" then "plaintext"
  else Path.ending path

structure Range where
  start : Position
  stop : Position
  deriving DecidableEq, Repr

structure Document where
  text : Text
  file : String
  language : String := templateLanguage
  workspace : Option String := none
  deriving DecidableEq, Repr

namespace Document

/-- The document of a file. -/
def read (t : Tree) (file : String) (workspace : Option String) : Except Fault Document := do
  return ⟨← t.readText file, file, languageOf file, workspace⟩

def positionAt (d : Document) (offset : Int) : Position := Text.positionAt d.text offset

/-- The range from the start of the document to its end. -/
def fullRange (d : Document) : Range := ⟨d.positionAt 0, d.positionAt d.text.length⟩

end Document

/-- The replacement of a range. -/
structure TextEdit where
  range : Range
  newText : Text
  deriving DecidableEq, Repr

/-- The text after edits, all of which have to replace the whole document. -/
def Document.applyEdits (d : Document) (edits : List TextEdit) : Except Fault Text :=
  edits.foldlM (fun _ e => if e.range = d.fullRange then .ok e.newText else .error .partialEdit)
    d.text

/-! ## Formatting -/

/-- What formatting a document gives: edits, messages for the user, and notes. -/
structure Formatted where
  edits : List TextEdit
  messages : List String
  log : List Note

/-- The edits that format a document. A fault becomes a message, and there are no edits then. -/
def Document.edits [YamlReader] (d : Document) (p : Pipeline) (formatter : Formatter) (t : Tree) :
    Formatted :=
  let workspace := (d.workspace.filter (· != "")).getD (Path.directoryOf d.file)
  let run := p.format formatter t d.text d.file (some workspace)
  match run.result with
  | .ok s => ⟨[⟨d.fullRange, s⟩], [], run.log⟩
  | .error e =>
    ⟨[], [s!"Error formatting Twig file: {e.message}"],
      run.log ++ [⟨.error, .provider, s!"Formatting error: {d.file}"⟩]⟩

/-- The edits that format a document if it is a template, and nothing otherwise. -/
def Document.edits? [YamlReader] (d : Document) (p : Pipeline) (formatter : Formatter)
    (t : Tree) : Option Formatted :=
  if d.language = templateLanguage then some (d.edits p formatter t) else none

end TwigLayout
