import TwigLayout.Component.Layout
import TwigLayout.Engine
import TwigLayout.Merge
import TwigLayout.Placeholder.Shield
import TwigLayout.ProjectOptions
import TwigLayout.Route

/-!
# The pipeline

Formatting a template: comments and short elements are hidden, the engine formats the rest with the
options of the project, the elements come back, component tags, merge statements and route calls are
laid out, and at last the comments come back.
-/

namespace TwigLayout

open Text Placeholder

/-! ## Reflow -/

/-- The line terminator of a document: a carriage return and a line feed if it holds the two
together anywhere. -/
def newlineOf (s : Text) : Text := if occursIn ['\r', '\n'] s then ['\r', '\n'] else ['\n']

/-- Lays out component tags, merge statements and route calls, in this order. -/
def Layout.reflow (layout : Layout) (s : Text) : Logged Text := do
  let newline := newlineOf s
  let s ← Component.reflow layout.component newline s
  let s ← Merge.reflow layout.merge newline s
  Route.reflow layout.route newline s

/-! ## Stages -/

/-- How documents are formatted. -/
structure Pipeline where
  layout : Layout
  engine : EngineSettings
  /-- The suffixes for the tokens of each kind. -/
  supply : Kind → Supply

/-- The pipeline of settings, with the same suffixes for all tokens. -/
def Pipeline.ofSettings (s : Settings) (supply : Supply) : Except Fault Pipeline := do
  let layout ← Layout.ofSettings s
  return ⟨layout, ← s.engine.get, fun _ => supply⟩

/-- A template with its comments and short elements hidden. -/
structure Hidden where
  code : Text
  comments : Table
  elements : Table
  deriving DecidableEq, Repr

namespace Pipeline

/-- Hides comments, then short elements. -/
def hide (p : Pipeline) (s : Text) : Logged Hidden := do
  let (s, comments) ← shieldComments (p.supply .comment) p.layout.comment s
  noteShielded .comment comments
  let (s, elements) ← shieldElements (p.supply .inline) p.layout.inline s
  noteShielded .inline elements
  return ⟨s, comments, elements⟩

/-- What the engine is asked for: the code, with the options of the project over which the fixed
ones stand, in the project's directory. Without a workspace that is the directory of the file. -/
def request [YamlReader] (p : Pipeline) (t : Tree) (file : String) (workspace : Option String)
    (code : Text) : Logged Request := do
  let directory := (workspace.filter (· != "")).getD (Path.directoryOf file)
  let project ← ProjectOptions.resolve t directory (some file)
  return ⟨code, p.engine.options project (.str file), some directory⟩

/-- Formats a template up to the request for the engine. -/
def prepare [YamlReader] (p : Pipeline) (t : Tree) (s : Text) (file : String)
    (workspace : Option String) : Logged (Hidden × Request) := do
  Logged.debug .pipeline s!"Formatting {file}"
  let hidden ← p.hide s
  return (hidden, ← p.request t file workspace hidden.code)

/-- Brings back what was hidden around laying out the engine's answer. -/
def finish (p : Pipeline) (hidden : Hidden) (s : Text) : Logged Text := do
  let s ← restore .inline p.layout.strict hidden.elements s
  let s ← p.layout.reflow s
  restore .comment p.layout.strict hidden.comments s

/-- Formats a template. -/
def format [YamlReader] (p : Pipeline) (formatter : Formatter) (t : Tree) (s : Text)
    (file : String) (workspace : Option String) : Logged Text := do
  let (hidden, request) ← p.prepare t s file workspace
  p.finish hidden (← formatter request)

/-- The template in a file. The file goes by its tidy name from then on. -/
def source (t : Tree) (file : String) : Except Fault (Text × String) := do
  let file := Path.tidy file
  return (← t.readText file, file)

/-- Formats the template in a file. -/
def formatFile [YamlReader] (p : Pipeline) (formatter : Formatter) (t : Tree) (file : String)
    (workspace : Option String) : Logged Text := do
  let (s, file) ← source t file
  p.format formatter t s file workspace

end Pipeline

end TwigLayout
