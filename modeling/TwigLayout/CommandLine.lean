import TwigLayout.Document
import TwigLayout.Text.Terminal
import TwigLayout.Writer

/-!
# The command line

A run of the program over a file tree. It reads its arguments, formats every file they name, and
writes the files that changed or, for a check, tells which ones would.
-/

namespace TwigLayout.CommandLine

open Text

/-! ## Arguments -/

structure Arguments where
  config : Option String := none
  workspace : Option String := none
  check : Bool := false
  verbose : Bool := false
  /-- Whether nothing but help is asked for. -/
  help : Bool := false
  paths : List String := []
  deriving DecidableEq, Repr

/-- What the arguments of a program come to. -/
inductive Command where
  | run (a : Arguments)
  | help
  | misuse
  deriving DecidableEq, Repr

/-- What reads the arguments of a program that is started in a directory of a tree. What is said
about runs goes for every such reader. -/
class ArgumentReader where
  read : Tree → Path → List String → Command

/-- What an option does: sets a flag, or takes a value. -/
inductive Action where
  | flag (set : Arguments → Arguments)
  | takes (set : String → Arguments → Arguments)

def configAction : Action := .takes fun v a => { a with config := some v }

def workspaceAction : Action := .takes fun v a => { a with workspace := some v }

def verboseAction : Action := .flag fun a => { a with verbose := true }

def long? : String → Option Action
  | "--config" => some configAction
  | "--workspace" => some workspaceAction
  | "--check" => some (.flag fun a => { a with check := true })
  | "--verbose" => some verboseAction
  | "--help" => some (.flag fun a => { a with help := true })
  | _ => none

def short? : Char → Option Action
  | 'c' => some configAction
  | 'w' => some workspaceAction
  | 'v' => some verboseAction
  | _ => none

/-- A bundle of short options. One that takes a value takes the rest of the bundle, or the next
argument if nothing is left of it. -/
def readBundle : List Char → List String → Arguments → Option (Arguments × List String)
  | [], rest, a => some (a, rest)
  | c :: cs, rest, a =>
    match short? c, cs, rest with
    | none, _, _ => none
    | some (.flag set), cs, rest => readBundle cs rest (set a)
    | some (.takes set), [], v :: rest => some (set v a, rest)
    | some (.takes _), [], [] => none
    | some (.takes set), cs, rest => some (set (String.ofList cs) a, rest)

/-- A long option. A value may follow an equals sign. -/
def readLong (arg : String) (rest : List String) (a : Arguments) :
    Option (Arguments × List String) :=
  let (name, value) :=
    match cut? ['='] arg.toList with
    | some (name, value) => (String.ofList name, some (String.ofList value))
    | none => (arg, none)
  match long? name, value, rest with
  | some (.flag set), none, rest => some (set a, rest)
  | some (.takes set), some v, rest => some (set v a, rest)
  | some (.takes set), none, v :: rest => some (set v a, rest)
  | _, _, _ => none

/-- Reads arguments one after the other. After a double dash all of them are paths. Every step uses
up an argument, so `fuel` of their number is enough. -/
def readArguments : (fuel : Nat) → List String → Arguments → Option Arguments
  | 0, _, a => some a
  | _, [], a => some a
  | fuel + 1, arg :: rest, a =>
    match arg.toList with
    | ['-', '-'] => some { a with paths := a.paths ++ rest }
    | '-' :: '-' :: _ => do
      let (a, rest) ← readLong arg rest a
      readArguments fuel rest a
    | '-' :: c :: cs => do
      let (a, rest) ← readBundle (c :: cs) rest a
      readArguments fuel rest a
    | _ => readArguments fuel rest { a with paths := a.paths ++ [arg] }

/-- The arguments with their paths resolved from a directory. The configuration has to be there, the
workspace has to be a directory, and there has to be a path, all of them to files. Everything has to
be readable. -/
def Arguments.resolve (a : Arguments) (t : Tree) (cwd : Path) : Option Arguments := do
  let config := a.config.map (Path.resolveFrom cwd)
  let workspace := a.workspace.map (Path.resolveFrom cwd)
  let paths := a.paths.map (Path.resolveFrom cwd)
  if config.all t.isReadable && workspace.all t.isDirectory && !paths.isEmpty &&
      paths.all (fun p => t.isFile p && t.isReadable p) then
    some { a with
      config := config.map Path.render
      workspace := workspace.map Path.render
      paths := paths.map Path.render }
  else none

/-- What the program makes of its arguments. It is asked for help whatever else they are, if they
can be read. -/
def parse (t : Tree) (cwd : Path) (args : List String) : Command :=
  match readArguments args.length args {} with
  | none => .misuse
  | some a =>
    if a.help then .help
    else
      match a.resolve t cwd with
      | none => .misuse
      | some a => .run a

/-- The reader of the program. -/
instance : ArgumentReader := ⟨parse⟩

/-! ## Output -/

/-- A line of the error output: a note, or a message for the user. -/
inductive Line where
  | note (n : Note)
  | message (s : String)
  deriving DecidableEq, Repr

/-- Whether a line is shown. Notes for debugging are shown only if asked for. -/
def Line.isShown (verbose : Bool) : Line → Bool
  | .note n => verbose || n.level != .debug
  | .message _ => true

/-- A message for the user, without codes that would change how the terminal shows it. -/
def shown (message : String) : String := String.ofList (withoutCodes message.toList)

def Line.text : Line → String
  | .note n => n.long
  | .message s => shown s

/-- The end of a run. A fault that nothing handles ends it early. -/
structure Outcome where
  exitCode : Nat
  stdout : List String
  stderr : List String
  tree : Tree
  crash : Option Fault := none

/-- What is written for help, and for arguments that are not as they should be. -/
def usage : String := "Usage: [OPTIONS] PATHS..."

/-! ## Files -/

/-- The suffixes that a run draws for the tokens of each kind in each file. -/
abbrev Draws := String → Placeholder.Kind → Placeholder.Supply

/-- The same suffixes for all files and kinds, one after the other. -/
def Draws.counting : Draws := fun _ _ => .counting

/-- How the files of a run are formatted. -/
structure Task where
  layout : Layout
  engine : EngineSettings
  draws : Draws
  formatter : Formatter
  workspace : Option String
  check : Bool

/-- How a file is formatted. -/
def Task.pipeline (task : Task) (path : String) : Pipeline :=
  ⟨task.layout, task.engine, task.draws path⟩

/-- What a run has done so far: the tree, the lines of error output, whether a file failed, the
files that changed, and the fault that ended the run. -/
structure State where
  tree : Tree
  lines : List Line
  failed : Bool
  changed : List String
  crash : Option Fault

namespace State

def note (st : State) (level : Level) (message : String) : State :=
  { st with lines := st.lines ++ [.note ⟨level, .commandLine, message⟩] }

def tell (st : State) (message : String) : State :=
  { st with lines := st.lines ++ [.message message] }

/-- Adds what formatting a document noted and told. -/
def record (st : State) (f : Formatted) : State :=
  { st with lines := st.lines ++ f.log.map .note ++ f.messages.map .message }

/-- Writes the new text of a file. A fault that is reported makes the file fail. -/
def save (st : State) (path : String) (s : Text) : State :=
  match Writer.write Writer.noLeaks path s st.tree with
  | ⟨tree, .ok ()⟩ => { st with tree := tree, changed := st.changed ++ [path] }
  | ⟨tree, .error e⟩ =>
    let st := { st with tree := tree }
    if e.isReported then
      { (st.note .error s!"Writing failed: {path}").tell s!"Error writing {path}: {e.message}" with
        failed := true }
    else { st with crash := some e }

/-- Takes up the edits of a document. -/
def update (st : State) (task : Task) (d : Document) (edits : List TextEdit) : State :=
  match edits with
  | [] => { st with failed := true }
  | edits =>
    match d.applyEdits edits with
    | .error e => { st with crash := some e }
    | .ok s =>
      if s = d.text then st
      else if task.check then { st with changed := st.changed ++ [d.file] }
      else st.save d.file s

/-- Formats one file. A file that is no template is passed over. -/
def formatFile [YamlReader] (st : State) (task : Task) (path : String) : State :=
  match Document.read st.tree path task.workspace with
  | .error e => { st with crash := some e }
  | .ok d =>
    match d.edits? (task.pipeline path) task.formatter st.tree with
    | none => st.note .warning s!"Skipping {path}: not a Twig template"
    | some f => (st.record f).update task d f.edits

/-- Formats files one after the other, up to a fault that nothing handles. -/
def formatFiles [YamlReader] (task : Task) : List String → State → State
  | [], st => st
  | path :: paths, st =>
    let st := st.formatFile task path
    if st.crash.isSome then st else formatFiles task paths st

end State

/-! ## Runs -/

/-- The settings that the configuration file holds, or the defaults. -/
def settingsOf (t : Tree) : Option String → Except Fault Settings
  | none => .ok {}
  | some config => do
    let s := unifyNewlines (← t.readText config)
    Settings.ofValue (← (Json.parse s).mapError (·.toFault .notJson))

/-- The task of a run, with a note if the engine cannot be started. -/
def taskOf (t : Tree) (child : Engine.Child) (optionsFile : String) (draws : Draws)
    (a : Arguments) : Logged Task := do
  let settings ← settingsOf t a.config
  let layout ← Layout.ofSettings settings
  let engine ← settings.engine.get
  if !(← Engine.probe engine child) then
    let command ← Engine.commandText (← engine.command.items)
    Logged.warning .commandLine s!"prettier could not be started with: {command}"
  return ⟨layout, engine, draws, Engine.format engine child optionsFile, a.workspace, a.check⟩

/-- The lines for the user at the end of a run. -/
def summary (check : Bool) (changed : List String) : List String :=
  if check then changed.map fun path => shown s!"Would reformat {path}"
  else [s!"Formatted {changed.length} file(s)."]

/-- The outcome of a run that did so much. -/
def State.outcome (st : State) (a : Arguments) : Outcome :=
  let stderr := (st.lines.filter (Line.isShown a.verbose)).map Line.text
  match st.crash with
  | some e => ⟨1, [], stderr, st.tree, some e⟩
  | none =>
    let exitCode := if st.failed || (a.check && !st.changed.isEmpty) then 1 else 0
    ⟨exitCode, summary a.check st.changed, stderr, st.tree, none⟩

/-- A run of the program in a directory. It draws suffixes, and hands the engine its options in a
file that it names as well. -/
def run [YamlReader] [ArgumentReader] (t : Tree) (child : Engine.Child) (optionsFile : String)
    (cwd : Path) (args : List String) (draws : Draws := .counting) : Outcome :=
  match ArgumentReader.read t cwd args with
  | .misuse => ⟨2, [], [usage], t, none⟩
  | .help => ⟨0, [usage], [], t, none⟩
  | .run a =>
    let start := taskOf t child optionsFile draws a
    let st : State := ⟨t, start.log.map .note, false, [], none⟩
    match start.result with
    | .error e => State.outcome { st with crash := some e } a
    | .ok task => (st.formatFiles task a.paths).outcome a

end TwigLayout.CommandLine
