import TwigLayout.Log
import TwigLayout.Settings
import TwigLayout.Text.Line
import TwigLayout.Value.Json

/-!
# The engine

The program that formats the markup of a template. It runs as a child process that gets the template
on its standard input and its options in a file. What such a process does is described by a `Child`,
so that a run of the engine is a function of it.
-/

namespace TwigLayout

/-- What an engine is asked to format. -/
structure Request where
  code : Text
  options : Entries
  directory : Option String
  deriving DecidableEq, Repr

/-- An engine, as the pipeline sees it. -/
abbrev Formatter := Request → Logged Text

namespace Engine

/-! ## Child processes -/

/-- Why a child process gave no output. -/
inductive StartFault where
  /-- A command that the system does not start. -/
  | refused (cause : FileFault)
  | timedOut
  /-- A process that was stopped, with the words to report it in. -/
  | stopped (message : String)
  /-- Any other fault on the way to the output, which nothing here puts into other words. -/
  | raised (fault : Fault)
  deriving DecidableEq, Repr

namespace StartFault

def notFound : StartFault := .refused .notFound

def denied : StartFault := .refused .denied

end StartFault

/-- A child process to be started. The command that only asks for the version has no options
file. -/
structure Call where
  command : List Value
  directory : Option String
  timeout : Value
  input : Option Text
  options : Option Entries
  deriving DecidableEq, Repr

/-- What a child process that ran to its end left behind. -/
structure Output where
  stdout : Text
  stderr : Text
  status : Int
  deriving DecidableEq, Repr

/-- The behaviour of the child processes of a command. It depends on the call alone. -/
abbrev Child := Call → Except StartFault Output

/-- The fault of a call. That of a command which is not started names the first part of it. -/
def StartFault.toFault (call : Call) : StartFault → Fault
  | .refused cause => .file cause ((call.command.head?.map Value.text).getD "")
  | .timedOut => .engineTimeout call.timeout.text
  | .stopped message => .engineFailed message
  | .raised fault => fault

/-! ## Availability -/

/-- The call that asks for the engine's version. -/
def versionCall (e : EngineSettings) : Except Fault Call := do
  return ⟨(← e.command.items) ++ [.str "--version"], none, .int 30, none, none⟩

/-- Whether the engine can be started. It cannot if something is not there, or takes too long. -/
def probe (e : EngineSettings) (child : Child) : Except Fault Bool := do
  let call ← versionCall e
  match child call with
  | .ok output => return output.status = 0
  | .error .timedOut => return false
  | .error cause =>
    match cause.toFault call with
    | .file .notFound _ => return false
    | fault => .error fault

/-- Whether the engine can be started, asked once: an answer that is known is kept. -/
def isAvailable (e : EngineSettings) (child : Child) (known : Option Bool) : Except Fault Bool :=
  match known with
  | some answer => .ok answer
  | none => probe e child

/-! ## Formatting -/

/-- The name that a template without one goes by. -/
def anonymousFile : Value := .str "template.html.twig"

/-- A part of a command line, which has to be a text. -/
def partText : Value × Nat → Except Fault String
  | (.str s, _) => .ok s
  | (v, index) =>
    .error (.wrongType s!"sequence item {index}: expected str instance, {v.typeName} found")

/-- The text of a command line. -/
def commandText (parts : List Value) : Except Fault String := do
  return " ".intercalate (← parts.zipIdx.mapM partText)

/-- The call that formats a template. The options are handed over in a file, but for the name of the
template and the plugins, which go on the command line. -/
def formatCall (e : EngineSettings) (optionsFile : String) (r : Request) : Except Fault Call := do
  let file := ((r.options.get? "filepath").filter Value.isTrue).getD anonymousFile
  let options ← Json.storableEntries ((r.options.erase "filepath").erase "plugins")
  let start ← e.command.items
  let plugins ← ((r.options.get? "plugins").getD (.list [])).items
  let command := start ++ [.str "--config", .str optionsFile] ++
    plugins.flatMap (fun p => [.str "--plugin", p]) ++ [.str "--stdin-filepath", file]
  return ⟨command, r.directory, e.timeout, some r.code, some (Entries.ofPairs options)⟩

/-- The first part of the command, for the message about an engine that is missing. -/
def commandName (e : EngineSettings) : Except Fault String :=
  match e.command with
  | .list (v :: _) => .ok v.text
  | .str s =>
    match s.toList with
    | c :: _ => .ok (String.ofList [c])
    | [] => .error (.noItem "string index out of range")
  | .map _ => .error (.noKey "0")
  | _ => .error (.noItem "list index out of range")

/-- What the engine's output means: the formatted template, or a fault in the engine's words. -/
def readOutput (o : Output) : Except Fault Text :=
  if o.status = 0 then .ok (Text.unifyNewlines o.stdout)
  else
    let words := if o.stderr.isEmpty then o.stdout else o.stderr
    let message := Text.trim (Text.unifyNewlines words)
    .error (.engineFailed
      (if message.isEmpty then s!"prettier exited with status {o.status}"
        else String.ofList message))

/-- What the end of a call means. The engine is missing if something is not there, be it the command
or the directory that it is started in. -/
def readResult (e : EngineSettings) (call : Call) :
    Except StartFault Output → Except Fault Text
  | .ok output => readOutput output
  | .error cause =>
    match cause.toFault call with
    | .file .notFound path => do
      .error (.engineMissing (← commandName e) (FileFault.notFound.message path))
    | fault => .error fault

/-- Formats with the engine's child process. -/
def format (e : EngineSettings) (child : Child) (optionsFile : String) : Formatter := fun r => do
  let call ← formatCall e optionsFile r
  Logged.debug .engine s!"Running {← commandText call.command}"
  readResult e call (child call)

end Engine

end TwigLayout
