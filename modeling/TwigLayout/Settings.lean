import TwigLayout.Component.Tag
import TwigLayout.Merge
import TwigLayout.Placeholder.Region
import TwigLayout.Route

/-!
# Settings

What a settings file can say about formatting. Every setting is kept as the value that the file
gives, and a value of the wrong type shows when a layout is made of the settings. Settings are read
from a mapping and can be written as one.
-/

namespace TwigLayout

/-! ## The engine -/

/-- The settings of the engine that formats the markup. Most of them are passed on to it. -/
structure EngineSettings where
  printWidth : Value := .int 120
  tabWidth : Value := .int 4
  singleQuote : Value := .bool false
  bracketSpacing : Value := .bool true
  semi : Value := .bool true
  whitespaceSensitivity : Value := .str "ignore"
  parser : Value := .str "melody"
  plugin : Value := .str "prettier-plugin-twig-melody"
  command : Value := .list [.str "prettier"]
  timeout : Value := .null
  deriving DecidableEq, Repr

namespace EngineSettings

/-- Sets one setting by its key. -/
def set (e : EngineSettings) (key : String) (v : Value) : Except Fault EngineSettings :=
  match key with
  | "print_width" => .ok { e with printWidth := v }
  | "tab_width" => .ok { e with tabWidth := v }
  | "single_quote" => .ok { e with singleQuote := v }
  | "bracket_spacing" => .ok { e with bracketSpacing := v }
  | "semi" => .ok { e with semi := v }
  | "html_whitespace_sensitivity" => .ok { e with whitespaceSensitivity := v }
  | "parser" => .ok { e with parser := v }
  | "plugin" => .ok { e with plugin := v }
  | "command" => .ok { e with command := v }
  | "timeout" => .ok { e with timeout := v }
  | _ => .error (.wrongType s!"unexpected setting '{key}'")

/-- The settings of a mapping over the defaults. Every key has to be known. -/
def ofEntries (entries : Entries) : Except Fault EngineSettings :=
  entries.foldlM (fun e entry => do e.set (← entry.1.asName) entry.2) {}

/-- The settings as a mapping. The command is written as a list. -/
def toEntries (e : EngineSettings) : Except Fault Entries := do
  let command ← e.command.items
  return .named [("print_width", e.printWidth), ("tab_width", e.tabWidth),
    ("single_quote", e.singleQuote), ("bracket_spacing", e.bracketSpacing), ("semi", e.semi),
    ("html_whitespace_sensitivity", e.whitespaceSensitivity), ("parser", e.parser),
    ("plugin", e.plugin), ("command", .list command), ("timeout", e.timeout)]

/-- The options that the engine gets in any case, under its own names. -/
def overrides (e : EngineSettings) (file : Value) : Entries :=
  .named [("parser", e.parser), ("plugins", .list [e.plugin]), ("printWidth", e.printWidth),
    ("tabWidth", e.tabWidth), ("singleQuote", e.singleQuote),
    ("bracketSpacing", e.bracketSpacing), ("semi", e.semi),
    ("htmlWhitespaceSensitivity", e.whitespaceSensitivity), ("filepath", file)]

/-- The options for a file: those of its project, and over them those given in any case. -/
def options (e : EngineSettings) (project : Entries) (file : Value) : Entries :=
  project.setAll (e.overrides file)

/-- The bound of all sizes. -/
def sizeBound : Int := Int.pow 2 63

/-- The bound of the widths that a text can have. -/
def widthBound : Int := Int.pow 2 36

/-- The unit of indentation: as many spaces as the tab is wide. -/
def indentUnit (e : EngineSettings) : Except Fault Text :=
  match e.tabWidth with
  | .int i =>
    if i < -sizeBound || sizeBound ≤ i then
      .error (.tooLarge "cannot fit 'int' into an index-sized integer")
    else if widthBound ≤ i then .error .outOfMemory
    else .ok (List.replicate i.toNat ' ')
  | .bool b => .ok (List.replicate b.toNat ' ')
  | v => .error (.wrongType s!"a tab cannot be as wide as a value of type '{v.typeName}'")

end EngineSettings

/-! ## Delimiters -/

/-- The settings of the markers of a template. -/
structure DelimiterSettings where
  commentStart : Value := .str "\x7b#"
  commentEnd : Value := .str "#\x7d"
  blockStart : Value := .str "\x7b%"
  blockEnd : Value := .str "%\x7d"
  variableStart : Value := .str "\x7b\x7b"
  variableEnd : Value := .str "\x7d\x7d"
  componentSpace : Value := .str "twig:"
  deriving DecidableEq, Repr

namespace DelimiterSettings

/-- Sets one setting by its key. -/
def set (d : DelimiterSettings) (key : String) (v : Value) : Except Fault DelimiterSettings :=
  match key with
  | "comment_start" => .ok { d with commentStart := v }
  | "comment_end" => .ok { d with commentEnd := v }
  | "block_start" => .ok { d with blockStart := v }
  | "block_end" => .ok { d with blockEnd := v }
  | "variable_start" => .ok { d with variableStart := v }
  | "variable_end" => .ok { d with variableEnd := v }
  | "component_prefix" => .ok { d with componentSpace := v }
  | _ => .error (.wrongType s!"unexpected setting '{key}'")

/-- The settings of a mapping over the defaults. Every key has to be known. -/
def ofEntries (entries : Entries) : Except Fault DelimiterSettings :=
  entries.foldlM (fun d entry => do d.set (← entry.1.asName) entry.2) {}

def toEntries (d : DelimiterSettings) : Entries :=
  .named [("comment_start", d.commentStart), ("comment_end", d.commentEnd),
    ("block_start", d.blockStart), ("block_end", d.blockEnd),
    ("variable_start", d.variableStart), ("variable_end", d.variableEnd),
    ("component_prefix", d.componentSpace)]

def marks (opening closing : Value) : Except Fault Marks := do
  return ⟨← opening.asText, ← closing.asText⟩

def comment (d : DelimiterSettings) : Except Fault Marks := marks d.commentStart d.commentEnd

/-- How component tags are laid out under these settings. -/
def componentStyle (d : DelimiterSettings) (indentUnit : Text) : Except Fault Component.Style := do
  return ⟨← d.componentSpace.asText, ← marks d.variableStart d.variableEnd, indentUnit⟩

/-- How merge statements are laid out under these settings. -/
def mergeStyle (d : DelimiterSettings) (indentUnit : Text) : Except Fault Merge.Style := do
  return ⟨← marks d.blockStart d.blockEnd, indentUnit⟩

end DelimiterSettings

/-! ## All settings -/

/-- The place of a group of settings: the group, a value that was given instead of one, or
nothing. -/
inductive Slot (α : Type) where
  | group (a : α)
  | other (v : Value)
  | missing
  deriving DecidableEq, Repr

/-- The group in a slot. Another value has no settings. -/
def Slot.get {α : Type} (slot : Slot α) : Except Fault α :=
  match slot with
  | .group a => .ok a
  | .other v => .error (.notRecord s!"'{v.typeName}' object has no settings")
  | .missing => .error (.notRecord "the settings have no such group")

/-- Refuses a slot with nothing in it. -/
def Slot.require {α : Type} (slot : Slot α) : Except Fault Unit :=
  match slot with
  | .missing => do let _ ← slot.get
  | _ => .ok ()

/-- Puts a value that is no group into a slot that holds something. -/
def Slot.replace {α : Type} (slot : Slot α) (v : Value) : Slot α :=
  match slot with
  | .missing => .missing
  | _ => .other v

structure Settings where
  engine : Slot EngineSettings := .group {}
  delimiters : Slot DelimiterSettings := .group {}
  /-- The route helpers whose parameters are laid out. -/
  pathFunctions : Option Value := some (.list [.str "path"])
  /-- The attribute whose line gives the indentation of a route call. -/
  pathAttribute : Value := .str "href"
  /-- Whether a token that the engine lost is a fault. -/
  strict : Value := .bool false
  /-- Whether the settings can be written: a setting with the name of the writer takes its place. -/
  writable : Bool := true
  deriving DecidableEq, Repr

namespace Settings

/-- The settings that hold the entries of a mapping and nothing else. What has no entry is missing,
but for the two settings that are the same for all files unless they are set. -/
def ofRaw (entries : Entries) : Settings :=
  let slot {α : Type} (key : String) : Slot α := ((entries.get? key).map Slot.other).getD .missing
  { engine := slot "formatter"
    delimiters := slot "syntax"
    pathFunctions := entries.get? "path_functions"
    pathAttribute := (entries.get? "path_attribute").getD (.str "href")
    strict := (entries.get? "strict_placeholders").getD (.bool false)
    writable := !entries.contains "to_dict" }

/-- Sets one setting by its key. A key that names none is passed over. One key stands for all the
settings together, and two cannot be set. -/
def set (s : Settings) (key : String) (v : Value) : Except Fault Settings :=
  match key, v with
  | "formatter", .map entries => do
    return { s with engine := .group (← EngineSettings.ofEntries entries) }
  | "syntax", .map entries => do
    return { s with delimiters := .group (← DelimiterSettings.ofEntries entries) }
  | "formatter", v => .ok { s with engine := s.engine.replace v }
  | "syntax", v => .ok { s with delimiters := s.delimiters.replace v }
  | "path_functions", v => .ok { s with pathFunctions := s.pathFunctions.map fun _ => v }
  | "path_attribute", v => .ok { s with pathAttribute := v }
  | "strict_placeholders", v => .ok { s with strict := v }
  | "to_dict", _ => .ok { s with writable := false }
  | "__dict__", .map entries => .ok (ofRaw entries)
  | "__dict__", v =>
    .error (.wrongType s!"all settings together cannot be a value of type '{v.typeName}'")
  | "__class__", _ => .error (.wrongType "the kind of the settings cannot be set")
  | "__weakref__", _ => .error (.notRecord "the references to the settings cannot be set")
  | _, _ => .ok s

/-- The settings of a mapping over the defaults. -/
def ofEntries (entries : Entries) : Except Fault Settings :=
  entries.foldlM (fun s entry => do s.set (← entry.1.asName) entry.2) {}

/-- The settings of a value that has to be a mapping. -/
def ofValue : Value → Except Fault Settings
  | .map entries => ofEntries entries
  | v => .error (.notRecord s!"'{v.typeName}' object has no attribute 'items'")

/-- The route helpers as they were given. -/
def functions (s : Settings) : Except Fault Value :=
  match s.pathFunctions with
  | some v => .ok v
  | none => .error (.notRecord "the settings have no route helpers")

/-- The settings as a mapping. The functions are written as a list. -/
def toEntries (s : Settings) : Except Fault Entries := do
  if !s.writable then .error (.wrongType "the settings cannot be written")
  let engine ← (← s.engine.get).toEntries
  let delimiters := (← s.delimiters.get).toEntries
  let functions ← (← s.functions).items
  return .named [("formatter", .map engine), ("syntax", .map delimiters),
    ("path_functions", .list functions), ("path_attribute", s.pathAttribute),
    ("strict_placeholders", s.strict)]

/-- Whether the settings are the same after they were written and read again. -/
def roundTrips (s : Settings) : Except Fault Bool := do
  return (← ofEntries (← s.toEntries)) = s

/-! ## Layouts -/

/-- The delimiters. A value in their place that counts as a no means the defaults. -/
def delimitersOrDefault (s : Settings) : Except Fault DelimiterSettings :=
  match s.delimiters with
  | .group d => .ok d
  | .other v => if v.isTrue then s.delimiters.get else .ok {}
  | .missing => s.delimiters.get

end Settings

/-- How route calls are laid out. Without functions there is still the one named `path`. -/
def Route.styleOf (functions attr : Value) (indentUnit : Text) : Except Fault Route.Style := do
  let names ←
    if functions.isTrue then (← functions.items).mapM Value.asText else .ok ["path".toList]
  return ⟨names, attr.text.toList ++ ['='], indentUnit⟩

/-- Everything that formatting a template depends on, besides the engine. -/
structure Layout where
  comment : Marks
  inline : Element.Rule
  component : Component.Style
  merge : Merge.Style
  route : Route.Style
  strict : Bool
  deriving DecidableEq, Repr

/-- The layout of settings. The faults come in the order of the passes. -/
def Layout.ofSettings (s : Settings) : Except Fault Layout := do
  s.delimiters.require
  let engine ← s.engine.get
  let unit ← engine.indentUnit
  let d ← s.delimitersOrDefault
  let comment ← d.comment
  let component ← d.componentStyle unit
  let merge ← d.mergeStyle unit
  let route ← Route.styleOf (← s.functions) s.pathAttribute unit
  return ⟨comment, ⟨d.componentSpace, engine.printWidth⟩, component, merge, route, s.strict.isTrue⟩

end TwigLayout
