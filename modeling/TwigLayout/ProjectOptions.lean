import TwigLayout.Glob
import TwigLayout.Log
import TwigLayout.Text.Line
import TwigLayout.Tree
import TwigLayout.Value.Toml
import TwigLayout.Value.Yaml.Shape

/-!
# Project options

The engine options of a project come from the nearest options file at or above a directory. An
options file may give more options for the files that certain globs stand for. Of several such
overrides the last one that sets a key counts.
-/

namespace TwigLayout.ProjectOptions

open Text

/-! ## Options files -/

inductive Format where
  | json
  | yaml
  | toml
  deriving DecidableEq, Repr

def Format.parse [YamlReader] : Format → Text → Reading Value
  | .json => Json.parse
  | .yaml => YamlReader.parse
  | .toml => Toml.parse

/-- The name of the file that holds options under one of its keys only. -/
def packageFile : String := "package.json"

/-- The key of the options in a package file. -/
def packageKey : String := "prettier"

/-- The names of options files in the order in which a directory is searched for them. -/
def candidates : List (String × Format) :=
  [(packageFile, .json), (".prettierrc", .yaml), (".prettierrc.json", .json),
    (".prettierrc.yaml", .yaml), (".prettierrc.yml", .yaml), (".prettierrc.toml", .toml)]

/-- The mapping in an options file. A file without a value holds an empty one. -/
def load [YamlReader] (t : Tree) (p : Path) (format : Format) : Except Fault Entries := do
  match t.file? p with
  | some f =>
    if !f.readable then
      .error (.unreadableOptions p.render (FileFault.denied.message p.render))
    let s ← Tree.decode f.content
    match ← (format.parse (unifyNewlines s)).mapError (·.toFault (.malformedOptions p.render)) with
    | .null => return []
    | .map entries => return entries
    | v => .error (.optionsNotMapping p.render v.typeName)
  | none => .error (.unreadableOptions p.render (FileFault.notFound.message p.render))

/-- Whether a file of the tree holds options. A package file without the key for them does not. -/
def holdsOptions [YamlReader] (t : Tree) (p : Path) (format : Format) : Except Fault Bool := do
  if t.nameTooLong p then .error (.file .nameTooLong p.render)
  if !t.isFile p then return false
  if p.name = packageFile then return (← load t p format).contains packageKey
  return true

/-- The first of the given files that holds options. -/
def firstFile [YamlReader] (t : Tree) : List (Path × Format) → Except Fault (Option (Path × Format))
  | [] => .ok none
  | (p, format) :: rest => do
    if ← holdsOptions t p format then return some (p, format) else firstFile t rest

/-- The files in which options for a directory are looked for: in it first, then upward. -/
def searched (dir : Path) : List (Path × Format) :=
  dir.ancestors.flatMap fun folder =>
    candidates.map fun (name, format) => (folder ++ [name], format)

/-- The nearest options file at or above a directory. -/
def findFile [YamlReader] (t : Tree) (dir : Path) : Except Fault (Option (Path × Format)) := do
  if dir.hasNull then .error .nullInPath
  firstFile t (searched dir)

/-! ## Globs of overrides -/

/-- Whether a glob stands for a file. A glob without a slash is matched with the name of the file,
any other with its path from the directory `dir`, where every `**/` may also stand for nothing. A
file outside the directory is matched with its whole path. -/
def globFits (file : Path) (dir : Option Path) (glob : Text) : Bool :=
  if glob.contains '/' then
    let path := ((dir.bind (Path.below? · file)).map Path.renderRelative).getD file.render
    let glob := (after? ['.', '/'] glob).getD glob
    Glob.fits glob path.toList || Glob.fits (replaceAll "**/".toList [] glob) path.toList
  else Glob.fits glob file.name.toList

/-- The fault of a value in the place of a glob. A collection shows only where it is matched: as a
name, or as a path if it holds a slash. -/
def globFault (v : Value) : Fault :=
  match v, v.items with
  | .bytes _, _ => .wrongType "a bytes-like object is required, not 'str'"
  | v, .ok items =>
    if items.contains (.str "/") then
      .notRecord s!"'{v.typeName}' object has no attribute 'removeprefix'"
    else .wrongType s!"expected str, bytes or os.PathLike object, not {v.typeName}"
  | v, .error _ => .wrongType s!"argument of type '{v.fullTypeName}' is not iterable"

/-- Whether one item of a list of globs stands for a file. An item that is no text is a fault. -/
def itemFits (file : Path) (dir : Option Path) : Value → Except Fault Bool
  | .str glob => .ok (globFits file dir glob.toList)
  | v => .error (globFault v)

/-- Whether one of several globs stands for a file, in their order. -/
def anyFits (file : Path) (dir : Option Path) : List Value → Except Fault Bool
  | [] => .ok false
  | item :: rest => do
    if ← itemFits file dir item then return true else anyFits file dir rest

/-- Whether a glob, or one of several, stands for a file. -/
def globsFit (globs : Value) (file : Path) (dir : Option Path) : Except Fault Bool := do
  if file.hasNull then .error .nullInPath
  match globs with
  | .str _ => anyFits file dir [globs]
  | _ => anyFits file dir (← globs.items)

/-! ## Overrides -/

/-- The pair that an item of a list of options stands for: a key and a value are its own items. -/
def pairOf (index : Nat) (item : Value) : Except Fault (Value × Value) :=
  match item.items with
  | .ok [k, v] =>
    match k.noKey? with
    | some name => .error (.wrongType s!"unhashable type: '{name}'")
    | none => .ok (k, v)
  | .ok items => .error (.notPair index items.length)
  | .error _ => .error (.wrongType
      s!"cannot convert dictionary update sequence element #{index} to a sequence")

/-- Sets options from a mapping, or from a list of pairs. -/
def setOptions (options : Entries) : Value → Except Fault Entries
  | .map more => .ok (options.setAll more)
  | v => do
    let items ← v.items
    let pairs ← (items.zipIdx).mapM fun (item, index) => pairOf index item
    return options.setAll pairs

/-- Whether an override is for a file: its globs stand for the file, and those it excludes do
not. -/
def Override.applies (override : Entries) (file dir : Path) : Except Fault Bool := do
  let globs := (override.get? "files").getD (.list [])
  let excluded := (override.get? "excludeFiles").getD (.list [])
  if ← globsFit globs file (some dir) then
    if excluded.isTrue then return !(← globsFit excluded file (some dir)) else return true
  else return false

/-- Adds the options of one override if it is for the file. -/
def applyOverride (file dir : Path) (options : Entries) (override : Value) :
    Except Fault Entries := do
  let override ← override.asEntries
  if ← Override.applies override file dir then
    setOptions options ((override.get? "options").getD (.map []))
  else return options

/-- The options that the content of an options file in a directory gives for a file, or for none in
particular. -/
def optionsOf (content : Entries) (dir : Path) (file : Option Path) : Except Fault Entries := do
  let options := content.erase "overrides"
  match file with
  | none => return options
  | some file =>
    let overrides ← ((content.get? "overrides").getD (.list [])).items
    overrides.foldlM (applyOverride file dir) options

/-! ## Resolution -/

/-- The options in a file that was found. What a package file holds may be a reference to options
elsewhere, which are not looked up. -/
def contentOf [YamlReader] (t : Tree) (p : Path) (format : Format) :
    Except Fault (Option Entries) := do
  let entries ← load t p format
  if p.name = packageFile then
    match entries.get? packageKey with
    | some (.map inner) => return some inner
    | some _ => return none
    | none => .error (.noKey (Value.quoted packageKey))
  else return some entries

/-- The options of the project that a directory belongs to, for a file or for none in particular. -/
def resolve [YamlReader] (t : Tree) (directory : String) (file : Option String) :
    Logged Entries := do
  match ← findFile t (Path.resolve directory) with
  | none =>
    Logged.debug .projectOptions s!"No Prettier configuration found from {directory}"
    return []
  | some (p, format) =>
    match ← contentOf t p format with
    | none =>
      Logged.warning .projectOptions s!"Ignoring non-inline prettier entry in {p.render}"
      return []
    | some content =>
      Logged.debug .projectOptions s!"Using Prettier configuration {p.render}"
      let file := file.filter (· != "")
      optionsOf content p.dropLast (file.map Path.resolve)

end TwigLayout.ProjectOptions
