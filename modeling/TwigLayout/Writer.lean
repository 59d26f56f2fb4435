import TwigLayout.Placeholder.Shield
import TwigLayout.Tree

/-!
# Writing files

A file is replaced as a whole or not at all. The content goes to a new file beside the target, is
checked, and then takes the target's place. When anything fails on the way the new file is removed.
Directories that were made for the target stay.

A content always has bytes. It comes from files and from the engine, whose bytes hold no surrogates.
Only values of settings and options can have one, and no content is made of these.
-/

namespace TwigLayout.Writer

open Text

/-! ## Checks -/

/-- A check of the content before it takes its place. A caller may bring one of its own. -/
abbrev Check := Text → Except Fault Unit

/-- Refuses a text that still holds something of the form of a token. -/
def noLeaks : Check := fun s =>
  match Placeholder.leaks s with
  | [] => .ok ()
  | tokens => .error (.leakedTokens tokens)

/-- Refuses a text that holds a tab, as a caller may ask for. -/
def noTabs : Check := fun s => if s.contains '\t' then .error .tabFound else .ok ()

/-- Refuses nothing. -/
def noCheck : Check := fun _ => .ok ()

/-! ## Writing -/

/-- The tree after an attempt to write, and whether it succeeded. -/
structure Attempt (α : Type) where
  tree : Tree
  result : Except Fault α

/-- Makes the directory that names lead to from a directory, with those on the way. -/
def makeDirectories (path : String) :
    (names : List String) → (dir : Path) → Tree → Attempt Path
  | [], dir, t => ⟨t, .ok dir⟩
  | name :: names, dir, t =>
    let p := Path.step dir name
    match t.find? p with
    | some .directory => makeDirectories path names p t
    | some (.file _) =>
      ⟨t, .error (.file (if names.isEmpty then .alreadyExists else .notDirectory) path)⟩
    | none =>
      if Tree.nameBound < name.utf8ByteSize then ⟨t, .error (.file .nameTooLong path)⟩
      else makeDirectories path names p (t.put p .directory)

/-- The name of a new file for a target: the first of a sequence that the directory does not
have. -/
def newName (t : Tree) (dir : Path) (name : String) : String :=
  let names := (List.range (t.nodes.length + 1)).map fun n => s!".{name}.{n}.tmp"
  (names.find? fun n => (t.find? (dir ++ [n])).isNone).getD s!".{name}.tmp"

/-- The number of bytes by which the name of a new file is longer than that of its target. -/
def newNameExtra : Nat := 14

/-- Why no file can take the place of a target with the given last name. -/
def obstacle? (t : Tree) (name : String) (target : Path) : Option FileFault :=
  if name = ".." then some .busy
  else if t.isDirectory target then some .isDirectory
  else none

/-- Puts a new file with the content beside the target and then in its place, if the check lets it
pass and nothing stands against it. -/
def replaceFile (check : Check) (path : String) (dir : Path) (name : String) (content : Text)
    (t : Tree) : Attempt Unit :=
  let new : Path := dir ++ [newName t dir name]
  let target := Path.step dir name
  let file : Node := .file { content := Utf8.encode content }
  let written := t.put new file
  match check content with
  | .error e => ⟨written.erase new, .error e⟩
  | .ok () =>
    match obstacle? t name target with
    | some cause => ⟨written.erase new, .error (.file cause path)⟩
    | none => ⟨(written.erase new).put target file, .ok ()⟩

/-- Whether the path of the directory for a target cannot be given to the system. -/
def directoryTooLong (names : List String) : Bool :=
  Tree.pathBound ≤ (Path.render names.dropLast).utf8ByteSize

/-- Whether a new file for a target has a name or a path that the system does not take. -/
def newFileTooLong (names : List String) (name : String) : Bool :=
  Tree.nameBound < name.utf8ByteSize + newNameExtra ||
    Tree.pathBound ≤ (Path.render names).utf8ByteSize + newNameExtra

/-- Writes a text to the file at a written absolute path, with the directories above it. -/
def write (check : Check) (path : String) (content : Text) (t : Tree) : Attempt Unit :=
  let names := Path.names path
  match names.getLast? with
  | none => ⟨t, .error (.file .isDirectory path)⟩
  | some name =>
    if Path.hasNull names then ⟨t, .error .nullInPath⟩
    else if directoryTooLong names then ⟨t, .error (.file .nameTooLong path)⟩
    else
      match makeDirectories path names.dropLast [] t with
      | ⟨t, .error e⟩ => ⟨t, .error e⟩
      | ⟨t, .ok dir⟩ =>
        if newFileTooLong names name then ⟨t, .error (.file .nameTooLong path)⟩
        else replaceFile check path dir name content t

end TwigLayout.Writer
