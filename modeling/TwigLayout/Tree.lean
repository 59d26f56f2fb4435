import TwigLayout.Fault
import TwigLayout.Path

/-!
# File trees

The part of a file system that a run sees: directories and files with their bytes. The root is
always a directory.
-/

namespace TwigLayout

structure File where
  content : ByteArray
  /-- Whether the file may be read. -/
  readable : Bool := true

inductive Node where
  | directory
  | file (f : File)

/-- The nodes of a tree by path. At most one counts for each path: the first. -/
structure Tree where
  nodes : List (Path × Node)

namespace Tree

def empty : Tree := ⟨[]⟩

def find? (t : Tree) (p : Path) : Option Node :=
  if p = [] then some .directory else (t.nodes.find? fun n => n.1 = p).map (·.2)

@[simp] theorem find?_root (t : Tree) : t.find? [] = some .directory := rfl

def file? (t : Tree) (p : Path) : Option File :=
  match t.find? p with
  | some (.file f) => some f
  | _ => none

def isFile (t : Tree) (p : Path) : Bool := (t.file? p).isSome

def isDirectory (t : Tree) (p : Path) : Bool :=
  match t.find? p with
  | some .directory => true
  | _ => false

/-- Whether something is there that may be read. -/
def isReadable (t : Tree) (p : Path) : Bool :=
  match t.find? p with
  | some (.file f) => f.readable
  | some .directory => true
  | none => false

/-- The greatest number of bytes in a name. -/
def nameBound : Nat := 255

/-- The least number of bytes that a path cannot have. -/
def pathBound : Nat := 4096

/-- Whether looking up a path ends at a name that is too long. Names are looked up one after the
other, so one below something that is not there does not matter. -/
def nameTooLong (t : Tree) (p : Path) : Bool :=
  pathBound ≤ p.render.utf8ByteSize ||
    p.zipIdx.any fun (name, i) => nameBound < name.utf8ByteSize && t.isDirectory (p.take i)

/-! ## Changes -/

def setNode (p : Path) (node : Node) : List (Path × Node) → List (Path × Node)
  | [] => [(p, node)]
  | n :: rest => if n.1 = p then (p, node) :: rest else n :: setNode p node rest

/-- Puts a node at a path. -/
def put (p : Path) (node : Node) (t : Tree) : Tree := ⟨setNode p node t.nodes⟩

/-- Takes away the node at a path. -/
def erase (p : Path) (t : Tree) : Tree := ⟨t.nodes.filter fun n => n.1 != p⟩

theorem find?_setNode_self (p : Path) (node : Node) (nodes : List (Path × Node)) :
    (setNode p node nodes).find? (fun n => n.1 = p) = some (p, node) := by
  fun_induction setNode p node nodes <;> simp_all

theorem find?_setNode_of_ne {p q : Path} (h : q ≠ p) (node : Node) (nodes : List (Path × Node)) :
    (setNode p node nodes).find? (fun n => n.1 = q) = nodes.find? (fun n => n.1 = q) := by
  fun_induction setNode p node nodes with
  | case1 => simp [Ne.symm h]
  | case2 n rest hn => simp [hn, Ne.symm h]
  | case3 n rest hn ih => simp [List.find?_cons, ih]

theorem find?_put_self {p : Path} (h : p ≠ []) (node : Node) (t : Tree) :
    (t.put p node).find? p = some node := by
  simp [find?, put, h, find?_setNode_self]

theorem find?_put_of_ne {p q : Path} (h : q ≠ p) (node : Node) (t : Tree) :
    (t.put p node).find? q = t.find? q := by
  simp [find?, put, find?_setNode_of_ne h]

theorem find?_erase_self {p : Path} (h : p ≠ []) (t : Tree) : (t.erase p).find? p = none := by
  simp [find?, erase, h]

theorem find?_erase_of_ne {p q : Path} (h : q ≠ p) (t : Tree) :
    (t.erase p).find? q = t.find? q := by
  simp only [find?, erase, List.find?_filter]
  congr 3
  funext n
  by_cases hn : n.1 = q <;> simp [hn, h]

/-- Adds a directory if nothing is there. -/
def ensureDirectory (t : Tree) (p : Path) : Tree :=
  if (t.find? p).isSome then t else t.put p .directory

/-- Adds the directories above and at a path that are not there. -/
def ensureDirectories (t : Tree) (p : Path) : Tree :=
  p.ancestors.reverse.foldl ensureDirectory t

/-- Adds a node with the directories above it. -/
def add (t : Tree) (p : Path) (node : Node) : Tree :=
  (t.ensureDirectories p.dropLast).put p node

/-! ## Access by written path -/

/-- Follows the names of a written path. Each name is looked up in a directory that has to be
there. -/
def walk (t : Tree) (s : String) : (names : List String) → (dir : Path) → Except Fault Path
  | [], p => .ok p
  | name :: names, p =>
    match t.find? p with
    | some .directory =>
      if nameBound < name.utf8ByteSize then .error (.file .nameTooLong s)
      else walk t s names (Path.step p name)
    | some (.file _) => .error (.file .notDirectory s)
    | none => .error (.file .notFound s)

/-- The bytes of the file at a written absolute path. -/
def readBytes (t : Tree) (s : String) : Except Fault ByteArray := do
  if s.toList.contains '\x00' then .error .nullInPath
  if pathBound ≤ s.utf8ByteSize then .error (.file .nameTooLong s)
  match t.find? (← t.walk s (Path.names s) []) with
  | some (.file f) => if f.readable then .ok f.content else .error (.file .denied s)
  | some .directory => .error (.file .isDirectory s)
  | none => .error (.file .notFound s)

/-- Enters the directory at a written absolute path. -/
def enter (t : Tree) (s : String) : Except Fault Unit := do
  if pathBound ≤ s.utf8ByteSize then .error (.file .nameTooLong s)
  match t.find? (← t.walk s (Path.names s) []) with
  | some .directory => .ok ()
  | some (.file _) => .error (.file .notDirectory s)
  | none => .error (.file .notFound s)

/-- The characters of the bytes of a file. -/
def decode (bytes : ByteArray) : Except Fault Text := (Utf8.decode bytes).mapError .notUtf8

theorem decode_encode (s : Text) : decode (Utf8.encode s) = .ok s := by
  rw [decode, Utf8.decode_encode]
  rfl

/-- The text of the file at a written absolute path. -/
def readText (t : Tree) (s : String) : Except Fault Text := do decode (← t.readBytes s)

/-- The files of the tree with their paths. -/
def files (t : Tree) : List (Path × File) :=
  t.nodes.filterMap fun n =>
    match n.2 with
    | .file f => some (n.1, f)
    | .directory => none

end Tree

end TwigLayout
