import TwigLayout.CommandLine
import TwigLayout.Engine.Process

/-!
# The program

Reads the part of the file system that a run looks at, does the run on it, and writes back the files
that came out different. Everything in between is `CommandLine.run`.
-/

namespace TwigLayout.Main

open CommandLine

/-- The paths that arguments name, seen from a directory. -/
def named (cwd : Path) (a : Arguments) : List Path :=
  (a.config.toList ++ a.workspace.toList ++ a.paths).map (Path.resolveFrom cwd)

/-- The options files that a run with the arguments may read. -/
def optionsFiles (cwd : Path) (a : Arguments) : List Path :=
  let folders :=
    match a.workspace with
    | some w => [Path.resolveFrom cwd w]
    | none => a.paths.map fun p => (Path.resolveFrom cwd p).dropLast
  (folders.flatMap ProjectOptions.searched).map (·.1)

/-- Adds what stands at a path to a tree. A file that cannot be read is there all the same. -/
def load (t : Tree) (p : Path) : IO Tree := do
  let place := (← IO.currentDir) / p.render
  if ← place.isDir then return t.ensureDirectories p
  if !(← place.pathExists) then return t
  try return t.add p (.file { content := ← IO.FS.readBinFile place })
  catch _ => return t.add p (.file { content := .empty, readable := false })

/-- Writes the files that differ between two trees. Each goes to a new file first, which then takes
the place of the old one. -/
def store (before after : Tree) : IO Unit := do
  for (p, file) in after.files do
    if (before.file? p).all (fun old => old.content != file.content) then
      let new : Path := p.dropLast ++ [Writer.newName after p.dropLast p.name]
      IO.FS.writeBinFile new.render file.content
      IO.FS.rename new.render p.render

/-- The engine of the program. None comes with it, so that every start fails. -/
def engine : Engine.Process := fun _ => .refused .notFound

/-- A run of the program with its exit status. -/
def run (args : List String) : IO UInt32 := do
  let cwd := Path.resolve (← IO.currentDir).toString
  let a := (readArguments args.length args {}).getD {}
  let t ← (named cwd a ++ optionsFiles cwd a).foldlM load .empty
  let o := CommandLine.run t (engine.child t) "options.json" cwd args
  (o.stderr ++ (o.crash.map Fault.message).toList).forM fun line => IO.eprintln line
  store t o.tree
  o.stdout.forM fun line => IO.println line
  return o.exitCode.toUInt32

end TwigLayout.Main

def main (args : List String) : IO UInt32 := TwigLayout.Main.run args
