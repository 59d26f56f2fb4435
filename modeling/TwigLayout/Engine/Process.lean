import TwigLayout.Engine
import TwigLayout.Tree

/-!
# Processes

A child process as the system runs it: it is started in a directory, is waited for as long as the
limit of its call allows, and leaves bytes behind. `Process.child` tells what a caller sees of it,
who wants texts. Whatever goes wrong on the way ends the call with its fault.
-/

namespace TwigLayout.Engine

/-- What becomes of a command that the system is asked to start. -/
inductive Ending where
  /-- The command is not started. A cause that is none of these counts as one that is denied. -/
  | refused (cause : FileFault)
  /-- The process goes on for longer than the limit of its call. -/
  | overdue
  | ended (stdout stderr : ByteArray) (status : Int)

/-- The behaviour of the processes of a command. It depends on the call alone. -/
abbrev Process := Call → Ending

/-- The fault of a part of a command line that cannot be handed to the system. -/
def partFault? : Value → Option Fault
  | .str s => if s.toList.contains '\x00' then some .nullInPath else none
  | .bytes bs => if bs.contains 0 then some .nullInPath else none
  | v => some (.wrongType s!"expected str, bytes or os.PathLike object, not {v.typeName}")

/-- Why a call cannot be handed to the system. -/
def Call.fault? (call : Call) : Option Fault :=
  (call.command.findSome? partFault?).or ((call.directory.map Value.str).bind partFault?)

/-! ## Waiting -/

/-- The greatest number of milliseconds that the system waits for. -/
def waitBound : Int := Int.pow 2 31 - 1

/-- The least integer that is too large to be taken for a number of seconds. -/
def secondsBound : Nat := Nat.pow 2 1024 - Nat.pow 2 970

/-- Waits for at most `num / den` seconds. -/
def waitSeconds (num : Int) (den : Nat) : Except StartFault Unit :=
  if num ≤ 0 then .error .timedOut
  else if waitBound * den < num * 1000 then .error (.raised (.tooLarge "timeout is too large"))
  else .ok ()

/-- Waits for a process that takes no time. Without a limit every process is waited for, and no
process is in time for a limit that is over at once. -/
def wait : Value → Except StartFault Unit
  | .null => .ok ()
  | .bool b => waitSeconds b.toNat 1
  | .int i =>
    if secondsBound ≤ i.natAbs then
      .error (.raised (.tooLarge "int too large to convert to float"))
    else waitSeconds i 1
  | .float .nan => .error (.raised (.notDate "cannot convert float NaN to integer"))
  | .float (.infinite true) => .error .timedOut
  | .float (.infinite false) =>
    .error (.raised (.tooLarge "cannot convert float infinity to integer"))
  | .float (.finite negative m e) =>
    let (num, den) := Double.scale 2 m 1 e
    waitSeconds (if negative then -num else num) den
  | v => .error (.raised
      (.wrongType s!"unsupported operand type(s) for +: 'float' and '{v.fullTypeName}'"))

/-! ## Calls -/

/-- What a caller sees of an ending who wants texts. -/
def Ending.read (call : Call) : Ending → Except StartFault Output
  | .refused cause => .error (.refused cause)
  | .overdue => do
    wait call.timeout
    .error .timedOut
  | .ended stdout stderr status => do
    wait call.timeout
    let stdout ← (Tree.decode stdout).mapError .raised
    let stderr ← (Tree.decode stderr).mapError .raised
    return ⟨stdout, stderr, status⟩

/-- Enters the directory of a call, if it names one. -/
def Call.enter (t : Tree) (call : Call) : Except Fault Unit :=
  match call.directory with
  | some directory => t.enter directory
  | none => .ok ()

/-- What a caller sees of the processes that the system runs for its calls, in the directories of a
tree. -/
def Process.child (t : Tree) (process : Process) : Child := fun call =>
  match call.fault? with
  | some fault => .error (.raised fault)
  | none => do
    (call.enter t).mapError .raised
    (process call).read call

end TwigLayout.Engine
