import TwigLayout.Text.Utf8

/-!
# Faults

Every way in which formatting a template can fail, with the one function that words it.
-/

namespace TwigLayout

/-- Why a file operation failed. -/
inductive FileFault where
  | notFound
  | denied
  | alreadyExists
  | notDirectory
  | isDirectory
  /-- A directory on the way to the file in place of the file. -/
  | busy
  | nameTooLong
  deriving DecidableEq, Repr

/-- The number and the words of a fault. -/
def FileFault.words : FileFault → String
  | .notFound => "[Errno 2] No such file or directory"
  | .denied => "[Errno 13] Permission denied"
  | .busy => "[Errno 16] Device or resource busy"
  | .alreadyExists => "[Errno 17] File exists"
  | .notDirectory => "[Errno 20] Not a directory"
  | .isDirectory => "[Errno 21] Is a directory"
  | .nameTooLong => "[Errno 36] File name too long"

def FileFault.message (f : FileFault) (path : String) : String :=
  s!"{f.words}: {String.ofList (Text.quoted path.toList)}"

inductive Fault where
  /-- Tokens that did not come back from the engine. -/
  | lostTokens (kind : String) (tokens : List Text)
  /-- Tokens that a text to be written still holds. -/
  | leakedTokens (tokens : List Text)
  /-- A project file that cannot be read. -/
  | unreadableOptions (path reason : String)
  /-- A project file that is not in its format. -/
  | malformedOptions (path : String)
  /-- A project file whose content is something other than a mapping. -/
  | optionsNotMapping (path found : String)
  /-- An engine that cannot be started. -/
  | engineMissing (command reason : String)
  /-- An engine that took longer than its limit. -/
  | engineTimeout (limit : String)
  /-- An engine that refused the template. -/
  | engineFailed (message : String)
  /-- A line terminator of no characters. -/
  | emptySeparator
  /-- An edit of less than the whole document. -/
  | partialEdit
  /-- A text refused by the rule that forbids tabs. -/
  | tabFound
  /-- An entry of a list of pairs that is no pair. -/
  | notPair (index length : Nat)
  /-- A value of a type that cannot be used where it stands. -/
  | wrongType (reason : String)
  /-- A value in the place of a record. -/
  | notRecord (reason : String)
  /-- A first item asked of something without items. -/
  | noItem (reason : String)
  /-- A key asked of a mapping without it, as a message shows the key. -/
  | noKey (key : String)
  /-- A number that is beyond all sizes. -/
  | tooLarge (reason : String)
  /-- A text that is too long to be held. -/
  | outOfMemory
  /-- A value that is nested too deeply. -/
  | tooDeep
  /-- A text in the place of an integer to a base. -/
  | notInteger (base : Nat) (text : String)
  /-- An integer of too many digits to be read, with their number, or to be written. -/
  | tooManyDigits (count : Option Nat)
  /-- A text in the place of a floating point number. -/
  | notFloat (text : String)
  /-- A number in the place of a code point. -/
  | notCodePoint
  /-- A date or a time that no calendar or clock has. -/
  | notDate (reason : String)
  /-- A value that holds itself, in the place of one that can be written. -/
  | circular
  /-- A path with a character that no path can have. -/
  | nullInPath
  | file (cause : FileFault) (path : String)
  /-- A file whose bytes are no UTF-8 text. -/
  | notUtf8 (bytes : Utf8.BadBytes)
  /-- A settings file that is not JSON. -/
  | notJson
  /-- A supply of suffixes that repeats itself without a fresh one. -/
  | suffixesExhausted
  deriving DecidableEq, Repr

namespace Fault

/-- The wording of a fault. -/
def message : Fault → String
  | lostTokens kind tokens =>
    s!"{tokens.length} {kind} placeholder(s) lost during formatting: " ++
      ", ".intercalate (tokens.map String.ofList)
  | leakedTokens tokens =>
    "Formatted template still contains placeholder(s): " ++
      ", ".intercalate (tokens.map String.ofList)
  | unreadableOptions path reason => s!"Cannot read Prettier configuration {path}: {reason}"
  | malformedOptions path => s!"Invalid Prettier configuration {path}"
  | optionsNotMapping path found =>
    s!"Prettier configuration {path} must be a mapping, got {found}"
  | engineMissing command reason => s!"Cannot start prettier ({command}): {reason}"
  | engineTimeout limit => s!"prettier did not finish within {limit} seconds"
  | engineFailed message => message
  | emptySeparator => "empty separator"
  | partialEdit => "Only full-document replacement edits are supported"
  | tabFound => "tab"
  | notPair index length =>
    s!"dictionary update sequence element #{index} has length {length}; 2 is required"
  | wrongType reason => reason
  | notRecord reason => reason
  | noItem reason => reason
  | noKey key => key
  | tooLarge reason => reason
  | outOfMemory => ""
  | tooDeep => "maximum recursion depth exceeded"
  | notInteger base text =>
    let shown := String.ofList ((Text.quoted text.toList).take 200)
    s!"invalid literal for int() with base {base}: {shown}"
  | tooManyDigits count =>
    "Exceeds the limit (4300 digits) for integer string conversion" ++
      (count.map fun n => s!": value has {n} digits").getD "" ++
      "; use sys.set_int_max_str_digits() to increase the limit"
  | notFloat text =>
    let shown := String.ofList (Text.quoted text.toList)
    s!"could not convert string to float: {shown}"
  | notCodePoint => "chr() arg not in range(0x110000)"
  | notDate reason => reason
  | circular => "Circular reference detected"
  | nullInPath => "embedded null byte"
  | file cause path => cause.message path
  | notUtf8 bytes => bytes.message
  | notJson => "Expecting value"
  | suffixesExhausted => "no fresh placeholder suffix"

/-- The faults of formatting itself and of the files around it. They are reported for the file they
concern, and the next file is taken up. -/
def isReported : Fault → Bool
  | lostTokens .. | leakedTokens .. | unreadableOptions .. | malformedOptions ..
  | optionsNotMapping .. | engineMissing .. | engineTimeout .. | engineFailed .. | file .. => true
  | _ => false

end Fault

end TwigLayout
