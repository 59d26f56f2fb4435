import TwigLayout.Fault
import TwigLayout.Value.Double
import TwigLayout.Value.Moment

/-!
# Values

The values that settings and project options hold: those of JSON, with integers of any size, and
with mappings that keep the order of their keys, and beyond them the dates, bytes and collections
that other formats can write. What a settings file says is kept as a value until it is used, so a
value of the wrong type shows only there.
-/

namespace TwigLayout

inductive Value where
  | null
  | bool (b : Bool)
  | int (i : Int)
  | float (x : Double)
  | str (s : String)
  | bytes (bs : List UInt8)
  | moment (m : Moment)
  | list (items : List Value)
  /-- A list that stays as it is, and so may be a key. -/
  | tuple (items : List Value)
  /-- A collection without order, in the order in which it was written. -/
  | set (items : List Value)
  | map (entries : List (Value × Value))
  /-- A part of a value that holds itself, where the value is cut off. -/
  | endless
  deriving Repr, Inhabited

namespace Value

/-! ## Equality -/

mutual

/-- Whether two values are the same, part by part. -/
def beq : Value → Value → Bool
  | .null, .null | .endless, .endless => true
  | .bool a, .bool b => a == b
  | .int a, .int b => a == b
  | .float a, .float b => a == b
  | .str a, .str b => a == b
  | .bytes a, .bytes b => a == b
  | .moment a, .moment b => a == b
  | .list a, .list b | .tuple a, .tuple b | .set a, .set b => beqList a b
  | .map a, .map b => beqEntries a b
  | _, _ => false

def beqList : List Value → List Value → Bool
  | [], [] => true
  | a :: as, b :: bs => beq a b && beqList as bs
  | _, _ => false

def beqEntries : List (Value × Value) → List (Value × Value) → Bool
  | [], [] => true
  | (k, a) :: as, (l, b) :: bs => beq k l && beq a b && beqEntries as bs
  | _, _ => false

end

mutual

theorem beq_iff : (a b : Value) → (beq a b = true ↔ a = b)
  | .null, b | .endless, b => by cases b <;> simp [beq]
  | .bool a, b | .int a, b | .float a, b | .str a, b | .bytes a, b | .moment a, b => by
    cases b <;> simp [beq]
  | .list a, b => by cases b <;> simp [beq, beqList_iff a]
  | .tuple a, b => by cases b <;> simp [beq, beqList_iff a]
  | .set a, b => by cases b <;> simp [beq, beqList_iff a]
  | .map a, b => by cases b <;> simp [beq, beqEntries_iff a]

theorem beqList_iff : (a b : List Value) → (beqList a b = true ↔ a = b)
  | [], b => by cases b <;> simp [beqList]
  | a :: as, [] => by simp [beqList]
  | a :: as, b :: bs => by simp [beqList, beq_iff a b, beqList_iff as bs]

theorem beqEntries_iff : (a b : List (Value × Value)) → (beqEntries a b = true ↔ a = b)
  | [], b => by cases b <;> simp [beqEntries]
  | a :: as, [] => by simp [beqEntries]
  | (k, a) :: as, (l, b) :: bs => by
    simp [beqEntries, beq_iff k l, beq_iff a b, beqEntries_iff as bs, and_assoc]

end

instance : DecidableEq Value := fun a b => decidable_of_iff (beq a b = true) (beq_iff a b)

/-- The value that stands for all keys equal to a value: a truth value or a floating point number
that is an integer counts as that integer. -/
def keyForm : Value → Value
  | .bool b => .int b.toNat
  | .float x => (x.toInt?.map Value.int).getD (.float x)
  | .moment m => .moment m.keyForm
  | v => v

/-- Whether two keys are one key of a mapping. What is not a number is never equal to itself. -/
def sameKey (a b : Value) : Bool := a != .float .nan && a.keyForm = b.keyForm

theorem keyForm_eq_str_iff {v : Value} {s : String} : v.keyForm = .str s ↔ v = .str s := by
  cases v with
  | float x => cases hx : x.toInt? <;> simp [keyForm, hx]
  | _ => simp [keyForm]

theorem sameKey_str_iff {v : Value} {s : String} : v.sameKey (.str s) = true ↔ v = .str s := by
  have h : (Value.str s).keyForm = .str s := rfl
  simp only [sameKey, h, Bool.and_eq_true, decide_eq_true_eq, keyForm_eq_str_iff]
  exact ⟨And.right, fun hv => ⟨by simp [hv], hv⟩⟩

end Value

/-- The entries of a mapping, in order. -/
abbrev Entries := List (Value × Value)

namespace Entries

/-- A mapping from texts. -/
def named (pairs : List (String × Value)) : Entries := pairs.map fun p => (.str p.1, p.2)

def get? (entries : Entries) (key : String) : Option Value :=
  (entries.find? fun e => e.1 == .str key).map (·.2)

def contains (entries : Entries) (key : String) : Bool := entries.any fun e => e.1 == .str key

/-- Sets a key: in its place if the mapping has it, and at the end otherwise. -/
def set (key value : Value) : Entries → Entries
  | [] => [(key, value)]
  | e :: rest =>
    if e.1.sameKey key then (e.1, value) :: rest else e :: set key value rest

def erase (entries : Entries) (key : String) : Entries := entries.filter fun e => e.1 != .str key

theorem get?_erase_self (key : String) (entries : Entries) :
    (entries.erase key).get? key = none := by
  simp [get?, erase]

/-- Sets all keys of another mapping, in its order. -/
def setAll (entries other : Entries) : Entries :=
  other.foldl (fun acc e => set e.1 e.2 acc) entries

/-- A mapping from pairs. A repeated key keeps its place and takes the last value. -/
def ofPairs (pairs : List (Value × Value)) : Entries := setAll [] pairs

end Entries

/-- A mapping from texts as a value. -/
def Value.record (pairs : List (String × Value)) : Value := .map (Entries.named pairs)

/-! ## Reading values -/

/-- Why a text could not be read as a value. -/
inductive Unread where
  /-- The text is not in its format. -/
  | malformed
  /-- A part of the text has the form of a value and stands for none. -/
  | fault (f : Fault)
  deriving DecidableEq, Repr

/-- What reading a value from a text gives. -/
abbrev Reading := Except Unread

instance : MonadLift Option Reading where
  monadLift
    | some a => .ok a
    | none => .error .malformed

/-- The fault of a text that could not be read, with the one for a text not in its format. -/
def Unread.toFault (malformed : Fault) : Unread → Fault
  | .malformed => malformed
  | .fault f => f

/-- What reads YAML. What is said about the options of a project goes for every such reader. -/
class YamlReader where
  parse : Text → Reading Value

/-- The greatest number of decimal digits that are read as an integer. -/
def digitBound : Nat := 4300

/-- The integer of a sign and decimal digits. -/
def integerOf (negative : Bool) (digits : Text) : Reading Int :=
  if digitBound < digits.length then .error (.fault (.tooManyDigits (some digits.length)))
  else
    let n : Int := digits.foldl (fun n c => 10 * n + (c.toNat - '0'.toNat)) 0
    .ok (if negative then -n else n)

namespace Value

/-- The name of a value's type. -/
def typeName : Value → String
  | null => "NoneType"
  | bool _ => "bool"
  | int _ => "int"
  | float _ => "float"
  | str _ => "str"
  | bytes _ => "bytes"
  | moment m => m.typeName
  | list _ | endless => "list"
  | tuple _ => "tuple"
  | set _ => "set"
  | map _ => "dict"

/-- The name of a value's type with that of the family to which it belongs. -/
def fullTypeName (v : Value) : String :=
  match v with
  | moment m => s!"datetime.{m.typeName}"
  | v => v.typeName

/-- Whether a value counts as a yes: everything does but null, false, zero and what is empty. -/
def isTrue : Value → Bool
  | null => false
  | bool b => b
  | int i => i != 0
  | float x => !x.isZero
  | str s => s != ""
  | bytes bs => !bs.isEmpty
  | list items | tuple items | set items => !items.isEmpty
  | map entries => !entries.isEmpty
  | moment _ | endless => true

/-- The items of a value: the elements of a collection, the characters of a text, the numbers of
bytes, the keys of a mapping. -/
def items : Value → Except Fault (List Value)
  | list items | tuple items | set items => .ok items
  | str s => .ok (s.toList.map fun c => str (String.ofList [c]))
  | bytes bs => .ok (bs.map fun b => int b.toNat)
  | map entries => .ok (entries.map (·.1))
  | v => .error (.wrongType s!"'{v.fullTypeName}' object is not iterable")

mutual

/-- The name of the type for which a value cannot be a key, if it cannot be one. -/
def noKey? : Value → Option String
  | list _ | endless => some "list"
  | set _ => some "set"
  | map _ => some "dict"
  | tuple items => noKeyAmong? items
  | _ => none

def noKeyAmong? : List Value → Option String
  | [] => none
  | v :: vs => noKey? v <|> noKeyAmong? vs

end

/-- The key of a setting, which has to be a text. -/
def asName : Value → Except Fault String
  | str s => .ok s
  | v => .error (.wrongType s!"a setting cannot go by a value of type '{v.typeName}'")

/-- The text of a value that has to be one. -/
def asText : Value → Except Fault Text
  | str s => .ok s.toList
  | v => .error (.wrongType s!"expected str, got {v.typeName}")

/-- The entries of a value that has to be a mapping, for looking up one of its keys. -/
def asEntries : Value → Except Fault Entries
  | map entries => .ok entries
  | v => .error (.notRecord s!"'{v.fullTypeName}' object has no attribute 'get'")

/-- Whether a number is at least `n`. A truth value counts as zero or one. -/
def atLeast (n : Nat) : Value → Except Fault Bool
  | int i => .ok (n ≤ i)
  | bool b => .ok (n ≤ b.toNat)
  | float x => .ok (x.atLeast n)
  | v => .error (.wrongType
      s!"'<=' not supported between instances of 'int' and '{v.typeName}'")

/-! ## Text of values -/

/-- A text inside a list or a mapping. -/
def quoted (s : String) : String := String.ofList (Text.quoted s.toList)

mutual

/-- The text of a value inside a list or a mapping. -/
def inner : Value → String
  | null => "None"
  | bool b => if b then "True" else "False"
  | int i => toString i
  | float x => x.text
  | str s => quoted s
  | bytes bs => String.ofList (Text.quotedBytes bs)
  | moment m => m.text
  | list items => "[" ++ ", ".intercalate (innerList items) ++ "]"
  | tuple items => "(" ++ ", ".intercalate (innerList items) ++ ")"
  | set items => "\x7b" ++ ", ".intercalate (innerList items) ++ "\x7d"
  | map entries => "\x7b" ++ ", ".intercalate (innerEntries entries) ++ "\x7d"
  | endless => "..."

def innerList : List Value → List String
  | [] => []
  | v :: vs => inner v :: innerList vs

def innerEntries : List (Value × Value) → List String
  | [] => []
  | (k, v) :: es => (inner k ++ ": " ++ inner v) :: innerEntries es

end

/-- The text of a value inside a message. -/
def text : Value → String
  | str s => s
  | v => inner v

end Value

end TwigLayout
