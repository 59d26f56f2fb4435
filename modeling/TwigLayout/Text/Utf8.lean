import TwigLayout.Text.Quoted

/-!
# UTF-8

The text of bytes. Bytes that are not UTF-8 fail at their first place that no character can have,
and the fault tells which bytes stand there and why they are none.
-/

namespace TwigLayout.Utf8

/-- Why bytes are no character. -/
inductive Reason where
  /-- The first byte starts none. -/
  | start
  /-- The byte after them does not go on with it. -/
  | continuation
  /-- The text ends before it does. -/
  | ending
  deriving DecidableEq, Repr

def Reason.text : Reason → String
  | .start => "invalid start byte"
  | .continuation => "invalid continuation byte"
  | .ending => "unexpected end of data"

/-- Bytes that are no character, with their offset. -/
structure BadBytes where
  offset : Nat
  bytes : List UInt8
  reason : Reason
  deriving DecidableEq, Repr

def BadBytes.message (b : BadBytes) : String :=
  let place :=
    match b.bytes with
    | [byte] => s!"byte 0x{String.ofList (Text.hexDigits 2 byte.toNat)} in position {b.offset}"
    | bytes => s!"bytes in position {b.offset}-{b.offset + bytes.length - 1}"
  s!"'utf-8' codec can't decode {place}: {b.reason.text}"

/-! ## Characters -/

/-- The number of bytes after the first byte of a character, with the least and the greatest one
that may stand second. -/
def lead? (b : UInt8) : Option (Nat × UInt8 × UInt8) :=
  if b < 0x80 then some (0, 0x80, 0xBF)
  else if b < 0xC2 then none
  else if b < 0xE0 then some (1, 0x80, 0xBF)
  else if b < 0xF0 then
    some (2, if b = 0xE0 then 0xA0 else 0x80, if b = 0xED then 0x9F else 0xBF)
  else if b < 0xF5 then
    some (3, if b = 0xF0 then 0x90 else 0x80, if b = 0xF4 then 0x8F else 0xBF)
  else none

/-- What is wrong with the `n` bytes after the first ones of a character, which are `before` many.
The next of them is in a range, and those after it in the range of all continuation bytes. -/
def tailFault? : (n : Nat) → (lo hi : UInt8) → (before : Nat) → List UInt8 → Option (Nat × Reason)
  | 0, _, _, _, _ => none
  | _ + 1, _, _, before, [] => some (before, .ending)
  | n + 1, lo, hi, before, b :: rest =>
    if lo ≤ b && b ≤ hi then tailFault? n 0x80 0xBF (before + 1) rest
    else some (before, .continuation)

/-- The first bytes that are no character. The first `skip` bytes belong to the character before. -/
def badBytes? : (offset skip : Nat) → List UInt8 → Option BadBytes
  | _, _, [] => none
  | offset, skip + 1, _ :: rest => badBytes? (offset + 1) skip rest
  | offset, 0, b :: rest =>
    match lead? b with
    | none => some ⟨offset, [b], .start⟩
    | some (n, lo, hi) =>
      match tailFault? n lo hi 1 rest with
      | some (count, reason) => some ⟨offset, (b :: rest).take count, reason⟩
      | none => badBytes? (offset + 1) n rest

/-! ## Texts -/

/-- The characters of bytes. -/
def decode (bytes : ByteArray) : Except BadBytes Text :=
  match String.fromUTF8? bytes with
  | some s => .ok s.toList
  | none => .error ((badBytes? 0 0 bytes.toList).getD ⟨0, [], .start⟩)

def encode (s : Text) : ByteArray := (String.ofList s).toUTF8

theorem decode_encode (s : Text) : decode (encode s) = .ok s := by
  have h : String.fromUTF8? (String.ofList s).toUTF8 = some (String.ofList s) :=
    dif_pos (String.ofList s).isValidUTF8
  rw [decode, encode, h]
  exact congrArg Except.ok String.toList_ofList

end TwigLayout.Utf8
