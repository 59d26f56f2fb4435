import TwigLayout.Component.Tag
import TwigLayout.Log
import TwigLayout.Text.Line
import TwigLayout.Text.Scan

/-!
# Layout of component tags

A component tag with two or more attributes gets one attribute on each line. A tag starts on a line
that begins with it and holds an equals sign, and is taken to end on the first line from there that
holds `/>` or ends in `>`.
-/

namespace TwigLayout.Component

open Text

/-! ## One tag -/

/-- The lines of a tag with one attribute on each. -/
def Tag.lines (style : Style) (indent : Text) (tag : Tag) : List Text :=
  (indent ++ style.tagOpen ++ tag.name) ::
    (tag.attributes.map fun a => indent ++ style.indentUnit ++ a.render) ++
    [indent ++ tag.marker ++ tag.rest]

/-- The text of lines put on one line, each without the white space around it. -/
def joined (span : List Text) : Text := [' '].intercalate (span.map trim)

/-- The new lines of a span that is a tag with at least two attributes. -/
def layoutSpan (style : Style) (indent : Text) (span : List Text) :
    Except Fault (Option (List Text)) := do
  let tag ← Tag.read style (joined span)
  return tag.bind fun tag =>
    if 2 ≤ tag.attributes.length then some (tag.lines style indent) else none

/-! ## Lines of a document -/

/-- Whether a tag may start on the line. -/
def Style.opens (style : Style) (line : Text) : Bool :=
  startsWith style.tagOpen (trim line) && (trim line).contains '='

/-- Whether a tag that is open ends on the line. -/
def closes (line : Text) : Bool := occursIn ['/', '>'] line || endsWith ['>'] (trimRight line)

/-- The lines up to the first one on which a tag ends, if there is one. -/
def spanOf : List Text → Option (List Text)
  | [] => none
  | line :: lines =>
    if closes line then some [line] else (spanOf lines).map fun span => line :: span

/-- A span is the lines up to and with the first one on which a tag ends. -/
theorem spanOf_eq_some {lines span : List Text} (h : spanOf lines = some span) :
    ∃ before line, span = before ++ [line] ∧ span <+: lines ∧ closes line = true ∧
      ∀ l ∈ before, closes l = false := by
  fun_induction spanOf lines generalizing span with
  | case1 => simp at h
  | case2 line lines hc =>
    cases h
    exact ⟨[], line, rfl, by simp, hc, by simp⟩
  | case3 line lines hc ih =>
    obtain ⟨span, hs, rfl⟩ := Option.map_eq_some_iff.1 h
    obtain ⟨before, last, rfl, hp, hl, hb⟩ := ih hs
    exact ⟨line :: before, last, rfl, by simpa using hp, hl, by simpa using ⟨by simpa using hc, hb⟩⟩

/-- A part of a laid out document: lines left alone, or the new lines of a tag. -/
inductive Block where
  | kept (lines : List Text)
  | laidOut (lines : List Text)
  deriving DecidableEq, Repr

def Block.lines : Block → List Text
  | .kept lines => lines
  | .laidOut lines => lines

def Block.isLaidOut : Block → Bool
  | .kept _ => false
  | .laidOut _ => true

/-- The blocks of lines of which the first `skip` belong to the span before them. -/
def blocksFrom (style : Style) : (skip : Nat) → List Text → Except Fault (List Block)
  | _, [] => .ok []
  | skip + 1, _ :: lines => blocksFrom style skip lines
  | 0, line :: lines =>
    match (if style.opens line then spanOf (line :: lines) else none) with
    | none => do return .kept [line] :: (← blocksFrom style 0 lines)
    | some span => do
      let new ← layoutSpan style (indentation line) span
      let more ← blocksFrom style (span.length - 1) lines
      match new with
      | none => return .kept span :: more
      | some new => return .laidOut new :: more

/-- The blocks of a document's lines. -/
def blocks (style : Style) (lines : List Text) : Except Fault (List Block) :=
  blocksFrom style 0 lines

/-- The document with its component tags laid out, and the number of tags that were. -/
def layout (style : Style) (newline s : Text) : Except Fault (Text × Nat) := do
  if newline.isEmpty then .error .emptySeparator
  let parts ← blocks style (splitOn newline s)
  return (newline.intercalate (parts.flatMap Block.lines), parts.countP Block.isLaidOut)

/-- `layout` with a note of the number of tags. -/
def reflow (style : Style) (newline s : Text) : Logged Text := do
  let (result, count) ← layout style newline s
  Logged.debug .components s!"Reflowed {count} component tag(s)"
  return result

end TwigLayout.Component
