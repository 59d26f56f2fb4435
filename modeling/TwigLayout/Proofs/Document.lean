import Mathlib.Algebra.GroupWithZero.Nat
import Mathlib.Order.Interval.Set.Defs
import Mathlib.Order.Monotone.Defs
import TwigLayout.Document
import TwigLayout.Proofs.Text.Lines
import TwigLayout.Proofs.Text.Rescan

/-!
# Positions in a document

Every offset of a text belongs to one of its lines: the line feed is the last place of a line, and
the end of the text is the last place of the last line. The position of an offset is found without
taking the text apart, from the line feeds before it and the start of the line it is on.

1. `exists_place`: every offset has a place on a line, by induction over the lines.
2. `Place.positionAt_eq`: its position is that place, so each place has one offset
   (`positionAt_eq_iff`).
3. `Place.line_lt_or`: an offset further on is on a later line, or further on in the line, because
   all of a line stands before the next one (`lineOffset_add_length_lt`).
4. `Document.positionAt_identifies`: all of it, for the positions of a document and its range.
-/

namespace TwigLayout

namespace Text

variable {s : Text} {o line column : Nat}

/-! ## The order of positions -/

/-- A position on an earlier line comes first, and on one line the one with the lower column. -/
instance : PartialOrder Position where
  le p q := p.line < q.line ∨ p.line = q.line ∧ p.character ≤ q.character
  lt p q := p.line < q.line ∨ p.line = q.line ∧ p.character < q.character
  le_refl _ := .inr ⟨rfl, Int.le_refl _⟩
  le_trans p q r hpq hqr := by
    change _ ∨ _ at hpq hqr ⊢
    omega
  le_antisymm p q hpq hqp := by
    change _ ∨ _ at hpq hqp
    obtain ⟨hline, hcharacter⟩ : p.line = q.line ∧ p.character = q.character := by omega
    exact congrArg₂ Position.mk hline hcharacter
  lt_iff_le_not_ge p q := by omega

theorem Position.lt_iff {p q : Position} :
    p < q ↔ p.line < q.line ∨ p.line = q.line ∧ p.character < q.character := Iff.rfl

/-! ## Places -/

/-- The offset at which a line starts: the lines before it, each with its line feed. -/
def lineOffset (s : Text) (line : Nat) : Nat :=
  (((splitOn ['\n'] s).take line).map (·.length + 1)).sum

/-- An offset is at a column of a line. The columns of a line end behind its last character. -/
structure Place (s : Text) (o line column : Nat) : Prop where
  exists_line : ∃ l, (splitOn ['\n'] s)[line]? = some l ∧ column ≤ l.length
  offset : lineOffset s line + column = o

/-- An offset that is not beyond all lines, each with its line feed, is on one of them. -/
theorem exists_line_of_lt {lines : List Text} (h : o < (lines.map (·.length + 1)).sum) :
    ∃ line column l, lines[line]? = some l ∧ column ≤ l.length ∧
      ((lines.take line).map (·.length + 1)).sum + column = o := by
  induction lines generalizing o with
  | nil => exact absurd h (Nat.not_lt_zero o)
  | cons l lines ih =>
    rw [List.map_cons, List.sum_cons] at h
    by_cases ho : o ≤ l.length
    · exact ⟨0, o, l, rfl, ho, Nat.zero_add o⟩
    · obtain ⟨line, column, m, hm, hc, hsum⟩ := ih (o := o - (l.length + 1)) (by omega)
      refine ⟨line + 1, column, m, hm, hc, ?_⟩
      rw [List.take_succ_cons, List.map_cons, List.sum_cons]
      omega

theorem length_intercalate_feed {lines : List Text} (hne : lines ≠ []) :
    (['\n'].intercalate lines).length + 1 = (lines.map (·.length + 1)).sum := by
  obtain ⟨l, lines, rfl⟩ := List.exists_cons_of_ne_nil hne
  rw [intercalate_cons_eq_flatMap, List.length_append, List.length_flatMap, List.map_cons,
    List.sum_cons]
  simp only [List.length_append, List.length_singleton, Nat.add_comm 1]
  omega

theorem exists_place (h : o ≤ s.length) : ∃ line column, Place s o line column := by
  have hlines : splitOn ['\n'] s ≠ [] := fields_ne_nil _
  have hlen := length_intercalate_feed hlines
  rw [intercalate_splitOn (List.cons_ne_nil _ _)] at hlen
  have ho : o < ((splitOn ['\n'] s).map (·.length + 1)).sum := by omega
  obtain ⟨line, column, l, hl, hc, hsum⟩ := exists_line_of_lt ho
  exact ⟨line, column, ⟨l, hl, hc⟩, hsum⟩

/-! ## The position of a place -/

theorem count_flatMap_feed {lines : List Text} (h : ∀ l ∈ lines, '\n' ∉ l) :
    (lines.flatMap (· ++ ['\n'])).count '\n' = lines.length := by
  induction lines with
  | nil => rfl
  | cons l lines ih =>
    obtain ⟨hl, hlines⟩ := List.forall_mem_cons.mp h
    rw [List.flatMap_cons, List.count_append, List.count_append, List.count_eq_zero_of_not_mem hl,
      List.count_singleton_self, ih hlines, List.length_cons]
    omega

theorem lastLine_flatMap_feed {b : Text} (hb : '\n' ∉ b) (lines : List Text) :
    lastLine (lines.flatMap (· ++ ['\n']) ++ b) = b := by
  rcases List.eq_nil_or_concat lines with rfl | ⟨lines, l, rfl⟩
  · exact lastLine_append hb []
  · rw [List.concat_eq_append, List.flatMap_append, List.flatMap_singleton, ← List.append_assoc,
      List.append_assoc _ ['\n'], List.singleton_append, lastLine_append_feed hb]

/-- The text before a place: the lines before its line, and the line up to its column. -/
theorem Place.exists_append (h : Place s o line column) :
    ∃ a b, s = a ++ b ∧ a.length = o ∧ a.count '\n' = line ∧ (lastLine a).length = column := by
  obtain ⟨⟨l, hl, hc⟩, ho⟩ := h
  obtain ⟨before, after, hlines, hbefore⟩ :
      ∃ before after, splitOn ['\n'] s = before ++ l :: after ∧ before.length = line := by
    obtain ⟨hlt, rfl⟩ := List.getElem?_eq_some_iff.mp hl
    refine ⟨(splitOn ['\n'] s).take line, (splitOn ['\n'] s).drop (line + 1), ?_,
      List.length_take_of_le hlt.le⟩
    rw [List.getElem_cons_drop, List.take_append_drop]
  have hfeed : ∀ m ∈ splitOn ['\n'] s, '\n' ∉ m := fun _ => not_mem_of_mem_splitOn
  rw [hlines, List.forall_mem_append, List.forall_mem_cons] at hfeed
  obtain ⟨hfinished, hline, _⟩ := hfeed
  have hcolumn : '\n' ∉ l.take column := fun hm => hline (List.mem_of_mem_take hm)
  have hlen : (l.take column).length = column := List.length_take_of_le hc
  refine ⟨before.flatMap (· ++ ['\n']) ++ l.take column,
    l.drop column ++ after.flatMap (['\n'] ++ ·), ?_, ?_, ?_, ?_⟩
  · rw [List.append_assoc, ← List.append_assoc (l.take column), List.take_append_drop,
      ← intercalate_append_cons, ← hlines, intercalate_splitOn (List.cons_ne_nil _ _)]
  · rw [lineOffset, hlines, ← hbefore, List.take_left] at ho
    rw [List.length_append, List.length_flatMap, hlen, ← ho]
    simp only [List.length_append, List.length_singleton]
  · rw [List.count_append, count_flatMap_feed hfinished, List.count_eq_zero_of_not_mem hcolumn,
      Nat.add_zero, hbefore]
  · rw [lastLine_flatMap_feed hcolumn, hlen]

theorem Place.le_length (h : Place s o line column) : o ≤ s.length := by
  obtain ⟨a, b, rfl, rfl, _⟩ := h.exists_append
  rw [List.length_append]
  exact Nat.le_add_right _ _

/-- A place is so many columns behind the start of its line, which is where the text before it has
its last line. -/
theorem Place.lineStart_add (h : Place s o line column) : lineStart s o + column = o := by
  obtain ⟨a, b, rfl, rfl, _, rfl⟩ := h.exists_append
  exact lineStart_append a b

theorem positionAt_natCast (s : Text) (o : Nat) :
    positionAt s o = ⟨(s.take o).count '\n', o - lineStart s o⟩ := rfl

theorem Place.positionAt_eq (h : Place s o line column) : positionAt s o = ⟨line, column⟩ := by
  have hstart := h.lineStart_add
  obtain ⟨a, b, rfl, rfl, rfl, _⟩ := h.exists_append
  rw [positionAt_natCast, List.take_left, Position.mk.injEq]
  exact ⟨rfl, by omega⟩

/-- Offsets and places are one to one, and the position of an offset is its place. -/
theorem positionAt_eq_iff :
    o ≤ s.length ∧ positionAt s o = ⟨line, column⟩ ↔ Place s o line column := by
  constructor
  · rintro ⟨h, hp⟩
    obtain ⟨line', column', hplace⟩ := exists_place h
    rw [hplace.positionAt_eq] at hp
    cases hp
    exact hplace
  · exact fun h => ⟨h.le_length, h.positionAt_eq⟩

/-! ## The order of offsets -/

/-- All of a line stands before the lines behind it. -/
theorem lineOffset_add_length_lt {line' : Nat} {l : Text} (hl : (splitOn ['\n'] s)[line]? = some l)
    (h : line < line') : lineOffset s line + l.length < lineOffset s line' := by
  obtain ⟨k, rfl⟩ := Nat.exists_eq_add_of_lt h
  obtain ⟨hlt, hget⟩ := List.getElem?_eq_some_iff.mp hl
  rw [lineOffset, lineOffset, Nat.add_assoc, List.take_add, List.drop_eq_getElem_cons hlt, hget,
    List.take_succ_cons, List.map_append, List.sum_append, List.map_cons, List.sum_cons]
  omega

theorem Place.line_lt_or {o' line' column' : Nat} (h : Place s o line column)
    (h' : Place s o' line' column') (ho : o < o') :
    line < line' ∨ line = line' ∧ column < column' := by
  have hoffset := h.offset
  have hoffset' := h'.offset
  rcases Nat.lt_trichotomy line line' with hlt | rfl | hgt
  · exact .inl hlt
  · exact .inr ⟨rfl, by omega⟩
  · obtain ⟨l, hl, hc⟩ := h'.exists_line
    have hbefore := lineOffset_add_length_lt hl hgt
    omega

theorem positionAt_strictMonoOn (s : Text) :
    StrictMonoOn (fun o : ℕ => positionAt s o) (Set.Iic s.length) := by
  intro o ho o' ho' hlt
  obtain ⟨line, column, h⟩ := exists_place ho
  obtain ⟨line', column', h'⟩ := exists_place ho'
  dsimp only
  rw [h.positionAt_eq, h'.positionAt_eq, Position.lt_iff]
  exact (h.line_lt_or h' hlt).imp Int.ofNat_lt.mpr fun ⟨hl, hc⟩ =>
    ⟨Int.ofNat_inj.mpr hl, Int.ofNat_lt.mpr hc⟩

end Text

open Text

/-! ## Documents -/

/-- The position of an offset gives the offset back, as the lines before its line, each with its
line feed, and its column. So positions follow one another as offsets do, and the range of a
document goes over all of them. -/
theorem Document.positionAt_identifies (d : Document) :
    (∀ o ≤ d.text.length, ∃ line column : ℕ, d.positionAt o = ⟨line, column⟩ ∧
      (∃ l, (splitOn ['\n'] d.text)[line]? = some l ∧ column ≤ l.length) ∧
      (((splitOn ['\n'] d.text).take line).map (·.length + 1)).sum + column = o ∧
      lineStart d.text o + column = o) ∧
    StrictMonoOn (fun o : ℕ => d.positionAt o) (Set.Iic d.text.length) ∧
    ∀ o ≤ d.text.length, d.positionAt o ∈ Set.Icc d.fullRange.start d.fullRange.stop := by
  have hmono := positionAt_strictMonoOn d.text
  refine ⟨fun o ho => ?_, hmono, fun o ho => ⟨?_, ?_⟩⟩
  · obtain ⟨line, column, h⟩ := exists_place ho
    exact ⟨line, column, h.positionAt_eq, h.exists_line, h.offset, h.lineStart_add⟩
  · exact hmono.monotoneOn (Set.mem_Iic.mpr (Nat.zero_le _)) ho (Nat.zero_le o)
  · exact hmono.monotoneOn ho (Set.mem_Iic.mpr le_rfl) ho

/-- An empty line, and the end of a text that ends with a line feed. -/
theorem Document.positionAt_identifies_end :
    let d : Document := { text := "a\r\n\nbc\n".toList, file := "a.twig" }
    (3 ≤ d.text.length ∧ d.positionAt 3 = ⟨1, 0⟩ ∧
      ∃ line column : ℕ, d.positionAt 3 = ⟨line, column⟩ ∧
        (∃ l, (splitOn ['\n'] d.text)[line]? = some l ∧ column ≤ l.length) ∧
        (((splitOn ['\n'] d.text).take line).map (·.length + 1)).sum + column = 3 ∧
        lineStart d.text 3 + column = 3) ∧
      (7 ≤ d.text.length ∧ d.positionAt 7 = ⟨3, 0⟩ ∧ d.positionAt 3 < d.positionAt 7) ∧
      d.positionAt 3 ∈ Set.Icc d.fullRange.start d.fullRange.stop := by
  intro d
  obtain ⟨hplace, hmono, hrange⟩ := d.positionAt_identifies
  have h3 : 3 ≤ d.text.length := by decide
  have h7 : 7 ≤ d.text.length := by decide
  exact ⟨⟨h3, by decide, hplace 3 h3⟩, ⟨h7, by decide, hmono h3 h7 (by decide)⟩, hrange 3 h3⟩

end TwigLayout
