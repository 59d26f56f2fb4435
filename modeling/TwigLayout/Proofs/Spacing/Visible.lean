import Mathlib.Data.List.Infix
import TwigLayout.Proofs.Spacing.Component

/-!
# What shows of a document

The visible part of a text is what is left of it without its white space. Laying out the component
tags of a document never fails and keeps its visible part (`visible_layout`), so nothing that a
reader sees is lost or added. The lemmas follow the way of a tag through the layout:

1. `visible_normalize`: collapsing the white space of a value keeps what shows of its attribute.
2. `visible_of_readAttributes`: a tag is its attributes and what follows them, with white space in
   between.
3. `flatMap_visible_of_layoutSpan`: the new lines of a tag show what the lines of its span show.
-/

namespace TwigLayout

/-! ## Visible characters -/

namespace Text

/-- The characters of a text that are not white space. -/
def visible (s : Text) : Text := s.filter (!isBlank ·)

variable {s : Text}

@[simp] theorem visible_append (a b : Text) : visible (a ++ b) = visible a ++ visible b :=
  List.filter_append ..

theorem visible_of_blank (h : Blank s) : visible s = [] :=
  List.filter_eq_nil_iff.mpr fun c hc => by simp [h c hc]

theorem visible_flatten (lines : List Text) : visible lines.flatten = lines.flatMap visible := by
  rw [visible, List.filter_flatten, List.flatMap]
  rfl

theorem visible_visible (s : Text) : visible (visible s) = visible s := by
  rw [visible, visible, List.filter_filter]
  simp only [Bool.and_self]

theorem visible_trimLeft (s : Text) : visible (trimLeft s) = visible s := by
  obtain ⟨b, hb, hs⟩ := exists_blank_append_trimLeft s
  rw [hs, visible_append, visible_of_blank hb, List.nil_append, ← hs]

theorem visible_trim (s : Text) : visible (trim s) = visible s := by
  obtain ⟨a, b, ha, hb, hs⟩ := exists_append_trim_append s
  conv => rhs; rw [hs]
  rw [visible_append, visible_append, visible_of_blank ha, visible_of_blank hb, List.nil_append,
    List.append_nil]

theorem visible_intercalate {sep : Text} (hsep : Blank sep) (lines : List Text) :
    visible (sep.intercalate lines) = lines.flatMap visible := by
  cases lines with
  | nil => rfl
  | cons l lines =>
    rw [intercalate_cons_eq_flatMap, visible_append, List.flatMap_cons, List.flatMap,
      visible_flatten, List.flatMap_map]
    simp only [visible_append, visible_of_blank hsep, List.nil_append]

/-- The words of a text are what shows of it. -/
theorem flatten_words (s : Text) : (words s).flatten = visible s := by
  rw [words, List.flatten_filter_not_isEmpty]
  induction s with
  | nil => rfl
  | cons c s ih =>
    rw [List.splitOnP_cons_eq_if_modifyHead]
    cases hc : isBlank c with
    | true => simpa [visible, hc] using ih
    | false =>
      obtain ⟨w, ws, hw⟩ := List.exists_cons_of_ne_nil (List.splitOnP_ne_nil isBlank s)
      rw [hw] at ih ⊢
      simpa [visible, hc] using ih

theorem visible_collapse (s : Text) : visible (collapse s) = visible s := by
  rw [collapse, visible_intercalate (.of_all (by decide)), ← visible_flatten, flatten_words,
    visible_visible]

end Text

namespace Component

open Text

variable {style : Style} {indent newline s : Text}

/-! ## Attributes -/

theorem visible_normalizeValue {marks : Marks} {v new : Text} (hv : IsValue v)
    (h : normalizeValue marks v = .ok new) : visible new = visible v := by
  rcases normalizeValue_cases hv h with ⟨_, rfl⟩ | ⟨q, b, _, rfl, rfl⟩ | rfl
  · rfl
  · show visible ([q] ++ (collapse b ++ [q])) = visible ([q] ++ (b ++ [q]))
    simp only [visible_append, visible_collapse]
  · exact visible_collapse v

theorem visible_normalize {marks : Marks} {a b : Attribute}
    (ha : ∀ v, a.value = some v → IsValue v) (h : a.normalize marks = .ok b) :
    visible b.render = visible a.render := by
  obtain ⟨name, value⟩ := a
  cases value with
  | none =>
    cases h
    rfl
  | some v =>
    obtain ⟨new, hnew, hb⟩ := bind_eq_ok.mp h
    cases hb
    have hvalue := visible_normalizeValue (ha v rfl) hnew
    show visible (name ++ (['='] ++ new)) = visible (name ++ (['='] ++ v))
    rw [visible_append, visible_append, visible_append, visible_append, hvalue]

/-- What shows of a text that is read as attributes: the attributes, the closing marker and the
rest. -/
theorem visible_of_readAttributes {marks : Marks} (hm : IsPlain marks) {fuel : Nat}
    {marker rest : Text} {attributes : List Attribute}
    (h : readAttributes marks fuel s = .ok (some (attributes, marker, rest))) :
    visible s = (attributes.flatMap fun a => visible a.render) ++ visible (marker ++ rest) := by
  induction fuel generalizing s attributes with
  | zero => cases h
  | succ fuel ih =>
    rw [← visible_trimLeft s]
    obtain ⟨hmarker, rfl⟩ | ⟨first, first', others, rest', hfirst, _, hnormal, hmore, rfl⟩ :=
      readAttributes_succ_eq_ok h
    · rw [readMarker_eq_some hmarker]
      rfl
    · obtain ⟨hs, hvalue⟩ := readAttribute_eq_some hm hfirst
      rw [hs, visible_append, ih hmore, List.flatMap_cons, visible_normalize hvalue hnormal,
        List.append_assoc]

/-! ## Tags -/

theorem flatMap_visible_lines (hm : IsPlain style.expression) (hi : Blank indent)
    (hu : Blank style.indentUnit) {tag : Tag} (h : Tag.read style s = .ok (some tag)) :
    (tag.lines style indent).flatMap visible = visible s := by
  obtain ⟨rest, hname, hparts⟩ := Tag.exists_of_read h
  rw [readName_eq_some hname, visible_append, visible_append, visible_of_readAttributes hm hparts,
    Tag.lines]
  simp only [List.cons_append, List.flatMap_cons, List.flatMap_append, List.flatMap_map,
    List.flatMap_nil, visible_append, visible_of_blank hi, visible_of_blank hu, List.nil_append,
    List.append_nil, List.append_assoc]

theorem visible_joined (span : List Text) : visible (joined span) = span.flatMap visible := by
  rw [joined, visible_intercalate (.of_all (by decide)), List.flatMap_map]
  simp only [visible_trim]

/-- The new lines of a tag show what the lines of its span show. -/
theorem flatMap_visible_of_layoutSpan (hm : IsPlain style.expression) (hi : Blank indent)
    (hu : Blank style.indentUnit) {span new : List Text}
    (h : layoutSpan style indent span = .ok (some new)) :
    new.flatMap visible = span.flatMap visible := by
  obtain ⟨tag, ht, _, rfl⟩ := exists_tag_of_layoutSpan h
  rw [flatMap_visible_lines hm hi hu ht, visible_joined]

/-! ## Documents -/

theorem Blocked.flatMap_visible (hm : IsPlain style.expression) (hu : Blank style.indentUnit)
    {lines : List Text} {parts : List Block} (h : Blocked style lines parts) :
    (parts.flatMap Block.lines).flatMap visible = lines.flatMap visible := by
  induction h with
  | nil => rfl
  | line _ _ ih =>
    rw [List.flatMap_cons, List.flatMap_append, ih, List.flatMap_cons]
    simp [Block.lines]
  | kept _ _ _ _ ih =>
    rw [List.flatMap_cons, List.flatMap_append, ih, ← List.cons_append, List.flatMap_append]
    rfl
  | @laidOut line _ _ _ _ _ _ hnew _ ih =>
    rw [List.flatMap_cons, List.flatMap_append, ih, ← List.cons_append, List.flatMap_append]
    congr 1
    exact flatMap_visible_of_layoutSpan hm (blank_indentation line) hu hnew

/-- Every document can be laid out, and but for its white space the result is the document. -/
theorem visible_layout (hm : IsPlain style.expression)
    (hn : newline = "\n".toList ∨ newline = "\r\n".toList)
    (hu : ∀ c ∈ style.indentUnit, c = ' ' ∨ c = '\t') (s : Text) :
    ∃ out n, layout style newline s = .ok (out, n) ∧ visible out = visible s := by
  have hblank : Blank newline := by
    rcases hn with rfl | rfl <;> exact .of_all (by decide)
  have hnne : newline ≠ [] := by
    rcases hn with rfl | rfl <;> decide
  obtain ⟨out, n, hout⟩ := exists_layout_eq_ok hm.opening_ne_nil hnne s
  refine ⟨out, n, hout, ?_⟩
  obtain ⟨_, parts, hparts, rfl, _⟩ := exists_blocked_of_layout hout
  rw [visible_intercalate hblank, hparts.flatMap_visible hm (blank_of_space_or_tab hu),
    ← visible_intercalate hblank, intercalate_splitOn hnne]

/-- A tag over three lines, with an expression in quotes and one without. -/
theorem visible_layout_expressions :
    let first := " <twig:A b='\x7b\x7b  x\t\x7d\x7d '  c\n".toList
    let s := first ++ "d=\x7b\x7b  y  ~ 'z '\x7d\x7d e=\" 1 \"\n /> text ".toList
    let lines := " <twig:A\n     b='\x7b\x7b x \x7d\x7d'\n     c\n".toList
    let out := lines ++ "     d=\x7b\x7b y ~ 'z '\x7d\x7d\n     e=\" 1 \"\n /> text".toList
    layout .default "\n".toList s = .ok (out, 1) ∧ visible out = visible s := by
  intro first s lines out
  have hout : layout .default "\n".toList s = .ok (out, 1) := by decide +kernel
  obtain ⟨out', n, hout', hvisible⟩ :=
    @visible_layout .default _ ⟨'{', ['{'], rfl, by decide⟩ (.inl rfl) (forall_of_all (by decide)) s
  rw [hout] at hout'
  cases hout'
  exact ⟨hout, hvisible⟩

end Component

end TwigLayout
