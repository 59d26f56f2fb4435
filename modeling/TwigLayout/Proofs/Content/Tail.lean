import TwigLayout.Proofs.Content.Component
import TwigLayout.Proofs.Stable.Twice
import TwigLayout.Proofs.Text.Lines

/-!
# The text behind a component tag

A tag on one line is read in the same way whatever follows it, and what follows becomes its rest. In
a document the rest can go beyond that line: the lines are looked at before the tag is read, and the
first one with `/>` or with `>` at its end is taken to close the tag, be it far behind the tag's own
marker.

1. `EndsName`: what is read as attributes starts with a character that ends a name, so a text behind
   the tag makes no name longer.
2. `readAttributes_append` and `Tag.read_append`: reading goes on as before with a text appended.
3. `IsWindow`: the lines of the text behind a tag that are put on its closing line.
4. `layout_append_tail`: what becomes of the text behind a tag. All lines behind the window stay as
   they are, and the window is empty exactly if the tag's own line closes it.
   `layout_append_tail_joined` is a text that does not stay as it is.
-/

namespace TwigLayout.Component

open Text

/-! ## Reading with a text appended -/

section Read

variable {marks : Marks} {s rest : Text}

/-- A value is read in the same way whatever follows it. -/
theorem readValue_append (hm : IsTight marks) {value : Text}
    (h : readValue marks s = some (value, rest)) (more : Text) :
    readValue marks (value ++ more) = some (value, more) := by
  rcases orElse_eq_some h with h | h
  · obtain ⟨b, rfl, hb⟩ := exists_of_readQuoted h
    exact readValue_quoted (by decide) hb more
  rcases orElse_eq_some h with h | h
  · obtain ⟨b, rfl, hb⟩ := exists_of_readQuoted h
    exact readValue_quoted (by decide) hb more
  · obtain ⟨body, rfl, hb, hline⟩ := exists_of_readExpression hm.closing_ne_nil h
    exact readValue_expression hm hb hline more

/-- The text starts with white space or with what may be a closing marker. -/
def EndsName (s : Text) : Prop := ∃ c t, s = c :: t ∧ (isBlank c = true ∨ c = '/' ∨ c = '>')

theorem not_isAttributeChar_of_ends {c : Char} (hc : isBlank c = true ∨ c = '/' ∨ c = '>') :
    isAttributeChar c = false := by
  rcases hc with hc | rfl | rfl
  · simp [isAttributeChar, hc]
  · decide
  · decide

theorem not_isNameChar_of_ends {c : Char} (hc : isBlank c = true ∨ c = '/' ∨ c = '>') :
    isNameChar c = false := by
  rw [Bool.eq_false_iff]
  intro hname
  rcases hc with hc | rfl | rfl
  · rw [not_isBlank_of_isNameChar (.inr hname)] at hc
    cases hc
  · exact absurd hname (by decide)
  · exact absurd hname (by decide)

/-- Attributes and a marker are read only from a text that ends the name before it. -/
theorem endsName_of_readAttributes {fuel : Nat} {parts : List Attribute × Text × Text}
    (h : readAttributes marks fuel s = .ok (some parts)) : EndsName s := by
  obtain ⟨attributes, marker, rest⟩ := parts
  cases fuel with
  | zero => cases h
  | succ fuel =>
    obtain ⟨hmarker, _⟩ | ⟨_, _, _, _, _, hhead, _⟩ := readAttributes_succ_eq_ok h
    · obtain ⟨c, u, hc, hend⟩ : ∃ c u, trimLeft s = c :: u ∧ (c = '/' ∨ c = '>') := by
        rw [readMarker_eq_some hmarker]
        rcases marker_of_readMarker hmarker with rfl | rfl
        · exact ⟨'/', '>' :: rest, rfl, .inl rfl⟩
        · exact ⟨'>', rest, rfl, .inr rfl⟩
      obtain ⟨b, hb, hs⟩ := exists_blank_append_trimLeft s
      rw [hc] at hs
      cases b with
      | nil => exact ⟨c, u, hs, .inr hend⟩
      | cons d b => exact ⟨d, b ++ c :: u, hs, .inl (hb d List.mem_cons_self)⟩
    · cases s with
      | nil => cases hhead
      | cons c s => exact ⟨c, s, rfl, .inl hhead⟩

theorem readName_append_of_endsName {style : Style} {name : Text}
    (h : readName style s = some (name, rest)) (hrest : EndsName rest) (more : Text) :
    readName style (s ++ more) = some (name, rest ++ more) := by
  obtain ⟨c, t, rfl, hc⟩ := hrest
  have hs : s ++ more = style.tagOpen ++ (name ++ c :: (t ++ more)) := by
    rw [readName_eq_some h]
    simp
  rw [hs]
  exact readName_append h (not_isNameChar_of_ends hc) (t ++ more)

/-- An attribute is read in the same way with a text appended, if its name ends before that text. -/
theorem readAttribute_append (hm : IsTight marks) {a : Attribute}
    (h : readAttribute marks s = some (a, rest)) (hrest : EndsName rest) (more : Text) :
    readAttribute marks (s ++ more) = some (a, rest ++ more) := by
  obtain ⟨⟨hne, hname⟩, hs, hvalue⟩ := readAttribute_cases h
  obtain ⟨c, t, rfl, hc⟩ := hrest
  have hread : ∀ v, a.value = some v → ∀ rest, readValue marks (v ++ rest) = some (v, rest) := by
    intro v hv
    obtain ⟨s', hs'⟩ := hvalue v hv
    exact readValue_append hm hs'
  have hequals : c ≠ '=' := by
    rintro rfl
    rcases hc with hb | hb | hb <;> exact absurd hb (by decide)
  rw [hs, List.append_assoc]
  exact readAttribute_render_append hne hname hread (not_isAttributeChar_of_ends hc) hequals
    (t ++ more)

/-- The attributes and the marker are read in the same way with a text appended, which follows the
marker then. -/
theorem readAttributes_append (hm : IsTight marks) {fuel enough : Nat}
    {attributes : List Attribute} {marker : Text}
    (h : readAttributes marks fuel s = .ok (some (attributes, marker, rest)))
    (hfuel : fuel ≤ enough) (more : Text) :
    readAttributes marks enough (s ++ more) = .ok (some (attributes, marker, rest ++ more)) := by
  induction fuel generalizing s attributes enough with
  | zero => cases h
  | succ fuel ih =>
    obtain ⟨enough, rfl⟩ := Nat.exists_eq_add_one_of_ne_zero (Nat.ne_zero_of_lt hfuel)
    have hfuel := Nat.le_of_succ_le_succ hfuel
    obtain ⟨hmarker, rfl⟩ | ⟨first, first', others, rest', hfirst, hhead, hnormal, hmore, rfl⟩ :=
      readAttributes_succ_eq_ok h
    · have hkind := marker_of_readMarker hmarker
      have hs := readMarker_eq_some hmarker
      have hne : trimLeft s ≠ [] := by
        rw [hs]
        exact fun hnil => (isTrim_marker hkind).ne_nil (List.append_eq_nil_iff.mp hnil).1
      rw [readAttributes, trimLeft_append_of_ne_nil hne, hs, List.append_assoc]
      simp only [readMarker_append hkind]
    · obtain ⟨⟨hname, hall⟩, hs, _⟩ := readAttribute_cases hfirst
      have hmarker : readMarker (trimLeft s ++ more) = none := by
        rw [hs, List.append_assoc]
        exact readMarker_render_append hname hall _
      have hne : trimLeft s ≠ [] := by
        intro hnil
        rw [hnil] at hfirst
        cases hfirst
      have hhead' : (s ++ more).head?.any isBlank = true := by
        cases s with
        | nil => cases hhead
        | cons c s => exact hhead
      have hread := readAttribute_append hm hfirst (endsName_of_readAttributes hmore) more
      rw [readAttributes, trimLeft_append_of_ne_nil hne]
      simp only [hmarker, hread, hhead', if_true]
      exact bind_eq_ok.mpr ⟨first', hnormal, bind_eq_ok.mpr ⟨_, ih hmore hfuel, rfl⟩⟩

end Read

section Tag

variable {style : Style} {tag : Text} {t : Tag}

/-- A tag is read in the same way with a text appended, which becomes the end of its rest. -/
theorem Tag.read_append (hm : IsTight style.expression) (h : Tag.read style tag = .ok (some t))
    (more : Text) :
    Tag.read style (tag ++ more) = .ok (some { t with rest := t.rest ++ more }) := by
  obtain ⟨rest, hname, hparts⟩ := Tag.exists_of_read h
  have hname' := readName_append_of_endsName hname (endsName_of_readAttributes hparts) more
  have hlength : rest.length + 1 ≤ (rest ++ more).length + 1 := by
    rw [List.length_append]
    omega
  unfold Tag.read
  rw [hname']
  exact bind_eq_ok.mpr ⟨_, readAttributes_append hm hparts hlength more, rfl⟩

/-- A tag with nothing behind it starts with a bracket and ends with one. -/
theorem Tag.exists_brackets_of_read (h : Tag.read style tag = .ok (some t)) (hrest : t.rest = []) :
    (∃ u, tag = '<' :: u) ∧ ∃ u, tag = u ++ ['>'] := by
  obtain ⟨⟨u, hstart⟩, ⟨v, hend⟩, hmarker, _⟩ := Tag.parts_of_read h
  rw [hrest, List.append_nil] at hend
  refine ⟨⟨style.space ++ t.name ++ u, ?_⟩, ?_⟩
  · rw [← hstart, Style.tagOpen]
    simp
  · rcases hmarker with hm | hm
    · exact ⟨v ++ ['/'], by rw [← hend, hm]; simp⟩
    · exact ⟨v, by rw [← hend, hm]⟩

/-- An equals sign stands in a tag that has an attribute with a value. -/
theorem Tag.mem_of_value (h : Tag.read style tag = .ok (some t))
    (hvalue : ∃ a ∈ t.attributes, a.value ≠ none) : '=' ∈ tag := by
  obtain ⟨b, hb, hne⟩ := hvalue
  obtain ⟨_, _, _, hattributes⟩ := Tag.parts_of_read h
  obtain ⟨⟨name, value⟩, s', rest, hread, hs', hnormal⟩ := hattributes b hb
  refine hs'.subset ?_
  rw [(readAttribute_cases hread).2.1]
  cases value with
  | none =>
    cases hnormal
    exact absurd rfl hne
  | some v => simp [Attribute.render]

end Tag

/-! ## The window of a tag -/

/-- A line closes a tag if it holds `/>`, or ends in `>` up to white space. -/
theorem closes_iff {line : Text} :
    closes line = true ↔ ['/', '>'] <:+: line ∨ ['>'] <:+ trimRight line := by
  rw [closes, Bool.or_eq_true, occursIn_iff, endsWith, List.isSuffixOf_iff_suffix]

theorem closes_append {line : Text} (h : closes line = true) (a : Text) :
    closes (a ++ line) = true := by
  rw [closes_iff] at h ⊢
  rcases h with h | ⟨u, hu⟩
  · exact .inl (List.infix_append_of_infix_right h)
  · obtain ⟨b, hb, hline⟩ := exists_trimRight_append_blank line
    rw [← hu] at hline
    rw [hline, ← List.append_assoc, trimRight_append hb, ← List.append_assoc,
      trimRight_append_cons (by decide)]
    exact .inr (List.suffix_append _ _)

/-- The lines that are put on the closing line of a tag which starts on `line`: none if that line
closes it, and otherwise those up to the first one that does. -/
def IsWindow (line : Text) (window : List Text) : Prop :=
  closes line = true ∧ window = [] ∨
    closes line = false ∧ ∃ before last, window = before ++ [last] ∧
      (∀ l ∈ before, closes l = false) ∧ closes last = true

theorem exists_window {line : Text} {lines : List Text}
    (h : ∃ l ∈ line :: lines, closes l = true) :
    ∃ window after, lines = window ++ after ∧ IsWindow line window ∧
      spanOf (line :: lines) = some (line :: window) := by
  cases hs : spanOf (line :: lines) with
  | none =>
    obtain ⟨l, hl, hc⟩ := h
    rw [spanOf_eq_none_iff.mp hs l hl] at hc
    cases hc
  | some span =>
    obtain ⟨before, last, rfl, ⟨after, hp⟩, hlast, hbefore⟩ := spanOf_eq_some hs
    cases before with
    | nil =>
      obtain ⟨rfl, rfl⟩ := List.cons.inj hp
      exact ⟨[], after, rfl, .inl ⟨hlast, rfl⟩, rfl⟩
    | cons l before =>
      obtain ⟨rfl, rfl⟩ := List.cons.inj hp
      obtain ⟨hl, hbefore⟩ := List.forall_mem_cons.mp hbefore
      exact ⟨before ++ [last], after, rfl, .inr ⟨hl, before, last, rfl, hbefore, hlast⟩, rfl⟩

/-! ## Laying out a tag with a text behind it -/

section Layout

variable {style : Style} {newline indent tag tail : Text} {t : Tag}

/-- The tag's lines, with a text at the end of the closing line, and lines behind them. -/
theorem Tag.intercalate_lines_append (t : Tag) (more : Text) (after : List Text) :
    newline.intercalate (Tag.lines style indent { t with rest := t.rest ++ more } ++ after) =
      newline.intercalate (t.lines style indent) ++ (more ++ after.flatMap (newline ++ ·)) := by
  unfold Tag.lines
  rw [List.append_assoc, List.singleton_append, intercalate_append_cons, intercalate_append_cons]
  simp

theorem joined_cons (line : Text) (window : List Text) :
    joined (line :: window) = trim line ++ window.flatMap (' ' :: trim ·) := by
  rw [joined, List.map_cons, intercalate_cons_eq_flatMap, List.flatMap_map]
  rfl

/-- A line on which a tag starts, up to its window, is laid out, and the lines behind it on which no
tag starts are left alone. -/
theorem blocksFrom_of_window {line : Text} {window after new : List Text}
    (hopens : style.opens line = true)
    (hspan : spanOf (line :: (window ++ after)) = some (line :: window))
    (hnew : layoutSpan style (indentation line) (line :: window) = .ok (some new))
    (hafter : ∀ l ∈ after, style.opens l = false) :
    blocksFrom style 0 (line :: (window ++ after)) =
      .ok (.laidOut new :: after.map fun l => .kept [l]) := by
  have hrest : blocksFrom style 0 (after ++ []) =
      .ok (after.map (fun l => .kept [l]) ++ []) := blocksFrom_append_of_not_opens hafter rfl
  rw [List.append_nil, List.append_nil] at hrest
  rw [blocksFrom, if_pos hopens, hspan]
  refine bind_eq_ok.mpr ⟨some new, hnew, bind_eq_ok.mpr ⟨_, ?_, rfl⟩⟩
  rw [List.length_cons, Nat.add_sub_cancel, blocksFrom_append_length, hrest]

theorem not_opens_of_not_infix (hopen : ¬ style.tagOpen <:+: tail) (hnne : newline ≠ []) :
    ∀ l ∈ splitOn newline tail, style.opens l = false := by
  intro l hl
  rw [Bool.eq_false_iff]
  intro hopens
  rw [Style.opens, Bool.and_eq_true, startsWith_iff] at hopens
  exact hopen (hopens.1.isInfix.trans ((trim_isInfix l).trans (infix_of_mem_splitOn hnne hl)))

section Line

variable (hi : ∀ c ∈ indent, c = ' ' ∨ c = '\t') (ht : Tag.read style tag = .ok (some t))
  (hrest : t.rest = [])

include hi ht hrest

theorem trim_tagLine (first : Text) : trim (indent ++ tag ++ first) = tag ++ trimRight first := by
  obtain ⟨⟨u, hstart⟩, v, hend⟩ := Tag.exists_brackets_of_read ht hrest
  have htag : IsTrim tag := ⟨⟨'<', u, hstart, by decide⟩, ⟨v, '>', hend, by decide⟩⟩
  rw [htag.trim_around, trimLeft_of_blank (blank_of_space_or_tab hi), List.nil_append]

theorem indentation_tagLine (first : Text) : indentation (indent ++ tag ++ first) = indent := by
  obtain ⟨⟨u, rfl⟩, _⟩ := Tag.exists_brackets_of_read ht hrest
  rw [List.append_assoc, List.cons_append, indentation_append_cons (by decide) (by decide),
    indentation_eq_self hi]

theorem opens_tagLine (hvalue : ∃ a ∈ t.attributes, a.value ≠ none) (first : Text) :
    style.opens (indent ++ tag ++ first) = true := by
  obtain ⟨hstart, _⟩ := Tag.parts_of_read ht
  rw [Style.opens, trim_tagLine hi ht hrest, Bool.and_eq_true, startsWith_iff,
    List.contains_iff_mem]
  refine ⟨?_, List.mem_append_left _ (Tag.mem_of_value ht hvalue)⟩
  exact ((List.prefix_append _ _).trans hstart).trans (List.prefix_append tag _)

/-- The window of a tag goes behind the text on the tag's own line. -/
theorem layoutSpan_tagLine (hm : IsTight style.expression) (htwo : 2 ≤ t.attributes.length)
    (first : Text) (window : List Text) :
    layoutSpan style (indentation (indent ++ tag ++ first)) ((indent ++ tag ++ first) :: window) =
      .ok (some (Tag.lines style indent { t with
        rest := t.rest ++ (trimRight first ++ window.flatMap (' ' :: trim ·)) })) := by
  unfold layoutSpan
  rw [indentation_tagLine hi ht hrest, joined_cons, trim_tagLine hi ht hrest, List.append_assoc]
  refine bind_eq_ok.mpr ⟨_, Tag.read_append hm ht _, ?_⟩
  rw [Option.bind_some, if_pos htwo]
  rfl

end Line

/-- What laying out does to a tag on one line with a text behind it: its attributes go on lines of
their own. The first line of the text stays on the closing line without the white space at its end,
the lines of the window are put behind it with single spaces, and the lines behind the window stay
as they are. -/
theorem layout_append_tail (hm : IsTight style.expression) (hi : ∀ c ∈ indent, c = ' ' ∨ c = '\t')
    (hline : '\n' ∉ tag) (ht : Tag.read style tag = .ok (some t)) (hrest : t.rest = [])
    (htwo : 2 ≤ t.attributes.length) (hvalue : ∃ a ∈ t.attributes, a.value ≠ none)
    (hopen : ¬ style.tagOpen <:+: tail) (hclose : ∃ l ∈ splitOn ['\n'] tail, closes l = true) :
    ∃ first window after, splitOn ['\n'] tail = first :: (window ++ after) ∧
      IsWindow (indent ++ tag ++ first) window ∧
      layout style ['\n'] (indent ++ tag ++ tail) =
        .ok (['\n'].intercalate (t.lines style indent) ++ (trimRight first ++
          window.flatMap (' ' :: trim ·) ++ after.flatMap ('\n' :: ·)), 1) := by
  obtain ⟨first, lines, hfirst⟩ : ∃ first lines, splitOn ['\n'] tail = first :: lines :=
    List.exists_cons_of_ne_nil (fields_ne_nil _)
  have hindent : '\n' ∉ indent ++ tag := by
    rw [List.mem_append, not_or]
    exact ⟨fun hmem => absurd (hi _ hmem) (by decide), hline⟩
  have hsplit : splitOn ['\n'] (indent ++ tag ++ tail) = (indent ++ tag ++ first) :: lines := by
    rw [splitOn_append_of_not_mem hindent, hfirst, List.modifyHead_cons]
  have hclose' : ∃ l ∈ (indent ++ tag ++ first) :: lines, closes l = true := by
    obtain ⟨l, hl, hc⟩ := hclose
    rw [hfirst] at hl
    rcases List.mem_cons.mp hl with rfl | hl
    · exact ⟨_, List.mem_cons_self, closes_append hc _⟩
    · exact ⟨l, List.mem_cons_of_mem _ hl, hc⟩
  obtain ⟨window, after, rfl, hwindow, hspan⟩ := exists_window hclose'
  have hafter : ∀ l ∈ after, style.opens l = false := by
    intro l hl
    refine not_opens_of_not_infix hopen (List.cons_ne_nil '\n' []) l ?_
    rw [hfirst]
    exact List.mem_cons_of_mem _ (List.mem_append_right window hl)
  have hblocks := blocksFrom_of_window (opens_tagLine hi ht hrest hvalue first) hspan
    (layoutSpan_tagLine hi ht hrest hm htwo first window) hafter
  refine ⟨first, window, after, hfirst, hwindow, ?_⟩
  rw [layout, if_neg (by decide)]
  refine bind_eq_ok.mpr ⟨_, by rw [blocks, hsplit, hblocks], ?_⟩
  have hkept : (after.map fun l => Block.kept [l]).flatMap Block.lines = after := by
    simp [List.flatMap_map, Block.lines]
  have hcount : (after.map fun l => Block.kept [l]).countP Block.isLaidOut = 0 := by
    simp [List.countP_eq_zero, Block.isLaidOut]
  rw [List.flatMap_cons, hkept, List.countP_cons, hcount, Block.lines,
    Tag.intercalate_lines_append]
  rfl

end Layout

/-- A tag whose own marker closes no line: the window has a blank line, and ends on the line with
the marker of another element. -/
theorem layout_append_tail_window :
    let tag := "<twig:A b='1' :c=\x7b\x7b  x \x7d\x7d d>".toList
    let tail := " e \n\n  <i>f /> g \n  <b>h</b>".toList
    let lines := "\t<twig:A\n\t    b='1'\n\t    :c=\x7b\x7b x \x7d\x7d\n\t    d\n\t>".toList
    layout .default ['\n'] ('\t' :: (tag ++ tail)) =
        .ok (lines ++ " e  <i>f /> g\n  <b>h</b>".toList, 1) ∧
      ∃ t first window after, Tag.read .default tag = .ok (some t) ∧
        splitOn ['\n'] tail = first :: (window ++ after) ∧
        IsWindow ('\t' :: (tag ++ first)) window ∧
        layout .default ['\n'] ('\t' :: (tag ++ tail)) =
          .ok (['\n'].intercalate (t.lines .default ['\t']) ++ (trimRight first ++
            window.flatMap (' ' :: trim ·) ++ after.flatMap ('\n' :: ·)), 1) := by
  intro tag tail lines
  refine ⟨by decide +kernel, ?_⟩
  have ht : Tag.read .default tag = .ok (some ⟨['A'], [⟨['b'], some "'1'".toList⟩,
      ⟨[':', 'c'], some "\x7b\x7b x \x7d\x7d".toList⟩, ⟨['d'], none⟩], ['>'], []⟩) := by
    decide +kernel
  obtain ⟨first, window, after, h⟩ := @layout_append_tail .default ['\t'] tag tail _
    isTight_default (forall_of_all (by decide)) (by decide) ht rfl (by decide) (by decide)
    (by decide +kernel) (by decide +kernel)
  exact ⟨_, first, window, after, ht, h⟩

/-- The text behind a tag is not left alone if the tag's line does not end with a bracket: the line
is put together with the next one. -/
theorem layout_append_tail_joined :
    let tag := "<twig:A b='1' c='2'>".toList
    let tail := "x\ny</p>".toList
    let t : Tag := ⟨['A'], [⟨['b'], some "'1'".toList⟩, ⟨['c'], some "'2'".toList⟩], ['>'], []⟩
    (Tag.read .default tag = .ok (some t) ∧ '\n' ∉ tag ∧ 2 ≤ t.attributes.length ∧
        (∃ a ∈ t.attributes, a.value ≠ none) ∧ ¬ Style.default.tagOpen <:+: tail ∧
        ∃ l ∈ splitOn ['\n'] tail, closes l = true) ∧
      layout .default ['\n'] (tag ++ tail) =
        .ok (['\n'].intercalate (t.lines .default []) ++ "x y</p>".toList, 1) ∧
      ∀ first n, layout .default ['\n'] (tag ++ tail) ≠
        .ok (['\n'].intercalate (t.lines .default []) ++ (first ++ "\ny</p>".toList), n) := by
  intro tag tail t
  have hjoined : layout .default ['\n'] (tag ++ tail) =
      .ok (['\n'].intercalate (t.lines .default []) ++ "x y</p>".toList, 1) := by decide +kernel
  refine ⟨by decide +kernel, hjoined, fun first n h => ?_⟩
  rw [hjoined] at h
  have htext := List.append_cancel_left (congrArg Prod.fst (Except.ok.inj h))
  have hmem : '\n' ∈ "x y</p>".toList := by
    rw [htext]
    simp
  exact absurd hmem (by decide)

end TwigLayout.Component
