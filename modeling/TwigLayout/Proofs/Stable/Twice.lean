import TwigLayout.Proofs.Stable.Component

/-!
# Component tags laid out twice

A document whose component tags were laid out is left as it is when they are laid out again
(`layout_layout`). The second run finds the same lines and goes through them side by side with the
first one:

1. `not_infix_of_layoutSpan`: no new line of a tag holds a line end, so the lines of the result are
   the lines of its blocks.
2. `not_opens_lines`: a tag starts on none of its new lines.
3. `Blocked.exists_again`: a line or span that was left alone is left alone again. Its span ends
   where it did, and a tag that was never closed still is not.
-/

namespace TwigLayout.Component

open Text

variable {style : Style} {newline : Text}

/-! ## Line ends -/

section LineEnds

variable {p : Char → Bool}

/-- The characters of the class are white space, and not the space. -/
def IsBreak (p : Char → Bool) : Prop := ∀ c, p c = true → isBlank c = true ∧ c ≠ ' '

theorem IsBreak.eq_false (hp : IsBreak p) {c : Char} (hc : c = ' ' ∨ isBlank c = false) :
    p c = false := by
  rw [Bool.eq_false_iff]
  intro h
  obtain ⟨hblank, hspace⟩ := hp c h
  rcases hc with hc | hc
  · exact hspace hc
  · rw [hblank] at hc
    cases hc

theorem isBreak_of_eq (hn : newline = "\n".toList ∨ newline = "\r\n".toList) :
    IsBreak (newline.contains ·) := by
  intro c hc
  rw [List.contains_iff_mem] at hc
  rcases hn with rfl | rfl
  · exact forall_of_all (P := fun c => isBlank c = true ∧ c ≠ ' ') (by decide) c hc
  · exact forall_of_all (P := fun c => isBlank c = true ∧ c ≠ ' ') (by decide) c hc

/-- Collapsing the white space of a value brings about no line end, whatever the markers are. -/
theorem runsIn_normalizeValue_of_isBreak (hp : IsBreak p) {marks : Marks} {v new : Text}
    (h : normalizeValue marks v = .ok new) : RunsIn p new v := by
  have hcollapse : ∀ b : Text, ∀ c ∈ collapse b, p c = false :=
    fun b c hc => hp.eq_false (eq_or_of_mem_collapse hc)
  rw [normalizeValue.eq_def] at h
  split at h
  · cases v with
    | nil => cases h
    | cons c s =>
      dsimp only at h
      split at h
      · next hq =>
        cases h
        have hquote : p c = false := by
          refine hp.eq_false (.inr (Bool.eq_false_iff.mpr fun hb => ?_))
          have hq' : c = '\'' ∨ c = '"' := by simpa [isQuote] using hq
          rcases hq' with rfl | rfl <;> exact absurd hb (by decide)
        -- only the last character may be of the class, and the value has it
        have hlast : [(c :: s).getLast?.getD c] <:+: c :: s := by
          rw [List.getLast?_cons, Option.getD_some, List.singleton_infix_iff]
          cases hs : s.getLast? with
          | none => exact List.mem_cons_self
          | some d => exact List.mem_cons_of_mem _ (List.mem_of_getLast? hs)
        exact .cons hquote (.append_of_forall (hcollapse _) (.of_isInfix hlast))
      · cases h
        exact .collapse (hp.eq_false (.inl rfl))
  · cases h
    exact .of_isInfix (List.infix_refl _)

theorem runsIn_render_of_isBreak (hp : IsBreak p) {marks : Marks} {s rest : Text} {a b : Attribute}
    (h : readAttribute marks s = some (a, rest)) (hb : a.normalize marks = .ok b) :
    RunsIn p b.render s := by
  have hs : a.render <:+: s := by
    rw [(readAttribute_cases h).2.1]
    exact List.infix_append_left
  refine RunsIn.mono ?_ hs
  obtain ⟨name, value⟩ := a
  cases value with
  | none =>
    cases hb
    exact .of_isInfix (List.infix_refl _)
  | some v =>
    obtain ⟨new, hnew, hb⟩ := bind_eq_ok.mp hb
    cases hb
    have hname : name <:+: name ++ '=' :: v := List.infix_append_left
    have hvalue : v <:+: name ++ '=' :: v :=
      List.infix_append_of_infix_right (List.infix_cons (List.infix_refl v))
    exact .append_cons (hp.eq_false (.inr (by decide))) (.of_isInfix hname)
      ((runsIn_normalizeValue_of_isBreak hp hnew).mono hvalue)

theorem not_infix_of_layoutSpan (hn : newline = "\n".toList ∨ newline = "\r\n".toList)
    (hu : ∀ c ∈ style.indentUnit, c = ' ' ∨ c = '\t') {line : Text} {span new : List Text}
    (hspan : ∀ l ∈ span, ¬ newline <:+: l)
    (h : layoutSpan style (indentation line) span = .ok (some new)) :
    ∀ l ∈ new, ¬ newline <:+: l := by
  have hp := isBreak_of_eq hn
  have htab : '\t' ∉ newline := by
    rcases hn with rfl | rfl <;> decide
  have hspaces : ∀ {t : Text}, (∀ c ∈ t, c = ' ' ∨ c = '\t') →
      ∀ c ∈ t, newline.contains c = false := by
    intro t ht c hc
    rcases ht c hc with rfl | rfl
    · exact hp.eq_false (.inl rfl)
    · simpa using htab
  obtain ⟨tag, ht, _, rfl⟩ := exists_tag_of_layoutSpan h
  have hattributes : ∀ b ∈ tag.attributes, RunsIn (newline.contains ·) b.render (joined span) := by
    intro b hb
    obtain ⟨_, _, _, hparts⟩ := Tag.parts_of_read ht
    obtain ⟨a, s', _, hread, hs', hnormal⟩ := hparts b hb
    exact (runsIn_render_of_isBreak hp hread hnormal).mono hs'.isInfix
  have hlines := Tag.runsIn_lines (hspaces hu) (hspaces (indentation_all line)) ht hattributes
  intro l hl hi
  have hjoined : newline <:+: joined span :=
    hlines l hl newline (fun c hc => List.contains_iff_mem.mpr hc) hi
  have hspace : ' ' ∉ newline := by
    rcases hn with rfl | rfl <;> decide
  have hnne : newline ≠ [] := by
    rcases hn with rfl | rfl <;> decide
  obtain ⟨m, hm, hi⟩ := exists_infix_of_infix_intercalate hspace hnne hjoined
  obtain ⟨l', hl', rfl⟩ := List.mem_map.mp hm
  exact hspan l' hl' (hi.trans (trim_isInfix l'))

/-- The lines of the blocks are the lines of the result. -/
theorem Blocked.splitOn_intercalate (hn : newline = "\n".toList ∨ newline = "\r\n".toList)
    (hu : ∀ c ∈ style.indentUnit, c = ' ' ∨ c = '\t') {lines : List Text} {parts : List Block}
    (h : Blocked style lines parts) (hne : parts.flatMap Block.lines ≠ [])
    (hlines : ∀ l ∈ lines, ¬ newline <:+: l) :
    splitOn newline (newline.intercalate (parts.flatMap Block.lines)) =
      parts.flatMap Block.lines := by
  have hnew := h.forall_lines (not_infix_of_layoutSpan hn hu) hlines
  have hnne : newline ≠ [] := by
    rcases hn with rfl | rfl <;> decide
  refine Text.splitOn_intercalate hnne hne fun l hl hi => hnew l hl ?_
  rcases hn with rfl | rfl
  · simpa using hi
  · -- a carriage return behind the line completes no line end
    change ['\r', '\n'] <:+: l ++ ['\r'] at hi
    rcases List.infix_concat_iff.mp hi with ⟨t, ht⟩ | hi
    · have hlast := congrArg List.getLast? ht
      rw [List.append_cons, List.getLast?_concat, List.getLast?_concat] at hlast
      exact absurd hlast (by decide)
    · exact hi

end LineEnds

/-! ## Lines on which no tag starts -/

theorem not_opens_of_not_mem {line : Text} (h : '=' ∉ line) : style.opens line = false := by
  rw [Style.opens, Bool.and_eq_false_iff]
  right
  rw [Bool.eq_false_iff, Ne, List.contains_iff_mem]
  exact fun hmem => h ((trim_isInfix line).subset hmem)

theorem not_opens_of_head {b : Text} (hb : Blank b) {c : Char} (hc : isBlank c = false)
    (hne : c ≠ '<') (s : Text) : style.opens (b ++ c :: s) = false := by
  obtain ⟨t, ht⟩ := trimRight_cons hc s
  have htrim : trim (b ++ c :: s) = c :: t := by
    rw [trim, trimLeft_append_cons hb hc, ht]
  rw [Style.opens, Bool.and_eq_false_iff]
  left
  rw [Bool.eq_false_iff, Ne, startsWith_iff, htrim, Style.tagOpen, List.cons_prefix_cons]
  exact fun h => hne h.1.symm

theorem name_prefix_render {marks : Marks} {a b : Attribute} (h : a.normalize marks = .ok b) :
    a.name <+: b.render := by
  obtain ⟨name, value⟩ := a
  cases value with
  | none =>
    cases h
    exact List.prefix_refl name
  | some v =>
    obtain ⟨new, _, hb⟩ := bind_eq_ok.mp h
    cases hb
    exact List.prefix_append name _

/-- A tag starts on none of its new lines: the first one has no equals sign, and the others start
with an attribute or with the closing marker. -/
theorem not_opens_lines (hspace : '=' ∉ style.space) (hu : Blank style.indentUnit) {indent s : Text}
    (hi : ∀ c ∈ indent, c = ' ' ∨ c = '\t') {tag : Tag} (h : Tag.read style s = .ok (some tag)) :
    ∀ l ∈ tag.lines style indent, style.opens l = false := by
  have hblank := blank_of_space_or_tab hi
  obtain ⟨_, _, hmarker, hattributes⟩ := Tag.parts_of_read h
  intro l hl
  rcases List.mem_append.mp hl with hl | hl
  · rcases List.mem_cons.mp hl with rfl | hl
    · exact not_opens_of_not_mem (not_mem_firstLine hspace hi h)
    · obtain ⟨b, hb, rfl⟩ := List.mem_map.mp hl
      obtain ⟨a, _, _, hread, _, hnormal⟩ := hattributes b hb
      obtain ⟨⟨hne, hchars⟩, _⟩ := readAttribute_cases hread
      obtain ⟨c, name, hname⟩ := List.exists_cons_of_ne_nil hne
      have hc : isAttributeChar c = true := hchars c (hname ▸ List.mem_cons_self)
      obtain ⟨more, hrender⟩ := name_prefix_render hnormal
      rw [← hrender, hname]
      refine not_opens_of_head (hblank.append hu) ?_ ?_ (name ++ more)
      · rw [Bool.eq_false_iff]
        intro hb
        simp [isAttributeChar, hb] at hc
      · rintro rfl
        exact absurd hc (by decide)
  · rw [List.mem_singleton.mp hl, List.append_assoc]
    rcases hmarker with hm | hm
    · rw [hm]
      exact not_opens_of_head hblank (by decide) (by decide) _
    · rw [hm]
      exact not_opens_of_head hblank (by decide) (by decide) _

/-! ## Spans -/

theorem spanOf_eq_none_iff {lines : List Text} :
    spanOf lines = none ↔ ∀ l ∈ lines, closes l = false := by
  fun_induction spanOf lines with
  | case1 => simp
  | case2 line lines hc => simp [hc]
  | case3 line lines hc ih =>
    rw [Option.map_eq_none_iff, ih, List.forall_mem_cons]
    exact ⟨fun h => ⟨Bool.eq_false_iff.mpr hc, h⟩, fun h => h.2⟩

/-- A span ends where it does whatever follows it. -/
theorem spanOf_append {span rest : List Text} (h : spanOf (span ++ rest) = some span)
    (other : List Text) : spanOf (span ++ other) = some span := by
  induction span with
  | nil =>
    obtain ⟨before, line, hspan, _⟩ := spanOf_eq_some h
    exact absurd hspan (by simp)
  | cons line span ih =>
    rw [List.cons_append, spanOf] at h ⊢
    split at h
    · next hc =>
      rw [if_pos hc]
      exact h
    · next hc =>
      obtain ⟨span', hs, he⟩ := Option.map_eq_some_iff.mp h
      cases he
      rw [if_neg hc, ih hs]
      rfl

/-- Where no line closes a tag, none is laid out. -/
theorem Blocked.flatMap_lines_of_open {lines : List Text} {parts : List Block}
    (h : Blocked style lines parts) (hopen : ∀ l ∈ lines, closes l = false) :
    parts.flatMap Block.lines = lines := by
  have hnone : ∀ {l : Text} {lines span : List Text}, (∀ l' ∈ l :: lines, closes l' = false) →
      spanOf (l :: lines) ≠ some span := by
    intro l lines span hl hs
    rw [spanOf_eq_none_iff.mpr hl] at hs
    cases hs
  cases h with
  | nil => rfl
  | line _ h =>
    rw [List.flatMap_cons, h.flatMap_lines_of_open (List.forall_mem_cons.mp hopen).2]
    rfl
  | kept _ hs _ _ => exact absurd hs (hnone hopen)
  | laidOut _ hs _ _ => exact absurd hs (hnone hopen)

/-! ## The second run -/

theorem blocksFrom_append_length (span rest : List Text) :
    blocksFrom style span.length (span ++ rest) = blocksFrom style 0 rest := by
  induction span with
  | nil => rfl
  | cons line span ih => exact ih

/-- Lines on which no tag starts are left alone one by one. -/
theorem blocksFrom_append_of_not_opens {lines : List Text}
    (hlines : ∀ l ∈ lines, style.opens l = false) {rest : List Text} {parts : List Block}
    (h : blocksFrom style 0 rest = .ok parts) :
    blocksFrom style 0 (lines ++ rest) = .ok (lines.map (fun l => .kept [l]) ++ parts) := by
  induction lines with
  | nil => exact h
  | cons line lines ih =>
    obtain ⟨hline, hlines⟩ := List.forall_mem_cons.mp hlines
    rw [List.cons_append, blocksFrom, hline]
    exact bind_eq_ok.mpr ⟨_, ih hlines, rfl⟩

/-- The lines of the blocks of a document go into blocks that are all left alone. -/
theorem Blocked.exists_again (hspace : '=' ∉ style.space) (hu : Blank style.indentUnit)
    {lines : List Text} {parts : List Block} (h : Blocked style lines parts) :
    ∃ again, blocksFrom style 0 (parts.flatMap Block.lines) = .ok again ∧
      again.flatMap Block.lines = parts.flatMap Block.lines ∧
      again.countP Block.isLaidOut = 0 := by
  induction h with
  | nil => exact ⟨[], rfl, rfl, rfl⟩
  | @line line lines parts hspan h ih =>
    obtain ⟨again, hblocks, hagain, hcount⟩ := ih
    refine ⟨.kept [line] :: again, ?_, by simp [hagain], by simpa [Block.isLaidOut] using hcount⟩
    have hnone : (if style.opens line then spanOf (line :: parts.flatMap Block.lines) else none) =
        none := by
      split
      · next hopens =>
        -- a tag that is not closed: neither is any behind it
        have hopen := spanOf_eq_none_iff.mp (hspan hopens)
        rw [h.flatMap_lines_of_open (List.forall_mem_cons.mp hopen).2]
        exact hspan hopens
      · rfl
    show blocksFrom style 0 (line :: parts.flatMap Block.lines) = _
    rw [blocksFrom, hnone]
    exact bind_eq_ok.mpr ⟨again, hblocks, rfl⟩
  | @kept line span rest parts hopens hspan hkept _ ih =>
    obtain ⟨again, hblocks, hagain, hcount⟩ := ih
    refine ⟨.kept (line :: span) :: again, ?_, by simp [hagain],
      by simpa [Block.isLaidOut] using hcount⟩
    have hspan' : spanOf (line :: span ++ parts.flatMap Block.lines) = some (line :: span) :=
      spanOf_append hspan (parts.flatMap Block.lines)
    show blocksFrom style 0 (line :: (span ++ parts.flatMap Block.lines)) = _
    rw [List.cons_append] at hspan'
    rw [blocksFrom, if_pos hopens, hspan']
    refine bind_eq_ok.mpr ⟨none, hkept, bind_eq_ok.mpr ⟨again, ?_, rfl⟩⟩
    rw [List.length_cons, Nat.add_sub_cancel, blocksFrom_append_length, hblocks]
  | @laidOut line span rest new parts _ _ hnew _ ih =>
    obtain ⟨again, hblocks, hagain, hcount⟩ := ih
    obtain ⟨tag, ht, _, rfl⟩ := exists_tag_of_layoutSpan hnew
    have hlines := not_opens_lines hspace hu (indentation_all line) ht
    refine ⟨_, blocksFrom_append_of_not_opens hlines hblocks, ?_, ?_⟩
    · rw [List.flatMap_append, hagain, List.flatMap_map, List.flatMap_cons]
      simp [Block.lines]
    · rw [List.countP_append, hcount, Nat.add_zero, List.countP_eq_zero]
      intro block hb
      obtain ⟨l, _, rfl⟩ := List.mem_map.mp hb
      simp [Block.isLaidOut]

/-- Laying out the component tags of a document that was laid out finds nothing to do. -/
theorem layout_layout (hspace : '=' ∉ style.space) (ho : style.expression.opening ≠ [])
    (hn : newline = "\n".toList ∨ newline = "\r\n".toList)
    (hu : ∀ c ∈ style.indentUnit, c = ' ' ∨ c = '\t') (s : Text) :
    ∃ out n, layout style newline s = .ok (out, n) ∧ layout style newline out = .ok (out, 0) := by
  have hnne : newline ≠ [] := by
    rcases hn with rfl | rfl <;> decide
  obtain ⟨out, n, hout⟩ := exists_layout_eq_ok ho hnne s
  refine ⟨out, n, hout, ?_⟩
  obtain ⟨_, parts, hparts, rfl, _⟩ := exists_blocked_of_layout hout
  obtain ⟨again, hblocks, hagain, hcount⟩ :=
    hparts.exists_again hspace (blank_of_space_or_tab hu)
  have hlines := hparts.splitOn_intercalate hn hu (hparts.flatMap_lines_ne_nil (fields_ne_nil _))
    fun l hl => not_infix_of_mem_splitOn hnne hl
  rw [layout, if_neg (by simpa using hnne)]
  refine bind_eq_ok.mpr ⟨again, ?_, ?_⟩
  · rw [blocks, hlines, hblocks]
  · rw [hagain, hcount]
    rfl

/-- A tag that is laid out, one that holds something other than attributes, and one that is not
closed, with both kinds of line ends. -/
theorem layout_layout_mixed :
    let rest := "\r\n<twig:B d='1'\n\x7b\x7b x \x7d\x7d e='2' />\r\n<twig:C f='1' g".toList
    let s := "\t<twig:A b='1'\r\nc=\x7b\x7b x  y \x7d\x7d/> z ".toList ++ rest
    let out := "\t<twig:A\r\n\t    b='1'\r\n\t    c=\x7b\x7b x y \x7d\x7d\r\n\t/> z".toList ++ rest
    layout .default "\r\n".toList s = .ok (out, 1) ∧
      layout .default "\r\n".toList out = .ok (out, 0) := by
  intro rest s out
  have hout : layout .default "\r\n".toList s = .ok (out, 1) := by decide +kernel
  obtain ⟨out', n, hout', hagain⟩ :=
    @layout_layout .default _ (by decide) (by decide) (.inr rfl) (forall_of_all (by decide)) s
  rw [hout] at hout'
  cases hout'
  exact ⟨hout, hagain⟩

end TwigLayout.Component
