import TwigLayout.Proofs.Spacing.Component
import TwigLayout.Proofs.Stable.LineEnd

/-!
# Component tags that are laid out already

A document is left as it is if and only if none of its lines starts a tag that is to be laid out
(`layout_eq_self_iff`): a tag that is laid out never comes out as it was, since it starts on a line
with an equals sign and its name then has a line without one.
-/

namespace TwigLayout.Component

open Text

variable {style : Style} {newline : Text}

theorem Blocked.flatMap_lines_ne_nil {lines : List Text} {parts : List Block}
    (h : Blocked style lines parts) (hne : lines ≠ []) : parts.flatMap Block.lines ≠ [] := by
  have hlen := h.two_le_length
  have hpos := List.length_pos_of_ne_nil hne
  exact List.ne_nil_of_length_pos (by omega)

theorem Blocked.flatMap_lines_of_kept {lines : List Text} {parts : List Block}
    (h : Blocked style lines parts) (hkept : parts.countP Block.isLaidOut = 0) :
    parts.flatMap Block.lines = lines := by
  induction h with
  | nil => rfl
  | line _ _ ih =>
    rw [List.flatMap_cons, ih (by simpa [Block.isLaidOut] using hkept)]
    rfl
  | kept _ _ _ _ ih =>
    rw [List.flatMap_cons, ih (by simpa [Block.isLaidOut] using hkept)]
    rfl
  | laidOut => simp [Block.isLaidOut] at hkept

theorem Blocked.countP_eq_zero {lines : List Text} {parts : List Block}
    (h : Blocked style lines parts) (hlines : ∀ l ∈ lines, style.opens l = false) :
    parts.countP Block.isLaidOut = 0 := by
  have hfirst : ∀ {l : Text} {lines : List Text}, (∀ l' ∈ l :: lines, style.opens l' = false) →
      style.opens l ≠ true := fun h => Bool.eq_false_iff.mp (h _ List.mem_cons_self)
  induction h with
  | nil => rfl
  | line _ _ ih => simpa [Block.isLaidOut] using ih (List.forall_mem_cons.mp hlines).2
  | kept hopens _ _ _ _ => exact absurd hopens (hfirst hlines)
  | laidOut hopens _ _ _ _ => exact absurd hopens (hfirst hlines)

/-- The first new line of a tag holds no equals sign. -/
theorem not_mem_firstLine (hspace : '=' ∉ style.space) {indent s : Text}
    (hi : ∀ c ∈ indent, c = ' ' ∨ c = '\t') {tag : Tag} (h : Tag.read style s = .ok (some tag)) :
    '=' ∉ indent ++ style.tagOpen ++ tag.name := by
  obtain ⟨rest, hname, _⟩ := Tag.exists_of_read h
  simp only [List.mem_append, not_or]
  refine ⟨⟨fun hmem => ?_, fun hmem => ?_⟩, fun hmem => ?_⟩
  · exact absurd (hi _ hmem) (by decide)
  · exact hspace (List.mem_of_ne_of_mem (by decide) hmem)
  · exact absurd ((name_of_readName hname).2 _ hmem) (by decide)

theorem exists_cons_of_layoutSpan (hspace : '=' ∉ style.space) {line : Text} {span new : List Text}
    (h : layoutSpan style (indentation line) span = .ok (some new)) :
    ∃ first more, new = first :: more ∧ '=' ∉ first := by
  obtain ⟨tag, ht, _, rfl⟩ := exists_tag_of_layoutSpan h
  exact ⟨_, _, rfl, not_mem_firstLine hspace (indentation_all line) ht⟩

/-- Two texts with a line end behind each differ if only one of them has an equals sign and it is
one line. -/
theorem append_append_ne (hn : '=' ∉ newline) {line first a b : Text} (hline : '=' ∈ line)
    (hone : ¬ newline <:+: line) (hfirst : '=' ∉ first) :
    first ++ (newline ++ a) ≠ line ++ b := by
  intro he
  have h₁ : first ++ newline <+: line ++ b := by
    rw [← he, ← List.append_assoc]
    exact List.prefix_append _ _
  rcases List.prefix_or_prefix_of_prefix h₁ (List.prefix_append line b) with h | h
  · exact hone ((List.suffix_append first newline).isInfix.trans h.isInfix)
  · rcases List.mem_append.mp (h.subset hline) with h | h
    · exact hfirst h
    · exact hn h

/-- Blocks that have the text of their lines are all left alone. -/
theorem Blocked.kept_of_flatMap_eq (hspace : '=' ∉ style.space) (hn : '=' ∉ newline)
    {lines : List Text} {parts : List Block} (h : Blocked style lines parts)
    (hlines : ∀ l ∈ lines, ¬ newline <:+: l)
    (he : (parts.flatMap Block.lines).flatMap (· ++ newline) = lines.flatMap (· ++ newline)) :
    parts.countP Block.isLaidOut = 0 := by
  induction h with
  | nil => rfl
  | line _ _ ih =>
    have ih := ih (List.forall_mem_cons.mp hlines).2 (by simpa [Block.lines] using he)
    simpa [Block.isLaidOut] using ih
  | kept _ _ _ _ ih =>
    rw [← List.cons_append] at hlines
    have ih := ih (List.forall_mem_append.mp hlines).2 (by simpa [Block.lines] using he)
    simpa [Block.isLaidOut] using ih
  | @laidOut line span rest new parts hopens _ hnew _ _ =>
    obtain ⟨first, more, rfl, hfirst⟩ := exists_cons_of_layoutSpan hspace hnew
    have hline : '=' ∈ line := by
      rw [Style.opens, Bool.and_eq_true, List.contains_iff_mem] at hopens
      exact (trim_isInfix line).subset hopens.2
    have hone := (List.forall_mem_cons.mp hlines).1
    simp only [List.flatMap_cons, Block.lines, List.cons_append, List.append_assoc] at he
    exact absurd he (append_append_ne hn hline hone hfirst)

/-- A document without the opening of a tag is left as it is. -/
theorem layout_eq_of_not_infix (ho : style.expression.opening ≠ []) (hnne : newline ≠ []) {s : Text}
    (hs : ¬ style.tagOpen <:+: s) : layout style newline s = .ok (s, 0) := by
  obtain ⟨out, n, h⟩ := exists_layout_eq_ok ho hnne s
  obtain ⟨_, parts, hparts, rfl, rfl⟩ := exists_blocked_of_layout h
  have hlines : ∀ l ∈ splitOn newline s, style.opens l = false := by
    intro l hl
    rw [Style.opens, Bool.and_eq_false_iff]
    left
    rw [Bool.eq_false_iff, Ne, startsWith_iff]
    exact fun hp => hs (hp.isInfix.trans ((trim_isInfix l).trans (infix_of_mem_splitOn hnne hl)))
  have hkept := hparts.countP_eq_zero hlines
  rw [h, hkept, hparts.flatMap_lines_of_kept hkept, intercalate_splitOn hnne s]

/-- Laying out the component tags of a document leaves it as it is if and only if there is none to
lay out. -/
theorem layout_eq_self_iff (hm : IsPlain style.expression) (hspace : '=' ∉ style.space)
    (hnne : newline ≠ []) (hn : '=' ∉ newline) (s : Text) :
    (∃ n, layout style newline s = .ok (s, n)) ↔ ∃ out, layout style newline s = .ok (out, 0) := by
  obtain ⟨out, n, h⟩ := exists_layout_eq_ok hm.opening_ne_nil hnne s
  obtain ⟨_, parts, hparts, hout, hcount⟩ := exists_blocked_of_layout h
  have hs := intercalate_splitOn hnne s
  constructor
  · rintro ⟨k, hk⟩
    cases h.symm.trans hk
    refine ⟨s, ?_⟩
    have hlines : splitOn newline s ≠ [] := fields_ne_nil _
    have hnew := hparts.flatMap_lines_ne_nil hlines
    have hkept : parts.countP Block.isLaidOut = 0 := by
      refine hparts.kept_of_flatMap_eq hspace hn
        (fun l hl => not_infix_of_mem_splitOn hnne hl) ?_
      rw [← intercalate_append_self newline hlines, ← intercalate_append_self newline hnew, ← hout,
        hs]
    rw [h, hcount, hkept]
  · rintro ⟨out', hz⟩
    cases h.symm.trans hz
    rw [hparts.flatMap_lines_of_kept hcount.symm, hs] at hout
    exact ⟨0, hout ▸ h⟩

end TwigLayout.Component
