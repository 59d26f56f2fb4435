import TwigLayout.Proofs.Placeholder.Region
import TwigLayout.Proofs.Text.Blank

/-!
# Hidden elements

An element is written with its name twice (`Element.render`). No character of it is a line feed but
white space behind one of the two names: the character that parts the name from the attributes, and
the gap in the closing tag (`Element.feed_mem_render_iff`).

Every region in a table of hidden elements is such a text, is not wider than the limit and has a
name outside of the component namespace (`regions_of_shieldElements`). So it stands on one line
exactly if none of the two places has a line feed; `shieldElements_feed` has an element for each of
them that is hidden all the same.
-/

namespace TwigLayout

open Text Placeholder

namespace Element

/-- The text of an element with `gap` behind the name in its closing tag. -/
def render (e : Element) (gap : Text) : Text :=
  '<' :: (e.tag ++ e.attributes ++ '>' :: (e.content ++ '<' :: '/' :: (e.tag ++ gap ++ ['>'])))

/-- The parts of an element have the characters that may stand there. White space parts the name
from what follows it in the opening tag. -/
structure IsInline (e : Element) : Prop where
  tag : ∀ c ∈ e.tag, isTagChar c = true
  attributes : e.attributes = [] ∨
    ∃ c inner, e.attributes = c :: inner ∧ isBlank c = true ∧ ∀ d ∈ inner, isInner d = true
  content : ∀ c ∈ e.content, isInner c = true

/-! ## Reading -/

theorem readAttributes_eq_some {s attributes rest : Text}
    (h : readAttributes s = some (attributes, rest)) :
    s = attributes ++ '>' :: rest ∧ (attributes = [] ∨
      ∃ c inner, attributes = c :: inner ∧ isBlank c = true ∧ ∀ d ∈ inner, isInner d = true) := by
  rw [readAttributes.eq_def] at h
  split at h
  · cases h
  · cases h
    exact ⟨rfl, .inl rfl⟩
  · next c s _ =>
    split at h
    · next hc =>
      obtain ⟨tail, ha, he⟩ := Option.map_eq_some_iff.mp h
      cases he
      refine ⟨?_, .inr ⟨c, _, rfl, hc, List.all_eq_true.mp List.all_takeWhile⟩⟩
      have hs := List.takeWhile_append_dropWhile (p := isInner) (l := s)
      rw [after?_eq_some_iff.mp ha] at hs
      exact congrArg (c :: ·) hs.symm
    · cases h

/-- What is read is the text of an element. -/
theorem exists_render_of_read {last : Option Char} {s rest : Text} {e : Element}
    (h : read last s = some (e, rest)) :
    ∃ gap, Blank gap ∧ e.IsInline ∧ s = e.render gap ++ rest := by
  obtain ⟨s₁, s₂, s₃, s₄, rfl, hread, hclose, rfl, hend, htag, hcontent⟩ := exists_steps_of_read h
  obtain ⟨hopen, hattributes⟩ := readAttributes_eq_some hread
  obtain ⟨gap, hgap, hs₄⟩ := exists_blank_append_trimLeft s₄
  refine ⟨gap, hgap, ⟨?_, hattributes, ?_⟩, ?_⟩
  · rw [htag]
    exact List.all_eq_true.mp List.all_takeWhile
  · rw [hcontent]
    exact List.all_eq_true.mp List.all_takeWhile
  · have hs₁ := List.takeWhile_append_dropWhile (p := isTagChar) (l := s₁)
    have hs₂ := List.takeWhile_append_dropWhile (p := isInner) (l := s₂)
    rw [hend] at hs₄
    rw [← hcontent, hclose, hs₄] at hs₂
    rw [← htag, hopen, ← hs₂] at hs₁
    rw [← hs₁]
    simp only [render, List.append_assoc, List.cons_append, List.nil_append]

theorem feed_not_mem_of_inner {s : Text} (h : ∀ c ∈ s, isInner c = true) : '\n' ∉ s :=
  not_mem_of_forall (p := isInner) (by decide) h

/-- The two places in which an element may have a line feed. -/
theorem feed_mem_render_iff {e : Element} (h : e.IsInline) (gap : Text) :
    '\n' ∈ e.render gap ↔ e.attributes.head? = some '\n' ∨ '\n' ∈ gap := by
  have htag : '\n' ∉ e.tag := not_mem_of_forall (p := isTagChar) (by decide +kernel) h.tag
  have hattributes : '\n' ∈ e.attributes ↔ e.attributes.head? = some '\n' := by
    rcases h.attributes with he | ⟨c, inner, he, _, hinner⟩
    · simp [he]
    · simp [he, feed_not_mem_of_inner hinner, eq_comm]
  simp [render, htag, feed_not_mem_of_inner h.content, hattributes]

end Element

namespace Placeholder

variable {supply : Supply} {s : Text}

/-- An entry that is added while tokens are assigned stands for a finding that is accepted. -/
theorem accepted_of_assign {α : Type} {accepts : α → Text → Except Fault Bool}
    {pieces : List (Piece α)} {parts : List (Piece Text)} {t u : Table}
    (h : assign supply s accepts pieces t = .ok (parts, u)) {entry : Text × Text}
    (hentry : entry ∈ u.entries) :
    entry ∈ t.entries ∨
      ∃ value, .found value entry.2 ∈ pieces ∧ accepts value entry.2 = .ok true := by
  replace h := assigns_of_assign h
  induction h with
  | nil => exact .inl hentry
  | plain _ ih | refused _ _ ih =>
    exact (ih hentry).imp_right fun ⟨value, hm, ha⟩ => ⟨value, List.mem_cons_of_mem _ hm, ha⟩
  | accepted haccepted hadd _ ih =>
    rcases ih hentry with hv | ⟨value, hm, ha⟩
    · rw [(Table.add?_eq_some hadd).2.1, List.mem_append, List.mem_singleton] at hv
      rcases hv with ht | rfl
      · exact .inl ht
      · exact .inr ⟨_, List.mem_cons_self, haccepted⟩
    · exact .inr ⟨value, List.mem_cons_of_mem _ hm, ha⟩

/-- The regions in a table of elements are texts of elements, with no markup between the two tags,
not wider than the limit and outside of the namespace. They stand on one line, except for the white
space behind the name in the opening tag and in the closing tag. -/
theorem regions_of_shieldElements {space hidden : Text} {maxWidth : Int} {t : Table}
    (h : shieldElements supply (.of space maxWidth) s = .ok (hidden, t)) :
    ∀ entry ∈ t.entries, ∃ (e : Element) (gap : Text), entry.2 = e.render gap ∧ e.IsInline ∧
      Blank gap ∧ (entry.2.length : Int) ≤ maxWidth ∧ ¬ space <+: e.tag ∧
      (∀ c ∈ e.content, c ≠ '<' ∧ c ≠ '>') ∧
      ('\n' ∈ entry.2 ↔ e.attributes.head? = some '\n' ∨ '\n' ∈ gap) := by
  intro entry hentry
  obtain ⟨⟨parts, u⟩, hassign, he⟩ := bind_eq_ok.mp h
  cases he
  obtain ⟨e, hfound, haccepted⟩ := (accepted_of_assign hassign hentry).resolve_left (by
    simp [Table.empty])
  obtain ⟨last, rest, hread⟩ := read_of_mem_scanFrom Element.read_consumes hfound
  obtain ⟨gap, hgap, hinline, hrender⟩ := Element.exists_render_of_read hread
  have hregion : entry.2 = e.render gap := List.append_cancel_right hrender
  rw [Element.Rule.accepts_of, Except.ok.injEq, Bool.and_eq_true, Bool.not_eq_true',
    decide_eq_true_eq] at haccepted
  obtain ⟨hspace, hwidth⟩ := haccepted
  refine ⟨e, gap, hregion, hinline, hgap, hwidth, ?_, fun c hc => ?_, ?_⟩
  · rw [← startsWith_iff, hspace]
    exact Bool.false_ne_true
  · have hinner := hinline.content c hc
    simp only [Element.isInner, Bool.and_eq_true, bne_iff_ne] at hinner
    exact hinner.1
  · rw [hregion]
    exact Element.feed_mem_render_iff hinline gap

/-- Of three elements one is hidden: the others are a component and one that is too wide. -/
theorem regions_of_shieldElements_short :
    let s := "<a href=\"#\">x</a><twig:B>y</twig:B><p>0123456789abcdef</p>".toList
    ∃ hidden t, shieldElements .counting (.of "twig:".toList 20) s = .ok (hidden, t) ∧
      t.entries.map (·.2) = ["<a href=\"#\">x</a>".toList] ∧
      ∀ entry ∈ t.entries, ∃ (e : Element) (gap : Text), entry.2 = e.render gap ∧
        ¬ "twig:".toList <+: e.tag ∧
        ¬ (e.attributes.head? = some '\n' ∨ '\n' ∈ gap) := by
  intro s
  obtain ⟨hidden, t, hshield, hregions⟩ : ∃ hidden t,
      shieldElements .counting (.of "twig:".toList 20) s = .ok (hidden, t) ∧
        t.entries.map (·.2) = ["<a href=\"#\">x</a>".toList] := ⟨_, _, rfl, by decide +kernel⟩
  refine ⟨hidden, t, hshield, hregions, fun entry hentry => ?_⟩
  obtain ⟨e, gap, hrender, _, _, _, hspace, _, hfeed⟩ :=
    regions_of_shieldElements hshield entry hentry
  have hmem : entry.2 ∈ t.entries.map (·.2) := List.mem_map_of_mem hentry
  rw [hregions, List.mem_singleton] at hmem
  refine ⟨e, gap, hrender, hspace, ?_⟩
  rw [← hfeed, hmem]
  decide

/-- Elements over two lines that are hidden: one with a line feed behind its name, and one with a
line feed in its closing tag. -/
theorem shieldElements_feed :
    (∃ hidden t, shieldElements .counting (.of "twig:".toList 120) "<a\nhref=\"#\">x</a>".toList =
      .ok (hidden, t) ∧ t.entries.map (·.2) = ["<a\nhref=\"#\">x</a>".toList] ∧
        ∃ entry ∈ t.entries, '\n' ∈ entry.2) ∧
    ∃ hidden t, shieldElements .counting (.of "twig:".toList 120) "<a>x</a\n>".toList =
      .ok (hidden, t) ∧ t.entries.map (·.2) = ["<a>x</a\n>".toList] ∧
        ∃ entry ∈ t.entries, '\n' ∈ entry.2 :=
  ⟨⟨_, _, rfl, rfl, _, List.mem_singleton_self _, by decide⟩,
    _, _, rfl, rfl, _, List.mem_singleton_self _, by decide⟩

end Placeholder

end TwigLayout
