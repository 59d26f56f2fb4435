import Mathlib.Data.List.Infix
import Mathlib.Data.List.TakeWhile
import TwigLayout.Proofs.Text.Blank

/-!
# The last line of a text

A place in a document has the line that the text before it ends with. That line grows with the text
behind it and starts anew behind a line feed (`lastLine_append`, `lastLine_append_feed`). The line
of an offset starts so much before it (`lineStart_append`), and its indentation ends at the first
other character (`indentation_append_cons`).
-/

namespace TwigLayout.Text

theorem exists_append_lastLine (s : Text) : ∃ a, s = a ++ lastLine s := by
  have h : s.reverse.takeWhile (· != '\n') <+: s.reverse := List.takeWhile_prefix _
  obtain ⟨a, ha⟩ := List.reverse_suffix.mpr h
  rw [List.reverse_reverse] at ha
  exact ⟨a, ha.symm⟩

theorem not_mem_lastLine (s : Text) : '\n' ∉ lastLine s := by
  intro hm
  have h := List.all_eq_true.mp List.all_takeWhile _ (List.mem_reverse.mp hm)
  exact absurd h (by decide)

theorem lastLine_append {b : Text} (hb : '\n' ∉ b) (a : Text) :
    lastLine (a ++ b) = lastLine a ++ b := by
  have hall : ∀ c ∈ b.reverse, (c != '\n') = true := by
    intro c hc
    rw [bne_iff_ne]
    rintro rfl
    exact hb (List.mem_reverse.mp hc)
  rw [lastLine, List.reverse_append, List.takeWhile_append_of_pos hall, List.reverse_append,
    List.reverse_reverse, lastLine]

theorem lastLine_append_feed {b : Text} (hb : '\n' ∉ b) (a : Text) :
    lastLine (a ++ '\n' :: b) = b := by
  have hfeed : lastLine (a ++ ['\n']) = [] := by
    rw [lastLine, List.reverse_append]
    rfl
  rw [List.append_cons, lastLine_append hb, hfeed, List.nil_append]

/-- A text is one line, or its last line stands behind a line feed. -/
theorem eq_lastLine_or (s : Text) : lastLine s = s ∨ ∃ a, s = a ++ '\n' :: lastLine s := by
  induction s using List.reverseRecOn with
  | nil => exact .inl rfl
  | append_singleton s c ih =>
    by_cases hc : c = '\n'
    · rw [hc, lastLine_append_feed List.not_mem_nil]
      exact .inr ⟨s, rfl⟩
    · have hone : '\n' ∉ [c] := fun hm => hc (List.mem_singleton.mp hm).symm
      rw [lastLine_append hone]
      rcases ih with h | ⟨a, h⟩
      · exact .inl (by rw [h])
      · exact .inr ⟨a, by rw [← List.cons_append, ← List.append_assoc, ← h]⟩

/-- Behind a text, the line starts where the text has its last line. -/
theorem lineStart_append (a b : Text) :
    lineStart (a ++ b) a.length + (lastLine a).length = a.length := by
  obtain ⟨x, hx⟩ := exists_append_lastLine a
  have hlen := congrArg List.length hx
  rw [List.length_append] at hlen
  rw [lineStart, List.take_left]
  omega

/-! ## Line ends -/

section Newline

variable {newline : Text} (h : newline = "\n".toList ∨ newline = "\r\n".toList)

include h

theorem blank_of_newline : Blank newline := by
  rcases h with rfl | rfl <;> exact .of_all (by decide)

theorem feed_isSuffix_of_newline : ['\n'] <:+ newline := by
  rcases h with rfl | rfl
  · exact List.suffix_refl _
  · exact ⟨['\r'], rfl⟩

end Newline

/-! ## Indentation -/

theorem indentation_eq_self {a : Text} (h : ∀ c ∈ a, c = ' ' ∨ c = '\t') : indentation a = a := by
  refine List.takeWhile_eq_self_iff.mpr fun c hc => ?_
  rcases h c hc with rfl | rfl <;> decide

/-- An indentation ends at the first character that is neither a space nor a tab. -/
theorem indentation_append_cons {c : Char} (hs : c ≠ ' ') (ht : c ≠ '\t') (a b : Text) :
    indentation (a ++ c :: b) = indentation a := by
  have hc : (c == ' ' || c == '\t') = false := by
    rw [Bool.or_eq_false_iff, beq_eq_false_iff_ne, beq_eq_false_iff_ne]
    exact ⟨hs, ht⟩
  induction a with
  | nil => exact List.takeWhile_cons_of_neg (by simp [hc])
  | cons d a ih =>
    rw [List.cons_append, indentation, indentation, List.takeWhile_cons, List.takeWhile_cons]
    split
    · exact congrArg (d :: ·) ih
    · rfl

/-- The indentation behind a text is that of its last line and what follows. -/
theorem indentationAt_append (a b : Text) :
    indentationAt (a ++ b) a.length = indentation (lastLine a ++ b) := by
  obtain ⟨x, hx⟩ := exists_append_lastLine a
  have hstart : lineStart (a ++ b) a.length = x.length := by
    have hline := lineStart_append a b
    have hlen := congrArg List.length hx
    rw [List.length_append] at hlen
    omega
  rw [indentationAt, hstart]
  nth_rewrite 1 [hx]
  rw [List.append_assoc, List.drop_left]

theorem not_mem_indentationAt (s : Text) (i : Nat) : '\n' ∉ indentationAt s i := fun hm =>
  absurd (indentation_all _ _ hm) (by decide)

end TwigLayout.Text
