import TwigLayout.Hash
import TwigLayout.Proofs.Placeholder.Token
import TwigLayout.Proofs.Text.Runs

/-!
# Laying out hash literal bodies

A body is laid out from its properties, which are parts of it. So no run of characters comes about
of which none stands between them (`runsIn_layout`), such as those of tokens.
-/

namespace TwigLayout

open Text Placeholder

theorem isTokenChar_indentation (s : Text) : ∀ c ∈ indentation s, isTokenChar c = false := by
  intro c hc
  rcases indentation_all s c hc with rfl | rfl <;> decide

namespace Hash

/-- A class without the characters that laying out writes around a literal, between its properties
and before a line. -/
def Outside (p : Char → Bool) : Prop :=
  ∀ c ∈ ['\'', ':', ' ', '\t', ',', '|', '(', ')', '{', '}'], p c = false

theorem outside_isTokenChar : Outside isTokenChar := forall_of_any (by decide)

variable {p : Char → Bool}

theorem Outside.indentation (hp : Outside p) (s : Text) : ∀ c ∈ indentation s, p c = false := by
  intro c hc
  rcases indentation_all s c hc with rfl | rfl
  · exact hp ' ' (by decide)
  · exact hp '\t' (by decide)

/-- A bare key and its value, with the colon and the white space between them. -/
theorem bareKey?_eq_some {property key value : Text} (h : bareKey? property = some (key, value)) :
    ∃ gap gap', property = key ++ (gap ++ ':' :: (gap' ++ value)) := by
  cases property with
  | nil => cases h
  | cons c s =>
    rw [bareKey?] at h
    split at h
    · split at h
      · next rest hrest =>
        cases h
        obtain ⟨gap, hgap⟩ := trimLeft_isSuffix (s.dropWhile isKeyChar)
        obtain ⟨gap', hgap'⟩ := trimLeft_isSuffix rest
        refine ⟨gap, gap', ?_⟩
        rw [hgap', ← hrest, hgap, List.cons_append, List.takeWhile_append_dropWhile]
      · cases h
    · cases h

theorem runsIn_quoteKey (hp : Outside p) (property : Text) :
    RunsIn p (quoteKey property) property := by
  rw [quoteKey]
  split
  · next key value h =>
    obtain ⟨gap, gap', rfl⟩ := bareKey?_eq_some h
    have hkey : key <:+: key ++ (gap ++ ':' :: (gap' ++ value)) := List.infix_append_left
    have hvalue : value <:+: key ++ (gap ++ ':' :: (gap' ++ value)) :=
      List.infix_append_of_infix_right (List.infix_append_of_infix_right
        (List.infix_cons (List.infix_append_right)))
    have he : '\'' :: key ++ ['\'', ':', ' '] ++ value =
        '\'' :: (key ++ '\'' :: ':' :: ' ' :: value) := by simp
    have hquote := hp '\'' (by decide)
    rw [he]
    exact .cons hquote (.append_cons hquote (.of_isInfix hkey)
      (.cons (hp ':' (by decide)) (.cons (hp ' ' (by decide)) (.of_isInfix hvalue))))
  · exact .of_isInfix (List.infix_refl property)

theorem infix_of_mem_properties {body property : Text} (h : property ∈ properties body) :
    property <:+: body := by
  obtain ⟨segment, hs, rfl⟩ := List.mem_map.mp (List.mem_filter.mp h).1
  have hi := infix_intercalate [','] hs
  rw [intercalate_segments] at hi
  exact (trim_isInfix segment).trans hi

/-- No run comes about when a body is laid out. -/
theorem runsIn_layout (hp : Outside p) {body indent newline out : Text}
    (hi : ∀ c ∈ indent, p c = false) (hn : ∀ c ∈ newline, p c = false)
    (h : layout body indent newline = some out) : RunsIn p out body := by
  rw [layout] at h
  split at h
  · cases h
  · cases h
    refine .intercalate (by simp) (List.forall_mem_cons.mpr ⟨hp ',' (by decide), hn⟩)
      fun line hl => ?_
    obtain ⟨property, hm, rfl⟩ := List.mem_map.mp hl
    exact .append_of_forall hi
      ((runsIn_quoteKey hp property).mono (infix_of_mem_properties hm))

end Hash

end TwigLayout
