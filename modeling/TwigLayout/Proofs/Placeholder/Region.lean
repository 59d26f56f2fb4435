import TwigLayout.Proofs.Placeholder.Restore
import TwigLayout.Proofs.Text.Runs

/-!
# The regions of a template

Comments start and end with their markers, and elements with angle brackets. No token has a
character of these, so the tables of comments and elements are walled (`walled_comments`,
`walled_elements`), whatever the template holds.
-/

namespace TwigLayout

open Text Placeholder

/-- A text that starts and ends with characters that no token has. -/
def Placeholder.Bounded (s : Text) : Prop :=
  ∃ c m d, s = c :: (m ++ [d]) ∧ isTokenChar c = false ∧ isTokenChar d = false

theorem Placeholder.Bounded.fenced {s : Text} (h : Bounded s) {k : Kind} {i : Nat} {token : Text}
    (ht : IsToken k i token) : Fenced token s := by
  obtain ⟨c, m, d, hs, hc, hd⟩ := h
  exact ⟨c, m, d, hs, ht.not_mem hc, ht.not_mem hd⟩

/-! ## Comments -/

namespace Comment

theorem read_eq_some {marks : Marks} {last : Option Char} {s rest : Text} {u : Unit}
    (h : read marks last s = some (u, rest)) :
    ∃ body, s = marks.opening ++ body ++ marks.closing ++ rest := by
  obtain ⟨inner, hi, h⟩ := Option.bind_eq_some_iff.mp h
  obtain ⟨⟨body, tail⟩, hc, h⟩ := Option.bind_eq_some_iff.mp h
  cases h
  refine ⟨body, ?_⟩
  rw [after?_eq_some_iff.mp hi, cut?_eq_some hc]
  simp only [List.append_assoc]

theorem read_consumes {marks : Marks} (hm : marks.opening ≠ [] ∨ marks.closing ≠ []) :
    (read marks).Consumes := by
  intro last s value rest h
  obtain ⟨body, rfl⟩ := read_eq_some h
  refine ⟨marks.opening ++ body ++ marks.closing, ?_, rfl⟩
  rcases hm with hm | hm
  · simp [hm]
  · simp [hm]

/-- The comments of a text with the characters between them are the text. -/
theorem flatMap_text_pieces (marks : Marks) (s : Text) :
    (pieces marks s).flatMap Piece.text = s := by
  rw [pieces]
  split
  · rw [List.flatMap_append]
    induction s with
    | nil => rfl
    | cons c s ih => simpa [Piece.text] using ih
  · exact flatMap_text_scan _ s

theorem exists_body_of_mem_pieces {s t : Text} {u : Unit} (h : .found u t ∈ pieces .comment s) :
    ∃ body, t = '{' :: '#' :: (body ++ ['#', '}']) := by
  have hne : (Marks.comment.opening.isEmpty && Marks.comment.closing.isEmpty) = false := rfl
  rw [pieces, hne] at h
  obtain ⟨last, rest, hr⟩ := read_of_mem_scanFrom (read_consumes (.inl (by decide))) h
  obtain ⟨body, he⟩ := read_eq_some hr
  exact ⟨body, List.append_cancel_right he⟩

theorem bounded_of_mem_pieces {s t : Text} {u : Unit}
    (h : .found u t ∈ pieces .comment s) : Bounded t := by
  obtain ⟨body, rfl⟩ := exists_body_of_mem_pieces h
  exact ⟨'{', '#' :: (body ++ ['#']), '}', by simp, by decide, by decide⟩

end Comment

/-! ## Elements -/

namespace Element

theorem suffix_of_readAttributes {s attributes rest : Text}
    (h : readAttributes s = some (attributes, rest)) : rest <:+ s := by
  rw [readAttributes.eq_def] at h
  split at h
  · cases h
  · cases h
    exact List.suffix_cons _ _
  · split at h
    · obtain ⟨tail, ha, he⟩ := Option.map_eq_some_iff.mp h
      cases he
      exact ((suffix_of_after? ha).trans (List.dropWhile_suffix _)).trans (List.suffix_cons _ _)
    · cases h

/-- The texts that are left at the steps of reading an element. -/
theorem exists_steps_of_read {last : Option Char} {s rest : Text} {e : Element}
    (h : read last s = some (e, rest)) :
    ∃ s₁ s₂ s₃ s₄, s = '<' :: s₁ ∧
      readAttributes (s₁.dropWhile isTagChar) = some (e.attributes, s₂) ∧
      s₂.dropWhile isInner = '<' :: '/' :: s₃ ∧ s₃ = e.tag ++ s₄ ∧ trimLeft s₄ = '>' :: rest ∧
      e.tag = s₁.takeWhile isTagChar ∧ e.content = s₂.takeWhile isInner := by
  obtain ⟨s₁, h₁, h⟩ := Option.bind_eq_some_iff.mp h
  split at h
  · obtain ⟨⟨attributes, s₂⟩, h₂, h⟩ := Option.bind_eq_some_iff.mp h
    obtain ⟨s₃, h₃, h⟩ := Option.bind_eq_some_iff.mp h
    obtain ⟨s₄, h₄, h⟩ := Option.bind_eq_some_iff.mp h
    obtain ⟨s₅, h₅, h⟩ := Option.bind_eq_some_iff.mp h
    cases h
    exact ⟨s₁, s₂, s₃, s₄, after?_eq_some_iff.mp h₁, h₂, after?_eq_some_iff.mp h₃,
      after?_eq_some_iff.mp h₄, after?_eq_some_iff.mp h₅, rfl, rfl⟩
  · cases h

theorem read_eq_some {last : Option Char} {s rest : Text} {e : Element}
    (h : read last s = some (e, rest)) : ∃ m, s = '<' :: (m ++ '>' :: rest) := by
  obtain ⟨s₁, s₂, s₃, s₄, rfl, hattributes, hclose, rfl, hend, _⟩ := exists_steps_of_read h
  have hs₂ : s₂ <:+ s₁ := (suffix_of_readAttributes hattributes).trans (List.dropWhile_suffix _)
  have hs₃ : '<' :: '/' :: (e.tag ++ s₄) <:+ s₁ :=
    (hclose ▸ List.dropWhile_suffix (l := s₂) isInner).trans hs₂
  have hs₄ : s₄ <:+ '<' :: '/' :: (e.tag ++ s₄) := ⟨'<' :: '/' :: e.tag, rfl⟩
  obtain ⟨m, hm⟩ : '>' :: rest <:+ s₁ :=
    (hend ▸ trimLeft_isSuffix s₄).trans (hs₄.trans hs₃)
  exact ⟨m, by rw [hm]⟩

theorem read_consumes : read.Consumes := by
  intro last s value rest h
  obtain ⟨m, rfl⟩ := read_eq_some h
  exact ⟨'<' :: (m ++ ['>']), by simp, by simp⟩

theorem bounded_of_mem_pieces {s t : Text} {e : Element} (h : .found e t ∈ pieces s) :
    Bounded t := by
  obtain ⟨last, rest, hr⟩ := read_of_mem_scanFrom read_consumes h
  obtain ⟨m, he⟩ := read_eq_some hr
  have he' : t ++ rest = '<' :: (m ++ ['>']) ++ rest := by simpa using he
  exact ⟨'<', m, '>', List.append_cancel_right he', by decide, by decide⟩

/-- A rule for a namespace and a number of characters always decides. -/
theorem Rule.accepts_of (space : Text) (maxWidth : Int) (e : Element) (s : Text) :
    (Rule.of space maxWidth).accepts e s =
      .ok (!startsWith space e.tag && decide ((s.length : Int) ≤ maxWidth)) := by
  have h : (Value.str (String.ofList space)).asText = .ok space := by simp [Value.asText]
  rw [Rule.accepts, Rule.of, h]
  change (if startsWith space e.tag = true then (.ok false : Except Fault Bool)
    else .ok (decide ((s.length : Int) ≤ maxWidth))) = _
  cases startsWith space e.tag <;> rfl

end Element

/-! ## Walled tables -/

namespace Placeholder

variable {α : Type} {k : Kind} {source : Text} {n : Nat} {pieces : List (Piece α)}
  {parts : List (Piece Text)}

theorem mem_filterMap_pair? {e : Text × Text} :
    e ∈ parts.filterMap pair? ↔ .found e.1 e.2 ∈ parts := by
  rw [List.mem_filterMap]
  constructor
  · rintro ⟨piece, hm, he⟩
    cases piece with
    | plain c => cases he
    | found token region =>
      cases he
      exact hm
  · intro hm
    exact ⟨_, hm, rfl⟩

theorem Assigned.isToken (h : Assigned k source n pieces parts) {e : Text × Text}
    (he : e ∈ parts.filterMap pair?) : ∃ i, IsToken k i e.1 := by
  obtain ⟨i, _, hi⟩ := h.numbered.exists_isToken (mem_filterMap_pair?.mp he)
  exact ⟨i, hi⟩

theorem Assigned.region_infix (h : Assigned k source n pieces parts) {e : Text × Text}
    (he : e ∈ parts.filterMap pair?) : e.2 <:+: pieces.flatMap Piece.text := by
  rw [← h.text, List.flatMap_def]
  exact List.infix_of_mem_flatten
    (List.mem_map.mpr ⟨.found e.1 e.2, mem_filterMap_pair?.mp he, rfl⟩)

/-- A table whose regions are set off by characters that no token has. -/
theorem Assigned.walled (h : Assigned k source n pieces parts)
    (hp : pieces.flatMap Piece.text = source)
    (hr : ∀ value region, .found value region ∈ pieces → Bounded region) :
    Walled (parts.filterMap pair?) where
  ne_nil e he := by
    obtain ⟨i, hi⟩ := h.isToken he
    exact hi.ne_nil
  fenced e he f hf := by
    obtain ⟨i, hi⟩ := h.isToken he
    obtain ⟨value, hv⟩ := h.found _ _ (mem_filterMap_pair?.mp hf)
    exact (hr value f.2 hv).fenced hi
  not_infix e he f hf hi := by
    refine h.fresh _ _ (mem_filterMap_pair?.mp he) (hi.trans ?_)
    rw [← hp]
    exact h.region_infix hf

variable {supply : Supply} {t : Table} {s : Text}

/-- What hiding the comments of a text gives. -/
theorem assignComments_eq_ok {marks : Marks} (hs : supply.WellFormed)
    (h : assignComments supply marks s = .ok (parts, t)) :
    Assigned .comment s 0 (Comment.pieces marks s) parts ∧
      t.entries = parts.filterMap pair? := by
  obtain ⟨ha, he⟩ := assign_eq_ok hs (Table.valid_empty .comment) h
  exact ⟨ha, by simpa [Table.empty] using he⟩

/-- What hiding the elements of a text gives. -/
theorem assignElements_eq_ok {rule : Element.Rule} (hs : supply.WellFormed)
    (h : assignElements supply rule s = .ok (parts, t)) :
    Assigned .inline s 0 (Element.pieces s) parts ∧ t.entries = parts.filterMap pair? := by
  obtain ⟨ha, he⟩ := assign_eq_ok hs (Table.valid_empty .inline) h
  exact ⟨ha, by simpa [Table.empty] using he⟩

theorem walled_comments (hs : supply.WellFormed)
    (h : assignComments supply .comment s = .ok (parts, t)) : Walled t.entries := by
  obtain ⟨ha, he⟩ := assignComments_eq_ok hs h
  rw [he]
  exact ha.walled (Comment.flatMap_text_pieces _ s) fun _ _ hm => Comment.bounded_of_mem_pieces hm

theorem walled_elements {rule : Element.Rule} (hs : supply.WellFormed)
    (h : assignElements supply rule s = .ok (parts, t)) : Walled t.entries := by
  obtain ⟨ha, he⟩ := assignElements_eq_ok hs h
  rw [he]
  exact ha.walled (flatMap_text_scan _ s) fun _ _ hm => Element.bounded_of_mem_pieces hm

/-- The regions of a table of comments are comments of the text. -/
theorem region_of_mem_comments (hs : supply.WellFormed)
    (h : assignComments supply .comment s = .ok (parts, t)) {e : Text × Text}
    (hm : e ∈ t.entries) : Bounded e.2 ∧ e.2 <:+: s := by
  obtain ⟨ha, he⟩ := assignComments_eq_ok hs h
  rw [he] at hm
  obtain ⟨value, hv⟩ := ha.found _ _ (mem_filterMap_pair?.mp hm)
  refine ⟨Comment.bounded_of_mem_pieces hv, ?_⟩
  rw [← Comment.flatMap_text_pieces .comment s]
  exact ha.region_infix hm

end Placeholder

end TwigLayout
