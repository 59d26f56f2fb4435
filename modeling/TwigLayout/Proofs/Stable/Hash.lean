import TwigLayout.Proofs.Content.Hash

/-!
# Bodies that are laid out already

A property is *done* if it has no white space around it and no bare key. A body is *laid out* if it
has one property on each line and all of them are done.

1. `laidOut_of_layout`: laying out gives a body that is laid out, if every bare key has a value.
2. `LaidOut.layout_eq`: laying out such a body at the same indentation gives it again.
3. `LaidOut.eq_of_suffix`: the last line of the body shows its indentation.
-/

namespace TwigLayout.Hash

open Text

/-! ## Properties -/

/-- Every bare key of a body has a value behind its colon. -/
def Valued (body : Text) : Prop := ∀ p ∈ properties body, ∀ parts ∈ bareKey? p, parts.2 ≠ []

instance (body : Text) : Decidable (Valued body) :=
  inferInstanceAs (Decidable (∀ p ∈ properties body, ∀ parts ∈ bareKey? p, parts.2 ≠ []))

/-- A property without white space around it and without a bare key. -/
structure IsDone (p : Text) : Prop where
  isTrim : IsTrim p
  key : bareKey? p = none

theorem IsDone.quoteKey {p : Text} (h : IsDone p) : quoteKey p = p := by
  rw [Hash.quoteKey, h.key]

theorem IsDone.not_blank {p : Text} (h : IsDone p) : ¬ Blank p := by
  obtain ⟨c, t, rfl, hc⟩ := h.isTrim.head
  intro hb
  rw [hb c List.mem_cons_self] at hc
  cases hc

/-- Quoting its key is all there is to do to a property. -/
theorem isDone_quoteKey {p : Text} (ht : IsTrim p) (hv : ∀ parts ∈ bareKey? p, parts.2 ≠ []) :
    IsDone (quoteKey p) := by
  cases hk : bareKey? p with
  | none =>
    have hq : quoteKey p = p := by rw [quoteKey, hk]
    rw [hq]
    exact ⟨ht, hk⟩
  | some parts =>
    obtain ⟨key, value⟩ := parts
    have hq : quoteKey p = '\'' :: (key ++ ('\'' :: ':' :: ' ' :: value)) := by
      rw [quoteKey, hk]
      simp
    have hne : value ≠ [] := hv (key, value) hk
    obtain ⟨gap, gap', hp, _⟩ := exists_of_bareKey? hk
    -- the value ends where the property does
    obtain ⟨v, d, rfl⟩ : ∃ v d, value = v ++ [d] := by
      rcases List.eq_nil_or_concat value with rfl | ⟨v, d, rfl⟩
      · exact absurd rfl hne
      · exact ⟨v, d, by simp⟩
    have hd : isBlank d = false := by
      obtain ⟨t, c, he, hc⟩ := ht.last
      rw [hp] at he
      have hlast : (key ++ (gap ++ ':' :: (gap' ++ v)) ++ [d]).getLast? = (t ++ [c]).getLast? := by
        rw [← he]
        simp
      rw [List.getLast?_concat, List.getLast?_concat] at hlast
      cases hlast
      exact hc
    rw [hq]
    refine ⟨⟨⟨'\'', _, rfl, by decide⟩, ⟨'\'' :: (key ++ '\'' :: ':' :: ' ' :: v), d, by simp, hd⟩⟩,
      ?_⟩
    rfl

/-! ## Bodies -/

/-- One property on each line, and behind the last of them the text `z`. -/
def LaidOut (newline indent z body : Text) : Prop :=
  ∃ props, props ≠ [] ∧ Separate props ∧ (∀ p ∈ props, IsDone p) ∧
    body = newline ++ (',' :: newline).intercalate (props.map (indent ++ ·)) ++ z

variable {newline indent z body out : Text}

theorem laidOut_of_layout (hv : Valued body) (h : layout body indent newline = some out)
    (z : Text) : LaidOut newline indent z (newline ++ out ++ z) := by
  obtain ⟨hne, rfl⟩ := layout_eq_some_iff.mp h
  refine ⟨(properties body).map quoteKey, by simpa using hne,
    (Separate.properties body).map_quoteKey, fun p hp => ?_, rfl⟩
  obtain ⟨q, hq, rfl⟩ := List.mem_map.mp hp
  exact isDone_quoteKey (mem_properties hq) (hv q hq)

/-- Laying out a body that is laid out gives it again. -/
theorem LaidOut.layout_eq (h : LaidOut newline indent z body) (hn : Blank newline)
    (hi : Blank indent) (hz : Blank z) :
    ∃ out, layout body indent newline = some out ∧ body = newline ++ out ++ z := by
  obtain ⟨props, hne, hsep, hdone, rfl⟩ := h
  have hprops :
      properties (newline ++ (',' :: newline).intercalate (props.map (indent ++ ·)) ++ z) = props := by
    rw [properties_lines hne hsep (fun p hp => (hdone p hp).not_blank) hi hn hz]
    exact (List.map_congr_left fun p hp => (hdone p hp).isTrim.trim).trans (List.map_id' props)
  refine ⟨_, layout_eq_some_iff.mpr ⟨by rwa [hprops], rfl⟩, ?_⟩
  rw [hprops]
  have hquote : props.map quoteKey = props :=
    (List.map_congr_left fun p hp => (hdone p hp).quoteKey).trans (List.map_id' props)
  rw [hquote]

/-- What stands behind the last line end of a text. -/
theorem eq_of_append_cons_eq {a b x y : Text} {c : Char} (hx : c ∉ x) (hy : c ∉ y)
    (h : a ++ c :: x = b ++ c :: y) : x = y := by
  rcases List.append_eq_append_iff.mp h with ⟨w, _, hw⟩ | ⟨w, _, hw⟩
  · cases w with
    | nil => exact (List.cons.inj hw).2
    | cons d w => exact absurd (by rw [(List.cons.inj hw).2]; simp) hx
  · cases w with
    | nil => exact (List.cons.inj hw).2.symm
    | cons d w => exact absurd (by rw [(List.cons.inj hw).2]; simp) hy

/-- The last line of a body that is laid out shows its indentation. -/
theorem LaidOut.eq_of_suffix (h : LaidOut newline indent (newline ++ z) body)
    (hn : ['\n'] <:+ newline) {z' : Text} (hz : '\n' ∉ z) (hz' : '\n' ∉ z')
    (hsuffix : newline ++ z' <:+ body) : z' = z := by
  obtain ⟨props, _, _, _, rfl⟩ := h
  obtain ⟨u, rfl⟩ := hn
  obtain ⟨v, he⟩ := hsuffix
  generalize (',' :: (u ++ ['\n'])).intercalate (props.map (indent ++ ·)) = lines at he
  exact eq_of_append_cons_eq (a := v ++ u) (b := u ++ ['\n'] ++ lines ++ u) hz' hz
    (by simpa using he)

end TwigLayout.Hash
