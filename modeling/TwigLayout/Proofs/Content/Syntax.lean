import TwigLayout.Proofs.Content.Hash

/-!
# Splitting and the syntax of strings

In a string literal a backslash escapes the next character. Splitting does not count backslashes: it
looks at the one character before a quote. The two agree up to the quote that ends the literal, and
there they agree unless the literal ends with a backslash that is escaped itself.

1. `State.run_content`: inside a literal no quote is taken for its end.
2. `State.run_literal_iff`: the end is found unless there is a backslash before it.
3. `properties_intercalate`: pieces that hold only such literals are what their text splits into.
   `properties_intercalate_backslash` is a text that splits otherwise.
-/

namespace TwigLayout.Hash

open Text

/-! ## Literals -/

/-- What stands between two quotes `q`: characters other than the quote and the backslash, and
backslashes with a character behind them. -/
inductive Content (q : Char) : Text → Prop
  | nil : Content q []
  | plain {c : Char} {s : Text} : c ≠ q → c ≠ '\\' → Content q s → Content q (c :: s)
  | escape (c : Char) {s : Text} : Content q s → Content q ('\\' :: c :: s)

/-- A content that does not end with a backslash. -/
def Ended (q : Char) (s : Text) : Prop := Content q s ∧ s.getLast? ≠ some '\\'

theorem State.last_run_concat (st : State) (s : Text) (c : Char) :
    (st.run (s ++ [c])).last = some c := by
  rw [State.run_append]
  exact (st.run s).last_step c

/-- Inside a string, a character changes nothing but the last one, if it is not the quote or comes
behind a backslash. -/
theorem State.step_inside {st : State} {q c : Char} (hst : st.quote = some q)
    (h : c ≠ q ∨ st.last = some '\\') :
    st.splits c = false ∧ st.step c = { st with last := some c } := by
  refine ⟨by simp [State.splits, hst], ?_⟩
  unfold State.step
  rw [hst]
  rcases h with h | h
  · simp [h]
  · simp [h]

/-- Inside a literal no quote ends the string. -/
theorem State.run_content {q : Char} (hq : isQuote q = true) {s : Text} (h : Content q s)
    {st : State} (hst : st.quote = some q) :
    st.uncut s = true ∧ (st.run s).quote = some q ∧ (st.run s).depth = st.depth := by
  have hne : '\\' ≠ q := by
    rintro rfl
    exact absurd hq (by decide)
  induction h generalizing st with
  | nil => exact ⟨rfl, hst, rfl⟩
  | @plain c s hc _ _ ih =>
    obtain ⟨hsplit, hstep⟩ := State.step_inside hst (.inl hc)
    have ih := @ih (st.step c) (by rw [hstep]; exact hst)
    unfold State.uncut
    rw [hsplit, ih.1]
    exact ⟨rfl, ih.2.1, ih.2.2.trans (by rw [hstep])⟩
  | @escape c s _ ih =>
    obtain ⟨hsplit, hstep⟩ := State.step_inside hst (.inl hne)
    -- whatever follows the backslash is not the end
    obtain ⟨hsplit', hstep'⟩ :=
      @State.step_inside (st.step '\\') q c (by rw [hstep]; exact hst) (.inr (st.last_step '\\'))
    have ih := @ih ((st.step '\\').step c) (by rw [hstep', hstep]; exact hst)
    unfold State.uncut State.uncut
    rw [hsplit, hsplit', ih.1]
    exact ⟨rfl, ih.2.1, ih.2.2.trans (by rw [hstep', hstep])⟩

/-- The state behind the quote that ends a literal. -/
theorem State.step_end {st : State} {q : Char} (hst : st.quote = some q) :
    st.splits q = false ∧ (st.step q).depth = st.depth ∧
      ((st.step q).quote = none ↔ st.last ≠ some '\\') := by
  refine ⟨by simp [State.splits, hst], ?_⟩
  unfold State.step
  rw [hst]
  by_cases hl : st.last = some '\\'
  · simp [hl]
  · simp [hl]

theorem State.step_quote {st : State} (hst : st.quote = none) {q : Char} (hq : isQuote q = true) :
    st.splits q = false ∧ st.step q = { st with quote := some q, last := some q } := by
  refine ⟨st.splits_of_isQuote hq, ?_⟩
  unfold State.step
  rw [hst]
  simp [hq]

/-- A literal leaves its string exactly if it does not end with a backslash. -/
theorem State.run_literal_iff {st : State} (hst : st.quote = none) {q : Char}
    (hq : isQuote q = true) {s : Text} (h : Content q s) :
    st.uncut (q :: (s ++ [q])) = true ∧ (st.run (q :: (s ++ [q]))).depth = st.depth ∧
      ((st.run (q :: (s ++ [q]))).quote = none ↔ s.getLast? ≠ some '\\') := by
  obtain ⟨hsplit, hstep⟩ := State.step_quote hst hq
  obtain ⟨hu, hquote, hdepth⟩ := @State.run_content q hq s h (st.step q) (by rw [hstep])
  obtain ⟨hsplit', hdepth', hend⟩ := State.step_end hquote
  have hlast : ((st.step q).run s).last ≠ some '\\' ↔ s.getLast? ≠ some '\\' := by
    rcases List.eq_nil_or_concat s with rfl | ⟨t, c, rfl⟩
    · show (st.step q).last ≠ some '\\' ↔ _
      rw [State.last_step]
      simp only [List.getLast?_nil, ne_eq, Option.some.injEq, reduceCtorEq, not_false_eq_true,
        iff_true]
      rintro rfl
      exact absurd hq (by decide)
    · rw [List.concat_eq_append, State.last_run_concat, List.getLast?_concat]
  have hrun : st.run (q :: (s ++ [q])) = ((st.step q).run s).step q :=
    State.run_append (st.step q) s [q]
  refine ⟨?_, ?_, ?_⟩
  · unfold State.uncut
    rw [hsplit, State.uncut_append, hu]
    unfold State.uncut
    rw [hsplit']
    rfl
  · rw [hrun, hdepth', hdepth, hstep]
  · rw [hrun, hend, hlast]

/-! ## Pieces -/

/-- Characters other than quotes, brackets and commas, literals with contents of a class, and such
texts in brackets, where commas may stand as well. Brackets close each other whichever kinds they
are. -/
inductive WellFormed (P : Char → Text → Prop) : (nested : Bool) → Text → Prop
  | nil {nested : Bool} : WellFormed P nested []
  | char {nested : Bool} {c : Char} {s : Text} : isInert c = true → WellFormed P nested s →
      WellFormed P nested (c :: s)
  | comma {s : Text} : WellFormed P true s → WellFormed P true (',' :: s)
  | literal {nested : Bool} {q : Char} {content s : Text} : isQuote q = true → P q content →
      WellFormed P nested s → WellFormed P nested (q :: (content ++ [q]) ++ s)
  | group {nested : Bool} {o c : Char} {inner s : Text} : isOpening o = true →
      isClosing c = true → WellFormed P true inner → WellFormed P nested s →
      WellFormed P nested (o :: (inner ++ c :: s))

theorem State.step_opening {st : State} (hst : st.quote = none) {c : Char}
    (hc : isOpening c = true) :
    st.splits c = false ∧ st.step c = { st with depth := st.depth + 1, last := some c } := by
  have hc' : c = '(' ∨ c = '[' ∨ c = '{' := by simpa [isOpening, or_assoc] using hc
  unfold State.splits State.step
  rw [hst]
  rcases hc' with rfl | rfl | rfl <;> exact ⟨rfl, rfl⟩

theorem State.step_closing {st : State} (hst : st.quote = none) {c : Char}
    (hc : isClosing c = true) :
    st.splits c = false ∧ st.step c = { st with depth := st.depth - 1, last := some c } := by
  have hc' : c = ')' ∨ c = ']' ∨ c = '}' := by simpa [isClosing, or_assoc] using hc
  unfold State.splits State.step
  rw [hst]
  rcases hc' with rfl | rfl | rfl <;> exact ⟨rfl, rfl⟩

theorem State.run_cons_of_like {st : State} {c : Char} {s : Text} (hsplit : st.splits c = false)
    (hlike : (st.step c).Like st) (hu : st.uncut s = true) (hl : (st.run s).Like st) :
    st.uncut (c :: s) = true ∧ (st.run (c :: s)).Like st := by
  refine ⟨?_, (hlike.run s).trans hl⟩
  unfold State.uncut
  rw [hsplit, hlike.uncut, hu]
  rfl

theorem State.run_append_of_like {st : State} {s t : Text} (hs : st.uncut s = true)
    (hlike : (st.run s).Like st) (ht : st.uncut t = true) (hl : (st.run t).Like st) :
    st.uncut (s ++ t) = true ∧ (st.run (s ++ t)).Like st := by
  rw [State.uncut_append, State.run_append, hs, hlike.uncut, ht]
  exact ⟨rfl, (hlike.run t).trans hl⟩

/-- A bracket that closes what the one in front of the text opened. -/
theorem State.run_group {st : State} (hst : st.quote = none) {o c : Char} {inner : Text}
    (ho : isOpening o = true) (hc : isClosing c = true) (hu : (st.step o).uncut inner = true)
    (hl : ((st.step o).run inner).Like (st.step o)) :
    st.uncut (o :: (inner ++ [c])) = true ∧ (st.run (o :: (inner ++ [c]))).Like st := by
  obtain ⟨hsplit, hstep⟩ := State.step_opening hst ho
  have hquote : ((st.step o).run inner).quote = none := by
    rw [hl.1, hstep]
    exact hst
  obtain ⟨hsplit', hstep'⟩ := State.step_closing hquote hc
  constructor
  · unfold State.uncut
    rw [hsplit, State.uncut_append, hu]
    unfold State.uncut
    rw [hsplit']
    rfl
  · have hrun : st.run (o :: (inner ++ [c])) = ((st.step o).run inner).step c :=
      State.run_append (st.step o) inner [c]
    rw [hrun, hstep']
    refine ⟨hquote.trans hst.symm, ?_, .inl hquote⟩
    show ((st.step o).run inner).depth - 1 = st.depth
    rw [hl.2.1, hstep]
    rfl

/-- A well-formed text is not cut, and leaves open what was open before it. -/
theorem State.run_wellFormed {nested : Bool} {s : Text} (h : WellFormed Ended nested s) {st : State}
    (hst : st.quote = none) (hdepth : nested = true → st.depth ≠ 0) :
    st.uncut s = true ∧ (st.run s).Like st := by
  induction h generalizing st with
  | nil => exact ⟨rfl, .refl st⟩
  | @char nested c s hc _ ih =>
    obtain ⟨hsplit, hstep⟩ := State.step_inert hst hc
    have hlike : (st.step c).Like st := by
      rw [hstep]
      exact ⟨rfl, rfl, .inl hst⟩
    obtain ⟨hu, hl⟩ := ih hst hdepth
    exact State.run_cons_of_like hsplit hlike hu hl
  | @comma s _ ih =>
    have hsplit : st.splits ',' = false := by simp [State.splits, hdepth rfl]
    have hlike : (st.step ',').Like st := by
      unfold State.step
      rw [hst]
      exact ⟨hst.symm, rfl, .inl rfl⟩
    obtain ⟨hu, hl⟩ := ih hst hdepth
    exact State.run_cons_of_like hsplit hlike hu hl
  | @literal nested q content s hq hcontent _ ih =>
    obtain ⟨hu, hd, hend⟩ := State.run_literal_iff hst hq hcontent.1
    have hclosed := hend.mpr hcontent.2
    have hlike : (st.run (q :: (content ++ [q]))).Like st :=
      ⟨hclosed.trans hst.symm, hd, .inl hclosed⟩
    obtain ⟨hu', hl⟩ := ih hst hdepth
    exact State.run_append_of_like hu hlike hu' hl
  | @group nested o c inner s ho hc _ _ ihInner ih =>
    obtain ⟨_, hstep⟩ := State.step_opening hst ho
    obtain ⟨hu, hl⟩ := @ihInner (st.step o) (by rw [hstep]; exact hst)
      (fun _ => by rw [hstep]; exact Nat.succ_ne_zero st.depth)
    obtain ⟨hu', hlike⟩ := State.run_group hst ho hc hu hl
    obtain ⟨hs, hl'⟩ := ih hst hdepth
    have htext : o :: (inner ++ c :: s) = o :: (inner ++ [c]) ++ s := by simp
    rw [htext]
    exact State.run_append_of_like hu' hlike hs hl'

theorem separate_of_wellFormed {pieces : List Text}
    (h : ∀ piece ∈ pieces, WellFormed Ended false piece) : Separate pieces := by
  induction pieces with
  | nil => trivial
  | cons x xs ih =>
    obtain ⟨hx, hxs⟩ := List.forall_mem_cons.mp h
    obtain ⟨hu, hl⟩ := @State.run_wellFormed _ _ hx .start rfl (fun h => nomatch h)
    cases xs with
    | nil => exact hu
    | cons y xs => exact ⟨hu, hl.level ⟨rfl, rfl⟩, ih hxs⟩

/-- Well-formed pieces are what their text splits into, if none of their literals ends with a
backslash. -/
theorem properties_intercalate {pieces : List Text}
    (h : ∀ piece ∈ pieces, WellFormed Ended false piece) :
    properties ([','].intercalate pieces) = (pieces.map trim).filter (!·.isEmpty) := by
  by_cases hne : pieces = []
  · rw [hne]
    rfl
  · unfold properties
    rw [segments_intercalate hne (separate_of_wellFormed h)]

theorem WellFormed.append {P : Char → Text → Prop} {nested : Bool} {s t : Text}
    (hs : s.all isInert = true) (ht : WellFormed P nested t) : WellFormed P nested (s ++ t) := by
  induction s with
  | nil => exact ht
  | cons c s ih =>
    rw [List.all_cons, Bool.and_eq_true] at hs
    exact .char hs.1 (ih hs.2)

/-- An escaped quote, commas and brackets in strings, a quote of the other kind, commas in brackets,
and a blank piece. -/
theorem properties_intercalate_nested :
    let first := "a: '\\', (\"'".toList
    let second := "b[\")\", \x7b,\x7d]".toList
    properties ([','].intercalate [first, ' ' :: second, [' '], ['c']]) =
      [first, second, ['c']] := by
  intro first second
  have hcontent : Ended '\'' "\\', (\"".toList := by
    refine ⟨.escape _ (.plain ?_ ?_ (.plain ?_ ?_ (.plain ?_ ?_ (.plain ?_ ?_ .nil)))), ?_⟩ <;>
      decide
  have hbracket : Ended '"' [')'] := ⟨.plain (by decide) (by decide) .nil, by decide⟩
  have hinner : WellFormed Ended true ("\")\", \x7b,\x7d".toList) :=
    .literal rfl hbracket (.comma (.char (by decide) (.group (by decide) (by decide)
      (.comma .nil) .nil)))
  have h : ∀ piece ∈ [first, ' ' :: second, [' '], ['c']], WellFormed Ended false piece := by
    simp only [List.forall_mem_cons]
    refine ⟨?_, ?_, ?_, ?_, ?_⟩
    · exact .append (s := "a: ".toList) (by decide) (.literal (by decide) hcontent .nil)
    · exact .append (s := " b".toList) (by decide) (.group (by decide) (by decide) hinner .nil)
    · exact .char (by decide) .nil
    · exact .char (by decide) .nil
    · exact fun _ h => nomatch h
  rw [properties_intercalate h]
  decide +kernel

/-- A literal that is one escaped backslash. The quote behind it is passed over, and so is the comma
behind the literal. -/
theorem properties_intercalate_backslash :
    let pieces := ["a: '\\\\'".toList, " b: 1".toList]
    (∀ piece ∈ pieces, WellFormed Content false piece) ∧
      (pieces.map trim).filter (!·.isEmpty) = ["a: '\\\\'".toList, "b: 1".toList] ∧
      properties ([','].intercalate pieces) = ["a: '\\\\', b: 1".toList] := by
  intro pieces
  refine ⟨?_, by decide +kernel, by decide +kernel⟩
  have hcontent : Content '\'' "\\\\".toList := .escape _ .nil
  simp only [pieces, List.forall_mem_cons]
  refine ⟨?_, ?_, fun _ h => nomatch h⟩
  · exact .append (s := "a: ".toList) (by decide) (.literal (by decide) hcontent .nil)
  · exact .append (s := " b: 1".toList) (by decide) .nil

end TwigLayout.Hash
