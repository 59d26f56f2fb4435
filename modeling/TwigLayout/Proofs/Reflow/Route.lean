import TwigLayout.Route
import TwigLayout.Proofs.Reflow.Hash

/-!
# Laying out route calls

1. `Call.read_eq_some`: the parts of a call, in the order in which they stand in its text.
2. `layout_eq_replacePieces`: the edits, applied from the last to the first, put each laid out call
   in the place of its text.
3. `runsIn_layout`: no run comes about when the calls of a document are laid out.
-/

namespace TwigLayout.Route

open Text

/-! ## Reading -/

theorem readRoute_eq_some {s route rest : Text} (h : readRoute s = some (route, rest)) :
    s = route ++ rest := by
  cases s with
  | nil => cases h
  | cons q s =>
    rw [readRoute] at h
    split at h
    · obtain ⟨⟨body, rest'⟩, hc, he⟩ := Option.map_eq_some_iff.mp h
      cases he
      rw [cut?_eq_some hc]
      simp
    · cases h

/-- The texts that are left at the steps of reading a call. -/
theorem exists_steps_of_readCallOf {s function rest : Text} {c : Call}
    (h : readCallOf s function = some (c, rest)) :
    ∃ s₁ s₂ s₃ s₄ s₅, s = function ++ '(' :: s₁ ∧
      readRoute (trimLeft s₁) = some (c.route, s₂) ∧ trimLeft s₂ = ',' :: s₃ ∧
      trimLeft s₃ = '{' :: s₄ ∧ s₄.dropWhile isBodyChar = '}' :: s₅ ∧
      trimLeft s₅ = ')' :: rest ∧ c.function = function ∧ c.body = s₄.takeWhile isBodyChar := by
  obtain ⟨s₀, h₀, h⟩ := Option.bind_eq_some_iff.mp h
  obtain ⟨s₁, h₁, h⟩ := Option.bind_eq_some_iff.mp h
  obtain ⟨⟨route, s₂⟩, h₂, h⟩ := Option.bind_eq_some_iff.mp h
  obtain ⟨s₃, h₃, h⟩ := Option.bind_eq_some_iff.mp h
  obtain ⟨s₄, h₄, h⟩ := Option.bind_eq_some_iff.mp h
  obtain ⟨s₅, h₅, h⟩ := Option.bind_eq_some_iff.mp h
  obtain ⟨s₆, h₆, h⟩ := Option.bind_eq_some_iff.mp h
  cases h
  refine ⟨s₁, s₂, s₃, s₄, s₅, ?_, h₂, after?_eq_some_iff.mp h₃, after?_eq_some_iff.mp h₄,
    after?_eq_some_iff.mp h₅, after?_eq_some_iff.mp h₆, rfl, rfl⟩
  rw [after?_eq_some_iff.mp h₀, after?_eq_some_iff.mp h₁]
  rfl

theorem readCallOf_eq_some {s function rest : Text} {c : Call}
    (h : readCallOf s function = some (c, rest)) :
    ∃ gap gap' gap'', s = c.function ++ '(' :: (gap ++ (c.route ++ (gap' ++
      (c.body ++ '}' :: (gap'' ++ ')' :: rest))))) := by
  obtain ⟨s₁, s₂, s₃, s₄, s₅, rfl, hroute, hcomma, hbrace, hdrop, hparen, rfl, hbody⟩ :=
    exists_steps_of_readCallOf h
  obtain ⟨gap, hgap⟩ := trimLeft_isSuffix s₁
  obtain ⟨gap', hgap'⟩ : s₄ <:+ s₂ := by
    have hs₃ : s₃ <:+ s₂ := (List.suffix_cons ',' s₃).trans (hcomma ▸ trimLeft_isSuffix s₂)
    exact ((List.suffix_cons '{' s₄).trans (hbrace ▸ trimLeft_isSuffix s₃)).trans hs₃
  obtain ⟨gap'', hgap''⟩ := trimLeft_isSuffix s₅
  have hs₄ := List.takeWhile_append_dropWhile (p := isBodyChar) (l := s₄)
  rw [hdrop, ← hbody, ← hgap'', hparen] at hs₄
  refine ⟨gap, gap', gap'', ?_⟩
  rw [hs₄, hgap', ← readRoute_eq_some hroute, hgap]

/-- The parts of a call, in the order in which they stand in the text. -/
theorem Call.read_eq_some {functions : List Text} {last : Option Char} {s rest : Text} {c : Call}
    (h : read functions last s = some (c, rest)) :
    ∃ gap gap' gap'', s = c.function ++ '(' :: (gap ++ (c.route ++ (gap' ++
      (c.body ++ '}' :: (gap'' ++ ')' :: rest))))) := by
  rw [read] at h
  split at h
  · obtain ⟨function, _, hc⟩ := List.exists_of_findSome?_eq_some h
    exact readCallOf_eq_some hc
  · cases h

theorem Call.read_consumes (functions : List Text) : (read functions).Consumes := by
  intro last s c rest h
  obtain ⟨gap, gap', gap'', rfl⟩ := read_eq_some h
  refine ⟨c.function ++ '(' :: (gap ++ (c.route ++ (gap' ++ (c.body ++ '}' :: (gap'' ++ [')']))))),
    by simp, by simp⟩

/-! ## Edits -/

section Edits

variable {style : Style} {newline s : Text}

theorem editOf_eq_some {f : Located Call} {e : Edit} (h : editOf style newline s f = some e) :
    e.start = f.start ∧ e.stop = f.stop ∧
      ∃ i, f.value.layout style newline (indentationAt s i) = some e.replacement := by
  obtain ⟨reference, hr, h⟩ := Option.bind_eq_some_iff.mp h
  obtain ⟨replacement, hl, h⟩ := Option.bind_eq_some_iff.mp h
  cases h
  obtain ⟨parts, _, rfl⟩ := Option.map_eq_some_iff.mp hr
  exact ⟨rfl, rfl, _, hl⟩

theorem exists_reference_of_editOf {f : Located Call} {e : Edit}
    (h : editOf style newline s f = some e) :
    ∃ reference, referenceAt style s f.start = some reference ∧
      f.value.layout style newline reference = some e.replacement := by
  obtain ⟨reference, hr, h⟩ := Option.bind_eq_some_iff.mp h
  obtain ⟨replacement, hl, h⟩ := Option.bind_eq_some_iff.mp h
  cases h
  exact ⟨reference, hr, hl⟩

theorem Edit.apply_append {e : Edit} {before text : Text} (hstart : e.start = before.length)
    (hstop : e.stop = before.length + text.length) (rest : Text) :
    e.apply (before ++ text ++ rest) = before ++ e.replacement ++ rest := by
  have htake : (before ++ text ++ rest).take before.length = before := by
    rw [List.append_assoc, List.take_left]
  rw [apply, hstart, hstop, htake, ← List.length_append, List.drop_left]

/-- Edits behind a text, applied from the last to the first. -/
theorem applyEdits_locate (style : Style) (newline s before : Text) (pieces : List (Piece Call)) :
    applyEdits ((locate before.length pieces).filterMap (editOf style newline s))
        (before ++ pieces.flatMap Piece.text) =
      before ++ replacePieces (fun f => (editOf style newline s f).map (·.replacement))
        before.length pieces := by
  induction pieces generalizing before with
  | nil => rfl
  | cons piece pieces ih =>
    cases piece with
    | plain c =>
      have ih := ih (before ++ [c])
      simpa [locate, replacePieces, Piece.text] using ih
    | found c text =>
      have ih := ih (before ++ text)
      rw [List.length_append] at ih
      have htext : before ++ (Piece.found c text :: pieces).flatMap Piece.text =
          before ++ text ++ pieces.flatMap Piece.text := by simp [Piece.text]
      rw [locate, replacePieces, htext]
      cases he : editOf style newline s ⟨before.length, c, text⟩ with
      | none =>
        rw [List.filterMap_cons_none he, ih, List.append_assoc]
        rfl
      | some e =>
        -- the edits behind it are done already and have not moved its place
        obtain ⟨hstart, hstop, _⟩ := editOf_eq_some he
        rw [List.filterMap_cons_some he]
        show Edit.apply e (applyEdits _ _) = _
        rw [ih, Edit.apply_append hstart hstop, List.append_assoc]
        rfl

/-- The document with its calls laid out, from the left. -/
theorem layout_eq_replacePieces (style : Style) (newline s : Text) :
    layout style newline s =
      replacePieces (fun f => (editOf style newline s f).map (·.replacement)) 0
        (scan (Call.read style.functions) s) := by
  have h := applyEdits_locate style newline s [] (scan (Call.read style.functions) s)
  rw [List.nil_append, flatMap_text_scan] at h
  exact h

end Edits

/-! ## Layout -/

section Layout

variable {p : Char → Bool} {style : Style} {newline s : Text}

theorem Call.redrawn_layout (hp : Hash.Outside p) (hu : ∀ c ∈ style.indentUnit, p c = false)
    (hn : ∀ c ∈ newline, p c = false) {reference : Text} (href : ∀ c ∈ reference, p c = false)
    {last : Option Char} {old rest new : Text} {c : Call}
    (hr : read style.functions last (old ++ rest) = some (c, rest))
    (h : c.layout style newline reference = some new) : Redrawn p new old := by
  obtain ⟨gap, gap', gap'', he⟩ := read_eq_some hr
  obtain ⟨body, hbody, rfl⟩ := Option.map_eq_some_iff.mp h
  have hold : old ++ rest = c.function ++ '(' :: (gap ++ (c.route ++ (gap' ++ (c.body ++
      '}' :: (gap'' ++ [')']))))) ++ rest := by
    simpa using he
  obtain rfl := List.append_cancel_right hold
  have hparen := hp '(' (by decide)
  have hend := hp ')' (by decide)
  have hbetween : ∀ c ∈ newline ++ (reference ++ ['}', ')']), p c = false := by
    refine List.forall_mem_append.mpr ⟨hn, List.forall_mem_append.mpr ⟨href, ?_⟩⟩
    exact List.forall_mem_cons.mpr ⟨hp '}' (by decide), List.forall_mem_singleton.mpr hend⟩
  have hnew : c.function ++ '(' :: c.route ++ [',', ' ', '{'] ++ newline ++ body ++ newline ++
      reference ++ ['}', ')'] =
      c.function ++ '(' :: (c.route ++ ',' :: ' ' :: '{' :: (newline ++ (body ++
        ((newline ++ (reference ++ ['}', ')'])) ++ [])))) := by
    simp
  refine ⟨?_, ⟨c.function, '(', hparen, ?_, ?_⟩, ⟨')', hend, ?_⟩⟩
  · rw [hnew]
    refine .append_cons hparen (.of_isInfix List.infix_append_left)
      (.append_cons (hp ',' (by decide)) (.of_isInfix ?_) (.cons (hp ' ' (by decide))
        (.cons (hp '{' (by decide)) (.append_of_forall hn
          (.append_append (by simp) hbetween ?_ (.of_isInfix List.nil_infix))))))
    · exact List.infix_append_of_infix_right (List.infix_cons
        (List.infix_append_of_infix_right List.infix_append_left))
    · refine (Hash.runsIn_layout hp (List.forall_mem_append.mpr ⟨href, hu⟩) hn hbody).mono ?_
      exact List.infix_append_of_infix_right (List.infix_cons (List.infix_append_of_infix_right
        (List.infix_append_of_infix_right (List.infix_append_of_infix_right
          List.infix_append_left))))
  · rw [hnew]
    simp
  · simp
  · exact (List.suffix_append ['}'] [')']).trans (List.suffix_append _ ['}', ')'])

/-- No run comes about when route calls are laid out. -/
theorem runsIn_layout (hp : Hash.Outside p) (hu : ∀ c ∈ style.indentUnit, p c = false)
    (hn : ∀ c ∈ newline, p c = false) : RunsIn p (layout style newline s) s := by
  rw [layout_eq_replacePieces]
  refine .replacePieces_scan (Call.read_consumes style.functions)
    (fun i last c old rest new hr hnew => ?_) s
  obtain ⟨e, he, rfl⟩ := Option.map_eq_some_iff.mp hnew
  obtain ⟨_, _, i, hl⟩ := editOf_eq_some he
  exact Call.redrawn_layout hp hu hn (hp.indentation _) hr hl

end Layout

end TwigLayout.Route
