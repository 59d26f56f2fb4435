import TwigLayout.Merge
import TwigLayout.Proofs.Reflow.Hash

/-!
# Laying out merge statements

1. `Statement.read_eq_some`: the parts of a statement, in the order in which they stand in its text.
2. `runsIn_layout`: no run comes about when the statements of a document are laid out.
-/

namespace TwigLayout.Merge

open Text

/-! ## Reading -/

theorem readTarget_eq_some {block : Marks} {s value : Text} (h : readTarget block s = some value) :
    ∃ target, s = block.opening ++ (target ++ value) := by
  obtain ⟨s₁, h₁, h⟩ := Option.bind_eq_some_iff.mp h
  obtain ⟨s₂, h₂, h⟩ := Option.bind_eq_some_iff.mp h
  have hdash : (after? ['-'] s₁).getD s₁ <:+ s₁ := by
    cases ha : after? ['-'] s₁ with
    | none => exact List.suffix_refl s₁
    | some rest => exact suffix_of_after? ha
  dsimp only at h
  split at h
  · have hvalue : value <:+ s₁ :=
      ((suffix_of_after? h).trans ((trimLeft_isSuffix _).trans (List.dropWhile_suffix _))).trans
        ((trimLeft_isSuffix s₂).trans ((suffix_of_after? h₂).trans
          ((trimLeft_isSuffix _).trans hdash)))
    obtain ⟨target, rfl⟩ := hvalue
    exact ⟨target, after?_eq_some_iff.mp h₁⟩
  · cases h

theorem readMergeOpen_eq_some {s rest : Text} (h : readMergeOpen s = some rest) :
    ∃ opening, s = opening ++ rest ∧ "merge".toList <:+: opening := by
  obtain ⟨s₁, h₁, h⟩ := Option.bind_eq_some_iff.mp h
  obtain ⟨s₂, h₂, h⟩ := Option.bind_eq_some_iff.mp h
  obtain ⟨gap, hgap⟩ := trimLeft_isSuffix s₁
  obtain ⟨gap', hgap'⟩ := trimLeft_isSuffix s₂
  have hmerge : "merge(".toList = "merge".toList ++ ['('] := rfl
  refine ⟨'|' :: (gap ++ ("merge".toList ++ '(' :: (gap' ++ ['{']))), ?_, ?_⟩
  · rw [after?_eq_some_iff.mp h₁, ← hgap, after?_eq_some_iff.mp h₂, ← hgap',
      after?_eq_some_iff.mp h, hmerge]
    simp only [List.cons_append, List.append_assoc, List.nil_append]
  · exact List.infix_cons (List.infix_append' ..)

theorem readUntilMerge_eq_some {s expression rest : Text}
    (h : readUntilMerge s = some (expression, rest)) :
    ∃ opening, s = expression ++ (opening ++ rest) ∧ "merge".toList <:+: opening := by
  fun_induction readUntilMerge s generalizing expression with
  | case1 => cases h
  | case2 c s rest' hr =>
    cases h
    exact readMergeOpen_eq_some hr
  | case3 => cases h
  | case4 c s _ _ ih =>
    obtain ⟨⟨expression', rest'⟩, hp, he⟩ := Option.map_eq_some_iff.mp h
    cases he
    obtain ⟨opening, rfl, hm⟩ := ih hp
    exact ⟨opening, rfl, hm⟩

theorem readClose_eq_some {block : Marks} {s close rest : Text}
    (h : readClose block s = some (close, rest)) :
    s = close ++ rest ∧ (close = block.closing ∨ close = '-' :: block.closing) := by
  rcases orElse_eq_some h with h | h
  · obtain ⟨rest', hr, he⟩ := Option.map_eq_some_iff.mp h
    cases he
    obtain ⟨s₁, h₁, h₂⟩ := Option.bind_eq_some_iff.mp hr
    refine ⟨?_, .inr rfl⟩
    rw [after?_eq_some_iff.mp h₁, after?_eq_some_iff.mp h₂]
    rfl
  · obtain ⟨rest', hr, he⟩ := Option.map_eq_some_iff.mp h
    cases he
    exact ⟨after?_eq_some_iff.mp hr, .inl rfl⟩

theorem readCloseAfterBlank_eq_some {block : Marks} {s close rest : Text}
    (h : readCloseAfterBlank block s = some (close, rest)) :
    ∃ gap, s = gap ++ (close ++ rest) ∧ (close = block.closing ∨ close = '-' :: block.closing) := by
  fun_induction readCloseAfterBlank block s with
  | case1 => exact ⟨[], readClose_eq_some h⟩
  | case2 c s _ ih =>
    rcases orElse_eq_some h with h | h
    · obtain ⟨gap, rfl, hc⟩ := ih h
      exact ⟨c :: gap, rfl, hc⟩
    · exact ⟨[], readClose_eq_some h⟩
  | case3 c s _ => exact ⟨[], readClose_eq_some h⟩

/-- The texts that are left at the steps of reading a statement. -/
theorem Statement.exists_steps_of_read {block : Marks} {last : Option Char} {s rest : Text}
    {m : Statement} (h : read block last s = some (m, rest)) :
    ∃ value expression literal s₁ s₂, readTarget block s = some value ∧
      readUntilMerge value = some (expression, literal) ∧
      literal.dropWhile isBodyChar = '}' :: s₁ ∧ trimLeft s₁ = ')' :: s₂ ∧
      readCloseAfterBlank block s₂ = some (m.close, rest) ∧
      m.head = s.take (s.length - value.length) ++ expression ∧
      m.body = literal.takeWhile isBodyChar := by
  obtain ⟨value, hv, h⟩ := Option.bind_eq_some_iff.mp h
  obtain ⟨⟨expression, literal⟩, hm, h⟩ := Option.bind_eq_some_iff.mp h
  obtain ⟨s₁, h₁, h⟩ := Option.bind_eq_some_iff.mp h
  obtain ⟨s₂, h₂, h⟩ := Option.bind_eq_some_iff.mp h
  obtain ⟨⟨close, rest'⟩, hc, h⟩ := Option.bind_eq_some_iff.mp h
  cases h
  exact ⟨value, expression, literal, s₁, s₂, hv, hm, after?_eq_some_iff.mp h₁,
    after?_eq_some_iff.mp h₂, hc, rfl, rfl⟩

/-- The parts of a statement, in the order in which they stand in the text. -/
theorem Statement.read_eq_some {block : Marks} {last : Option Char} {s rest : Text} {m : Statement}
    (h : read block last s = some (m, rest)) :
    ∃ opening gap, s = m.head ++ (opening ++ (m.body ++ (gap ++ (m.close ++ rest)))) ∧
      block.opening <+: m.head ∧ "merge".toList <:+: opening ∧
      (m.close = block.closing ∨ m.close = '-' :: block.closing) := by
  obtain ⟨value, expression, literal, s₁, s₂, hv, hm, hdrop, hparen, hc, hhead, hbody⟩ :=
    exists_steps_of_read h
  obtain ⟨target, hs⟩ := readTarget_eq_some hv
  obtain ⟨opening, hvalue, hopening⟩ := readUntilMerge_eq_some hm
  obtain ⟨gap, hgap, hclose⟩ := readCloseAfterBlank_eq_some hc
  obtain ⟨blank, hblank⟩ := trimLeft_isSuffix s₁
  have htarget : s.take (s.length - value.length) = block.opening ++ target := by
    rw [hs, ← List.append_assoc, List.length_append, Nat.add_sub_cancel, List.take_left]
  have hliteral := List.takeWhile_append_dropWhile (p := isBodyChar) (l := literal)
  rw [hdrop, ← hbody, ← hblank, hparen, hgap] at hliteral
  rw [htarget, List.append_assoc] at hhead
  refine ⟨opening, '}' :: (blank ++ ')' :: gap), ?_, ?_, hopening, hclose⟩
  · rw [hhead, hs, hvalue, ← hliteral]
    simp only [List.append_assoc, List.cons_append]
  · rw [hhead]
    exact List.prefix_append _ _

theorem Statement.read_consumes (block : Marks) : (read block).Consumes := by
  intro last s m rest h
  obtain ⟨opening, gap, rfl, _, hopening, _⟩ := read_eq_some h
  refine ⟨m.head ++ (opening ++ (m.body ++ (gap ++ m.close))), ?_, ?_⟩
  · have hne : opening ≠ [] := by
      rintro rfl
      exact absurd (List.infix_nil.mp hopening) (by decide)
    simp [hne]
  · simp only [List.append_assoc]

/-! ## Layout -/

section Layout

variable {p : Char → Bool} {style : Style} {newline base s : Text}

theorem Statement.redrawn_layout (hp : Hash.Outside p) (hb : style.block = .block)
    (hu : ∀ c ∈ style.indentUnit, p c = false) (hn : ∀ c ∈ newline, p c = false)
    (hbase : ∀ c ∈ base, p c = false) {last : Option Char} {old rest new : Text} {m : Statement}
    (hr : read style.block last (old ++ rest) = some (m, rest))
    (h : m.layout style newline base = some new) : Redrawn p new old := by
  obtain ⟨opening, gap, he, hhead, hopening, hclose⟩ := read_eq_some hr
  rw [hb] at hhead hclose
  obtain ⟨body, hbody, rfl⟩ := Option.map_eq_some_iff.mp h
  have hold : old ++ rest = m.head ++ (opening ++ (m.body ++ (gap ++ m.close))) ++ rest := by
    simpa using he
  obtain rfl := List.append_cancel_right hold
  have hopen := hp '{' (by decide)
  have hend := hp '}' (by decide)
  have hindent : ∀ c ∈ base ++ style.indentUnit ++ style.indentUnit, p c = false :=
    List.forall_mem_append.mpr ⟨List.forall_mem_append.mpr ⟨hbase, hu⟩, hu⟩
  have hbetween : ∀ c ∈ newline ++ (base ++ (style.indentUnit ++ ['}', ')', ' '])),
      p c = false := by
    simp only [List.forall_mem_append, List.forall_mem_cons]
    exact ⟨hn, hbase, hu, hend, hp ')' (by decide), hp ' ' (by decide), fun _ h => nomatch h⟩
  refine ⟨?_, ⟨[], '{', hopen, ?_, ?_⟩, ⟨'}', hend, ?_⟩⟩
  · have hs : "|merge(".toList = '|' :: ("merge".toList ++ ['(']) := rfl
    have hnew : trimRight m.head ++ "|merge(".toList ++ '{' :: newline ++ body ++ newline ++ base ++
        style.indentUnit ++ ['}', ')', ' '] ++ m.close =
        trimRight m.head ++ '|' :: ("merge".toList ++ '(' :: '{' :: (newline ++ (body ++
          ((newline ++ (base ++ (style.indentUnit ++ ['}', ')', ' ']))) ++ m.close)))) := by
      rw [hs]
      simp only [List.append_assoc, List.cons_append, List.nil_append]
    rw [hnew]
    refine .append_cons (hp '|' (by decide)) (.of_isInfix ?_)
      (.append_cons (hp '(' (by decide)) (.of_isInfix ?_) (.cons hopen (.append_of_forall hn
        (.append_append (by simp) hbetween ?_ (.of_isInfix ?_)))))
    · exact (trimRight_isPrefix m.head).isInfix.trans List.infix_append_left
    · exact List.infix_append_of_infix_right (List.infix_append_of_infix_left hopening)
    · exact (Hash.runsIn_layout hp hindent hn hbody).mono
        (List.infix_append_of_infix_right
          (List.infix_append_of_infix_right List.infix_append_left))
    · exact List.infix_append_of_infix_right (List.infix_append_of_infix_right
        (List.infix_append_of_infix_right List.infix_append_right))
  · -- the marker is not white space, so it stays
    obtain ⟨y, hy⟩ : ∃ y, trimRight m.head = '{' :: y := by
      obtain ⟨x, hx⟩ := hhead
      rw [← hx]
      exact trimRight_cons (by decide) ('%' :: x)
    rw [hy]
    simp only [List.append_assoc, List.cons_append]
    exact List.prefix_append ['{'] _
  · exact (List.prefix_append ['{'] ['%']).trans (hhead.trans (List.prefix_append _ _))
  · refine List.IsSuffix.trans ?_ (List.suffix_append _ m.close)
    rcases hclose with h | h
    · rw [h]
      exact ⟨['%'], rfl⟩
    · rw [h]
      exact ⟨['-', '%'], rfl⟩

theorem layoutPieces_flatMap (offset : Nat) (pieces : List (Piece Statement)) :
    ((layoutPieces style newline s offset pieces).flatMap fun piece => piece.1.getD piece.2) =
      replacePieces (fun f => f.value.layout style newline (indentationAt s f.start)) offset
        pieces := by
  fun_induction layoutPieces style newline s offset pieces with
  | case1 => rfl
  | case2 offset c pieces ih =>
    rw [List.flatMap_cons, ih]
    rfl
  | case3 offset m text pieces ih =>
    rw [List.flatMap_cons, ih]
    rfl

/-- No run comes about when merge statements are laid out. -/
theorem runsIn_layout (hp : Hash.Outside p) (hb : style.block = .block)
    (hu : ∀ c ∈ style.indentUnit, p c = false) (hn : ∀ c ∈ newline, p c = false) :
    RunsIn p (layout style newline s).1 s := by
  rw [layout, layoutPieces_flatMap]
  exact .replacePieces_scan (Statement.read_consumes style.block)
    (fun i _ _ _ _ _ hr hl => Statement.redrawn_layout hp hb hu hn (hp.indentation _) hr hl) s

end Layout

end TwigLayout.Merge
