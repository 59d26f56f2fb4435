import TwigLayout.Proofs.Content.Hash
import TwigLayout.Proofs.Reflow.Merge
import TwigLayout.Proofs.Text.Rescan

/-!
# What laying out merge statements keeps

`Spelled` says how a statement is written, without the reader. The reader finds exactly the texts
that are written so (`Statement.read_iff`), and what follows such a text makes no difference.

1. `Statement.spelled_relaid`: a statement that was laid out is a statement again.
2. `Statement.Spelled.prefix_of_append_eq`: no statement reaches into another one.
3. `rescan_layout`: so the statements of a document that was laid out are those of the document, one
   by one.
4. `statements_of_layout`: they have the same properties, up to the quotes around their keys.
-/

namespace TwigLayout.Merge

open Text

/-! ## How a statement is written -/

/-- The text up to the equals sign behind the variable that a statement sets. -/
def IsTarget (t : Text) : Prop :=
  ∃ dash gap gap' name gap'', (dash = [] ∨ dash = ['-']) ∧ Blank gap ∧ Blank gap' ∧ gap' ≠ [] ∧
    name ≠ [] ∧ (∀ c ∈ name, isTargetChar c = true) ∧ Blank gap'' ∧
    t = '{' :: '%' :: (dash ++ (gap ++ ("set".toList ++ (gap' ++ (name ++ (gap'' ++ ['=']))))))

/-- The opening of a merged literal. -/
def IsOpening (t : Text) : Prop :=
  ∃ gap gap', Blank gap ∧ Blank gap' ∧ t = '|' :: (gap ++ ("merge(".toList ++ (gap' ++ ['{'])))

/-- A closing marker with or without the dash before it. -/
def IsClose (t : Text) : Prop := t = ['%', '}'] ∨ t = ['-', '%', '}']

def isExpressionChar (c : Char) : Bool := !(c == '{' || c == '}' || c == '%')

/-- The text `t` is a way to write the statement `m`. -/
structure Statement.Spelled (m : Statement) (t : Text) : Prop where
  head : ∃ target expression, IsTarget target ∧
    (∀ c ∈ expression, isExpressionChar c = true) ∧ m.head = target ++ expression
  body : ∀ c ∈ m.body, isBodyChar c = true
  close : IsClose m.close
  text : ∃ opening gap gap', IsOpening opening ∧ Blank gap ∧ Blank gap' ∧
    t = m.head ++ (opening ++ (m.body ++ '}' :: (gap ++ ')' :: (gap' ++ m.close))))

/-! ## Reading -/

theorem not_isTargetChar_of_isBlank {c : Char} (h : isBlank c = true) : isTargetChar c = false := by
  have hdot : (c == '.') = false := by
    rw [beq_eq_false_iff_ne]
    rintro rfl
    exact absurd h (by decide)
  rw [isTargetChar, not_isWord_of_isBlank h, hdot]
  rfl

/-- The dash behind an opening marker is passed over, if it is there. -/
theorem exists_dash (s : Text) :
    ∃ dash, (dash = [] ∨ dash = ['-']) ∧ s = dash ++ (after? ['-'] s).getD s := by
  cases ha : after? ['-'] s with
  | none => exact ⟨[], .inl rfl, rfl⟩
  | some rest => exact ⟨['-'], .inr rfl, after?_eq_some_iff.mp ha⟩

theorem getD_after?_dash {dash gap : Text} (hdash : dash = [] ∨ dash = ['-']) (hgap : Blank gap)
    {c : Char} (hc : c ≠ '-') (s : Text) :
    (after? ['-'] (dash ++ (gap ++ c :: s))).getD (dash ++ (gap ++ c :: s)) = gap ++ c :: s := by
  rcases hdash with rfl | rfl
  · have hnone : after? ['-'] (gap ++ c :: s) = none := by
      rw [after?_eq_none_iff]
      rintro ⟨v, hv⟩
      cases gap with
      | nil => exact hc (List.cons.inj hv).1.symm
      | cons d gap =>
        obtain ⟨rfl, _⟩ := List.cons.inj hv
        exact absurd (hgap '-' List.mem_cons_self) (by decide)
    rw [List.nil_append, hnone]
    rfl
  · rfl

/-- The name of a variable stands behind white space. -/
theorem exists_name {s : Text} (hblank : s.head?.any isBlank = true)
    (hname : (trimLeft s).head?.any isTargetChar = true) :
    ∃ gap name, Blank gap ∧ gap ≠ [] ∧ name ≠ [] ∧ (∀ c ∈ name, isTargetChar c = true) ∧
      s = gap ++ (name ++ (trimLeft s).dropWhile isTargetChar) := by
  obtain ⟨gap, hgap, hs⟩ := exists_blank_append_trimLeft s
  refine ⟨gap, (trimLeft s).takeWhile isTargetChar, hgap, ?_, ?_,
    List.all_eq_true.mp List.all_takeWhile, ?_⟩
  · -- otherwise the text would start with white space and with a name
    rintro rfl
    obtain ⟨c, hc, hb⟩ := (Option.any_eq_true _ _).mp hblank
    obtain ⟨t, rfl⟩ := List.head?_eq_some_iff.mp hc
    rw [not_isBlank_of_trimLeft hs.symm] at hb
    cases hb
  · obtain ⟨c, hc, hn⟩ := (Option.any_eq_true _ _).mp hname
    obtain ⟨t, ht⟩ := List.head?_eq_some_iff.mp hc
    rw [ht, List.takeWhile_cons_of_pos hn]
    exact List.cons_ne_nil _ _
  · rw [List.takeWhile_append_dropWhile]
    exact hs

theorem readTarget_sound {s value : Text} (h : readTarget .block s = some value) :
    ∃ t, IsTarget t ∧ s = t ++ value := by
  obtain ⟨s₁, h₁, h⟩ := Option.bind_eq_some_iff.mp h
  obtain ⟨s₂, h₂, h⟩ := Option.bind_eq_some_iff.mp h
  dsimp only at h
  split at h
  · next hcond =>
    obtain ⟨hblank, hhead⟩ := Bool.and_eq_true_iff.mp hcond
    obtain ⟨dash, hdash, hs₁⟩ := exists_dash s₁
    obtain ⟨gap, hgap, hs⟩ := exists_blank_append_trimLeft ((after? ['-'] s₁).getD s₁)
    obtain ⟨gap', name, hgap', hne, hname, hall, hs₂⟩ := exists_name hblank hhead
    obtain ⟨gap'', hgap'', hs₃⟩ :=
      exists_blank_append_trimLeft ((trimLeft s₂).dropWhile isTargetChar)
    refine ⟨_, ⟨dash, gap, gap', name, gap'', hdash, hgap, hgap', hne, hname, hall, hgap'', rfl⟩,
      ?_⟩
    rw [hs₃, after?_eq_some_iff.mp h] at hs₂
    rw [after?_eq_some_iff.mp h₂, hs₂] at hs
    rw [hs] at hs₁
    rw [after?_eq_some_iff.mp h₁, hs₁]
    simp only [List.append_assoc, List.cons_append, List.nil_append, Marks.block]
  · cases h

theorem readTarget_complete {t : Text} (ht : IsTarget t) (value : Text) :
    readTarget .block (t ++ value) = some value := by
  obtain ⟨dash, gap, gap', name, gap'', hdash, hgap, hgap', hne, hname, hall, hgap'', rfl⟩ := ht
  obtain ⟨n, name, rfl⟩ := List.exists_cons_of_ne_nil hname
  obtain ⟨g, gap', rfl⟩ := List.exists_cons_of_ne_nil hne
  have hn : isTargetChar n = true := hall n List.mem_cons_self
  have hnb : isBlank n = false := by
    refine Bool.eq_false_iff.mpr fun hb => ?_
    rw [not_isTargetChar_of_isBlank hb] at hn
    cases hn
  have hg : isBlank g = true := hgap' g List.mem_cons_self
  have hset : ∀ u : Text, (after? ['-'] (dash ++ (gap ++ ("set".toList ++ u)))).getD
      (dash ++ (gap ++ ("set".toList ++ u))) = gap ++ ("set".toList ++ u) := fun u =>
    getD_after?_dash hdash hgap (by decide) ("et".toList ++ u)
  have htrim : ∀ u : Text, trimLeft (gap ++ ("set".toList ++ u)) = "set".toList ++ u := fun u =>
    trimLeft_append_cons hgap (by decide) ("et".toList ++ u)
  have hname' : trimLeft (g :: gap' ++ (n :: name ++ (gap'' ++ '=' :: value))) =
      n :: name ++ (gap'' ++ '=' :: value) := trimLeft_append_cons hgap' hnb _
  have hdrop : (n :: name ++ (gap'' ++ '=' :: value)).dropWhile isTargetChar =
      gap'' ++ '=' :: value :=
    dropWhile_append_blank_cons hall hgap'' (fun _ => not_isTargetChar_of_isBlank) (by decide) value
  have htext : '{' :: '%' :: (dash ++ (gap ++ ("set".toList ++ (g :: gap' ++ (n :: name ++
      (gap'' ++ ['='])))))) ++ value = ['{', '%'] ++ (dash ++ (gap ++ ("set".toList ++
        (g :: gap' ++ (n :: name ++ (gap'' ++ '=' :: value)))))) := by
    simp only [List.append_assoc, List.cons_append, List.nil_append]
  rw [htext, readTarget]
  simp only [Marks.block, Option.bind_eq_bind, after?_append, Option.bind_some, hset, htrim]
  rw [hname', hdrop, trimLeft_append_cons hgap'' (by decide)]
  simp only [List.cons_append, List.head?_cons, Option.any_some, hg, hn, Bool.and_self, if_true]
  exact after?_append ['='] value

theorem readMergeOpen_iff {s rest : Text} :
    readMergeOpen s = some rest ↔ ∃ t, IsOpening t ∧ s = t ++ rest := by
  constructor
  · intro h
    obtain ⟨s₁, h₁, h⟩ := Option.bind_eq_some_iff.mp h
    obtain ⟨s₂, h₂, h⟩ := Option.bind_eq_some_iff.mp h
    obtain ⟨gap, hgap, hs₁⟩ := exists_blank_append_trimLeft s₁
    obtain ⟨gap', hgap', hs₂⟩ := exists_blank_append_trimLeft s₂
    refine ⟨_, ⟨gap, gap', hgap, hgap', rfl⟩, ?_⟩
    rw [after?_eq_some_iff.mp h₂, hs₂, after?_eq_some_iff.mp h] at hs₁
    rw [after?_eq_some_iff.mp h₁, hs₁]
    simp only [List.append_assoc, List.cons_append, List.nil_append]
  · rintro ⟨_, ⟨gap, gap', hgap, hgap', rfl⟩, rfl⟩
    have htext : '|' :: (gap ++ ("merge(".toList ++ (gap' ++ ['{']))) ++ rest =
        ['|'] ++ (gap ++ 'm' :: ("erge(".toList ++ (gap' ++ '{' :: rest))) := by
      simp only [List.append_assoc, List.cons_append, List.nil_append]
      rfl
    have hmerge : trimLeft (gap ++ 'm' :: ("erge(".toList ++ (gap' ++ '{' :: rest))) =
        "merge(".toList ++ (gap' ++ '{' :: rest) := trimLeft_append_cons hgap (by decide) _
    rw [htext, readMergeOpen]
    simp only [Option.bind_eq_bind, after?_append, Option.bind_some, hmerge]
    rw [trimLeft_append_cons hgap' (by decide)]
    exact after?_append ['{'] rest

theorem isExpressionChar_brace : isExpressionChar '{' = false := by decide

theorem isExpressionChar_of_isBlank {c : Char} (h : isBlank c = true) :
    isExpressionChar c = true := by
  refine Bool.not_eq_false _ |>.mp fun hn => ?_
  rw [isExpressionChar, Bool.not_eq_false', Bool.or_eq_true, Bool.or_eq_true, beq_iff_eq,
    beq_iff_eq, beq_iff_eq] at hn
  rcases hn with (rfl | rfl) | rfl <;> exact absurd h (by decide)

theorem IsOpening.eq_append {t : Text} (h : IsOpening t) :
    ∃ u, t = '|' :: (u ++ ['{']) ∧ (∀ c ∈ '|' :: u, isExpressionChar c = true) ∧ '|' ∉ u := by
  obtain ⟨gap, gap', hgap, hgap', rfl⟩ := h
  refine ⟨gap ++ ("merge(".toList ++ gap'), by simp, ?_, ?_⟩
  · have hblank : ∀ {b : Text}, Blank b → ∀ c ∈ b, isExpressionChar c = true :=
      fun hb c hc => isExpressionChar_of_isBlank (hb c hc)
    exact List.forall_mem_cons.mpr ⟨by decide, List.forall_mem_append.mpr ⟨hblank hgap,
      List.forall_mem_append.mpr ⟨List.all_eq_true.mp (by decide), hblank hgap'⟩⟩⟩
  · have hbar : '|' ∉ "merge(".toList := by decide
    simp only [List.mem_append, hgap.not_mem (c := '|') (by decide),
      hgap'.not_mem (c := '|') (by decide), hbar, or_self, not_false_iff]

/-- No opening starts in an expression before another one: it would end at the same brace and hold
two bars. -/
theorem readMergeOpen_eq_none {c : Char} {expression t : Text}
    (hall : ∀ d ∈ c :: expression, isExpressionChar d = true) (ht : IsOpening t) (rest : Text) :
    readMergeOpen (c :: (expression ++ (t ++ rest))) = none := by
  refine Option.eq_none_iff_forall_ne_some.mpr fun r hr => ?_
  obtain ⟨t', ht', he⟩ := readMergeOpen_iff.mp hr
  obtain ⟨u, rfl, hu, _⟩ := ht.eq_append
  obtain ⟨u', rfl, hu', hbar⟩ := ht'.eq_append
  have he' : c :: expression ++ '|' :: u ++ '{' :: rest = '|' :: u' ++ '{' :: r := by
    simpa using he
  obtain ⟨heq, _, _⟩ := append_cons_inj_of_forall (List.forall_mem_append.mpr ⟨hall, hu⟩)
    isExpressionChar_brace hu' isExpressionChar_brace he'
  obtain ⟨_, rfl⟩ := List.cons.inj heq
  exact hbar (by simp)

theorem readUntilMerge_iff {s expression rest : Text} :
    readUntilMerge s = some (expression, rest) ↔
      (∀ c ∈ expression, isExpressionChar c = true) ∧
        ∃ t, IsOpening t ∧ s = expression ++ (t ++ rest) := by
  constructor
  · intro h
    fun_induction readUntilMerge s generalizing expression with
    | case1 => cases h
    | case2 c s rest' hr =>
      cases h
      exact ⟨fun c hc => absurd hc List.not_mem_nil, readMergeOpen_iff.mp hr⟩
    | case3 => cases h
    | case4 c s _ hc ih =>
      obtain ⟨⟨expression', rest'⟩, hp, he⟩ := Option.map_eq_some_iff.mp h
      cases he
      obtain ⟨hall, t, ht, rfl⟩ := ih hp
      refine ⟨List.forall_mem_cons.mpr ⟨?_, hall⟩, t, ht, rfl⟩
      simpa [isExpressionChar] using hc
  · rintro ⟨hall, t, ht, rfl⟩
    induction expression with
    | nil =>
      obtain ⟨u, hu, _, _⟩ := ht.eq_append
      have hr : readMergeOpen (t ++ rest) = some rest := readMergeOpen_iff.mpr ⟨t, ht, rfl⟩
      rw [List.nil_append, hu, List.cons_append] at *
      rw [readUntilMerge, hr]
    | cons c expression ih =>
      have hc : isExpressionChar c = true := hall c List.mem_cons_self
      have hrest := ih fun d hd => hall d (List.mem_cons_of_mem _ hd)
      have hc' : (c == '{' || c == '}' || c == '%') = false := by simpa [isExpressionChar] using hc
      rw [List.cons_append, readUntilMerge, readMergeOpen_eq_none hall ht, hrest]
      simp only [hc']
      rfl

theorem IsClose.head {t : Text} (h : IsClose t) :
    ∃ c u, t = c :: u ∧ isBlank c = false ∧ isBodyChar c = true := by
  rcases h with rfl | rfl
  · exact ⟨'%', ['}'], rfl, by decide, by decide⟩
  · exact ⟨'-', ['%', '}'], rfl, by decide, by decide⟩

theorem readClose_iff {s close rest : Text} :
    readClose .block s = some (close, rest) ↔ IsClose close ∧ s = close ++ rest := by
  constructor
  · intro h
    obtain ⟨hs, hc | hc⟩ := readClose_eq_some h
    · exact ⟨.inl hc, hs⟩
    · exact ⟨.inr hc, hs⟩
  · rintro ⟨hc, rfl⟩
    rcases hc with rfl | rfl <;> rfl

theorem readCloseAfterBlank_iff {s close rest : Text} :
    readCloseAfterBlank .block s = some (close, rest) ↔
      ∃ gap, Blank gap ∧ IsClose close ∧ s = gap ++ (close ++ rest) := by
  constructor
  · intro h
    fun_induction readCloseAfterBlank .block s with
    | case1 =>
      obtain ⟨hc, hs⟩ := readClose_iff.mp h
      exact ⟨[], .nil, hc, hs⟩
    | case2 c s hblank ih =>
      rcases orElse_eq_some h with h | h
      · obtain ⟨gap, hgap, hc, rfl⟩ := ih h
        exact ⟨c :: gap, List.forall_mem_cons.mpr ⟨hblank, hgap⟩, hc, rfl⟩
      · obtain ⟨hc, hs⟩ := readClose_iff.mp h
        exact ⟨[], .nil, hc, hs⟩
    | case3 c s _ =>
      obtain ⟨hc, hs⟩ := readClose_iff.mp h
      exact ⟨[], .nil, hc, hs⟩
  · rintro ⟨gap, hgap, hc, rfl⟩
    have hclose : readClose .block (close ++ rest) = some (close, rest) :=
      readClose_iff.mpr ⟨hc, rfl⟩
    induction gap with
    | nil =>
      obtain ⟨c, u, hu, hcb, _⟩ := hc.head
      rw [hu] at hclose ⊢
      rw [List.nil_append, List.cons_append, readCloseAfterBlank]
      simp only [hcb]
      exact hclose
    | cons c gap ih =>
      have ih := ih fun d hd => hgap d (List.mem_cons_of_mem _ hd)
      rw [List.cons_append, readCloseAfterBlank, if_pos (hgap c List.mem_cons_self), ih]
      rfl

/-- The reader finds exactly the texts that are written as a statement. -/
theorem Statement.read_iff {last : Option Char} {s rest : Text} {m : Statement} :
    read .block last s = some (m, rest) ↔ ∃ t, m.Spelled t ∧ s = t ++ rest := by
  constructor
  · intro h
    obtain ⟨value, expression, literal, s₁, s₂, hv, hm, hdrop, hparen, hc, hhead, hbody⟩ :=
      exists_steps_of_read h
    obtain ⟨target, htarget, rfl⟩ := readTarget_sound hv
    obtain ⟨hexpression, opening, hopening, rfl⟩ := readUntilMerge_iff.mp hm
    obtain ⟨gap', hgap', hclose, rfl⟩ := readCloseAfterBlank_iff.mp hc
    obtain ⟨gap, hgap, hs₁⟩ := exists_blank_append_trimLeft s₁
    have hliteral := List.takeWhile_append_dropWhile (p := isBodyChar) (l := literal)
    rw [hdrop, ← hbody, hs₁, hparen] at hliteral
    rw [List.length_append, Nat.add_sub_cancel, List.take_left] at hhead
    refine ⟨_, ⟨⟨target, expression, htarget, hexpression, hhead⟩, ?_, hclose, opening, gap, gap',
      hopening, hgap, hgap', rfl⟩, ?_⟩
    · rw [hbody]
      exact List.all_eq_true.mp List.all_takeWhile
    · rw [hhead, ← hliteral]
      simp only [List.append_assoc, List.cons_append]
  · rintro ⟨_, ⟨⟨target, expression, htarget, hexpression, hhead⟩, hbody, hclose, opening, gap,
      gap', hopening, hgap, hgap', rfl⟩, rfl⟩
    obtain ⟨head, body, close⟩ := m
    dsimp only at hhead hbody hclose ⊢
    subst hhead
    have htext : target ++ expression ++ (opening ++ (body ++ '}' :: (gap ++ ')' ::
        (gap' ++ close)))) ++ rest = target ++ (expression ++ (opening ++ (body ++ '}' ::
          (gap ++ ')' :: (gap' ++ (close ++ rest)))))) := by
      simp only [List.append_assoc, List.cons_append]
    rw [htext]
    refine Option.bind_eq_some_iff.mpr ⟨_, readTarget_complete htarget _, ?_⟩
    refine Option.bind_eq_some_iff.mpr
      ⟨(expression, _), readUntilMerge_iff.mpr ⟨hexpression, opening, hopening, rfl⟩, ?_⟩
    refine Option.bind_eq_some_iff.mpr
      ⟨gap ++ ')' :: (gap' ++ (close ++ rest)),
        after?_eq_some_iff.mpr (dropWhile_append_cons hbody (by decide) _), ?_⟩
    refine Option.bind_eq_some_iff.mpr ⟨gap' ++ (close ++ rest), ?_, ?_⟩
    · rw [trimLeft_append_cons hgap (by decide)]
      rfl
    refine Option.bind_eq_some_iff.mpr
      ⟨(close, rest), readCloseAfterBlank_iff.mpr ⟨gap', hgap', hclose, rfl⟩, ?_⟩
    dsimp only
    rw [takeWhile_append_cons hbody (by decide), List.length_append, Nat.add_sub_cancel,
      List.take_left]
    rfl

/-! ## Statements beside one another -/

theorem isBodyChar_of_isBlank {c : Char} (h : isBlank c = true) : isBodyChar c = true :=
  bne_braces_of_class (by decide) (by decide) h

theorem isBodyChar_of_isTargetChar {c : Char} (h : isTargetChar c = true) :
    isBodyChar c = true :=
  bne_braces_of_class (by decide) (by decide) h

theorem isBodyChar_of_isExpressionChar {c : Char} (h : isExpressionChar c = true) :
    isBodyChar c = true :=
  bne_braces_of_class (by decide) (by decide) h

theorem IsTarget.eq_cons {t : Text} (h : IsTarget t) :
    ∃ u, t = '{' :: u ∧ ∀ c ∈ u, isBodyChar c = true := by
  obtain ⟨dash, gap, gap', name, gap'', hd, hgap, hgap', _, _, hname, hgap'', rfl⟩ := h
  refine ⟨_, rfl, ?_⟩
  have hblank : ∀ {b : Text}, Blank b → ∀ c ∈ b, isBodyChar c = true :=
    fun hb c hc => isBodyChar_of_isBlank (hb c hc)
  have hdash : ∀ c ∈ dash, isBodyChar c = true := by
    rcases hd with rfl | rfl
    · exact fun c hc => absurd hc List.not_mem_nil
    · exact List.all_eq_true.mp (by decide)
  simp only [List.forall_mem_cons, List.forall_mem_append]
  exact ⟨by decide, hdash, hblank hgap, List.all_eq_true.mp (by decide), hblank hgap',
    fun c hc => isBodyChar_of_isTargetChar (hname c hc), hblank hgap'', by decide,
    fun c hc => absurd hc List.not_mem_nil⟩

/-- The four braces of a statement. -/
theorem Statement.Spelled.braces {m : Statement} {t : Text} (h : m.Spelled t) :
    ∃ a b c, t = '{' :: (a ++ '{' :: (b ++ '}' :: (c ++ ['}']))) ∧
      (∀ d ∈ a, isBodyChar d = true) ∧ (∀ d ∈ b, isBodyChar d = true) ∧
      ∀ d ∈ c, isBodyChar d = true := by
  obtain ⟨target, expression, htarget, hexpression, hhead⟩ := h.head
  obtain ⟨opening, gap, gap', hopening, hgap, hgap', rfl⟩ := h.text
  obtain ⟨u, rfl, hu⟩ := htarget.eq_cons
  obtain ⟨v, rfl, hv, _⟩ := hopening.eq_append
  obtain ⟨w, hw, hclose⟩ : ∃ w, m.close = w ++ ['}'] ∧ ∀ d ∈ w, isBodyChar d = true := by
    rcases h.close with hc | hc
    · exact ⟨['%'], hc, List.all_eq_true.mp (by decide)⟩
    · exact ⟨['-', '%'], hc, List.all_eq_true.mp (by decide)⟩
  have hblank : ∀ {b : Text}, Blank b → ∀ c ∈ b, isBodyChar c = true :=
    fun hb c hc => isBodyChar_of_isBlank (hb c hc)
  refine ⟨u ++ (expression ++ '|' :: v), m.body, gap ++ ')' :: (gap' ++ w), ?_, ?_, h.body, ?_⟩
  · rw [hhead, hw]
    simp only [List.append_assoc, List.cons_append, List.nil_append]
  · exact List.forall_mem_append.mpr ⟨hu, List.forall_mem_append.mpr
      ⟨fun c hc => isBodyChar_of_isExpressionChar (hexpression c hc),
        fun c hc => isBodyChar_of_isExpressionChar (hv c hc)⟩⟩
  · exact List.forall_mem_append.mpr ⟨hblank hgap, List.forall_mem_cons.mpr
      ⟨by decide, List.forall_mem_append.mpr ⟨hblank hgap', hclose⟩⟩⟩

theorem Statement.Spelled.ne_nil {m : Statement} {t : Text} (h : m.Spelled t) : t ≠ [] := by
  obtain ⟨a, b, c, rfl, _⟩ := h.braces
  exact List.cons_ne_nil _ _

/-- A statement ends before two braces that open with none between them, unless it starts there. -/
theorem Statement.Spelled.prefix_of_append_eq {m : Statement} {t rest g a y : Text}
    (h : m.Spelled t) (hg : g ≠ []) (ha : ∀ c ∈ a, isBodyChar c = true)
    (he : t ++ rest = g ++ '{' :: (a ++ '{' :: y)) : ∃ u, g = t ++ u := by
  obtain ⟨a', b, c, rfl, ha', hb, hc⟩ := h.braces
  have hopen : isBodyChar '{' = false := by decide
  have hclose : isBodyChar '}' = false := by decide
  obtain ⟨d, g, rfl⟩ := List.exists_cons_of_ne_nil hg
  simp only [List.cons_append, List.append_assoc, List.cons.injEq, List.nil_append] at he
  obtain ⟨rfl, he⟩ := he
  rcases eq_or_exists_of_append_cons ha' hopen he with ⟨rfl, _, he₁⟩ | ⟨g, rfl, he₁⟩
  · obtain ⟨_, hne, _⟩ := append_cons_inj_of_forall ha hopen hb hclose he₁
    exact absurd hne (by decide)
  rcases eq_or_exists_of_append_cons hb hopen he₁ with ⟨_, hne, _⟩ | ⟨g, rfl, he₂⟩
  · exact absurd hne (by decide)
  rcases eq_or_exists_of_append_cons hc hopen he₂ with ⟨_, hne, _⟩ | ⟨g, rfl, _⟩
  · exact absurd hne (by decide)
  exact ⟨g, by simp only [List.append_assoc, List.cons_append, List.nil_append]⟩

theorem Statement.Spelled.of_read {block : Marks} (hb : block = .block) {last : Option Char}
    {old rest : Text} {m : Statement} (h : read block last (old ++ rest) = some (m, rest)) :
    m.Spelled old := by
  rw [hb] at h
  obtain ⟨t, ht, he⟩ := read_iff.mp h
  rwa [List.append_cancel_right he]

/-! ## Layout -/

section Layout

variable {style : Style} {newline base : Text}

/-- The statement that takes the place of `m`, if `out` is the body of its literal laid out. -/
def Statement.relaid (style : Style) (newline base out : Text) (m : Statement) : Statement :=
  ⟨trimRight m.head, newline ++ out ++ (newline ++ base ++ style.indentUnit), m.close⟩

/-- A statement that was laid out is a statement again. -/
theorem Statement.spelled_relaid (hn : Blank newline) (hbase : Blank base)
    (hu : Blank style.indentUnit) {m : Statement} {old new out : Text} (hm : m.Spelled old)
    (hout : Hash.layout m.body (base ++ style.indentUnit ++ style.indentUnit) newline = some out)
    (hnew : m.layout style newline base = some new) :
    (m.relaid style newline base out).Spelled new := by
  have hblank : ∀ {b : Text}, Blank b → ∀ c ∈ b, isBodyChar c = true :=
    fun hb c hc => isBodyChar_of_isBlank (hb c hc)
  obtain ⟨target, expression, htarget, hexpression, hhead⟩ := hm.head
  -- white space at the end of the head is part of the expression, since a target ends otherwise
  have htrim : trimRight m.head = target ++ trimRight expression := by
    obtain ⟨dash, gap, gap', name, gap'', _, _, _, _, _, _, _, rfl⟩ := htarget
    rw [hhead]
    have h := trimRight_append_cons (c := '=') (by decide)
      ('{' :: '%' :: (dash ++ (gap ++ ("set".toList ++ (gap' ++ (name ++ gap'')))))) expression
    simpa using h
  refine ⟨⟨target, trimRight expression, htarget, ?_, htrim⟩, ?_, hm.close,
    ⟨"|merge(\x7b".toList, [], [' '], ⟨[], [], .nil, .nil, rfl⟩, .nil, .of_all (by decide), ?_⟩⟩
  · exact fun c hc => hexpression c ((trimRight_isPrefix expression).subset hc)
  · refine List.forall_mem_append.mpr ⟨List.forall_mem_append.mpr ⟨hblank hn, ?_⟩,
      hblank ((hn.append hbase).append hu)⟩
    exact Hash.forall_mem_layout (List.all_eq_true.mp (by decide)) hm.body
      (hblank ((hbase.append hu).append hu)) (hblank hn) hout
  · rw [layout, hout] at hnew
    cases hnew
    simp [relaid]

/-- What is read in the place of a statement: itself if its literal has no properties, and otherwise
the statement laid out. -/
inductive Statement.Remade (style : Style) (newline base : Text) (m : Statement) (old : Text) :
    Statement → Text → Prop
  | same : Hash.properties m.body = [] → Remade style newline base m old m old
  | relaid {out new : Text} :
      Hash.layout m.body (base ++ style.indentUnit ++ style.indentUnit) newline = some out →
      m.layout style newline base = some new →
      Remade style newline base m old (m.relaid style newline base out) new

theorem Statement.exists_remade (hn : Blank newline) (hu : Blank style.indentUnit)
    (hbase : Blank base) {m : Statement} {old : Text} (hm : m.Spelled old) :
    ∃ m' new, (m.layout style newline base).getD old = new ∧ m'.Spelled new ∧
      m.Remade style newline base old m' new := by
  cases hout : Hash.layout m.body (base ++ style.indentUnit ++ style.indentUnit) newline with
  | none =>
    refine ⟨m, old, ?_, hm, .same (Hash.layout_eq_none_iff.mp hout)⟩
    rw [Statement.layout, hout]
    rfl
  | some out =>
    obtain ⟨new, hnew⟩ : ∃ new, m.layout style newline base = some new := by
      rw [Statement.layout, hout]
      exact ⟨_, rfl⟩
    exact ⟨m.relaid style newline base out, new, by rw [hnew]; rfl,
      Statement.spelled_relaid hn hbase hu hm hout hnew, .relaid hout hnew⟩

/-- No statement comes about where none was: it would end before the first one that is read. -/
theorem read_replacePieces_eq_none (hb : style.block = .block) (hn : Blank newline)
    (hu : Blank style.indentUnit) {bases : Nat → Text} (hbases : ∀ i, Blank (bases i))
    {last last' : Option Char} {c : Char} {s : Text} {pieces : List (Piece Statement)} {i : Nat}
    (hr : Statement.read style.block last (c :: s) = none)
    (hs : Scans (Statement.read style.block) (some c) s pieces) :
    Statement.read style.block last' (c :: replacePieces
      (fun f => f.value.layout style newline (bases f.start)) i pieces) = none := by
  refine Option.eq_none_iff_forall_ne_some.mpr ?_
  rintro ⟨m, rest⟩ hm
  rw [hb] at hm
  obtain ⟨t, ht, he⟩ := Statement.read_iff.mp hm
  -- so the statement stands in the text before as well
  suffices h : ∃ rest', c :: s = t ++ rest' by
    obtain ⟨rest', h⟩ := h
    rw [hb, Statement.read_iff.mpr ⟨t, ht, h⟩] at hr
    cases hr
  rcases hs.eq_or_exists_found _ i with h | ⟨a, j, last₁, m₁, old, rest₁, rest₂, hr₁, hs, h⟩
  · exact ⟨rest, h ▸ he⟩
  · obtain ⟨_, new, hnew, hspelled, _⟩ :=
      Statement.exists_remade hn hu (hbases j) (.of_read hb hr₁)
    obtain ⟨x, y, z, rfl, hx, _⟩ := hspelled.braces
    rw [h, hnew] at he
    have he' : t ++ rest = c :: a ++ '{' :: (x ++ '{' :: (y ++ '}' :: (z ++ '}' :: rest₂))) := by
      simpa using he.symm
    obtain ⟨u, hu⟩ := ht.prefix_of_append_eq (List.cons_ne_nil c a) hx he'
    exact ⟨u ++ (old ++ rest₁), by rw [hs, ← List.cons_append, hu, List.append_assoc]⟩

/-- The statements of a document that was laid out are those of the document, one by one. -/
theorem rescan_layout (hb : style.block = .block) (hn : Blank newline) (hu : Blank style.indentUnit)
    (s : Text) :
    Remade (fun f => f.value.Remade style newline (indentationAt s f.start) f.text) 0
      (scan (Statement.read style.block) s)
      (scan (Statement.read style.block) (layout style newline s).1) := by
  have hbases : ∀ i, Blank (indentationAt s i) := fun i => blank_indentation _
  rw [layout, layoutPieces_flatMap]
  refine scan_replacePieces (fun _ _ => True) (Statement.read_consumes style.block) trivial
    (fun _ => trivial) ?_ (fun _ => read_replacePieces_eq_none hb hn hu hbases) s
  intro i last last' m old rest _ hr
  obtain ⟨m', new, hnew, hm', hmade⟩ :=
    Statement.exists_remade hn hu (hbases i) (.of_read hb hr)
  refine ⟨m', new, hnew, hm'.ne_nil, trivial, hmade, fun rest' => ?_⟩
  rw [hb]
  exact Statement.read_iff.mpr ⟨new, hm', rfl⟩

/-- What laying out keeps of a statement. -/
structure Kept (f f' : Located Statement) : Prop where
  close : f'.value.close = f.value.close
  head : trimRight f'.value.head = trimRight f.value.head
  body : Hash.properties f.value.body = [] ∧ f'.text = f.text ∨
    Hash.properties f.value.body ≠ [] ∧ Hash.properties f'.value.body =
      (Hash.properties f.value.body).map fun p => trim (Hash.quoteKey p)

theorem Statement.Remade.kept (hn : Blank newline) (hu : Blank style.indentUnit)
    (hbase : Blank base) {m m' : Statement} {old new : Text}
    (h : m.Remade style newline base old m' new) (i j : Nat) : Kept ⟨i, m, old⟩ ⟨j, m', new⟩ := by
  cases h with
  | same hprops => exact ⟨rfl, rfl, .inl ⟨hprops, rfl⟩⟩
  | relaid hout _ =>
    refine ⟨rfl, trimRight_trimRight m.head, .inr ⟨(Hash.layout_eq_some_iff.mp hout).1, ?_⟩⟩
    exact Hash.properties_of_layout ((hbase.append hu).append hu) hn
      ((hn.append hbase).append hu) hout

/-- Laying out merge statements keeps what is between them, and their content: each has the same
properties as before, with quotes around their keys. -/
theorem statements_of_layout (hb : style.block = .block)
    (hn : newline = "\n".toList ∨ newline = "\r\n".toList)
    (hu : ∀ c ∈ style.indentUnit, c = ' ' ∨ c = '\t') (s : Text) :
    fields (scan (Statement.read style.block) (layout style newline s).1) =
        fields (scan (Statement.read style.block) s) ∧
      List.Forall₂ Kept (locate 0 (scan (Statement.read style.block) s))
        (locate 0 (scan (Statement.read style.block) (layout style newline s).1)) := by
  have hn' : Blank newline := by
    rcases hn with rfl | rfl <;> exact .of_all (by decide)
  have hu' : Blank style.indentUnit := blank_of_space_or_tab hu
  have h := rescan_layout hb hn' hu' s
  exact ⟨h.fields_eq, h.forall₂ (fun f j _ _ hm => hm.kept hn' hu' (blank_indentation _) f.start j) 0⟩

/-- Two statements on one line, with a comma inside a value and a literal without properties. -/
theorem statements_of_layout_beside :
    let second := "\x7b% set c = d|merge(\x7b , \x7d) -%\x7d"
    let s := ("\x7b% set a = b |merge(\x7bx: f(1, 2), 'y': 3\x7d) %\x7d-" ++ second).toList
    let out := ("\x7b% set a = b|merge(\x7b\n        'x': f(1, 2),\n        'y': 3\n    \x7d) %\x7d-" ++
      second).toList
    (layout .default "\n".toList s).1 = out ∧
      fields (scan (Statement.read .block) out) = fields (scan (Statement.read .block) s) ∧
      List.Forall₂ Kept (locate 0 (scan (Statement.read .block) s))
        (locate 0 (scan (Statement.read .block) out)) := by
  intro second s out
  have hout : (layout .default "\n".toList s).1 = out := by decide +kernel
  have h := @statements_of_layout .default _ rfl (.inl rfl) (forall_of_all (by decide)) s
  rw [hout] at h
  exact ⟨hout, h⟩

end Layout

end TwigLayout.Merge
