import TwigLayout.Proofs.Stable.Merge
import TwigLayout.Proofs.Stable.Route

/-!
# Merge statements without some gaps

A merge statement may reach into the route of a call, and the gap between the parenthesis of the
call and its route goes away when the call is laid out (`Tightened`).

1. `Tightened.split`, `Tightened.split_new`: a gap lies on one side of any character but white
   space, quotes and parentheses.
2. `Tightened.run`: a hash literal body is split the same way without some gaps.
3. `Statement.Spelled.exists_looser`: a statement without some gaps comes from a statement.
4. `Statement.Looser.laidOut`: if that was laid out, it still is.
-/

namespace TwigLayout

open Text Route

/-! ## Texts without gaps -/

/-- The text `t` is the text `s` without some gaps between a parenthesis and a quote. -/
inductive Tightened : Text → Text → Prop
  | nil : Tightened [] []
  | cons {s t : Text} (c : Char) : Tightened s t → Tightened (c :: s) (c :: t)
  | gap {g s t : Text} {q : Char} : Blank g → isQuote q = true → Tightened s t →
      Tightened ('(' :: (g ++ q :: s)) ('(' :: q :: t)

/-- A character at which a text can be parted without parting a gap. -/
def parts (c : Char) : Bool := !(isBlank c || isQuote c || c == '(')

namespace Tightened

variable {s t a b g : Text} {c : Char}

theorem eq_false_of_parts (h : parts c = true) :
    isBlank c = false ∧ isQuote c = false ∧ c ≠ '(' := by
  rw [parts, Bool.not_eq_true', Bool.or_eq_false_iff, Bool.or_eq_false_iff,
    beq_eq_false_iff_ne] at h
  exact ⟨h.1.1, h.1.2, h.2⟩

/-- A text parted before the quote behind a gap, or behind it. -/
theorem exists_of_gap_eq (hc : parts c = true) (hg : Blank g) {q : Char} (hq : isQuote q = true)
    (h : '(' :: (g ++ q :: s) = a ++ c :: b) :
    ∃ a', a = '(' :: (g ++ q :: a') ∧ s = a' ++ c :: b := by
  obtain ⟨hblank, hquote, hparen⟩ := eq_false_of_parts hc
  cases a with
  | nil =>
    cases h
    exact absurd rfl hparen
  | cons d a =>
    obtain ⟨rfl, h'⟩ := List.cons.inj h
    rcases eq_or_exists_of_append_cons hg hblank h' with ⟨_, rfl, _⟩ | ⟨a', rfl, rfl⟩
    · rw [hq] at hquote
      cases hquote
    · exact ⟨a', rfl, rfl⟩

/-- A text parted at a character that is part of no gap. -/
theorem split (hc : parts c = true) (h : Tightened (a ++ c :: b) t) :
    ∃ a' b', t = a' ++ c :: b' ∧ Tightened a a' ∧ Tightened b b' := by
  generalize hs : a ++ c :: b = s at h
  induction h generalizing a with
  | nil => simp at hs
  | @cons s t d h ih =>
    cases a with
    | nil =>
      cases hs
      exact ⟨[], t, rfl, .nil, h⟩
    | cons e a =>
      cases hs
      obtain ⟨a', b', rfl, ha, hb⟩ := ih rfl
      exact ⟨d :: a', b', rfl, .cons d ha, hb⟩
  | @gap g s t q hg hq _ ih =>
    obtain ⟨a, rfl, rfl⟩ := exists_of_gap_eq hc hg hq hs.symm
    obtain ⟨a', b', rfl, ha, hb⟩ := ih rfl
    exact ⟨'(' :: q :: a', b', rfl, .gap hg hq ha, hb⟩

/-- The new text parted at such a character. -/
theorem split_new (hc : parts c = true) (h : Tightened s (a ++ c :: b)) :
    ∃ a' b', s = a' ++ c :: b' ∧ Tightened a' a ∧ Tightened b' b := by
  generalize ht : a ++ c :: b = t at h
  induction h generalizing a with
  | nil => simp at ht
  | @cons s t d h ih =>
    cases a with
    | nil =>
      cases ht
      exact ⟨[], s, rfl, .nil, h⟩
    | cons e a =>
      cases ht
      obtain ⟨a', b', rfl, ha, hb⟩ := ih rfl
      exact ⟨d :: a', b', rfl, .cons d ha, hb⟩
  | @gap g s t q hg hq _ ih =>
    obtain ⟨a, rfl, rfl⟩ := exists_of_gap_eq hc Blank.nil hq (by simpa using ht.symm)
    obtain ⟨a', b', rfl, ha, hb⟩ := ih rfl
    exact ⟨'(' :: (g ++ q :: a'), b', by simp, .gap hg hq ha, hb⟩

/-- White space in front stays. -/
theorem exists_of_blank_append (hb : Blank b) (h : Tightened (b ++ s) t) :
    ∃ t', t = b ++ t' ∧ Tightened s t' := by
  induction b generalizing t with
  | nil => exact ⟨t, rfl, h⟩
  | cons c b ih =>
    generalize hs : c :: b ++ s = u at h
    cases h with
    | nil => cases hs
    | @cons u t d h =>
      obtain ⟨rfl, rfl⟩ := List.cons.inj hs
      obtain ⟨t', rfl, h'⟩ := ih (fun d hd => hb d (List.mem_cons_of_mem _ hd)) h
      exact ⟨t', rfl, h'⟩
    | gap _ _ _ =>
      obtain ⟨rfl, _⟩ := List.cons.inj hs
      exact absurd (hb '(' List.mem_cons_self) (by decide)

theorem append_left (a : Text) (h : Tightened s t) : Tightened (a ++ s) (a ++ t) := by
  induction a with
  | nil => exact h
  | cons c a ih => exact .cons c ih

theorem eq_nil (h : Tightened [] t) : t = [] := by
  cases h
  rfl

theorem eq_of_blank (hb : Blank b) (h : Tightened b t) : t = b := by
  rw [← List.append_nil b] at h
  obtain ⟨t', rfl, h'⟩ := exists_of_blank_append hb h
  rw [h'.eq_nil, List.append_nil]

/-- White space at the end stays. -/
theorem exists_of_append_blank (hb : Blank b) (h : Tightened (s ++ b) t) :
    ∃ t', t = t' ++ b ∧ Tightened s t' := by
  generalize hs : s ++ b = u at h
  induction h generalizing s with
  | nil =>
    obtain ⟨rfl, rfl⟩ := List.append_eq_nil_iff.mp hs
    exact ⟨[], rfl, .nil⟩
  | @cons u t d h ih =>
    cases s with
    | nil =>
      rw [List.nil_append] at hs
      refine ⟨[], ?_, .nil⟩
      rw [eq_of_blank (hs ▸ hb) (.cons d h), hs]
      rfl
    | cons e s =>
      obtain ⟨rfl, hs'⟩ := List.cons.inj hs
      obtain ⟨t', rfl, h'⟩ := ih hs'
      exact ⟨e :: t', rfl, .cons e h'⟩
  | @gap g u t q hg hq h ih =>
    have hqb := not_isBlank_of_isQuote hq
    obtain ⟨s', rfl, rfl⟩ := hb.exists_of_append_cons_eq (a := '(' :: g) hqb hs.symm
    obtain ⟨t', rfl, h'⟩ := ih rfl
    exact ⟨'(' :: q :: t', rfl, .gap hg hq h'⟩

/-- What goes away is white space. -/
theorem mem_or_isBlank (h : Tightened s t) : ∀ c ∈ s, c ∈ t ∨ isBlank c = true := by
  induction h with
  | nil => exact fun c hc => .inl hc
  | cons d _ ih =>
    intro c hc
    rcases List.mem_cons.mp hc with rfl | hc
    · exact .inl List.mem_cons_self
    · exact (ih c hc).imp_left (List.mem_cons_of_mem _)
  | gap hg _ _ ih =>
    intro c hc
    simp only [List.mem_cons, List.mem_append] at hc ⊢
    rcases hc with rfl | hc | rfl | hc
    · exact .inl (.inl rfl)
    · exact .inr (hg c hc)
    · exact .inl (.inr (.inl rfl))
    · exact (ih c hc).imp_left fun hm => .inr (.inr hm)

theorem forall_old {P : Char → Prop} (h : Tightened s t) (ht : ∀ c ∈ t, P c)
    (hblank : ∀ c, isBlank c = true → P c) : ∀ c ∈ s, P c :=
  fun c hc => (h.mem_or_isBlank c hc).elim (ht c) (hblank c)

theorem eq_of_not_mem (h : Tightened s t) (hs : '(' ∉ s) : t = s := by
  induction h with
  | nil => rfl
  | cons d _ ih => rw [ih fun hm => hs (List.mem_cons_of_mem _ hm)]
  | gap _ _ _ _ => exact absurd List.mem_cons_self hs

/-- Without a quote there is no gap to leave out. -/
theorem eq_of_new (h : Tightened s t) (ht : ∀ c ∈ t, isQuote c = false) : s = t := by
  induction h with
  | nil => rfl
  | cons d _ ih => rw [ih fun c hc => ht c (List.mem_cons_of_mem _ hc)]
  | @gap g s t q _ hq _ _ =>
    rw [ht q (by simp)] at hq
    cases hq

theorem getLast?_eq (h : Tightened s t) : t.getLast? = s.getLast? := by
  induction h with
  | nil => rfl
  | cons d _ ih => rw [List.getLast?_cons, List.getLast?_cons, ih]
  | @gap g s t q _ _ _ ih =>
    have hold : ('(' :: g ++ q :: s).getLast? = (q :: s).getLast? := by
      rw [List.getLast?_append, List.getLast?_cons]
      rfl
    have hnew : ('(' :: q :: t).getLast? = (q :: t).getLast? := List.getLast?_cons_cons
    rw [← List.cons_append, hold, hnew, List.getLast?_cons, List.getLast?_cons, ih]

theorem isTrim (h : Tightened s t) (hs : IsTrim s) : IsTrim t := by
  refine ⟨?_, ?_⟩
  · obtain ⟨c, u, rfl, hc⟩ := hs.head
    generalize hu : c :: u = v at h
    cases h with
    | nil => cases hu
    | @cons v t d _ =>
      obtain ⟨rfl, _⟩ := List.cons.inj hu
      exact ⟨c, t, rfl, hc⟩
    | @gap g v t q _ _ _ => exact ⟨'(', q :: t, rfl, by decide⟩
  · obtain ⟨u, c, rfl, hc⟩ := hs.last
    have hlast := h.getLast?_eq
    rw [List.getLast?_concat] at hlast
    obtain ⟨v, rfl⟩ := List.getLast?_eq_some_iff.mp hlast
    exact ⟨v, c, rfl, hc⟩

end Tightened

/-! ## Bodies without gaps -/

namespace Hash

variable {s t : Text}

/-- A gap behind a parenthesis makes no difference to the quote behind it. -/
theorem State.Sound.step_run_blank {st : State} (hst : st.Sound) (hl : st.last ≠ some '\\')
    {g : Text} (hg : Blank g) (q : Char) : (st.run g).step q = st.step q := by
  induction g generalizing st with
  | nil => rfl
  | cons c g ih =>
    have hc := hg c List.mem_cons_self
    obtain ⟨_, hstep⟩ := hst.step_blank hc
    have hlast : (st.step c).last ≠ some '\\' := by
      rw [hstep]
      intro h
      cases h
      exact absurd hc (by decide)
    have hrest := ih (hst.step c) hlast fun d hd => hg d (List.mem_cons_of_mem _ hd)
    have hsame : (st.step c).step q = st.step q := by
      rw [hstep] at hlast ⊢
      obtain ⟨quote, depth, last⟩ := st
      cases quote with
      | none => rfl
      | some k =>
        have h₁ : (last != some '\\') = true := by simpa using hl
        have h₂ : (some c != some '\\') = true := by simpa using hlast
        simp only [State.step, h₁, h₂]
    exact hrest.trans hsame

end Hash

open Hash

/-- A text is read the same way without some gaps. -/
theorem Tightened.run {s t : Text} (h : Tightened s t) {st : State} (hst : st.Sound) :
    st.run t = st.run s ∧ st.uncut t = st.uncut s := by
  induction h generalizing st with
  | nil => exact ⟨rfl, rfl⟩
  | cons c _ ih =>
    obtain ⟨hrun, hu⟩ := ih (hst.step c)
    exact ⟨hrun, by rw [State.uncut, State.uncut, hu]⟩
  | @gap g s t q hg hq _ ih =>
    have hparen : (st.step '(').last ≠ some '\\' := by
      rw [State.last_step]
      decide
    have hstep := (hst.step '(').step_run_blank hparen hg q
    obtain ⟨hrun, hu⟩ := ih ((hst.step '(').step q)
    constructor
    · show ((st.step '(').step q).run t = (st.step '(').run (g ++ q :: s)
      rw [State.run_append, hrun, ← hstep]
      rfl
    · obtain ⟨hug, _⟩ := (hst.step '(').run_blank hg
      simp only [State.uncut, State.uncut_append, hug, hstep, hu, State.splits_of_isQuote _ hq,
        Bool.true_and]

namespace Hash

variable {s t : Text}

theorem bareKey?_cons_eq_none_iff {c : Char} {s : Text} :
    bareKey? (c :: s) = none ↔
      ¬ (isKeyStart c = true ∧ ∃ v, trimLeft (s.dropWhile isKeyChar) = ':' :: v) := by
  rw [bareKey?]
  split
  · next hc =>
    split
    · next v hv => exact ⟨fun he => absurd he (by simp), fun h => absurd ⟨hc, v, hv⟩ h⟩
    · next hv => exact ⟨fun _ h => hv _ h.2.choose_spec, fun _ => rfl⟩
  · next hc => exact ⟨fun _ h => hc h.1, fun _ => rfl⟩

/-- A colon behind white space is no part of a gap. -/
theorem exists_trimLeft_eq (h : Tightened s t) (ht : ∃ v, trimLeft t = ':' :: v) :
    ∃ v, trimLeft s = ':' :: v := by
  obtain ⟨v, hv⟩ := ht
  induction h with
  | nil => exact ⟨v, hv⟩
  | @cons s t c _ ih =>
    cases hc : isBlank c with
    | true =>
      rw [trimLeft, List.dropWhile_cons_of_pos hc] at hv ⊢
      exact ih hv
    | false =>
      rw [trimLeft_cons hc] at hv ⊢
      cases hv
      exact ⟨s, rfl⟩
  | gap _ _ _ _ =>
    rw [trimLeft_cons (by decide)] at hv
    cases hv

theorem exists_trimLeft_dropWhile_eq (h : Tightened s t)
    (ht : ∃ v, trimLeft (t.dropWhile isKeyChar) = ':' :: v) :
    ∃ v, trimLeft (s.dropWhile isKeyChar) = ':' :: v := by
  induction h with
  | nil => exact ht
  | @cons s t c h ih =>
    by_cases hc : isKeyChar c = true
    · rw [List.dropWhile_cons_of_pos hc] at ht ⊢
      exact ih ht
    · rw [List.dropWhile_cons_of_neg hc] at ht ⊢
      exact exists_trimLeft_eq (.cons c h) ht
  | gap _ _ _ _ =>
    rw [List.dropWhile_cons_of_neg (by decide), trimLeft_cons (by decide)] at ht
    obtain ⟨v, hv⟩ := ht
    cases hv

theorem bareKey?_eq_none (h : Tightened s t) (hs : bareKey? s = none) : bareKey? t = none := by
  cases h with
  | nil => exact hs
  | cons c h =>
    rw [bareKey?_cons_eq_none_iff] at hs ⊢
    exact fun ht => hs ⟨ht.1, exists_trimLeft_dropWhile_eq h ht.2⟩
  | gap _ _ _ => rfl

theorem IsDone.tightened (h : Tightened s t) (hs : IsDone s) : IsDone t :=
  ⟨h.isTrim hs.isTrim, bareKey?_eq_none h hs.key⟩

/-- Lines without some gaps are lines without some gaps each. -/
theorem exists_of_tightened_lines {newline indent : Text} (hn : Blank newline) (hi : Blank indent)
    {props : List Text} (hne : props ≠ [])
    (h : Tightened ((',' :: newline).intercalate (props.map (indent ++ ·))) t) :
    ∃ props', props' ≠ [] ∧ t = (',' :: newline).intercalate (props'.map (indent ++ ·)) ∧
      List.Forall₂ Tightened props props' := by
  induction props generalizing t with
  | nil => exact absurd rfl hne
  | cons p props ih =>
    cases props with
    | nil =>
      have h' : Tightened (indent ++ p) t := by simpa using h
      obtain ⟨p', rfl, hp⟩ := Tightened.exists_of_blank_append hi h'
      exact ⟨[p'], by simp, by simp, .cons hp .nil⟩
    | cons q props =>
      have h' : Tightened (indent ++ p ++ ',' :: (newline ++ (',' :: newline).intercalate
          ((q :: props).map (indent ++ ·)))) t := by
        simpa [List.intercalate_cons_cons] using h
      obtain ⟨a, b, rfl, ha, hb⟩ := h'.split (by decide)
      obtain ⟨p', rfl, hp⟩ := Tightened.exists_of_blank_append hi ha
      obtain ⟨b', rfl, hb'⟩ := Tightened.exists_of_blank_append hn hb
      obtain ⟨props', hne', rfl, hall⟩ := ih (List.cons_ne_nil q props) hb'
      obtain ⟨r, rest, rfl⟩ := List.exists_cons_of_ne_nil hne'
      exact ⟨p' :: r :: rest, by simp, by simp [List.intercalate_cons_cons], .cons hp hall⟩

theorem Separate.tightened {props props' : List Text} (h : List.Forall₂ Tightened props props')
    (hs : Separate props) : Separate props' := by
  induction h with
  | nil => trivial
  | @cons p p' props props' hp hrest ih =>
    obtain ⟨hrun, hu⟩ := hp.run State.sound_start
    cases hrest with
    | nil => exact hu.trans hs
    | cons _ _ => exact ⟨hu.trans hs.1, by rw [hrun]; exact hs.2.1, ih hs.2.2⟩

/-- A body that is laid out is still so without some gaps. -/
theorem LaidOut.tightened {newline indent z : Text} (h : LaidOut newline indent z s)
    (ht : Tightened s t) (hn : Blank newline) (hi : Blank indent) (hz : Blank z) :
    LaidOut newline indent z t := by
  obtain ⟨props, hne, hsep, hdone, rfl⟩ := h
  obtain ⟨u, rfl, hu⟩ := Tightened.exists_of_append_blank hz ht
  obtain ⟨v, rfl, hv⟩ := Tightened.exists_of_blank_append hn hu
  obtain ⟨props', hne', rfl, hall⟩ := exists_of_tightened_lines hn hi hne hv
  refine ⟨props', hne', hsep.tightened hall, ?_, rfl⟩
  clear hne' hsep ht hu hv hne
  induction hall with
  | nil => exact fun p hp => absurd hp List.not_mem_nil
  | cons hp _ ih =>
    obtain ⟨hdone, hrest⟩ := List.forall_mem_cons.mp hdone
    exact List.forall_mem_cons.mpr ⟨hdone.tightened hp, ih hrest⟩

end Hash

/-! ## Statements without gaps -/

namespace Merge

variable {style : Style} {newline base t t₀ : Text} {m m₀ : Statement}

theorem IsTarget.eq_concat {t : Text} (h : IsTarget t) :
    ∃ u, t = u ++ ['='] ∧ ∀ c ∈ u, isQuote c = false := by
  obtain ⟨dash, gap, gap', name, gap'', hd, hgap, hgap', _, _, hname, hgap'', rfl⟩ := h
  refine ⟨'{' :: '%' :: (dash ++ (gap ++ ("set".toList ++ (gap' ++ (name ++ gap''))))), by simp, ?_⟩
  have hblank : ∀ {b : Text}, Blank b → ∀ c ∈ b, isQuote c = false :=
    fun hb c hc => not_isQuote_of_isBlank (hb c hc)
  have hdash : ∀ c ∈ dash, isQuote c = false := by
    rcases hd with rfl | rfl <;> exact forall_of_any (by decide)
  have hname' : ∀ c ∈ name, isQuote c = false := by
    intro c hc
    have hword := hname c hc
    rw [isTargetChar, Bool.or_eq_true, beq_iff_eq] at hword
    rcases hword with hword | rfl
    · exact not_isQuote_of_isWord hword
    · decide
  simp only [List.forall_mem_cons, List.forall_mem_append]
  exact ⟨by decide, by decide, hdash, hblank hgap, forall_of_any (by decide), hblank hgap', hname',
    hblank hgap''⟩

theorem IsOpening.eq_concat {t : Text} (h : IsOpening t) :
    ∃ u, t = '|' :: (u ++ ['{']) ∧ ∀ c ∈ u, isQuote c = false := by
  obtain ⟨gap, gap', hgap, hgap', rfl⟩ := h
  refine ⟨gap ++ ("merge(".toList ++ gap'), by simp, ?_⟩
  simp only [List.forall_mem_append]
  exact ⟨fun c hc => not_isQuote_of_isBlank (hgap c hc), forall_of_any (by decide),
    fun c hc => not_isQuote_of_isBlank (hgap' c hc)⟩

/-- The statement `m₀` is `m` with some more gaps in its expression and in its literal. -/
structure Statement.Looser (m₀ m : Statement) (t₀ t : Text) : Prop where
  spelled : m₀.Spelled t₀
  head : Tightened m₀.head m.head
  body : Tightened m₀.body m.body
  close : m₀.close = m.close
  text : ∃ opening rest, IsOpening opening ∧
    t₀ = m₀.head ++ (opening ++ (m₀.body ++ '}' :: rest)) ∧
    t = m.head ++ (opening ++ (m.body ++ '}' :: rest))

/-- Gaps can be put into a statement in its expression and in its literal only. -/
theorem Statement.Spelled.exists_looser (h : m.Spelled t) (ht : Tightened t₀ t) :
    ∃ m₀ : Statement, m₀.Looser m t₀ t := by
  obtain ⟨target, expression, htarget, hexpression, hhead⟩ := h.head
  obtain ⟨opening, gap, gap', hopening, hgap, hgap', htext⟩ := h.text
  obtain ⟨u, hu, huq⟩ := htarget.eq_concat
  obtain ⟨v, hv, hvq⟩ := hopening.eq_concat
  generalize hrest : gap ++ ')' :: (gap' ++ m.close) = rest at htext
  have hrestq : ∀ c ∈ rest, isQuote c = false := by
    have hclose : ∀ c ∈ m.close, isQuote c = false := by
      rcases h.close with hc | hc <;> (rw [hc]; exact forall_of_any (by decide))
    rw [← hrest]
    simp only [List.forall_mem_append, List.forall_mem_cons]
    exact ⟨fun c hc => not_isQuote_of_isBlank (hgap c hc), by decide,
      fun c hc => not_isQuote_of_isBlank (hgap' c hc), hclose⟩
  have htext' : t = u ++ '=' :: (expression ++ '|' :: (v ++ '{' :: (m.body ++ '}' :: rest))) := by
    rw [htext, hhead, hu, hv]
    simp
  rw [htext'] at ht
  obtain ⟨u₀, x₀, rfl, hu₀, hx₀⟩ := ht.split_new (by decide)
  obtain ⟨expression₀, y₀, rfl, hexpression₀, hy₀⟩ := hx₀.split_new (by decide)
  obtain ⟨v₀, z₀, rfl, hv₀, hz₀⟩ := hy₀.split_new (by decide)
  obtain ⟨body₀, rest₀, rfl, hbody₀, hrest₀⟩ := hz₀.split_new (by decide)
  obtain rfl := hu₀.eq_of_new huq
  obtain rfl := hv₀.eq_of_new hvq
  obtain rfl := hrest₀.eq_of_new hrestq
  have htext₀ : u₀ ++ '=' :: (expression₀ ++ '|' :: (v₀ ++ '{' :: (body₀ ++ '}' :: rest₀))) =
      target ++ expression₀ ++ (opening ++ (body₀ ++ '}' :: rest₀)) := by
    rw [hu, hv]
    simp
  refine ⟨⟨target ++ expression₀, body₀, m.close⟩, ?_, ?_, hbody₀, rfl, opening, rest₀, hopening,
    htext₀, htext⟩
  · refine ⟨⟨target, expression₀, htarget, ?_, rfl⟩, ?_, h.close, opening, gap, gap', hopening,
      hgap, hgap', ?_⟩
    · exact hexpression₀.forall_old hexpression fun c hc => isExpressionChar_of_isBlank hc
    · exact hbody₀.forall_old h.body fun c hc => isBodyChar_of_isBlank hc
    · rw [htext₀, hrest]
  · rw [hhead]
    exact hexpression₀.append_left target

/-- A statement that is laid out is still so without some gaps. -/
theorem Statement.Looser.laidOut (h : m₀.Looser m t₀ t)
    (hl : m₀.LaidOut style newline base t₀) (hn : Blank newline) (hbase : Blank base)
    (hu : Blank style.indentUnit) : m.LaidOut style newline base t := by
  obtain ⟨opening, rest, hopening, ht₀, ht⟩ := h.text
  refine ⟨?_, ?_, ?_⟩
  · rw [trimRight_eq_self_iff, h.head.getLast?_eq, ← trimRight_eq_self_iff]
    exact hl.head
  · exact hl.body.tightened h.body hn ((hbase.append hu).append hu) (hn.append (hbase.append hu))
  · obtain ⟨v, hv, hvall, _⟩ := hopening.eq_append
    have he := List.append_cancel_left (ht₀.symm.trans hl.text)
    have he' : '|' :: v ++ '{' :: (m₀.body ++ '}' :: rest) =
        "|merge(".toList ++ '{' :: (m₀.body ++ ("\x7d) ".toList ++ m₀.close)) := by
      simpa [hv] using he
    obtain ⟨hmerge, _, hrest⟩ := append_cons_inj_of_forall hvall isExpressionChar_brace
      (List.all_eq_true.mp (by decide)) isExpressionChar_brace he'
    rw [ht, ← h.close, List.append_cancel_left hrest, hv]
    have hopen : '|' :: (v ++ ['{']) = "|merge(\x7b".toList := by
      rw [← List.cons_append, hmerge]
      rfl
    rw [hopen]

end Merge

end TwigLayout
