import TwigLayout.Proofs.Stable.Tight

/-!
# Merge statements beside route calls

Laying out route calls changes a document in two ways: gaps between a parenthesis and the quote
behind it go away, and the hashes behind the routes are written anew, with the comma before them
(`Rehashed`). A merge statement may start before a call or inside of its route, but it never reaches
into the hash, whose brace stands behind a comma.

1. `Rehashed.exists_tightened`: a statement of the new document is one of the old document, without
   some gaps.
2. `Rehashed.lastLine_eq`: a line on which there are only spaces and tabs so far is the same.
3. `Merge.Done.of_rehashed`, `Merge.InPlace.of_rehashed`: so the statements that were laid out
   before the calls still are, at the same place if they start their lines.
-/

namespace TwigLayout

open Text Route

/-- The opening of a hash behind a comma, as laying out writes it. -/
def hashOpen : Text := [',', ' ', '{']

/-- The braces of a statement open at its start and behind a parenthesis. -/
theorem Merge.Statement.Spelled.not_hashOpen {m : Merge.Statement} {t : Text} (h : m.Spelled t) :
    ¬ hashOpen <:+: t := by
  obtain ⟨target, expression, htarget, hexpression, hhead⟩ := h.head
  obtain ⟨_, gap, gap', ⟨gap₁, gap₂, hgap₁, hgap₂, rfl⟩, hgap, hgap', ht⟩ := h.text
  obtain ⟨u, rfl, hu⟩ := htarget.eq_cons
  have hopen : Merge.isBodyChar '{' = false := by decide
  have hblank : ∀ {b : Text}, Blank b → ∀ c ∈ b, Merge.isBodyChar c = true :=
    fun hb c hc => Merge.isBodyChar_of_isBlank (hb c hc)
  -- what stands before the second brace
  obtain ⟨front, hfront⟩ : ∃ front, front = u ++ (expression ++ '|' :: (gap₁ ++ "merge".toList)) :=
    ⟨_, rfl⟩
  have hfront' : ∀ c ∈ front ++ '(' :: gap₂, Merge.isBodyChar c = true := by
    rw [hfront]
    simp only [List.forall_mem_append, List.forall_mem_cons]
    exact ⟨⟨hu, fun c hc => Merge.isBodyChar_of_isExpressionChar (hexpression c hc), by decide,
      hblank hgap₁, List.all_eq_true.mp (by decide)⟩, by decide, hblank hgap₂⟩
  have htail : '{' ∉ gap ++ ')' :: (gap' ++ m.close) := by
    have hclose : '{' ∉ m.close := by
      rcases h.close with hc | hc <;> (rw [hc]; decide)
    simp [hgap.not_mem (c := '{') (by decide), hgap'.not_mem (c := '{') (by decide), hclose]
  rintro ⟨x, y, he⟩
  have he' : '{' :: (front ++ '(' :: gap₂ ++ '{' :: (m.body ++ '}' :: (gap ++ ')' ::
      (gap' ++ m.close)))) = x ++ [',', ' '] ++ '{' :: y := by
    rw [ht, hhead] at he
    simp only [hashOpen, List.append_assoc, List.cons_append, List.nil_append] at he
    simp [hfront, he]
  cases x with
  | nil => cases he'
  | cons d x =>
    have he₁ : front ++ '(' :: gap₂ ++ '{' :: (m.body ++ '}' :: (gap ++ ')' :: (gap' ++ m.close))) =
        x ++ ',' :: [' '] ++ '{' :: y := (List.cons.inj he').2
    rcases eq_or_exists_of_append_cons hfront' hopen he₁ with ⟨hx, _⟩ | ⟨x', _, he''⟩
    · have hlast := congrArg (List.getLast? ∘ trimRight) hx
      have hspace : Blank [' '] := .of_all (by decide)
      simp only [Function.comp_apply, trimRight_append_cons (c := ',') (by decide),
        trimRight_append_cons (c := '(') (by decide), trimRight_of_blank hgap₂,
        trimRight_of_blank hspace, List.getLast?_concat] at hlast
      cases hlast
    · rcases eq_or_exists_of_append_cons h.body hopen he'' with ⟨_, hne, _⟩ | ⟨x'', _, he₃⟩
      · cases hne
      · exact htail (by rw [he₃]; simp)

/-- A statement starts with the opening of a block tag. -/
theorem Merge.Statement.Spelled.exists_eq_open {m : Merge.Statement} {t : Text}
    (h : m.Spelled t) : ∃ x, t = '{' :: '%' :: x := by
  obtain ⟨_, _, ⟨_, _, _, _, _, _, _, _, _, _, _, _, rfl⟩, _, hhead⟩ := h.head
  obtain ⟨_, _, _, _, _, _, ht⟩ := h.text
  rw [ht, hhead]
  exact ⟨_, rfl⟩

theorem Merge.Statement.Spelled.brace_suffix {m : Merge.Statement} {t : Text}
    (h : m.Spelled t) : ['}'] <:+ t := by
  obtain ⟨a, b, c, rfl, _⟩ := h.braces
  exact ⟨'{' :: (a ++ '{' :: (b ++ '}' :: c)), by simp⟩

/-- The text `t` is the text `s` without some gaps between a parenthesis and a quote, and with other
texts in the place of some hashes behind a comma. -/
inductive Rehashed : Text → Text → Prop
  | nil : Rehashed [] []
  | cons {s t : Text} (c : Char) : Rehashed s t → Rehashed (c :: s) (c :: t)
  | gap {g s t : Text} {q : Char} : Blank g → isQuote q = true → Rehashed s t →
      Rehashed ('(' :: (g ++ q :: s)) ('(' :: q :: t)
  | hash {old body s t : Text} {c : Char} : isBlank c = true → (∀ d ∈ body, isBodyChar d = true) →
      Rehashed s t →
      Rehashed (old ++ ')' :: s) (',' :: ' ' :: '{' :: c :: (body ++ '}' :: ')' :: t))

namespace Rehashed

variable {s t u v : Text}

theorem append_left (a : Text) (h : Rehashed s t) : Rehashed (a ++ s) (a ++ t) := by
  induction a with
  | nil => exact h
  | cons c a ih => exact .cons c ih

theorem suffix_tail {c : Char} {t : Text} (h : c :: t = [] ∨ ['}'] <:+ c :: t) :
    t = [] ∨ ['}'] <:+ t := by
  rcases h with h | h
  · cases h
  · rcases List.suffix_cons_iff.mp h with h | h
    · exact .inl (List.cons.inj h).2.symm
    · exact .inr h

/-- A text up to a brace that closes, without the opening of a hash, is a text without some gaps. -/
theorem exists_tightened_start (h : Rehashed s (t ++ v)) (hend : t = [] ∨ ['}'] <:+ t)
    (hopen : ¬ hashOpen <:+: t) : ∃ t₀ v₀, s = t₀ ++ v₀ ∧ Tightened t₀ t := by
  generalize hw : t ++ v = w at h
  induction h generalizing t with
  | nil =>
    obtain ⟨rfl, _⟩ := List.append_eq_nil_iff.mp hw
    exact ⟨[], [], rfl, .nil⟩
  | @cons s w c _ ih =>
    cases t with
    | nil => exact ⟨[], c :: s, rfl, .nil⟩
    | cons d t =>
      obtain ⟨rfl, hw'⟩ := List.cons.inj hw
      obtain ⟨t₀, v₀, rfl, ht⟩ :=
        ih (suffix_tail hend) (fun hi => hopen (List.infix_cons hi)) hw'
      exact ⟨d :: t₀, v₀, rfl, .cons d ht⟩
  | @gap g s w q hg hq _ ih =>
    cases t with
    | nil => exact ⟨[], _, rfl, .nil⟩
    | cons d t =>
      obtain ⟨rfl, hw'⟩ := List.cons.inj hw
      cases t with
      | nil => exact absurd hend (by decide)
      | cons e t =>
        obtain ⟨rfl, hw''⟩ := List.cons.inj hw'
        obtain ⟨t₀, v₀, rfl, ht⟩ := ih (suffix_tail (suffix_tail hend))
          (fun hi => hopen (List.infix_cons (List.infix_cons hi))) hw''
        exact ⟨'(' :: (g ++ e :: t₀), v₀, by simp, .gap hg hq ht⟩
  | @hash old body s w c _ _ _ _ =>
    match t, hw with
    | [], _ => exact ⟨[], _, rfl, .nil⟩
    | [d], hw =>
      obtain ⟨rfl, _⟩ := List.cons.inj hw
      exact absurd hend (by decide)
    | [d, e], hw =>
      obtain ⟨rfl, hw₁⟩ := List.cons.inj hw
      obtain ⟨rfl, _⟩ := List.cons.inj hw₁
      exact absurd hend (by decide)
    | d :: e :: f :: t, hw =>
      obtain ⟨rfl, hw₁⟩ := List.cons.inj hw
      obtain ⟨rfl, hw₂⟩ := List.cons.inj hw₁
      obtain ⟨rfl, _⟩ := List.cons.inj hw₂
      exact absurd ⟨[], t, rfl⟩ hopen

/-- A text parted at an opening of a block tag that starts behind the comma of a hash: the hash ends
before it, since no brace opens in it and the one at its start stands before white space. -/
theorem exists_of_hash_eq {body x : Text} {c : Char} (hc : isBlank c = true)
    (hbody : ∀ d ∈ body, isBodyChar d = true)
    (h : ',' :: ' ' :: '{' :: c :: (body ++ '}' :: ')' :: t) = u ++ '{' :: '%' :: x) :
    ∃ u', u = ',' :: ' ' :: '{' :: c :: (body ++ '}' :: ')' :: u') ∧ t = u' ++ '{' :: '%' :: x := by
  have hcomma : ∀ d ∈ [',', ' '], isBodyChar d = true := forall_of_all (by decide)
  have hbody' : ∀ d ∈ c :: body, isBodyChar d = true :=
    List.forall_mem_cons.mpr ⟨Stage.isBodyChar_of_isBlank hc, hbody⟩
  rcases eq_or_exists_of_append_cons hcomma (by decide) h with ⟨_, _, hx⟩ | ⟨g, rfl, hg⟩
  · obtain ⟨rfl, _⟩ := List.cons.inj hx
    exact absurd hc (by decide)
  · rcases eq_or_exists_of_append_cons (a := c :: body) hbody' (by decide) hg with
      ⟨_, hne, _⟩ | ⟨g', rfl, hg'⟩
    · cases hne
    · cases g' with
      | nil => cases hg'
      | cons d g' =>
        obtain ⟨rfl, rfl⟩ := List.cons.inj hg'
        exact ⟨g', rfl, rfl⟩

/-- No gap and no hash reaches over the opening of a block tag, so a text is parted there. -/
theorem exists_of_open {x : Text} (h : Rehashed s (u ++ '{' :: '%' :: x)) :
    ∃ u₀ s₀, s = u₀ ++ s₀ ∧ Rehashed u₀ u ∧ Rehashed s₀ ('{' :: '%' :: x) := by
  generalize hw : u ++ '{' :: '%' :: x = w at h
  induction h generalizing u with
  | nil => simp at hw
  | @cons s w c h ih =>
    cases u with
    | nil =>
      obtain ⟨rfl, rfl⟩ := List.cons.inj hw
      exact ⟨[], '{' :: s, rfl, .nil, .cons '{' h⟩
    | cons d u =>
      obtain ⟨rfl, hw'⟩ := List.cons.inj hw
      obtain ⟨u₀, s₀, rfl, hu₀, hs₀⟩ := ih hw'
      exact ⟨d :: u₀, s₀, rfl, .cons d hu₀, hs₀⟩
  | @gap g s w q hg hq _ ih =>
    obtain ⟨u, rfl, rfl⟩ := Tightened.exists_of_gap_eq (by decide) Blank.nil hq hw.symm
    obtain ⟨u₀, s₀, rfl, hu₀, hs₀⟩ := ih rfl
    exact ⟨'(' :: (g ++ q :: u₀), s₀, by simp, .gap hg hq hu₀, hs₀⟩
  | @hash old body s w c hc hbody _ ih =>
    obtain ⟨u, rfl, rfl⟩ := exists_of_hash_eq hc hbody hw.symm
    obtain ⟨u₀, s₀, rfl, hu₀, hs₀⟩ := ih rfl
    exact ⟨old ++ ')' :: u₀, s₀, by simp, .hash hc hbody hu₀, hs₀⟩

theorem eq_of_blank (hs : Blank s) (h : Rehashed s t) : t = s := by
  induction h with
  | nil => rfl
  | cons c _ ih => rw [ih (List.forall_mem_cons.mp hs).2]
  | gap => exact absurd (hs '(' List.mem_cons_self) (by decide)
  | hash => exact absurd (hs ')' (by simp)) (by decide)

/-- White space at the end stays. -/
theorem exists_of_append_blank {b : Text} (hb : Blank b) (h : Rehashed (u ++ b) t) :
    ∃ t', t = t' ++ b ∧ Rehashed u t' := by
  generalize hs : u ++ b = s at h
  induction h generalizing u with
  | nil =>
    obtain ⟨rfl, rfl⟩ := List.append_eq_nil_iff.mp hs
    exact ⟨[], rfl, .nil⟩
  | @cons s t c h ih =>
    cases u with
    | nil =>
      rw [List.nil_append] at hs
      refine ⟨[], ?_, .nil⟩
      rw [eq_of_blank (hs ▸ hb) (.cons c h), hs, List.nil_append]
    | cons d u =>
      obtain ⟨rfl, hs'⟩ := List.cons.inj hs
      obtain ⟨t', rfl, h'⟩ := ih hs'
      exact ⟨d :: t', rfl, .cons d h'⟩
  | @gap g s t q hg hq _ ih =>
    have hqb := not_isBlank_of_isQuote hq
    obtain ⟨u', rfl, rfl⟩ := hb.exists_of_append_cons_eq (a := '(' :: g) hqb hs.symm
    obtain ⟨t', rfl, h'⟩ := ih rfl
    exact ⟨'(' :: q :: t', rfl, .gap hg hq h'⟩
  | @hash old body s t c hc hbody _ ih =>
    obtain ⟨u', rfl, rfl⟩ := hb.exists_of_append_cons_eq (by decide) hs.symm
    obtain ⟨t', rfl, h'⟩ := ih rfl
    exact ⟨',' :: ' ' :: '{' :: c :: (body ++ '}' :: ')' :: t'), by simp, .hash hc hbody h'⟩

/-- A line of spaces and tabs stays: a gap ends before a quote and a hash with a parenthesis. -/
theorem lastLine_eq (h : Rehashed s t) (hs : ∀ c ∈ lastLine s, c = ' ' ∨ c = '\t') :
    lastLine t = lastLine s := by
  have hblank := blank_of_space_or_tab hs
  rcases eq_lastLine_or s with hone | ⟨a, ha⟩
  · rw [hone] at hblank
    rw [h.eq_of_blank hblank]
  · have hfeed : Blank ('\n' :: lastLine s) := List.forall_mem_cons.mpr ⟨by decide, hblank⟩
    generalize lastLine s = x at *
    subst ha
    obtain ⟨t', rfl, _⟩ := h.exists_of_append_blank hfeed
    exact lastLine_append_feed (fun hm => absurd (hs _ hm) (by decide)) t'

/-- A statement of the new text is one of the old text without some gaps. -/
theorem exists_tightened (h : Rehashed s (u ++ (t ++ v))) {m : Merge.Statement} (hm : m.Spelled t) :
    ∃ u₀ t₀ v₀, s = u₀ ++ (t₀ ++ v₀) ∧ Rehashed u₀ u ∧ Tightened t₀ t := by
  obtain ⟨x, ht⟩ := hm.exists_eq_open
  obtain ⟨u₀, s₀, rfl, hu₀, hs₀⟩ := exists_of_open (x := x ++ v) (by simpa [ht] using h)
  have hs₀' : Rehashed s₀ (t ++ v) := by simpa [ht] using hs₀
  obtain ⟨t₀, v₀, rfl, ht₀⟩ := hs₀'.exists_tightened_start (.inr hm.brace_suffix) hm.not_hashOpen
  exact ⟨u₀, t₀, v₀, rfl, hu₀, ht₀⟩

/-- A statement of the new text that has properties is one of the old text that has some. -/
theorem exists_looser (h : Rehashed s (u ++ (t ++ v))) {m : Merge.Statement} (hm : m.Spelled t)
    (hp : Hash.properties m.body ≠ []) :
    ∃ (u₀ t₀ v₀ : Text) (m₀ : Merge.Statement), s = u₀ ++ (t₀ ++ v₀) ∧ Rehashed u₀ u ∧
      m₀.Looser m t₀ t ∧ Hash.properties m₀.body ≠ [] := by
  obtain ⟨u₀, t₀, v₀, rfl, hu, ht⟩ := h.exists_tightened hm
  obtain ⟨m₀, hl⟩ := hm.exists_looser ht
  refine ⟨u₀, t₀, v₀, m₀, rfl, hu, hl, fun hnil => ?_⟩
  -- a gap is a part of some property
  have hparen : '(' ∉ m₀.body := by
    intro hm
    obtain ⟨p, hp, _⟩ := Hash.exists_property_of_mem hm (by decide) (by decide)
    rw [hnil] at hp
    exact absurd hp List.not_mem_nil
  rw [hl.body.eq_of_not_mem hparen] at hp
  exact hp hnil

end Rehashed

section Statements

variable {style : Merge.Style} {newline s t : Text}

/-- Statements that are laid out still are when hashes behind a comma are written anew. -/
theorem Merge.Done.of_rehashed (hdone : Merge.Done style newline s) (h : Rehashed s t)
    (hn : Blank newline) (hu : Blank style.indentUnit) : Merge.Done style newline t := by
  rintro a t b m rfl hm hp
  obtain ⟨a₀, t₀, b₀, m₀, rfl, _, hl, hp₀⟩ := h.exists_looser hm hp
  obtain ⟨base, hbase, hlaid⟩ := hdone a₀ t₀ b₀ m₀ rfl hl.spelled hp₀
  exact ⟨base, hbase, hl.laidOut hlaid hn (blank_of_space_or_tab hbase) hu⟩

/-- Those that start their lines do so as before. -/
theorem Merge.InPlace.of_rehashed (hplace : Merge.InPlace style newline s) (h : Rehashed s t)
    (hn : Blank newline) (hu : Blank style.indentUnit) : Merge.InPlace style newline t := by
  rintro a t b m rfl hm hp
  obtain ⟨a₀, t₀, b₀, m₀, rfl, ha, hl, hp₀⟩ := h.exists_looser hm hp
  obtain ⟨hstart, hlaid⟩ := hplace a₀ t₀ b₀ m₀ rfl hl.spelled hp₀
  rw [ha.lastLine_eq hstart]
  exact ⟨hstart, hl.laidOut hlaid hn (blank_of_space_or_tab hstart) hu⟩

end Statements

/-! ## Route calls -/

namespace Route

variable {style : Style} {newline reference : Text}

/-- Laying out a call writes its hash anew, and takes the gap before its route away. -/
theorem Call.rehashed_layout (hn : Blank newline) (hnne : newline ≠ []) (href : Blank reference)
    (hu : Blank style.indentUnit) {c : Call} {old new s t : Text} (hc : c.Spelled old)
    (h : c.layout style newline reference = some new) (hst : Rehashed s t) :
    Rehashed (old ++ s) (new ++ t) := by
  obtain ⟨out, hout, hnew⟩ := Option.map_eq_some_iff.mp h
  have hbody := (Call.spelled_relaid hn href hu hc hout h).body
  obtain ⟨q, name, hq, _, hroute⟩ := hc.route
  obtain ⟨gap, gap', gap'', gap₃, hgap, _, _, _, rfl⟩ := hc.text
  obtain ⟨d, newline, rfl⟩ := List.exists_cons_of_ne_nil hnne
  obtain ⟨_, hbody⟩ := List.forall_mem_cons.mp hbody
  have hhash : Rehashed
      (gap' ++ ',' :: (gap'' ++ '{' :: (c.body ++ '}' :: gap₃)) ++ ')' :: s) _ :=
    .hash (hn d List.mem_cons_self) hbody hst
  have hall := ((hhash.append_left (name ++ [q])).gap hgap hq).append_left c.function
  rw [← hnew, hroute]
  simpa using hall

theorem rehashed_layout (hf : AreNames style.functions) (hn : Blank newline) (hnne : newline ≠ [])
    (hu : Blank style.indentUnit) (s : Text) : Rehashed s (layout style newline s) := by
  have hpieces : ∀ {last t pieces}, Scans (Call.read style.functions) last t pieces → ∀ i,
      Rehashed t (replacePieces (fun f => (editOf style newline s f).map (·.replacement)) i
        pieces) := by
    intro last t pieces hs
    induction hs with
    | nil => exact fun _ => .nil
    | plain _ _ ih => exact fun i => .cons _ (ih (i + 1))
    | @found last c old rest pieces _ hr _ ih =>
      intro i
      obtain ⟨_, _, t, ht, he⟩ := (Call.read_iff hf.areWords).mp hr
      obtain rfl := List.append_cancel_right he
      rw [replacePieces]
      cases hedit : editOf style newline s ⟨i, c, old⟩ with
      | none => exact (ih _).append_left old
      | some e =>
        obtain ⟨_, _, k, hnew⟩ := editOf_eq_some hedit
        exact Call.rehashed_layout hn hnne (blank_indentation _) hu ht hnew (ih _)
  rw [layout_eq_replacePieces]
  exact hpieces (scans_scan (Call.read_consumes style.functions) s) 0

end Route

end TwigLayout
