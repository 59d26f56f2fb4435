import Mathlib.Data.List.Chain
import Mathlib.Data.List.Infix
import TwigLayout.Proofs.Content.Merge
import TwigLayout.Proofs.Content.Route
import TwigLayout.Proofs.Pipeline
import TwigLayout.Proofs.Spacing.Component

/-!
# The line terminator of a document

Laying out a document keeps its line terminator (`Layout.newlineOf_reflow`). Where a carriage return
stands before a line feed, every new text has line ends of that kind. Where none does, no new text
brings one about: what is put before a line feed never ends in a carriage return (`Firm`).
-/

namespace TwigLayout

open Text

/-! ## Bare and firm texts -/

/-- No carriage return stands before a line feed. -/
def Bare (s : Text) : Prop := s.IsChain fun c d => c = '\r' → d ≠ '\n'

/-- Nor does one if a line feed follows. -/
def Firm (s : Text) : Prop := Bare (s ++ ['\n'])

section Texts

variable {s t a b : Text}

theorem bare_iff : Bare s ↔ ¬ ['\r', '\n'] <:+: s := by
  unfold Bare
  rw [List.isChain_iff_forall_rel_of_append_cons_cons]
  constructor
  · rintro h ⟨a, b, rfl⟩
    exact h (List.append_assoc a ['\r', '\n'] b) rfl rfl
  · rintro h _ _ a b rfl rfl rfl
    exact h ⟨a, b, by simp⟩

theorem newlineOf_of_bare (h : Bare s) : newlineOf s = ['\n'] := by
  have hno : occursIn ['\r', '\n'] s = false := occursIn_eq_false_iff.mpr (bare_iff.mp h)
  rw [newlineOf, hno]
  rfl

theorem newlineOf_of_not_bare (h : ¬ Bare s) : newlineOf s = ['\r', '\n'] := by
  have hyes : occursIn ['\r', '\n'] s = true := by
    rw [occursIn_iff]
    exact not_not.mp fun hno => h (bare_iff.mpr hno)
  rw [newlineOf, hyes]
  rfl

theorem bare_append_iff : Bare (a ++ b) ↔
    Bare a ∧ Bare b ∧ (a.getLast? = some '\r' → b.head? ≠ some '\n') := by
  unfold Bare
  rw [List.isChain_append]
  constructor
  · rintro ⟨ha, hb, h⟩
    exact ⟨ha, hb, fun hl hh => h '\r' hl '\n' hh rfl rfl⟩
  · rintro ⟨ha, hb, h⟩
    refine ⟨ha, hb, ?_⟩
    rintro _ hl _ hh rfl rfl
    exact h hl hh

theorem Bare.of_isInfix (h : Bare t) (hs : s <:+: t) : Bare s := List.IsChain.infix h hs

theorem bare_of_not_mem (h : '\n' ∉ s) : Bare s :=
  bare_iff.mpr fun hi => h (hi.subset (by simp))

theorem firm_iff : Firm s ↔ Bare s ∧ s.getLast? ≠ some '\r' := by
  unfold Firm
  rw [bare_append_iff]
  constructor
  · rintro ⟨hs, _, h⟩
    exact ⟨hs, fun hl => h hl rfl⟩
  · rintro ⟨hs, h⟩
    exact ⟨hs, List.isChain_singleton _, fun hl => absurd hl h⟩

theorem firm_of_not_mem (h : '\r' ∉ s) : Firm s := by
  refine firm_iff.mpr ⟨bare_iff.mpr fun hi => h (hi.subset (by simp)), fun hl => ?_⟩
  exact h (List.mem_of_getLast? hl)

theorem Firm.append_bare (ha : Firm a) (hb : Bare b) : Bare (a ++ b) := by
  obtain ⟨ha, hl⟩ := firm_iff.mp ha
  exact bare_append_iff.mpr ⟨ha, hb, fun h => absurd h hl⟩

theorem Firm.append (ha : Firm a) (hb : Firm b) : Firm (a ++ b) := by
  unfold Firm
  rw [List.append_assoc]
  exact ha.append_bare hb

theorem Firm.of_isSuffix (h : Firm t) (hs : s <:+ t) : Firm s := by
  obtain ⟨u, rfl⟩ := hs
  unfold Firm at h ⊢
  rw [List.append_assoc] at h
  exact h.of_isInfix List.infix_append_right

theorem firm_trimRight (h : Bare s) : Firm (trimRight s) := by
  refine firm_iff.mpr ⟨h.of_isInfix (trimRight_isPrefix s).isInfix, fun hl => ?_⟩
  exact absurd (trimRight_eq_self_iff.mp (trimRight_trimRight s) '\r' hl) (by decide)

theorem firm_intercalate {sep : Text} (hsep : '\r' ∉ sep) {lines : List Text}
    (h : ∀ l ∈ lines, Firm l) : Firm (sep.intercalate lines) :=
  intercalate_induction (firm_of_not_mem List.not_mem_nil)
    (fun ha hb => (ha.append (firm_of_not_mem hsep)).append hb) h

end Texts

/-! ## Replaced findings -/

section Pieces

variable {α : Type} {f : Located α → Option Text} {pieces : List (Piece α)} {i : Nat}

/-- Firm texts in the place of findings bring about no carriage return before a line feed. -/
theorem bare_replacePieces (hf : ∀ g ∈ locate i pieces, ∀ new, f g = some new → Bare g.text →
      Firm new ∧ ∃ c t, new = c :: t ∧ c ≠ '\n') (hs : Bare (pieces.flatMap Piece.text)) :
    Bare (replacePieces f i pieces) ∧ ((replacePieces f i pieces).head? = some '\n' →
      (pieces.flatMap Piece.text).head? = some '\n') := by
  fun_induction replacePieces f i pieces with
  | case1 => exact ⟨hs, id⟩
  | case2 i c pieces ih =>
    obtain ⟨_, hrest, hc⟩ :=
      bare_append_iff.mp (show Bare ([c] ++ pieces.flatMap Piece.text) from hs)
    obtain ⟨hout, hhead⟩ := ih hf hrest
    refine ⟨?_, id⟩
    show Bare ([c] ++ replacePieces f (i + 1) pieces)
    exact bare_append_iff.mpr ⟨List.isChain_singleton c, hout, fun hl hh => hc hl (hhead hh)⟩
  | case3 i value text pieces ih =>
    obtain ⟨htext, hrest, hc⟩ :=
      bare_append_iff.mp (show Bare (text ++ pieces.flatMap Piece.text) from hs)
    obtain ⟨hout, hhead⟩ := ih (fun g hg => hf g (List.mem_cons_of_mem _ hg)) hrest
    cases hnew : f ⟨i, value, text⟩ with
    | none =>
      refine ⟨bare_append_iff.mpr ⟨htext, hout, fun hl hh => hc hl (hhead hh)⟩, ?_⟩
      intro h
      have h' : (text ++ replacePieces f (i + text.length) pieces).head? = some '\n' := h
      show (text ++ pieces.flatMap Piece.text).head? = some '\n'
      cases text with
      | nil => exact hhead h'
      | cons d text => exact h'
    | some new =>
      obtain ⟨hfirm, c, t, rfl, hne⟩ := hf _ List.mem_cons_self new hnew htext
      exact ⟨hfirm.append_bare hout, fun h => absurd (Option.some.inj h) hne⟩

theorem infix_replacePieces {g : Located α} (hg : g ∈ locate i pieces) :
    (f g).getD g.text <:+: replacePieces f i pieces := by
  fun_induction replacePieces f i pieces with
  | case1 => exact absurd hg List.not_mem_nil
  | case2 i c pieces ih => exact List.infix_cons (ih hg)
  | case3 i value text pieces ih =>
    rcases List.mem_cons.mp hg with rfl | hg
    · exact List.infix_append_left
    · exact List.infix_append_of_infix_right (ih hg)

/-- Texts with both characters in the place of findings. -/
theorem not_bare_replacePieces (hf : ∀ g ∈ locate i pieces, ∀ new, f g = some new → ¬ Bare new)
    (hs : ¬ Bare (pieces.flatMap Piece.text)) : ¬ Bare (replacePieces f i pieces) := by
  by_cases hnone : ∀ g ∈ locate i pieces, f g = none
  · rwa [replacePieces_eq_flatMap fun g hg => by rw [hnone g hg]; rfl]
  · obtain ⟨g, hg, hsome⟩ : ∃ g ∈ locate i pieces, f g ≠ none := by simpa using hnone
    obtain ⟨new, hnew⟩ := Option.ne_none_iff_exists'.mp hsome
    have hi : new <:+: replacePieces f i pieces := by
      have hi := infix_replacePieces (f := f) hg
      rwa [hnew] at hi
    exact fun hbare => hf g hg new hnew (hbare.of_isInfix hi)

end Pieces

/-! ## Literals -/

namespace Hash

theorem firm_quoteKey {property : Text} (ht : IsTrim property) (hb : Bare property) :
    Firm (quoteKey property) := by
  have hfirm : Firm property := by
    have h := firm_trimRight hb
    rwa [ht.trimRight] at h
  rw [quoteKey]
  split
  · next key value hk =>
    obtain ⟨gap, gap', rfl, _, _, hkey, _⟩ := exists_of_bareKey? hk
    have hkey' : '\r' ∉ key := fun hm => absurd (hkey _ hm) (by decide)
    have hvalue : value <:+ key ++ (gap ++ ':' :: (gap' ++ value)) :=
      ⟨key ++ (gap ++ ':' :: gap'), by simp⟩
    have hquoted : Firm ('\'' :: key ++ ['\'', ':', ' ']) :=
      firm_of_not_mem (by simp [hkey'])
    exact hquoted.append (hfirm.of_isSuffix hvalue)
  · exact hfirm

theorem firm_layout {body indent out : Text} (hb : Bare body) (hi : '\r' ∉ indent)
    (h : layout body indent ['\n'] = some out) : Firm out := by
  obtain ⟨_, rfl⟩ := layout_eq_some_iff.mp h
  refine firm_intercalate (by decide) fun l hl => ?_
  obtain ⟨q, hq, rfl⟩ := List.mem_map.mp hl
  obtain ⟨p, hp, rfl⟩ := List.mem_map.mp hq
  exact (firm_of_not_mem hi).append
    (firm_quoteKey (mem_properties hp) (hb.of_isInfix (infix_of_mem_properties hp)))

end Hash

/-- A text of spaces and tabs has no carriage return. -/
theorem not_mem_of_space_or_tab {s : Text} (h : ∀ c ∈ s, c = ' ' ∨ c = '\t') : '\r' ∉ s :=
  fun hm => absurd (h _ hm) (by decide)

theorem not_bare_append_crlf_append (a b : Text) : ¬ Bare (a ++ ['\r', '\n'] ++ b) :=
  fun h => bare_iff.mp h ⟨a, b, rfl⟩

/-! ## Merge statements -/

namespace Merge

variable {style : Style} {base : Text}

theorem Statement.firm_layout (hu : ∀ c ∈ style.indentUnit, c = ' ' ∨ c = '\t')
    (hbase : ∀ c ∈ base, c = ' ' ∨ c = '\t') {m : Statement} {old new : Text} (hm : m.Spelled old)
    (hold : Bare old) (h : m.layout style ['\n'] base = some new) :
    Firm new ∧ ∃ c t, new = c :: t ∧ c ≠ '\n' := by
  obtain ⟨out, hout, hnew⟩ := Option.map_eq_some_iff.mp h
  have hspelled := Statement.spelled_relaid (.of_all (by decide)) (blank_of_space_or_tab hbase)
    (blank_of_space_or_tab hu) hm hout h
  obtain ⟨opening, gap, gap', _, _, _, rfl⟩ := hm.text
  have hu := not_mem_of_space_or_tab hu
  have hbase := not_mem_of_space_or_tab hbase
  have hhead : Firm (trimRight m.head) := firm_trimRight (hold.of_isInfix List.infix_append_left)
  have hbody : Firm out := by
    refine Hash.firm_layout (hold.of_isInfix ?_) (by simp [hbase, hu]) hout
    exact List.infix_append_of_infix_right (List.infix_append_of_infix_right List.infix_append_left)
  have hclose : '\r' ∉ m.close := by
    rcases hm.close with hc | hc <;> (rw [hc]; decide)
  constructor
  · have hopen : Firm ("|merge(".toList ++ ['{', '\n']) := firm_of_not_mem (by decide)
    have hend : Firm ('\n' :: (base ++ (style.indentUnit ++ (['}', ')', ' '] ++ m.close)))) :=
      firm_of_not_mem (by simp [hbase, hu, hclose])
    have hall := hhead.append (hopen.append (hbody.append hend))
    rw [← hnew]
    simpa using hall
  · obtain ⟨x, y, z, he, _⟩ := hspelled.braces
    exact ⟨'{', _, he, by decide⟩

/-- Laying out merge statements keeps the line terminator. -/
theorem newlineOf_layout (hb : style.block = .block)
    (hu : ∀ c ∈ style.indentUnit, c = ' ' ∨ c = '\t') (s : Text) :
    newlineOf (layout style (newlineOf s) s).1 = newlineOf s := by
  have hpieces : (scan (Statement.read style.block) s).flatMap Piece.text = s :=
    flatMap_text_scan _ s
  rw [layout, layoutPieces_flatMap]
  by_cases hs : Bare s
  · rw [newlineOf_of_bare hs]
    refine newlineOf_of_bare (bare_replacePieces (fun g hg new hnew hold => ?_)
      (hpieces.symm ▸ hs)).1
    obtain ⟨last, rest, hr⟩ :=
      read_of_mem_scanFrom (Statement.read_consumes style.block) (mem_of_mem_locate hg)
    exact Statement.firm_layout hu (indentation_all _) (.of_read hb hr) hold hnew
  · rw [newlineOf_of_not_bare hs]
    refine newlineOf_of_not_bare (not_bare_replacePieces (fun g _ new hnew => ?_)
      (hpieces.symm ▸ hs))
    obtain ⟨out, _, rfl⟩ := Option.map_eq_some_iff.mp hnew
    have h := not_bare_append_crlf_append (trimRight g.value.head ++ ("|merge(".toList ++ ['{']))
      (out ++ (['\r', '\n'] ++ (indentationAt s g.start ++ (style.indentUnit ++
        (['}', ')', ' '] ++ g.value.close)))))
    simpa using h

end Merge

/-! ## Route calls -/

namespace Route

variable {style : Style} {reference : Text}

theorem Call.firm_layout (hu : ∀ c ∈ style.indentUnit, c = ' ' ∨ c = '\t')
    (href : ∀ c ∈ reference, c = ' ' ∨ c = '\t') {c : Call} {old new : Text}
    (hword : c.function ≠ [] ∧ ∀ d ∈ c.function, isWord d = true) (hc : c.Spelled old)
    (hold : Bare old) (h : c.layout style ['\n'] reference = some new) :
    Firm new ∧ ∃ d t, new = d :: t ∧ d ≠ '\n' := by
  obtain ⟨out, hout, hnew⟩ := Option.map_eq_some_iff.mp h
  obtain ⟨q, name, hq, _, hroute⟩ := hc.route
  obtain ⟨gap, gap', gap'', gap₃, _, _, _, _, rfl⟩ := hc.text
  obtain ⟨d, function, hfunction⟩ := List.exists_cons_of_ne_nil hword.1
  have hu := not_mem_of_space_or_tab hu
  have href := not_mem_of_space_or_tab href
  have hopen : Firm (c.function ++ ['(']) := by
    refine firm_of_not_mem fun hm => ?_
    rcases List.mem_append.mp hm with hm | hm
    · exact absurd (hword.2 _ hm) (by decide)
    · exact absurd hm (by decide)
  have hroute' : Firm c.route := by
    refine firm_iff.mpr ⟨hold.of_isInfix ⟨c.function ++ '(' :: gap,
      gap' ++ ',' :: (gap'' ++ '{' :: (c.body ++ '}' :: (gap₃ ++ [')']))), by simp⟩, ?_⟩
    rw [hroute, List.getLast?_concat]
    rintro ⟨⟩
    exact absurd hq (by decide)
  have hbody : Firm out := Hash.firm_layout (hold.of_isInfix
    ⟨c.function ++ '(' :: (gap ++ (c.route ++ (gap' ++ ',' :: (gap'' ++ ['{'])))),
      '}' :: (gap₃ ++ [')']), by simp⟩) (by simp [href, hu]) hout
  constructor
  · have hbrace : Firm [',', ' ', '{', '\n'] := firm_of_not_mem (by decide)
    have hend : Firm ('\n' :: (reference ++ ['}', ')'])) := firm_of_not_mem (by simp [href])
    have hall := hopen.append (hroute'.append (hbrace.append (hbody.append hend)))
    rw [← hnew]
    simpa using hall
  · rw [← hnew, hfunction]
    refine ⟨d, _, rfl, ?_⟩
    rintro rfl
    exact absurd (hword.2 '\n' (by simp [hfunction])) (by decide)

/-- Laying out route calls keeps the line terminator. -/
theorem newlineOf_layout (hf : AreNames style.functions)
    (hu : ∀ c ∈ style.indentUnit, c = ' ' ∨ c = '\t') (s : Text) :
    newlineOf (layout style (newlineOf s) s) = newlineOf s := by
  have hpieces : (scan (Call.read style.functions) s).flatMap Piece.text = s :=
    flatMap_text_scan _ s
  rw [layout_eq_replacePieces]
  by_cases hs : Bare s
  · rw [newlineOf_of_bare hs]
    refine newlineOf_of_bare (bare_replacePieces (fun g hg new hnew hold => ?_)
      (hpieces.symm ▸ hs)).1
    obtain ⟨hm, ht⟩ := spelled_of_mem_locate hf.areWords hg
    obtain ⟨e, hedit, rfl⟩ := Option.map_eq_some_iff.mp hnew
    obtain ⟨_, _, k, hnew⟩ := editOf_eq_some hedit
    exact Call.firm_layout hu (indentation_all _) (hf _ hm) ht hold hnew
  · rw [newlineOf_of_not_bare hs]
    refine newlineOf_of_not_bare (not_bare_replacePieces (fun g _ new hnew => ?_)
      (hpieces.symm ▸ hs))
    obtain ⟨e, hedit, rfl⟩ := Option.map_eq_some_iff.mp hnew
    obtain ⟨_, _, k, hnew⟩ := editOf_eq_some hedit
    obtain ⟨out, _, hnew⟩ := Option.map_eq_some_iff.mp hnew
    have h := not_bare_append_crlf_append
      (g.value.function ++ '(' :: (g.value.route ++ [',', ' ', '{']))
      (out ++ (['\r', '\n'] ++ (indentationAt s k ++ ['}', ')'])))
    rw [← hnew]
    simpa using h

end Route

/-! ## Component tags -/

section Lines

/-- Lines are put together without a carriage return before a line feed if no line ends in one,
except for the last. -/
theorem bare_intercalate_iff {lines : List Text} (h : ∀ l ∈ lines, '\n' ∉ l) :
    Bare (['\n'].intercalate lines) ↔ lines.IsChain fun l _ => l.getLast? ≠ some '\r' := by
  induction lines with
  | nil => simp [Bare]
  | cons l lines ih =>
    obtain ⟨hl, hlines⟩ := List.forall_mem_cons.mp h
    cases lines with
    | nil =>
      rw [List.intercalate_singleton]
      exact iff_of_true (bare_of_not_mem hl) (List.isChain_singleton l)
    | cons l' lines =>
      rw [List.intercalate_cons_cons, bare_append_iff, ih hlines, List.isChain_cons_cons]
      have hfirm := firm_iff (s := l)
      unfold Firm at hfirm
      simp [hfirm, bare_of_not_mem hl]

theorem getLast?_append_ne {a b : Text} {c : Char} (ha : a.getLast? ≠ some c)
    (hb : b.getLast? ≠ some c) : (a ++ b).getLast? ≠ some c := by
  rw [List.getLast?_append]
  cases h : b.getLast? with
  | none => exact ha
  | some d =>
    rw [h] at hb
    exact hb

theorem getLast?_ne_of_not_mem {a : Text} {c : Char} (h : c ∉ a) : a.getLast? ≠ some c :=
  fun hl => h (List.mem_of_getLast? hl)

theorem getLast?_ne_of_isSuffix {a b : Text} {c : Char} (h : a <:+ b) (hb : b.getLast? ≠ some c) :
    a.getLast? ≠ some c := by
  obtain ⟨u, rfl⟩ := h
  intro ha
  rw [List.getLast?_append, ha] at hb
  exact hb rfl

end Lines

namespace Component

variable {style : Style}

/-- An attribute ends in a character of its name, in a quote or in a collapsed expression. -/
theorem getLast?_normalize {marks : Marks} (hm : IsPlain marks) {s rest : Text} {a b : Attribute}
    (h : readAttribute marks s = some (a, rest)) (hn : a.normalize marks = .ok b) :
    b.render.getLast? ≠ some '\r' := by
  obtain ⟨name, value⟩ := a
  obtain ⟨⟨_, hchars⟩, _, hvalue⟩ := readAttribute_cases h
  have hname : '\r' ∉ name := fun hmem => absurd (hchars _ hmem) (by decide)
  cases value with
  | none =>
    cases hn
    exact getLast?_ne_of_not_mem hname
  | some v =>
    obtain ⟨new, hnew, hb⟩ := bind_eq_ok.mp hn
    cases hb
    obtain ⟨s', hv⟩ := hvalue v rfl
    have hlast : new.getLast? ≠ some '\r' := by
      rcases normalizeValue_cases (isValue_of_readValue hm hv) hnew with
        ⟨hocc, rfl⟩ | ⟨q, c, hq, _, rfl⟩ | rfl
      · -- only a value in quotes holds no opening marker
        obtain ⟨_, ⟨q, c, hq, rfl⟩ | hopening⟩ := readValue_cases hv
        · rw [← List.cons_append, List.getLast?_concat]
          rintro ⟨⟩
          exact absurd hq (by decide)
        · rw [occursIn_iff.mpr hopening.isInfix] at hocc
          cases hocc
      · rw [← List.cons_append, List.getLast?_concat]
        rintro ⟨⟩
        exact absurd hq (by decide)
      · refine getLast?_ne_of_not_mem fun hmem => ?_
        exact absurd (eq_or_of_mem_collapse hmem) (by decide)
    exact getLast?_append_ne (getLast?_ne_of_not_mem hname)
      (getLast?_append_ne (a := ['=']) (by decide) hlast)

theorem getLast?_readAttributes {marks : Marks} (hm : IsPlain marks) {fuel : Nat}
    {s marker rest : Text} {attributes : List Attribute}
    (h : readAttributes marks fuel s = .ok (some (attributes, marker, rest))) :
    ∀ a ∈ attributes, a.render.getLast? ≠ some '\r' := by
  intro b hb
  obtain ⟨a, s', rest', hread, _, hnormal⟩ := (mem_of_readAttributes h).2 b hb
  exact getLast?_normalize hm hread hnormal

/-- No line of a tag ends in a carriage return, if the text of the tag does not. -/
theorem Tag.getLast?_lines (hm : IsPlain style.expression)
    (hu : ∀ c ∈ style.indentUnit, c = ' ' ∨ c = '\t') {indent : Text}
    (hi : ∀ c ∈ indent, c = ' ' ∨ c = '\t') {s : Text} {tag : Tag}
    (h : Tag.read style s = .ok (some tag)) (hs : s.getLast? ≠ some '\r') :
    ∀ l ∈ tag.lines style indent, l.getLast? ≠ some '\r' := by
  have hi := getLast?_ne_of_not_mem (not_mem_of_space_or_tab hi)
  have hu := getLast?_ne_of_not_mem (not_mem_of_space_or_tab hu)
  obtain ⟨_, hend, _⟩ := Tag.parts_of_read h
  obtain ⟨rest, hname, hparts⟩ := Tag.exists_of_read h
  obtain ⟨hne, hname⟩ := name_of_readName hname
  intro l hl
  rcases List.mem_append.mp hl with hl | hl
  · rcases List.mem_cons.mp hl with rfl | hl
    · rw [List.getLast?_append_of_ne_nil _ hne]
      exact getLast?_ne_of_not_mem fun hmem => absurd (hname _ hmem) (by decide)
    · obtain ⟨a, ha, rfl⟩ := List.mem_map.mp hl
      exact getLast?_append_ne (getLast?_append_ne hi hu)
        (getLast?_readAttributes hm hparts a ha)
  · rw [List.mem_singleton.mp hl, List.append_assoc]
    exact getLast?_append_ne hi (getLast?_ne_of_isSuffix hend hs)

/-- A span ends with a line on which there is more than white space. -/
theorem getLast?_joined {lines span : List Text} (h : spanOf lines = some span) :
    (joined span).getLast? ≠ some '\r' := by
  obtain ⟨before, line, rfl, _, hcloses, _⟩ := spanOf_eq_some h
  have hline : ¬ Blank line := by
    intro hb
    rw [closes, Bool.or_eq_true, occursIn_iff, trimRight_of_blank hb] at hcloses
    rcases hcloses with hi | he
    · exact absurd (hb '/' (hi.subset (by simp))) (by decide)
    · exact absurd he (by decide)
  obtain ⟨u, c, hu, hc⟩ := exists_joined_concat before hline
  rw [hu, List.getLast?_concat]
  rintro ⟨⟩
  exact absurd hc (by decide)

/-- What a span that is laid out comes to: lines without a line feed, none of which ends in a
carriage return. -/
theorem lineEnds_layoutSpan (hm : IsPlain style.expression)
    (hu : ∀ c ∈ style.indentUnit, c = ' ' ∨ c = '\t') {indent : Text}
    (hi : ∀ c ∈ indent, c = ' ' ∨ c = '\t') {lines span new : List Text}
    (hs : spanOf lines = some span) (hspan : ∀ l ∈ span, '\n' ∉ l)
    (h : layoutSpan style indent span = .ok (some new)) :
    ∀ l ∈ new, '\n' ∉ l ∧ l.getLast? ≠ some '\r' := by
  have houtside : Outside (· == '\n') := forall_of_any (by decide)
  have hfeed : ∀ {t : Text}, (∀ c ∈ t, c = ' ' ∨ c = '\t') → ∀ c ∈ t, (c == '\n') = false := by
    intro t ht c hc
    rcases ht c hc with rfl | rfl <;> decide
  have hruns := runsIn_layoutSpan houtside hm (hfeed hu) (hfeed hi)
    (fun l hl => .of_isInfix (List.infix_of_mem_flatten hl)) h
  intro l hl
  constructor
  · intro hmem
    have hone : ['\n'] <:+: span.flatten :=
      hruns l hl ['\n'] (List.forall_mem_singleton.mpr (by decide)) (by
        obtain ⟨a, b, rfl⟩ := List.append_of_mem hmem
        exact ⟨a, b, by simp⟩)
    obtain ⟨m, hm', hmem⟩ := List.mem_flatten.mp (hone.subset (List.mem_singleton.mpr rfl))
    exact hspan m hm' hmem
  · obtain ⟨tag, ht, _, rfl⟩ := exists_tag_of_layoutSpan h
    exact Tag.getLast?_lines hm hu hi ht (getLast?_joined hs) l hl

theorem Blocked.flatMap_lines_eq_nil {parts : List Block} (h : Blocked style [] parts) :
    parts.flatMap Block.lines = [] := by
  cases h
  rfl

/-- The lines of a document and those of its blocks: no line feed comes about on a line, and no
carriage return at the end of a line that another one follows. -/
theorem Blocked.lineEnds (hm : IsPlain style.expression)
    (hu : ∀ c ∈ style.indentUnit, c = ' ' ∨ c = '\t') {lines : List Text} {parts : List Block}
    (h : Blocked style lines parts) (hl : ∀ l ∈ lines, '\n' ∉ l)
    (hc : lines.IsChain fun l _ => l.getLast? ≠ some '\r') :
    (∀ l ∈ parts.flatMap Block.lines, '\n' ∉ l) ∧
      ((parts.flatMap Block.lines).IsChain fun l _ => l.getLast? ≠ some '\r') := by
  -- a span left alone is followed by a line only if it was before
  have hkept : ∀ {span rest : List Text} {parts : List Block}, Blocked style rest parts →
      ((span ++ rest).IsChain fun l _ => l.getLast? ≠ some '\r') →
      ((parts.flatMap Block.lines).IsChain fun l _ => l.getLast? ≠ some '\r') →
      (span ++ parts.flatMap Block.lines).IsChain fun l _ => l.getLast? ≠ some '\r' := by
    intro span rest parts h hc hparts
    obtain ⟨hspan, _, hend⟩ := List.isChain_append.mp hc
    refine List.isChain_append.mpr ⟨hspan, hparts, fun x hx y hy => ?_⟩
    cases rest with
    | nil =>
      rw [h.flatMap_lines_eq_nil] at hy
      cases hy
    | cons l rest => exact hend x hx l rfl
  induction h with
  | nil => exact ⟨hl, hc⟩
  | @line line lines parts _ h ih =>
    obtain ⟨hline, hlines⟩ := List.forall_mem_cons.mp hl
    obtain ⟨hfeed, hreturn⟩ := ih hlines (List.isChain_cons.mp hc).2
    have hchain := hkept h (show List.IsChain _ ([line] ++ lines) from hc) hreturn
    exact ⟨List.forall_mem_cons.mpr ⟨hline, hfeed⟩, hchain⟩
  | @kept line span rest parts _ _ _ h ih =>
    rw [← List.cons_append] at hl hc
    obtain ⟨hspan, hrest⟩ := List.forall_mem_append.mp hl
    obtain ⟨hfeed, hreturn⟩ := ih hrest (List.isChain_append.mp hc).2.1
    exact ⟨List.forall_mem_append.mpr ⟨hspan, hfeed⟩, hkept h hc hreturn⟩
  | @laidOut line span rest new parts _ hs hnew h ih =>
    rw [← List.cons_append] at hl hc
    obtain ⟨hspan, hrest⟩ := List.forall_mem_append.mp hl
    obtain ⟨hfeed, hreturn⟩ := ih hrest (List.isChain_append.mp hc).2.1
    have hlines := lineEnds_layoutSpan hm hu (indentation_all line) hs hspan hnew
    refine ⟨List.forall_mem_append.mpr ⟨fun l hl => (hlines l hl).1, hfeed⟩, ?_⟩
    refine List.isChain_append.mpr ⟨?_, hreturn, fun x hx _ _ =>
      (hlines x (List.mem_of_getLast? hx)).2⟩
    rw [List.isChain_iff_forall_rel_of_append_cons_cons]
    rintro x _ a b rfl
    exact (hlines x (by simp)).2

/-- A document keeps a second line, if it has one. -/
theorem Blocked.two_le_length {lines : List Text} {parts : List Block}
    (h : Blocked style lines parts) :
    min 2 lines.length ≤ (parts.flatMap Block.lines).length := by
  induction h with
  | nil => simp
  | line _ _ ih =>
    simp only [List.flatMap_cons, Block.lines, List.length_append, List.length_cons] at ih ⊢
    omega
  | kept _ _ _ _ ih =>
    simp only [List.flatMap_cons, Block.lines, List.length_append, List.length_cons] at ih ⊢
    omega
  | @laidOut line span rest new parts _ _ hnew _ _ =>
    have hnew : 2 ≤ new.length := by
      obtain ⟨tag, _, _, rfl⟩ := exists_tag_of_layoutSpan hnew
      simp [Tag.lines]
    simp only [List.flatMap_cons, Block.lines, List.length_append]
    omega

theorem infix_intercalate_of_two_le {sep : Text} {lines : List Text} (h : 2 ≤ lines.length) :
    sep <:+: sep.intercalate lines := by
  match lines, h with
  | l :: l' :: lines, _ =>
    rw [List.intercalate_cons_cons]
    exact List.infix_append_of_infix_left List.infix_append_right

/-- Laying out component tags keeps the line terminator. -/
theorem newlineOf_layout (hm : IsPlain style.expression)
    (hu : ∀ c ∈ style.indentUnit, c = ' ' ∨ c = '\t') {s out : Text} {n : Nat}
    (h : layout style (newlineOf s) s = .ok (out, n)) : newlineOf out = newlineOf s := by
  obtain ⟨hnne, parts, hparts, rfl, _⟩ := exists_blocked_of_layout h
  have hs' := intercalate_splitOn hnne s
  by_cases hs : Bare s
  · rw [newlineOf_of_bare hs] at hparts hs' ⊢
    have hlines : ∀ l ∈ splitOn ['\n'] s, '\n' ∉ l := fun _ hl => not_mem_of_mem_splitOn hl
    have hchain := (bare_intercalate_iff hlines).mp (hs'.symm ▸ hs)
    obtain ⟨hfeed, hreturn⟩ := hparts.lineEnds hm hu hlines hchain
    exact newlineOf_of_bare ((bare_intercalate_iff hfeed).mpr hreturn)
  · rw [newlineOf_of_not_bare hs] at hparts hs' ⊢
    have htwo : 2 ≤ (splitOn ['\r', '\n'] s).length :=
      two_le_length_splitOn (by simp) (not_not.mp fun hno => hs (bare_iff.mpr hno))
    have hlen := hparts.two_le_length
    refine newlineOf_of_not_bare fun hbare => bare_iff.mp hbare ?_
    exact infix_intercalate_of_two_le (by omega)

end Component

/-! ## Documents -/

/-- Laying out a document keeps its line terminator. -/
theorem Layout.newlineOf_reflow {layout : Layout} (hl : layout.Standard)
    (hf : Route.AreNames layout.route.functions) {s r : Text}
    (h : (layout.reflow s).result = .ok r) : newlineOf r = newlineOf s := by
  obtain ⟨c, hc, h⟩ := Logged.result_bind_eq_ok.mp h
  obtain ⟨m, hm, h⟩ := Logged.result_bind_eq_ok.mp h
  obtain ⟨⟨c', n⟩, hc, hr⟩ := Logged.result_bind_eq_ok.mp hc
  cases hr
  cases hm
  cases h
  have h₁ := Component.newlineOf_layout hl.isPlain (fun d hd => .inl (hl.componentUnit d hd)) hc
  have h₂ := Merge.newlineOf_layout hl.block (fun d hd => .inl (hl.mergeUnit d hd)) c
  rw [h₁] at h₂
  have h₃ := Route.newlineOf_layout hf (fun d hd => .inl (hl.routeUnit d hd))
    (Merge.layout layout.merge (newlineOf s) c).1
  rw [h₂] at h₃
  exact h₃

end TwigLayout
