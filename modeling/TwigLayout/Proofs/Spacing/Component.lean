import TwigLayout.Proofs.Reflow.Component
import TwigLayout.Proofs.Spacing.Basic

/-!
# Spacing of component tags

Laying out component tags never fails with the markers around expressions (`exists_layout_eq_ok`),
and respaces the document with a line end behind it (`respaced_layout`). The white space that is
trimmed at the end of the last line is part of that gap. A tag is first put on one line and then
taken apart again, which are two changes of spacing.
-/

namespace TwigLayout.Component

open Text Spacing

/-! ## Words -/

theorem words_nil : words [] = [] := rfl

theorem words_append_cons (a b : Text) {c : Char} (hc : isBlank c = true) :
    words (a ++ c :: b) = words a ++ words b := by
  rw [words, List.splitOnP_append_cons a b hc, List.filter_append]
  rfl

theorem words_append_of_blank {a : Text} (ha : Blank a) (b : Text) : words (a ++ b) = words b := by
  induction a with
  | nil => rfl
  | cons c a ih =>
    have hc : isBlank c = true := ha c List.mem_cons_self
    have h := words_append_cons [] (a ++ b) hc
    rw [words_nil, List.nil_append, List.nil_append] at h
    rw [List.cons_append, h, ih fun d hd => ha d (List.mem_cons_of_mem _ hd)]

theorem words_of_blank {b : Text} (hb : Blank b) : words b = [] := by
  have h := words_append_of_blank hb []
  rwa [List.append_nil] at h

theorem words_of_forall {w : Text} (hne : w ≠ []) (hw : ∀ c ∈ w, isBlank c = false) :
    words w = [w] := by
  rw [words, List.splitOnP_eq_singleton hw, List.filter_cons_of_pos (by simpa using hne)]
  rfl

/-- A text is blank, or white space, a word and the rest, which the word does not reach into. -/
theorem blank_or_exists_word (b : Text) : Blank b ∨ ∃ a w rest, Blank a ∧ w ≠ [] ∧
    (∀ c ∈ w, isBlank c = false) ∧ b = a ++ (w ++ rest) ∧
      (rest = [] ∨ ∃ c r, rest = c :: r ∧ isBlank c = true) := by
  obtain ⟨a, ha, hb⟩ := exists_blank_append_trimLeft b
  cases hl : trimLeft b with
  | nil =>
    rw [hl, List.append_nil] at hb
    exact .inl (hb ▸ ha)
  | cons d t =>
    have hd := not_isBlank_of_trimLeft hl
    refine .inr ⟨a, (d :: t).takeWhile (!isBlank ·), (d :: t).dropWhile (!isBlank ·), ha, ?_, ?_,
      ?_, ?_⟩
    · rw [List.takeWhile_cons_of_pos (by simp [hd])]
      exact List.cons_ne_nil _ _
    · intro c hc
      have h := List.all_eq_true.mp List.all_takeWhile c hc
      simpa using h
    · rw [List.takeWhile_append_dropWhile, ← hl]
      exact hb
    · have hn := List.head?_dropWhile_not (!isBlank ·) (d :: t)
      cases hrest : (d :: t).dropWhile (!isBlank ·) with
      | nil => exact .inl rfl
      | cons c r =>
        rw [hrest] at hn
        exact .inr ⟨c, r, rfl, by simpa using hn⟩

theorem words_ne_nil {b : Text} (h : ¬ Blank b) : words b ≠ [] := by
  rcases blank_or_exists_word b with hb | ⟨a, w, rest, ha, hw, hall, rfl, hrest⟩
  · exact absurd hb h
  · rw [words_append_of_blank ha]
    rcases hrest with rfl | ⟨c, r, rfl, hc⟩
    · rw [List.append_nil, words_of_forall hw hall]
      exact List.cons_ne_nil _ _
    · rw [words_append_cons w r hc, words_of_forall hw hall]
      exact List.cons_ne_nil _ _

/-! ## Attributes -/

section Values

variable {g n e e' : Text}

/-- Collapsing the white space of a text behind a gap. -/
theorem respaced_collapse (hg : Soft g) (hn : Soft n) (hgne : g ≠ []) (hnne : n ≠ [])
    (hend : ∀ u, Blank u → Respaced (u ++ e) e') (b : Text) :
    Respaced (g ++ (b ++ e)) (n ++ (collapse b ++ e')) := by
  -- by the length of the text: a word, and then the words behind it
  induction hl : b.length using Nat.strongRecOn generalizing b g n with
  | ind k ih =>
    rcases blank_or_exists_word b with hb | ⟨a, w, rest, ha, hw, hall, rfl, hrest⟩
    · rw [collapse, words_of_blank hb]
      exact .gap hg hn hgne hnne (hend b hb)
    have hfront : ∀ {r r' : Text}, Respaced r r' →
        Respaced (g ++ (a ++ (w ++ r))) (n ++ (w ++ r')) := by
      intro r r' h
      rw [← List.append_assoc]
      exact .gap (hg.append (soft_of_blank ha)) hn (by simp [hgne]) hnne (h.append_left w)
    rw [List.append_assoc, List.append_assoc]
    rcases hrest with rfl | ⟨c, r, rfl, hc⟩
    · have hcollapse : collapse (a ++ (w ++ [])) = w := by
        rw [collapse, words_append_of_blank ha, List.append_nil, words_of_forall hw hall,
          List.intercalate_singleton]
      rw [hcollapse]
      exact hfront (hend [] .nil)
    have hwords : words (a ++ (w ++ c :: r)) = w :: words r := by
      rw [words_append_of_blank ha, words_append_cons w r hc, words_of_forall hw hall]
      rfl
    by_cases hr : Blank r
    · have hcollapse : collapse (a ++ (w ++ c :: r)) = w := by
        rw [collapse, hwords, words_of_blank hr, List.intercalate_singleton]
      rw [hcollapse]
      exact hfront (hend (c :: r) (List.forall_mem_cons.mpr ⟨hc, hr⟩))
    · have hcollapse : collapse (a ++ (w ++ c :: r)) = w ++ ' ' :: collapse r := by
        obtain ⟨w', ws, hws⟩ := List.exists_cons_of_ne_nil (words_ne_nil hr)
        rw [collapse, hwords, hws, List.intercalate_cons_cons, ← hws, List.append_assoc]
        rfl
      have hlt : r.length < k := by
        rw [← hl]
        simp only [List.length_append, List.length_cons]
        omega
      have hrest := ih _ hlt (g := [c]) (n := [' ']) (.cons (isSoft_of_isBlank hc) .nil)
        (.of_all (by decide)) (by simp) (by simp) r rfl
      rw [hcollapse, List.append_assoc]
      exact hfront hrest

/-- The value of an attribute, behind its equals sign. -/
theorem respaced_normalizeValue {marks : Marks} {v new : Text} (hv : IsValue v)
    (h : normalizeValue marks v = .ok new) (hend : ∀ u, Blank u → Respaced (u ++ e) e') :
    Respaced ('=' :: (v ++ e)) ('=' :: (new ++ e')) := by
  rcases normalizeValue_cases hv h with ⟨_, rfl⟩ | ⟨q, b, hq, rfl, rfl⟩ | rfl
  · exact ((hend [] .nil).append_left new).append_left ['=']
  · have hquote : Soft [q] := by
      have hq' : q = '\'' ∨ q = '"' := by simpa [isQuote] using hq
      rcases hq' with rfl | rfl <;> exact .of_all (by decide)
    -- white space before the closing quote goes with it
    have hend' : ∀ u, Blank u → Respaced (u ++ (q :: e)) (q :: e') := by
      intro u hu
      rw [List.append_cons]
      exact .gap (k := [q]) ((soft_of_blank hu).append hquote) hquote (by simp) (by simp)
        (hend [] .nil)
    have hbody := (respaced_collapse hquote hquote (by simp) (by simp) hend' b).append_left ['=']
    simpa using hbody
  · have heq : Soft ['='] := .of_all (by decide)
    exact respaced_collapse heq heq (by simp) (by simp) hend v

theorem respaced_normalize {marks : Marks} {a b : Attribute}
    (ha : ∀ v, a.value = some v → IsValue v) (h : a.normalize marks = .ok b)
    (hend : ∀ u, Blank u → Respaced (u ++ e) e') :
    Respaced (a.render ++ e) (b.render ++ e') := by
  obtain ⟨name, value⟩ := a
  cases value with
  | none =>
    cases h
    exact (hend [] .nil).append_left name
  | some v =>
    obtain ⟨new, hn, hb⟩ := bind_eq_ok.mp h
    cases hb
    have hvalue := (respaced_normalizeValue (ha v rfl) hn hend).append_left name
    simpa [Attribute.render] using hvalue

end Values

/-! ## Tags -/

section Tags

variable {style : Style} {indent newline : Text}

theorem exists_soft_of_readMarker {s marker rest : Text} (h : readMarker s = some (marker, rest)) :
    ∃ c t, marker = c :: t ∧ isSoft c = true := by
  rcases marker_of_readMarker h with rfl | rfl
  · exact ⟨'/', ['>'], rfl, by decide⟩
  · exact ⟨'>', [], rfl, by decide⟩

/-- White space that a text starts with. -/
theorem exists_blank_of_head? {s : Text} (h : s.head?.any isBlank = true) :
    ∃ gap, Blank gap ∧ gap ≠ [] ∧ s = gap ++ trimLeft s := by
  obtain ⟨gap, hgap, hs⟩ := exists_blank_append_trimLeft s
  refine ⟨gap, hgap, ?_, hs⟩
  rintro rfl
  cases hs' : s with
  | nil =>
    rw [hs'] at h
    cases h
  | cons c t =>
    rw [hs'] at h hs
    have hc : isBlank c = true := by simpa using h
    rw [not_isBlank_of_trimLeft hs.symm] at hc
    cases hc

/-- The attributes of a tag with what follows them, and the same on lines of their own. -/
theorem respaced_readAttributes {marks : Marks} (hm : IsPlain marks) (hi : Blank indent)
    (hu : Blank style.indentUnit) (hn : Blank newline) (hnne : newline ≠ []) {z : Text} {fuel : Nat}
    {s marker rest : Text} {attributes : List Attribute}
    (h : readAttributes marks fuel s = .ok (some (attributes, marker, rest))) :
    ∀ u, Blank u → Respaced (u ++ (s ++ z))
      ((attributes.flatMap fun a => newline ++ (indent ++ style.indentUnit ++ a.render)) ++
        (newline ++ (indent ++ marker ++ rest) ++ z)) := by
  induction fuel generalizing s attributes with
  | zero => cases h
  | succ fuel ih =>
    intro u hblank
    obtain ⟨hmarker, rfl⟩ | ⟨first, first', others, rest', hfirst, hhead, hnormal, hmore, rfl⟩ :=
      readAttributes_succ_eq_ok h
    · obtain ⟨gap, hgap, hs⟩ := exists_blank_append_trimLeft s
      obtain ⟨c, t, rfl, hc⟩ := exists_soft_of_readMarker hmarker
      have hsoft : Soft [c] := .cons hc .nil
      have hgap' : Respaced (u ++ gap ++ [c] ++ (t ++ (rest ++ z)))
          (newline ++ indent ++ [c] ++ (t ++ (rest ++ z))) :=
        .gap ((soft_of_blank (hblank.append hgap)).append hsoft)
          ((soft_of_blank (hn.append hi)).append hsoft) (by simp) (by simp) (.refl _)
      rw [hs, readMarker_eq_some hmarker]
      simpa using hgap'
    · obtain ⟨hfirst, hvalue⟩ := readAttribute_eq_some hm hfirst
      obtain ⟨gap, hgap, hgapne, hs⟩ := exists_blank_of_head? hhead
      have hattribute := (respaced_normalize hvalue hnormal (ih hmore)).gap
        (soft_of_blank (hblank.append hgap)) (soft_of_blank ((hn.append hi).append hu))
        (by simp [hgapne]) (by simp [hnne])
      rw [hs, hfirst]
      simpa using hattribute

theorem append_flatMap_append (newline : Text) (lines : List Text) :
    newline ++ (lines.flatMap (· ++ newline)) = lines.flatMap (newline ++ ·) ++ newline := by
  induction lines with
  | nil => simp
  | cons l lines ih =>
    rw [List.flatMap_cons, List.flatMap_cons, List.append_assoc, List.append_assoc, ih]
    simp only [List.append_assoc]

/-- A tag on one line, and its lines. -/
theorem respaced_lines (hm : IsPlain style.expression) (hi : Blank indent)
    (hu : Blank style.indentUnit) (hn : Blank newline) (hnne : newline ≠ []) {s : Text} {tag : Tag}
    (h : Tag.read style s = .ok (some tag)) :
    Respaced (indent ++ (s ++ newline)) ((tag.lines style indent).flatMap (· ++ newline)) := by
  obtain ⟨rest, hname, hp⟩ := Tag.exists_of_read h
  obtain ⟨name, attributes, marker, rest'⟩ := tag
  have hattributes := (respaced_readAttributes (z := newline) hm hi hu hn hnne hp [] .nil
    ).append_left (indent ++ style.tagOpen ++ name)
  have htag : (Tag.lines style indent ⟨name, attributes, marker, rest'⟩).flatMap
      (· ++ newline) = indent ++ style.tagOpen ++ name ++
        ((attributes.map fun a => indent ++ style.indentUnit ++ a.render).flatMap
          (newline ++ ·) ++ newline ++ (indent ++ marker ++ rest' ++ newline)) := by
    rw [← append_flatMap_append]
    simp [Tag.lines]
  rw [readName_eq_some hname, htag, List.flatMap_map]
  simpa using hattributes

/-! ## Spans -/

/-- The text of lines put on one line ends as their last line does. -/
theorem exists_joined_concat (before : List Text) {line : Text} (h : ¬ Blank line) :
    ∃ t c, joined (before ++ [line]) = t ++ [c] ∧ isBlank c = false := by
  have htrim : IsTrim (trim line) :=
    (trim_eq_nil_or_isTrim line).resolve_left fun hnil => h (trim_eq_nil_iff.mp hnil)
  obtain ⟨u, c, hu, hc⟩ := htrim.last
  have hsuffix : trim line <:+ joined (before ++ [line]) := by
    rw [joined, List.map_append]
    exact suffix_intercalate_concat [' '] (before.map trim) (trim line)
  obtain ⟨v, hv⟩ := hsuffix
  exact ⟨v ++ u, c, by rw [← hv, hu, List.append_assoc], hc⟩

/-- Lines behind a gap, and the same on one line. -/
theorem respaced_flatMap_trim (hn : Blank newline) (hnne : newline ≠ []) {g : Text} (hg : Soft g)
    (hgne : g ≠ []) (lines : List Text) :
    Respaced (g ++ lines.flatMap (· ++ newline))
      ((lines.map trim).flatMap ([' '] ++ ·) ++ newline) := by
  induction lines generalizing g with
  | nil =>
    have h := (Respaced.refl []).gap hg (soft_of_blank hn) hgne hnne
    simpa using h
  | cons l lines ih =>
    obtain ⟨a, b, ha, hb, hl⟩ := exists_append_trim_append l
    have hrest := ih ((soft_of_blank hb).append (soft_of_blank hn)) (by simp [hnne])
    have hline := (hrest.append_left (trim l)).gap (k := [' ']) (hg.append (soft_of_blank ha))
      (.of_all (by decide)) (by simp [hgne]) (by simp)
    have htext : g ++ (l :: lines).flatMap (· ++ newline) =
        g ++ a ++ (trim l ++ (b ++ newline ++ lines.flatMap (· ++ newline))) := by
      rw [List.flatMap_cons]
      conv => lhs; rw [hl]
      simp only [List.append_assoc]
    rw [htext]
    simpa using hline

/-- The lines of a span put on one line. -/
theorem respaced_joined (hi : Blank indent) (hn : Blank newline) (hnne : newline ≠ [])
    {line : Text} (hopens : style.opens line = true) (lines : List Text) :
    Respaced ((line :: lines).flatMap (· ++ newline))
      (indent ++ (joined (line :: lines) ++ newline)) := by
  obtain ⟨x, hx⟩ : ∃ x, trim line = '<' :: x := by
    rw [Style.opens, Bool.and_eq_true, startsWith_iff] at hopens
    obtain ⟨x, hx⟩ := hopens.1
    exact ⟨style.space ++ x, hx.symm⟩
  obtain ⟨a, b, ha, hb, hline⟩ := exists_append_trim_append line
  have hbracket : Soft ['<'] := .of_all (by decide)
  have hrest := respaced_flatMap_trim hn hnne ((soft_of_blank hb).append (soft_of_blank hn))
    (by simp [hnne]) lines
  have hall := (hrest.append_left x).gap ((soft_of_blank ha).append hbracket)
    ((soft_of_blank hi).append hbracket) (by simp) (by simp)
  have htext : (line :: lines).flatMap (· ++ newline) =
      a ++ ['<'] ++ (x ++ (b ++ newline ++ lines.flatMap (· ++ newline))) := by
    rw [List.flatMap_cons]
    conv => lhs; rw [hline]
    rw [hx]
    simp only [List.append_assoc, List.cons_append, List.nil_append]
  have hjoined : joined (line :: lines) =
      '<' :: x ++ (lines.map trim).flatMap ([' '] ++ ·) := by
    rw [joined, List.map_cons, intercalate_cons_eq_flatMap, hx]
  rw [htext, hjoined]
  simpa using hall

theorem respaced_layoutSpan (hm : IsPlain style.expression) (hi : Blank indent)
    (hu : Blank style.indentUnit) (hn : Blank newline) (hnne : newline ≠ []) {line : Text}
    (hopens : style.opens line = true) {lines new : List Text}
    (h : layoutSpan style indent (line :: lines) = .ok (some new)) :
    Respaced ((line :: lines).flatMap (· ++ newline)) (new.flatMap (· ++ newline)) := by
  obtain ⟨tag, ht, _, rfl⟩ := exists_tag_of_layoutSpan h
  exact (respaced_joined hi hn hnne hopens lines).trans (respaced_lines hm hi hu hn hnne ht)

end Tags

/-! ## Documents -/

section Documents

variable {style : Style} {newline : Text}

theorem Blocked.respaced (hm : IsPlain style.expression) (hu : Blank style.indentUnit)
    (hn : Blank newline) (hnne : newline ≠ []) {lines : List Text} {parts : List Block}
    (h : Blocked style lines parts) :
    Respaced (lines.flatMap (· ++ newline))
      ((parts.flatMap Block.lines).flatMap (· ++ newline)) := by
  induction h with
  | nil => exact .refl []
  | @line line _ _ _ _ ih => exact ih.append_left (line ++ newline)
  | @kept line span _ _ _ _ _ _ ih =>
    have hkept := ih.append_left ((line :: span).flatMap (· ++ newline))
    simpa [Block.lines] using hkept
  | @laidOut line _ _ _ _ hopens _ hnew _ ih =>
    have hspan := (respaced_layoutSpan hm (blank_indentation line) hu hn hnne hopens hnew).append ih
    simpa [Block.lines] using hspan

theorem intercalate_append_self (newline : Text) {lines : List Text} (hne : lines ≠ []) :
    newline.intercalate lines ++ newline = lines.flatMap (· ++ newline) := by
  obtain ⟨l, lines, rfl⟩ := List.exists_cons_of_ne_nil hne
  rw [intercalate_cons_eq_flatMap, List.append_assoc, ← append_flatMap_append]
  simp

/-- Laying out component tags respaces the document with a line end behind it. -/
theorem respaced_layout (hm : IsPlain style.expression) (hu : Blank style.indentUnit)
    (hn : Blank newline) {s out : Text} {n : Nat} (h : layout style newline s = .ok (out, n)) :
    Respaced (s ++ newline) (out ++ newline) := by
  obtain ⟨hnne, parts, hp, rfl, _⟩ := exists_blocked_of_layout h
  have hlines : splitOn newline s ≠ [] := fields_ne_nil _
  have hall := hp.respaced hm hu hn hnne
  rw [← intercalate_append_self newline hlines, intercalate_splitOn hnne] at hall
  have hparts : parts.flatMap Block.lines ≠ [] := by
    intro hnil
    rw [hnil] at hall
    exact hall.ne_nil (by simp [hnne]) rfl
  rwa [intercalate_append_self newline hparts]

/-! ## Faults -/

/-- Values are normalized without a fault, since the empty one has no marker. -/
theorem exists_normalizeValue_eq_ok {marks : Marks} (ho : marks.opening ≠ []) (v : Text) :
    ∃ new, normalizeValue marks v = .ok new := by
  rw [normalizeValue.eq_def]
  split
  · next hocc =>
    cases v with
    | nil => exact absurd (List.infix_nil.mp (occursIn_iff.mp hocc)) ho
    | cons d s =>
      dsimp only
      split
      · exact ⟨_, rfl⟩
      · exact ⟨_, rfl⟩
  · exact ⟨v, rfl⟩

theorem exists_normalize_eq_ok {marks : Marks} (ho : marks.opening ≠ []) (a : Attribute) :
    ∃ b, a.normalize marks = .ok b := by
  obtain ⟨name, value⟩ := a
  cases value with
  | none => exact ⟨_, rfl⟩
  | some v =>
    obtain ⟨new, hnew⟩ := exists_normalizeValue_eq_ok ho v
    exact ⟨_, bind_eq_ok.mpr ⟨new, hnew, rfl⟩⟩

theorem exists_readAttributes_eq_ok {marks : Marks} (ho : marks.opening ≠ []) (fuel : Nat)
    (s : Text) : ∃ parts, readAttributes marks fuel s = .ok parts := by
  induction fuel generalizing s with
  | zero => exact ⟨none, rfl⟩
  | succ fuel ih =>
    rw [readAttributes]
    dsimp only
    split
    · exact ⟨_, rfl⟩
    · split
      · exact ⟨_, rfl⟩
      · next first rest _ =>
        split
        · obtain ⟨b, hb⟩ := exists_normalize_eq_ok ho first
          obtain ⟨more, hmore⟩ := ih rest
          exact ⟨_, bind_eq_ok.mpr ⟨b, hb, bind_eq_ok.mpr ⟨more, hmore, rfl⟩⟩⟩
        · exact ⟨_, rfl⟩

theorem exists_layoutSpan_eq_ok (ho : style.expression.opening ≠ []) (indent : Text)
    (span : List Text) : ∃ new, layoutSpan style indent span = .ok new := by
  obtain ⟨tag?, ht⟩ : ∃ tag?, Tag.read style (joined span) = .ok tag? := by
    rw [Tag.read.eq_def]
    split
    · exact ⟨none, rfl⟩
    · next name rest _ =>
      obtain ⟨parts, hp⟩ := exists_readAttributes_eq_ok ho (rest.length + 1) rest
      exact ⟨_, bind_eq_ok.mpr ⟨parts, hp, rfl⟩⟩
  exact ⟨_, bind_eq_ok.mpr ⟨tag?, ht, rfl⟩⟩

theorem exists_blocksFrom_eq_ok (ho : style.expression.opening ≠ []) (skip : Nat)
    (lines : List Text) : ∃ parts, blocksFrom style skip lines = .ok parts := by
  induction lines generalizing skip with
  | nil => cases skip <;> exact ⟨[], rfl⟩
  | cons line lines ih =>
    cases skip with
    | succ skip => exact ih skip
    | zero =>
      rw [blocksFrom]
      split
      · obtain ⟨more, hmore⟩ := ih 0
        exact ⟨_, bind_eq_ok.mpr ⟨more, hmore, rfl⟩⟩
      · next span _ =>
        obtain ⟨new, hnew⟩ := exists_layoutSpan_eq_ok ho (indentation line) span
        obtain ⟨more, hmore⟩ := ih (span.length - 1)
        cases new with
        | none => exact ⟨_, bind_eq_ok.mpr ⟨none, hnew, bind_eq_ok.mpr ⟨more, hmore, rfl⟩⟩⟩
        | some new => exact ⟨_, bind_eq_ok.mpr ⟨some new, hnew, bind_eq_ok.mpr ⟨more, hmore, rfl⟩⟩⟩

/-- Laying out component tags never fails. -/
theorem exists_layout_eq_ok (ho : style.expression.opening ≠ []) (hnne : newline ≠ []) (s : Text) :
    ∃ out n, layout style newline s = .ok (out, n) := by
  obtain ⟨parts, hp⟩ := exists_blocksFrom_eq_ok ho 0 (splitOn newline s)
  refine ⟨newline.intercalate (parts.flatMap Block.lines), parts.countP Block.isLaidOut, ?_⟩
  rw [layout, if_neg (by simpa using hnne)]
  exact bind_eq_ok.mpr ⟨parts, hp, rfl⟩

end Documents

end TwigLayout.Component
