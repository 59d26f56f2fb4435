import TwigLayout.Proofs.Spacing.Component
import TwigLayout.Proofs.Terminator.Text

/-!
# The tag of lines that were laid out

Reading normalises the values of a tag, and laying out puts the parts that were read on lines of
their own. So what is on the lines has to be read in the same way a second time, at the same
boundaries (`read_of_layoutSpan`).

1. `collapse_collapse` and `exists_collapse_eq`: an expression whose white space was collapsed is
   collapsed already, and its closing marker is still the first one.
2. `IsSettled`: a value that is read as it is, whatever follows it. Every value of a tag is one
   (`isSettled_of_readValue`).
3. `readAttributes_flatMap`: attributes with such values, one behind the other.
4. `Tag.joined_lines`: the lines of a tag put on one line are its parts with a space between them.
-/

namespace TwigLayout.Component

open Text Placeholder

/-! ## Collapsed texts -/

theorem mem_words {s w : Text} (h : w ∈ words s) : w ≠ [] ∧ Compact w := by
  obtain ⟨hm, hne⟩ := List.mem_filter.mp h
  exact ⟨by simpa using hne, not_of_mem_splitOnP hm⟩

theorem words_intercalate {ws : List Text} (h : ∀ w ∈ ws, w ≠ [] ∧ Compact w) :
    words ([' '].intercalate ws) = ws := by
  induction ws with
  | nil => rfl
  | cons w ws ih =>
    obtain ⟨⟨hne, hw⟩, hws⟩ := List.forall_mem_cons.mp h
    cases ws with
    | nil => rw [List.intercalate_singleton, words_of_forall hne hw]
    | cons w' ws =>
      rw [List.intercalate_cons_cons, List.append_assoc, List.singleton_append,
        words_append_cons w _ (by decide), words_of_forall hne hw, ih hws]
      rfl

/-- There is nothing to collapse in a collapsed text. -/
theorem collapse_collapse (s : Text) : collapse (collapse s) = collapse s := by
  unfold collapse
  rw [words_intercalate fun w hw => mem_words hw]

/-- A word and white space in front of a text. -/
theorem collapse_append_cons {w t : Text} {c : Char} (hne : w ≠ []) (hw : Compact w)
    (hc : isBlank c = true) (ht : ¬ Blank t) :
    collapse (w ++ c :: t) = w ++ ' ' :: collapse t := by
  obtain ⟨w', ws, hws⟩ := List.exists_cons_of_ne_nil (words_ne_nil ht)
  unfold collapse
  rw [words_append_cons w t hc, words_of_forall hne hw, hws, List.singleton_append,
    List.intercalate_cons_cons, List.append_assoc]
  rfl

theorem collapse_of_compact {w : Text} (hw : Compact w) : collapse w = w := by
  by_cases hne : w = []
  · rw [hne]
    rfl
  · rw [collapse, words_of_forall hne hw, List.intercalate_singleton]

/-- Collapsing the white space before a marker leaves the marker at the end, and brings none about
before it. -/
theorem exists_collapse_eq {closing : Text} (hne : closing ≠ []) (hc : Compact closing)
    (opening : Text) (ho : Compact opening) {body : Text}
    (h : ¬ closing <:+: body ++ closing.dropLast) :
    ∃ body', collapse (opening ++ (body ++ closing)) = opening ++ (body' ++ closing) ∧
      ¬ closing <:+: body' ++ closing.dropLast := by
  -- by the length of the body: the word that the opening is part of, and then what follows it
  induction hl : body.length using Nat.strongRecOn generalizing opening body with
  | ind n ih =>
    obtain hbody | ⟨w, c, rest, rfl, hw, hblank⟩ :=
      forall_or_exists_first (isBlank · = false) body
    · refine ⟨body, collapse_of_compact ?_, h⟩
      exact List.forall_mem_append.mpr ⟨ho, List.forall_mem_append.mpr ⟨hbody, hc⟩⟩
    · have hblank : isBlank c = true := by simpa using hblank
      have hlt : rest.length < n := by
        rw [← hl, List.length_append, List.length_cons]
        omega
      have hrest : ¬ closing <:+: rest ++ closing.dropLast := by
        intro hi
        refine h (hi.trans ?_)
        rw [List.append_assoc, List.cons_append]
        exact ((List.suffix_cons c _).trans (List.suffix_append w _)).isInfix
      obtain ⟨body', heq, hbody'⟩ := ih _ hlt [] (by simp [Compact]) hrest rfl
      rw [List.nil_append, List.nil_append] at heq
      have htext : opening ++ (w ++ c :: rest ++ closing) =
          opening ++ w ++ c :: (rest ++ closing) := by simp
      rw [htext]
      by_cases hnil : opening ++ w = []
      · obtain ⟨rfl, rfl⟩ := List.append_eq_nil_iff.mp hnil
        refine ⟨body', ?_, hbody'⟩
        rw [collapse, words_append_cons _ _ hblank, ← heq]
        rfl
      · have hword : Compact (opening ++ w) := List.forall_mem_append.mpr ⟨ho, hw⟩
        have hnb : ¬ Blank (rest ++ closing) := by
          intro hb
          obtain ⟨d, t, rfl⟩ := List.exists_cons_of_ne_nil hne
          have hd : isBlank d = true := hb d (by simp)
          rw [hc d List.mem_cons_self] at hd
          cases hd
        refine ⟨w ++ ' ' :: body', ?_, fun hi => ?_⟩
        · rw [collapse_append_cons hnil hword hblank hnb, heq]
          simp
        · rw [List.append_assoc, List.cons_append] at hi
          rcases (infix_append_cons_iff (hc.not_mem (by decide))).mp hi with hi | hi
          · refine h (hi.trans ?_)
            rw [List.append_assoc]
            exact List.infix_append_left
          · exact hbody' hi

/-! ## Values -/

/-- The markers around an expression have no white space, and the opening one starts with no
quote. -/
structure IsTight (marks : Marks) : Prop where
  plain : IsPlain marks
  opening : Compact marks.opening
  closing_ne_nil : marks.closing ≠ []
  closing : Compact marks.closing

theorem isTight_default : IsTight Style.default.expression :=
  ⟨⟨'{', ['{'], rfl, by decide⟩, forall_of_all (by decide), by decide, forall_of_all (by decide)⟩

/-- A value that is read as it is, whatever follows it, and does not end with white space. -/
structure IsSettled (marks : Marks) (v : Text) : Prop where
  read : ∀ rest, readValue marks (v ++ rest) = some (v, rest)
  normal : normalizeValue marks v = .ok v
  last : ∃ t c, v = t ++ [c] ∧ isBlank c = false

variable {marks : Marks}

theorem readQuoted_append {q : Char} {b : Text} (hb : q ∉ b) (rest : Text) :
    readQuoted q (q :: (b ++ [q]) ++ rest) = some (q :: (b ++ [q]), rest) := by
  have hcut : cut? [q] (b ++ [q] ++ rest) = some (b, rest) :=
    cut?_singleton_iff.mpr ⟨hb, by simp⟩
  rw [List.cons_append, readQuoted, if_pos rfl, hcut]
  rfl

theorem readQuoted_of_ne {q c : Char} (h : c ≠ q) (s : Text) : readQuoted q (c :: s) = none := by
  rw [readQuoted, if_neg h]

theorem readValue_quoted {q : Char} (hq : isQuote q = true) {b : Text} (hb : q ∉ b) (rest : Text) :
    readValue marks (q :: (b ++ [q]) ++ rest) = some (q :: (b ++ [q]), rest) := by
  have hread := readQuoted_append hb rest
  have hq' : q = '\'' ∨ q = '"' := by simpa [isQuote] using hq
  unfold readValue
  rcases hq' with rfl | rfl
  · rw [hread, List.cons_append, readQuoted_of_ne (by decide)]
    rfl
  · rw [hread]
    rfl

theorem readValue_expression (hm : IsTight marks) {body : Text}
    (hb : ¬ marks.closing <:+: body ++ marks.closing.dropLast) (hline : '\n' ∉ body) (rest : Text) :
    readValue marks (marks.opening ++ (body ++ marks.closing) ++ rest) =
      some (marks.opening ++ (body ++ marks.closing), rest) := by
  have hcut := cut?_append_append hm.closing_ne_nil hb rest
  have hexpression : readExpression marks (marks.opening ++ (body ++ marks.closing ++ rest)) =
      some (marks.opening ++ body ++ marks.closing, rest) := by
    unfold readExpression
    rw [after?_append, Option.bind_eq_bind, Option.bind_some, hcut]
    simp [hline]
  obtain ⟨c, t, ht, hc⟩ := hm.plain
  have hne : ∀ q, isQuote q = true → c ≠ q := by
    rintro q hq rfl
    rw [hc] at hq
    cases hq
  have hnone : ∀ q, isQuote q = true →
      readQuoted q (marks.opening ++ (body ++ marks.closing ++ rest)) = none := by
    intro q hq
    rw [ht, List.cons_append, readQuoted_of_ne (hne q hq)]
  unfold readValue
  rw [List.append_assoc, hnone '"' (by decide), hnone '\'' (by decide), hexpression,
    List.append_assoc]
  rfl

theorem normalizeValue_quoted {q : Char} (hq : isQuote q = true) (b : Text) :
    normalizeValue marks (q :: (b ++ [q])) =
      .ok (q :: ((if occursIn marks.opening (q :: (b ++ [q])) then collapse b else b) ++ [q])) := by
  have hlast : (q :: (b ++ [q])).getLast? = some q := List.getLast?_concat (l := q :: b)
  unfold normalizeValue
  split
  · simp [hq, hlast]
  · rfl

theorem normalizeValue_expression (hm : IsPlain marks) (t : Text) :
    normalizeValue marks (marks.opening ++ t) = .ok (collapse (marks.opening ++ t)) := by
  have hocc : occursIn marks.opening (marks.opening ++ t) = true :=
    occursIn_iff.mpr List.infix_append_left
  obtain ⟨c, u, hu, hc⟩ := hm
  unfold normalizeValue
  rw [if_pos hocc, hu, List.cons_append]
  simp [hc]

/-- A value in quotes ends at the first quote. -/
theorem exists_of_readQuoted {q : Char} {s value rest : Text}
    (h : readQuoted q s = some (value, rest)) : ∃ b, value = q :: (b ++ [q]) ∧ q ∉ b := by
  cases s with
  | nil => cases h
  | cons c s =>
    rw [readQuoted] at h
    split at h
    · obtain ⟨⟨b, rest'⟩, hb, he⟩ := Option.map_eq_some_iff.mp h
      cases he
      exact ⟨b, rfl, (cut?_singleton_iff.mp hb).1⟩
    · cases h

/-- An expression ends at the first closing marker, on the line on which it starts. -/
theorem exists_of_readExpression (hne : marks.closing ≠ []) {s value rest : Text}
    (h : readExpression marks s = some (value, rest)) :
    ∃ body, value = marks.opening ++ (body ++ marks.closing) ∧
      (¬ marks.closing <:+: body ++ marks.closing.dropLast) ∧ '\n' ∉ body := by
  obtain ⟨inner, _, h⟩ := Option.bind_eq_some_iff.mp h
  obtain ⟨⟨body, rest'⟩, hb, h⟩ := Option.bind_eq_some_iff.mp h
  dsimp only at h
  split at h
  · cases h
  · next hline =>
    cases h
    exact ⟨body, by simp, not_infix_append_dropLast_of_cut? hne hb, by simpa using hline⟩

theorem isSettled_quoted {q : Char} (hq : isQuote q = true) {b new : Text} (hb : q ∉ b)
    (h : normalizeValue marks (q :: (b ++ [q])) = .ok new) : IsSettled marks new := by
  have hblank : isBlank q = false := not_isBlank_of_isQuote hq
  rw [normalizeValue_quoted hq] at h
  cases h
  split
  · have hb' : ∀ c ∈ collapse b, c ≠ q := by
      refine forall_mem_intercalate (List.forall_mem_singleton.mpr ?_) fun w hw c hc => ?_
      · rintro rfl
        cases hblank
      · exact ne_of_mem_of_not_mem ((infix_of_mem_words hw).subset hc) hb
    refine ⟨readValue_quoted hq fun hm => hb' q hm rfl, ?_, q :: collapse b, q, rfl, hblank⟩
    rw [normalizeValue_quoted hq, collapse_collapse, ite_self]
  · next hocc =>
    refine ⟨readValue_quoted hq hb, ?_, q :: b, q, rfl, hblank⟩
    rw [normalizeValue_quoted hq, if_neg hocc]

theorem isSettled_expression (hm : IsTight marks) {body new : Text}
    (hb : ¬ marks.closing <:+: body ++ marks.closing.dropLast)
    (h : normalizeValue marks (marks.opening ++ (body ++ marks.closing)) = .ok new) :
    IsSettled marks new := by
  rw [normalizeValue_expression hm.plain] at h
  cases h
  obtain ⟨body', heq, hbody'⟩ :=
    exists_collapse_eq hm.closing_ne_nil hm.closing marks.opening hm.opening hb
  -- the only white space left is spaces
  have hline : '\n' ∉ body' := by
    intro hmem
    have hcollapse : '\n' ∈ collapse (marks.opening ++ (body ++ marks.closing)) := by
      rw [heq]
      simp [hmem]
    exact absurd (eq_or_of_mem_collapse hcollapse) (by decide)
  have hnormal := normalizeValue_expression hm.plain (body' ++ marks.closing)
  rw [← heq, collapse_collapse] at hnormal
  rw [heq] at hnormal ⊢
  refine ⟨readValue_expression hm hbody' hline, hnormal, ?_⟩
  obtain ⟨t, c, ht⟩ := List.eq_nil_or_concat marks.closing |>.resolve_left hm.closing_ne_nil
  rw [List.concat_eq_append] at ht
  exact ⟨marks.opening ++ (body' ++ t), c, by rw [ht]; simp, hm.closing c (by rw [ht]; simp)⟩

/-- Every value that is read is settled once it is normalised. -/
theorem isSettled_of_readValue (hm : IsTight marks) {s value rest new : Text}
    (h : readValue marks s = some (value, rest)) (hn : normalizeValue marks value = .ok new) :
    IsSettled marks new := by
  rcases orElse_eq_some h with h | h
  · obtain ⟨b, rfl, hb⟩ := exists_of_readQuoted h
    exact isSettled_quoted (by decide) hb hn
  rcases orElse_eq_some h with h | h
  · obtain ⟨b, rfl, hb⟩ := exists_of_readQuoted h
    exact isSettled_quoted (by decide) hb hn
  · obtain ⟨body, rfl, hb, _⟩ := exists_of_readExpression hm.closing_ne_nil h
    exact isSettled_expression hm hb hn

/-! ## Attributes -/

/-- A name, and a settled value if there is one. -/
structure Attribute.IsSettled (marks : Marks) (a : Attribute) : Prop where
  name_ne_nil : a.name ≠ []
  name : ∀ c ∈ a.name, isAttributeChar c = true
  value : ∀ v, a.value = some v → Component.IsSettled marks v

theorem isSettled_of_readAttribute (hm : IsTight marks) {s rest : Text} {a b : Attribute}
    (h : readAttribute marks s = some (a, rest)) (hb : a.normalize marks = .ok b) :
    b.IsSettled marks := by
  obtain ⟨⟨hne, hname⟩, _, hvalue⟩ := readAttribute_cases h
  obtain ⟨name, value⟩ := a
  cases value with
  | none =>
    cases hb
    exact ⟨hne, hname, fun v hv => nomatch hv⟩
  | some v =>
    obtain ⟨new, hnew, hb⟩ := bind_eq_ok.mp hb
    cases hb
    obtain ⟨s', hread⟩ := hvalue v rfl
    refine ⟨hne, hname, fun v' hv' => ?_⟩
    cases hv'
    exact isSettled_of_readValue hm hread hnew

theorem Attribute.IsSettled.normalize {a : Attribute} (h : a.IsSettled marks) :
    a.normalize marks = .ok a := by
  obtain ⟨name, value⟩ := a
  cases value with
  | none => rfl
  | some v => exact bind_eq_ok.mpr ⟨v, (h.value v rfl).normal, rfl⟩

/-- An attribute whose value is read whatever follows it is read, up to a character that ends its
name. -/
theorem readAttribute_render_append {a : Attribute} (hne : a.name ≠ [])
    (hname : ∀ c ∈ a.name, isAttributeChar c = true)
    (hvalue : ∀ v, a.value = some v → ∀ rest, readValue marks (v ++ rest) = some (v, rest))
    {d : Char} (hd : isAttributeChar d = false) (hequals : d ≠ '=') (rest : Text) :
    readAttribute marks (a.render ++ d :: rest) = some (a, d :: rest) := by
  obtain ⟨name, value⟩ := a
  obtain ⟨c, t, rfl⟩ : ∃ c t, name = c :: t := List.exists_cons_of_ne_nil hne
  unfold readAttribute
  cases value with
  | none =>
    have hnone : after? ['='] (d :: rest) = none :=
      after?_eq_none_iff.mpr fun hp => hequals (List.cons_prefix_cons.mp hp).1.symm
    rw [Attribute.render, takeWhile_append_cons (a := c :: t) hname hd,
      dropWhile_append_cons (a := c :: t) hname hd]
    simp only [hnone, Option.bind_none]
  | some v =>
    have hrender : Attribute.render ⟨c :: t, some v⟩ ++ d :: rest =
        c :: t ++ '=' :: (v ++ d :: rest) := by
      simp [Attribute.render]
    rw [hrender, takeWhile_append_cons (a := c :: t) hname (by decide),
      dropWhile_append_cons (a := c :: t) hname (by decide)]
    have hvalued : after? ['='] ('=' :: (v ++ d :: rest)) = some (v ++ d :: rest) :=
      after?_append ['='] _
    simp only [hvalued, Option.bind_some, hvalue v rfl]

/-- A settled attribute is read again, if white space follows it. -/
theorem Attribute.IsSettled.read {a : Attribute} (h : a.IsSettled marks) (rest : Text) :
    readAttribute marks (a.render ++ ' ' :: rest) = some (a, ' ' :: rest) :=
  readAttribute_render_append h.name_ne_nil h.name (fun v hv => (h.value v hv).read) (by decide)
    (by decide) rest

/-- The characters at the two ends of a settled attribute. -/
theorem Attribute.IsSettled.isTrim {a : Attribute} (h : a.IsSettled marks) : IsTrim a.render := by
  have hblank : ∀ c ∈ a.name, isBlank c = false := by
    intro c hc
    have hname := h.name c hc
    unfold isAttributeChar at hname
    simp only [Bool.not_eq_true', Bool.or_eq_false_iff] at hname
    exact hname.1.1.1.1.1.1.1.1
  obtain ⟨name, value⟩ := a
  obtain ⟨c, t, rfl⟩ : ∃ c t, name = c :: t := List.exists_cons_of_ne_nil h.name_ne_nil
  cases value with
  | none => exact .of_forall (List.cons_ne_nil c t) hblank
  | some v =>
    obtain ⟨u, d, rfl, hd⟩ := (h.value v rfl).last
    exact ⟨⟨c, t ++ '=' :: (u ++ [d]), rfl, hblank c List.mem_cons_self⟩,
      ⟨c :: t ++ '=' :: u, d, by simp [Attribute.render], hd⟩⟩

/-- No marker is read where an attribute starts. -/
theorem readMarker_render_append {a : Attribute} (hne : a.name ≠ [])
    (hname : ∀ c ∈ a.name, isAttributeChar c = true) (rest : Text) :
    readMarker (a.render ++ rest) = none := by
  obtain ⟨name, value⟩ := a
  obtain ⟨c, t, rfl⟩ : ∃ c t, name = c :: t := List.exists_cons_of_ne_nil hne
  have hc : isAttributeChar c = true := hname c List.mem_cons_self
  obtain ⟨u, hu⟩ : ∃ u, Attribute.render ⟨c :: t, value⟩ ++ rest = c :: u := by
    cases value with
    | none => exact ⟨t ++ rest, rfl⟩
    | some v => exact ⟨t ++ '=' :: v ++ rest, rfl⟩
  rw [hu, readMarker.eq_def]
  split
  · next he =>
    cases he
    exact absurd hc (by decide)
  · next he =>
    cases he
    exact absurd hc (by decide)
  · rfl

theorem readMarker_append {marker : Text} (h : marker = ['/', '>'] ∨ marker = ['>']) (rest : Text) :
    readMarker (marker ++ rest) = some (marker, rest) := by
  rcases h with rfl | rfl <;> rfl

theorem trimLeft_space_append {s : Text} (h : IsTrim s) (rest : Text) :
    trimLeft (' ' :: (s ++ rest)) = s ++ rest := by
  obtain ⟨c, t, rfl, hc⟩ := h.head
  exact trimLeft_append_cons (b := [' ']) (.of_all (by decide)) hc (t ++ rest)

theorem isTrim_marker {marker : Text} (h : marker = ['/', '>'] ∨ marker = ['>']) :
    IsTrim marker := by
  rcases h with rfl | rfl <;> exact .of_forall (by decide) (forall_of_all (by decide))

/-- Attributes, each behind a space, and what follows them behind a space. -/
theorem exists_flatMap_eq_cons (attributes : List Attribute) (t : Text) :
    ∃ tail, (attributes.flatMap fun a => ' ' :: a.render) ++ ' ' :: t = ' ' :: tail := by
  cases attributes with
  | nil => exact ⟨t, rfl⟩
  | cons a attributes => exact ⟨_, rfl⟩

/-- Settled attributes, each behind a space, and the closing marker behind them. -/
theorem readAttributes_flatMap {attributes : List Attribute}
    (h : ∀ a ∈ attributes, a.IsSettled marks) {marker : Text}
    (hmarker : marker = ['/', '>'] ∨ marker = ['>']) (rest : Text) (fuel : Nat)
    (hfuel : attributes.length < fuel) :
    readAttributes marks fuel
        ((attributes.flatMap fun a => ' ' :: a.render) ++ ' ' :: (marker ++ rest)) =
      .ok (some (attributes, marker, rest)) := by
  induction attributes generalizing fuel with
  | nil =>
    obtain ⟨fuel, rfl⟩ := Nat.exists_eq_succ_of_ne_zero (Nat.ne_of_gt hfuel)
    rw [List.flatMap_nil, List.nil_append, Nat.succ_eq_add_one, readAttributes,
      trimLeft_space_append (isTrim_marker hmarker)]
    simp only [readMarker_append hmarker]
  | cons a attributes ih =>
    obtain ⟨fuel, rfl⟩ := Nat.exists_eq_succ_of_ne_zero (Nat.ne_zero_of_lt hfuel)
    obtain ⟨ha, hattributes⟩ := List.forall_mem_cons.mp h
    have ih := ih hattributes fuel (Nat.lt_of_succ_lt_succ hfuel)
    obtain ⟨tail, htail⟩ := exists_flatMap_eq_cons attributes (marker ++ rest)
    rw [htail] at ih
    rw [List.flatMap_cons, List.append_assoc, htail, List.cons_append, Nat.succ_eq_add_one,
      readAttributes, trimLeft_space_append ha.isTrim]
    simp only [readMarker_render_append ha.name_ne_nil ha.name, ha.read, ha.normalize, ih]
    rfl

/-! ## Tags -/

variable {style : Style}

theorem length_le_flatMap (attributes : List Attribute) (t : Text) :
    attributes.length ≤ ((attributes.flatMap fun a => ' ' :: a.render) ++ t).length := by
  induction attributes with
  | nil => exact Nat.zero_le _
  | cons a attributes ih =>
    rw [List.flatMap_cons, List.append_assoc, List.length_append, List.length_cons,
      List.length_cons]
    omega

/-- The name of a tag is read again, up to a character that ends it. -/
theorem readName_append {s name rest : Text} (h : readName style s = some (name, rest)) {d : Char}
    (hd : isNameChar d = false) (t : Text) :
    readName style (style.tagOpen ++ (name ++ d :: t)) = some (name, d :: t) := by
  rw [readName.eq_def] at h
  split at h
  · next c s' _ =>
    split at h
    · next hc =>
      cases h
      have hname : ∀ e ∈ s'.takeWhile isNameChar, isNameChar e = true :=
        List.all_eq_true.mp List.all_takeWhile
      rw [readName, after?_append]
      simp only [List.cons_append, hc, if_true]
      rw [takeWhile_append_cons hname hd, dropWhile_append_cons hname hd]
    · cases h
  · cases h

theorem not_isBlank_of_isNameChar {c : Char} (h : isNameStart c = true ∨ isNameChar c = true) :
    isBlank c = false := by
  refine Bool.eq_false_iff.mpr fun hb => ?_
  have hword : isWord c = false := not_isWord_of_isBlank hb
  rcases h with h | h
  · have htoken : isTokenChar c = true := by
      unfold isNameStart at h
      unfold isTokenChar Char.isAlphanum
      grind
    rw [isWord_of_isTokenChar htoken] at hword
    cases hword
  · unfold isNameChar at h
    rw [hword, Bool.false_or, Bool.or_eq_true, Bool.or_eq_true] at h
    simp only [beq_iff_eq] at h
    rcases h with (rfl | rfl) | rfl <;> exact absurd hb (by decide)

/-- The first line of a tag, without the white space before it. -/
theorem isTrim_tagOpen_append {s name rest : Text} (h : readName style s = some (name, rest)) :
    IsTrim (style.tagOpen ++ name) := by
  obtain ⟨hne, hname⟩ := name_of_readName h
  obtain ⟨t, c, rfl⟩ := List.eq_nil_or_concat name |>.resolve_left hne
  rw [List.concat_eq_append] at hname ⊢
  exact ⟨⟨'<', style.space ++ (t ++ [c]), rfl, by decide⟩,
    ⟨style.tagOpen ++ t, c, by simp, not_isBlank_of_isNameChar (hname c (by simp))⟩⟩

/-- The last line of a tag, without the white space before it. -/
theorem Tag.isTrim_marker_append {s : Text} {tag : Tag} (h : Tag.read style s = .ok (some tag))
    {t : Text} {c : Char} (hs : s = t ++ [c]) (hc : isBlank c = false) :
    IsTrim (tag.marker ++ tag.rest) := by
  obtain ⟨_, ⟨u, hend⟩, hmarker, _⟩ := Tag.parts_of_read h
  obtain ⟨d, v, hd, hblank⟩ := (isTrim_marker hmarker).head
  refine ⟨⟨d, v ++ tag.rest, by rw [hd, List.cons_append], hblank⟩, ?_⟩
  obtain ⟨w, e, hw⟩ := List.eq_nil_or_concat (tag.marker ++ tag.rest) |>.resolve_left
    (by rw [hd]; exact List.cons_ne_nil _ _)
  rw [List.concat_eq_append] at hw
  rw [hw, hs, ← List.append_assoc] at hend
  obtain ⟨_, hce⟩ := List.append_inj' hend rfl
  cases hce
  exact ⟨w, c, hw, hc⟩

/-- The parts of a tag, put on lines of their own, and the lines put on one line. -/
theorem Tag.joined_lines {indent : Text} (hi : Blank indent) (hu : Blank style.indentUnit)
    {tag : Tag} (hname : IsTrim (style.tagOpen ++ tag.name))
    (ha : ∀ a ∈ tag.attributes, IsTrim a.render) (hend : IsTrim (tag.marker ++ tag.rest)) :
    joined (tag.lines style indent) = style.tagOpen ++ (tag.name ++
      ((tag.attributes.flatMap fun a => ' ' :: a.render) ++ ' ' :: (tag.marker ++ tag.rest))) := by
  have htrim : ∀ {b s : Text}, Blank b → IsTrim s → trim (b ++ s) = s := by
    intro b s hb hs
    have h := hs.trim_append hb Blank.nil
    rwa [List.append_nil] at h
  have hattributes : (tag.attributes.map fun a => trim (indent ++ style.indentUnit ++ a.render)) =
      tag.attributes.map Attribute.render :=
    List.map_congr_left fun a hm => htrim (hi.append hu) (ha a hm)
  have hmap : (tag.lines style indent).map trim = (style.tagOpen ++ tag.name) ::
      (tag.attributes.map Attribute.render ++ [tag.marker ++ tag.rest]) := by
    unfold Tag.lines
    rw [List.map_append, List.map_cons, List.map_map, List.map_singleton, List.append_assoc,
      List.append_assoc, htrim hi hname, htrim hi hend, ← hattributes]
    rfl
  unfold joined
  rw [hmap, intercalate_cons_eq_flatMap, List.flatMap_append, List.flatMap_map]
  simp

/-- A tag is read from its lines as it was read before. -/
theorem Tag.read_joined_lines (hm : IsTight style.expression) {indent : Text} (hi : Blank indent)
    (hu : Blank style.indentUnit) {s t : Text} {c : Char} (hs : s = t ++ [c])
    (hc : isBlank c = false) {tag : Tag} (h : Tag.read style s = .ok (some tag)) :
    Tag.read style (joined (tag.lines style indent)) = .ok (some tag) := by
  obtain ⟨_, _, hmarker, hread⟩ := Tag.parts_of_read h
  obtain ⟨rest, hname, _⟩ := Tag.exists_of_read h
  have hsettled : ∀ a ∈ tag.attributes, a.IsSettled style.expression := by
    intro b hb
    obtain ⟨a, s', rest', ha, _, hnormal⟩ := hread b hb
    exact isSettled_of_readAttribute hm ha hnormal
  rw [Tag.joined_lines hi hu (isTrim_tagOpen_append hname) (fun a ha => (hsettled a ha).isTrim)
    (Tag.isTrim_marker_append h hs hc)]
  -- the space before the first attribute, or before the marker, ends the name
  obtain ⟨tail, htail⟩ := exists_flatMap_eq_cons tag.attributes (tag.marker ++ tag.rest)
  have hattributes := readAttributes_flatMap hsettled hmarker tag.rest _
    (Nat.lt_succ_of_le (length_le_flatMap tag.attributes (' ' :: (tag.marker ++ tag.rest))))
  rw [htail] at hattributes ⊢
  unfold Tag.read
  rw [readName_append hname (by decide)]
  exact bind_eq_ok.mpr ⟨_, hattributes, rfl⟩

/-- A tag that was laid out is read from its new lines with the parts it had before: the same name,
the same attributes, the same marker and the same text behind it. -/
theorem read_of_layoutSpan (hm : IsTight style.expression) {indent : Text} (hi : Blank indent)
    (hu : Blank style.indentUnit) {before new : List Text} {last : Text} (hlast : ¬ Blank last)
    (h : layoutSpan style indent (before ++ [last]) = .ok (some new)) :
    ∃ tag, Tag.read style (joined (before ++ [last])) = .ok (some tag) ∧
      Tag.read style (joined new) = .ok (some tag) := by
  obtain ⟨tag, htag, _, rfl⟩ := exists_tag_of_layoutSpan h
  obtain ⟨t, c, hs, hc⟩ := exists_joined_concat before hlast
  exact ⟨tag, htag, Tag.read_joined_lines hm hi hu hs hc htag⟩

/-- White space in all kinds of values, an expression over two lines, and a text behind the tag that
looks like an attribute. -/
theorem read_of_layoutSpan_values :
    let before := [" <twig:A b='\x7b\x7b  x\t\x7d\x7d '  c".toList, "d=\x7b\x7b y".toList]
    let last := "  ~ ' z  ' \x7d\x7d @e='f  ' /> g='h  i' ".toList
    let new := [" <twig:A".toList, "     b='\x7b\x7b x \x7d\x7d'".toList, "     c".toList,
      "     d=\x7b\x7b y ~ ' z ' \x7d\x7d".toList, "     @e='f  '".toList, " /> g='h  i'".toList]
    layoutSpan .default [' '] (before ++ [last]) = .ok (some new) ∧
      ∃ tag, Tag.read .default (joined (before ++ [last])) = .ok (some tag) ∧
        Tag.read .default (joined new) = .ok (some tag) := by
  intro before last new
  have hnew : layoutSpan .default [' '] (before ++ [last]) = .ok (some new) := by decide +kernel
  have hlast : ¬ Blank last := fun hb => absurd (hb '~' (by decide)) (by decide)
  exact ⟨hnew, read_of_layoutSpan isTight_default (.of_all (by decide)) (.of_all (by decide)) hlast hnew⟩

end TwigLayout.Component
