import TwigLayout.Component.Layout
import TwigLayout.Proofs.Logged
import TwigLayout.Proofs.Reflow.Hash

/-!
# Laying out component tags

1. `readAttribute_cases` and `Tag.parts_of_read`: the parts of a tag are parts of its text, up to
   the white space in values that hold an expression.
2. `exists_blocked_of_layout`: the lines of a document go into blocks, one after the other.
3. `runsIn_layout`: no run of token characters comes about when the tags of a document are laid out.
-/

namespace TwigLayout.Component

open Text Placeholder

/-! ## Attributes -/

/-- The opening marker starts with a character that is no quote. -/
def IsPlain (marks : Marks) : Prop := ∃ c t, marks.opening = c :: t ∧ isQuote c = false

theorem IsPlain.opening_ne_nil {marks : Marks} (h : IsPlain marks) : marks.opening ≠ [] := by
  obtain ⟨c, t, ht, _⟩ := h
  rw [ht]
  exact List.cons_ne_nil c t

/-- A value as it is read: in quotes, or without one at its start. -/
def IsValue (v : Text) : Prop :=
  (∃ q b, isQuote q = true ∧ v = q :: (b ++ [q])) ∨ ∃ c t, v = c :: t ∧ isQuote c = false

theorem readQuoted_eq_some {q : Char} {s value rest : Text}
    (h : readQuoted q s = some (value, rest)) :
    s = value ++ rest ∧ ∃ b, value = q :: (b ++ [q]) := by
  cases s with
  | nil => cases h
  | cons c s =>
    rw [readQuoted] at h
    split at h
    · next hc =>
      obtain ⟨⟨body, rest'⟩, hb, he⟩ := Option.map_eq_some_iff.mp h
      cases he
      refine ⟨?_, body, rfl⟩
      rw [hc, cut?_eq_some hb]
      simp
    · cases h

theorem readExpression_eq_some {marks : Marks} {s value rest : Text}
    (h : readExpression marks s = some (value, rest)) :
    s = value ++ rest ∧ marks.opening <+: value := by
  obtain ⟨inner, hi, h⟩ := Option.bind_eq_some_iff.mp h
  obtain ⟨⟨body, rest'⟩, hb, h⟩ := Option.bind_eq_some_iff.mp h
  dsimp only at h
  split at h
  · cases h
  · cases h
    rw [after?_eq_some_iff.mp hi, cut?_eq_some hb]
    simp

/-- What a value is: a quoted text or an expression, and the text starts with it. -/
theorem readValue_cases {marks : Marks} {s value rest : Text}
    (h : readValue marks s = some (value, rest)) : s = value ++ rest ∧
      ((∃ q b, isQuote q = true ∧ value = q :: (b ++ [q])) ∨ marks.opening <+: value) := by
  rcases orElse_eq_some h with h | h
  · obtain ⟨hs, b, hb⟩ := readQuoted_eq_some h
    exact ⟨hs, .inl ⟨'"', b, by decide, hb⟩⟩
  rcases orElse_eq_some h with h | h
  · obtain ⟨hs, b, hb⟩ := readQuoted_eq_some h
    exact ⟨hs, .inl ⟨'\'', b, by decide, hb⟩⟩
  · obtain ⟨hs, hopening⟩ := readExpression_eq_some h
    exact ⟨hs, .inr hopening⟩

theorem isValue_of_readValue {marks : Marks} (hm : IsPlain marks) {s value rest : Text}
    (h : readValue marks s = some (value, rest)) : IsValue value := by
  obtain ⟨_, hquoted | ⟨u, hu⟩⟩ := readValue_cases h
  · exact .inl hquoted
  · obtain ⟨c, t, ht, hc⟩ := hm
    refine .inr ⟨c, t ++ u, ?_, hc⟩
    rw [← hu, ht]
    rfl

/-- What an attribute is: a name, with a value behind an equals sign or without one. -/
theorem readAttribute_cases {marks : Marks} {s rest : Text} {a : Attribute}
    (h : readAttribute marks s = some (a, rest)) :
    (a.name ≠ [] ∧ ∀ c ∈ a.name, isAttributeChar c = true) ∧ s = a.render ++ rest ∧
      ∀ v, a.value = some v → ∃ s', readValue marks s' = some (v, rest) := by
  rw [readAttribute] at h
  split at h
  · cases h
  · next hne =>
    have hname : s.takeWhile isAttributeChar ≠ [] ∧
        ∀ c ∈ s.takeWhile isAttributeChar, isAttributeChar c = true :=
      ⟨hne, List.all_eq_true.mp List.all_takeWhile⟩
    dsimp only at h
    split at h
    · next value rest' hv =>
      cases h
      obtain ⟨s₁, h₁, h₂⟩ := Option.bind_eq_some_iff.mp hv
      refine ⟨hname, ?_, fun v hv => ?_⟩
      · have hdrop : s.dropWhile isAttributeChar = '=' :: (value ++ rest) := by
          rw [← (readValue_cases h₂).1]
          exact after?_eq_some_iff.mp h₁
        show s = s.takeWhile isAttributeChar ++ '=' :: value ++ rest
        rw [List.append_assoc, List.cons_append, ← hdrop, List.takeWhile_append_dropWhile]
      · cases hv
        exact ⟨s₁, h₂⟩
    · cases h
      refine ⟨hname, ?_, fun v hv => by cases hv⟩
      exact List.takeWhile_append_dropWhile.symm

/-- An attribute is what the text starts with. -/
theorem readAttribute_eq_some {marks : Marks} (hm : IsPlain marks) {s rest : Text} {a : Attribute}
    (h : readAttribute marks s = some (a, rest)) :
    s = a.render ++ rest ∧ ∀ v, a.value = some v → IsValue v := by
  obtain ⟨_, hs, hvalue⟩ := readAttribute_cases h
  refine ⟨hs, fun v hv => ?_⟩
  obtain ⟨s', hs'⟩ := hvalue v hv
  exact isValue_of_readValue hm hs'

/-- The characters of `p` are neither spaces nor any that stand around a value. -/
def Outside (p : Char → Bool) : Prop := ∀ c ∈ [' ', '=', '\'', '"'], p c = false

theorem Outside.isQuote {p : Char → Bool} (hp : Outside p) {q : Char} (hq : isQuote q = true) :
    p q = false := by
  have h : q = '\'' ∨ q = '"' := by simpa [Text.isQuote] using hq
  rcases h with rfl | rfl <;> exact hp _ (by decide)

theorem outside_isTokenChar : Outside isTokenChar := forall_of_any (by decide)

section Runs

variable {p : Char → Bool}

/-- What becomes of a value: it stays if it holds no expression, and otherwise its white space is
collapsed, inside the quotes if there are any. -/
theorem normalizeValue_cases {marks : Marks} {v new : Text} (hv : IsValue v)
    (h : normalizeValue marks v = .ok new) :
    (occursIn marks.opening v = false ∧ new = v) ∨
      (∃ q b, isQuote q = true ∧ v = q :: (b ++ [q]) ∧ new = q :: (collapse b ++ [q])) ∨
      new = collapse v := by
  rw [normalizeValue.eq_def] at h
  split at h
  · rcases hv with ⟨q, b, hq, rfl⟩ | ⟨c, t, rfl, hc⟩
    · have hlast : (q :: (b ++ [q])).getLast? = some q := List.getLast?_concat (l := q :: b)
      refine .inr (.inl ⟨q, b, hq, rfl, ?_⟩)
      simpa [hq, hlast] using h.symm
    · simp only [hc] at h
      cases h
      exact .inr (.inr rfl)
  · next hocc =>
    cases h
    exact .inl ⟨Bool.eq_false_iff.mpr hocc, rfl⟩

/-- Collapsing the white space of a value brings about no run. -/
theorem runsIn_normalizeValue (hp : Outside p) {marks : Marks} {v new : Text} (hv : IsValue v)
    (h : normalizeValue marks v = .ok new) : RunsIn p new v := by
  rcases normalizeValue_cases hv h with ⟨_, rfl⟩ | ⟨q, b, hq, rfl, rfl⟩ | rfl
  · exact .of_isInfix (List.infix_refl _)
  · have hb : b <:+: q :: (b ++ [q]) := List.infix_cons List.infix_append_left
    have hfence := hp.isQuote hq
    exact .cons hfence (.append_cons hfence ((RunsIn.collapse (hp ' ' (by decide))).mono hb)
      (.of_isInfix List.nil_infix))
  · exact .collapse (hp ' ' (by decide))

theorem runsIn_normalize (hp : Outside p) {marks : Marks} {a b : Attribute}
    (ha : ∀ v, a.value = some v → IsValue v) (h : a.normalize marks = .ok b) :
    RunsIn p b.render a.render := by
  obtain ⟨name, value⟩ := a
  cases value with
  | none =>
    cases h
    exact .of_isInfix (List.infix_refl _)
  | some v =>
    obtain ⟨new, hn, hb⟩ := bind_eq_ok.mp h
    cases hb
    have hname : name <:+: name ++ '=' :: v := List.infix_append_left
    have hvalue : v <:+: name ++ '=' :: v :=
      List.infix_append_of_infix_right (List.infix_cons (List.infix_refl v))
    exact .append_cons (hp '=' (by decide)) (.of_isInfix hname)
      ((runsIn_normalizeValue hp (ha v rfl) hn).mono hvalue)

/-! ## Tags -/

theorem readMarker_eq_some {s marker rest : Text} (h : readMarker s = some (marker, rest)) :
    s = marker ++ rest := by
  rw [readMarker.eq_def] at h
  split at h
  · cases h
    rfl
  · cases h
    rfl
  · cases h

theorem marker_of_readMarker {s marker rest : Text} (h : readMarker s = some (marker, rest)) :
    marker = ['/', '>'] ∨ marker = ['>'] := by
  rw [readMarker.eq_def] at h
  split at h
  · cases h
    exact .inl rfl
  · cases h
    exact .inr rfl
  · cases h

/-- What one step of reading attributes can do: it takes the closing marker, or an attribute behind
white space. -/
theorem readAttributes_succ_eq_ok {marks : Marks} {fuel : Nat} {s marker rest : Text}
    {attributes : List Attribute}
    (h : readAttributes marks (fuel + 1) s = .ok (some (attributes, marker, rest))) :
    (readMarker (trimLeft s) = some (marker, rest) ∧ attributes = []) ∨
      ∃ first first' others rest', readAttribute marks (trimLeft s) = some (first, rest') ∧
        s.head?.any isBlank = true ∧ first.normalize marks = .ok first' ∧
        readAttributes marks fuel rest' = .ok (some (others, marker, rest)) ∧
        attributes = first' :: others := by
  rw [readAttributes] at h
  dsimp only at h
  split at h
  · next hmarker =>
    cases h
    exact .inl ⟨hmarker, rfl⟩
  · split at h
    · cases h
    · next first rest' hfirst =>
      split at h
      · next hhead =>
        obtain ⟨first', hnormal, h⟩ := bind_eq_ok.mp h
        obtain ⟨more, hmore, h⟩ := bind_eq_ok.mp h
        cases more with
        | none => cases h
        | some parts =>
          cases h
          exact .inr ⟨first, first', _, rest', hfirst, hhead, hnormal, hmore, rfl⟩
      · cases h

/-- Every attribute of a tag was read from the text, which ends with what follows the attributes. -/
theorem mem_of_readAttributes {marks : Marks} {fuel : Nat} {s marker rest : Text}
    {attributes : List Attribute}
    (h : readAttributes marks fuel s = .ok (some (attributes, marker, rest))) :
    (∃ s', readMarker s' = some (marker, rest) ∧ s' <:+ s) ∧
      ∀ b ∈ attributes, ∃ a s' rest', readAttribute marks s' = some (a, rest') ∧ s' <:+ s ∧
        a.normalize marks = .ok b := by
  induction fuel generalizing s attributes with
  | zero => cases h
  | succ fuel ih =>
    have hbody := trimLeft_isSuffix s
    obtain ⟨hmarker, rfl⟩ | ⟨first, first', others, rest', hfirst, _, hnormal, hmore, rfl⟩ :=
      readAttributes_succ_eq_ok h
    · exact ⟨⟨_, hmarker, hbody⟩, fun b hb => absurd hb List.not_mem_nil⟩
    · obtain ⟨⟨m, hm, hend⟩, hothers⟩ := ih hmore
      have hrest : rest' <:+ s := by
        refine List.IsSuffix.trans ?_ hbody
        rw [(readAttribute_cases hfirst).2.1]
        exact List.suffix_append _ _
      refine ⟨⟨m, hm, hend.trans hrest⟩, List.forall_mem_cons.mpr ⟨?_, fun b hb => ?_⟩⟩
      · exact ⟨first, _, rest', hfirst, hbody, hnormal⟩
      · obtain ⟨a, s', r, hread, hs', hb⟩ := hothers b hb
        exact ⟨a, s', r, hread, hs'.trans hrest, hb⟩

theorem readName_eq_some {style : Style} {s name rest : Text}
    (h : readName style s = some (name, rest)) : s = style.tagOpen ++ (name ++ rest) := by
  rw [readName.eq_def] at h
  split at h
  · next c s' hs =>
    split at h
    · cases h
      rw [after?_eq_some_iff.mp hs, List.cons_append, List.takeWhile_append_dropWhile]
    · cases h
  · cases h

theorem name_of_readName {style : Style} {s name rest : Text}
    (h : readName style s = some (name, rest)) :
    name ≠ [] ∧ ∀ c ∈ name, isNameStart c = true ∨ isNameChar c = true := by
  rw [readName.eq_def] at h
  split at h
  · next d s' _ =>
    split at h
    · next hd =>
      cases h
      refine ⟨List.cons_ne_nil _ _, List.forall_mem_cons.mpr ⟨.inl hd, fun c hc => .inr ?_⟩⟩
      exact List.all_eq_true.mp List.all_takeWhile c hc
    · cases h
  · cases h

/-- A tag that is read: its name, and its attributes behind it. -/
theorem Tag.exists_of_read {style : Style} {s : Text} {tag : Tag}
    (h : Tag.read style s = .ok (some tag)) :
    ∃ rest, readName style s = some (tag.name, rest) ∧
      readAttributes style.expression (rest.length + 1) rest =
        .ok (some (tag.attributes, tag.marker, tag.rest)) := by
  rw [Tag.read.eq_def] at h
  split at h
  · cases h
  · next name rest hname =>
    obtain ⟨parts, hparts, h⟩ := bind_eq_ok.mp h
    cases parts with
    | none => cases h
    | some parts =>
      cases h
      exact ⟨rest, hname, hparts⟩

/-- Where the parts of a tag come from: its text starts with the name, ends with the closing marker
and the rest, and its attributes were read from what is in between. -/
theorem Tag.parts_of_read {style : Style} {s : Text} {tag : Tag}
    (h : Tag.read style s = .ok (some tag)) :
    style.tagOpen ++ tag.name <+: s ∧ tag.marker ++ tag.rest <:+ s ∧
      (tag.marker = ['/', '>'] ∨ tag.marker = ['>']) ∧
      ∀ b ∈ tag.attributes, ∃ a s' rest, readAttribute style.expression s' = some (a, rest) ∧
        s' <:+ s ∧ a.normalize style.expression = .ok b := by
  obtain ⟨rest, hname, hparts⟩ := Tag.exists_of_read h
  obtain ⟨⟨m, hmarker, hend⟩, hattributes⟩ := mem_of_readAttributes hparts
  have hs := readName_eq_some hname
  rw [← List.append_assoc] at hs
  have hrest : rest <:+ s := hs ▸ List.suffix_append _ rest
  refine ⟨hs ▸ List.prefix_append _ rest, ?_, marker_of_readMarker hmarker, fun b hb => ?_⟩
  · rw [← readMarker_eq_some hmarker]
    exact hend.trans hrest
  · obtain ⟨a, s', rest', hread, hs', hnormal⟩ := hattributes b hb
    exact ⟨a, s', rest', hread, hs'.trans hrest, hnormal⟩

/-- The attributes of a tag bring about no run. -/
theorem Tag.runsIn_attributes (hp : Outside p) {style : Style} (hm : IsPlain style.expression)
    {s : Text} {tag : Tag} (h : Tag.read style s = .ok (some tag)) :
    ∀ b ∈ tag.attributes, RunsIn p b.render s := by
  intro b hb
  obtain ⟨_, _, _, hattributes⟩ := Tag.parts_of_read h
  obtain ⟨a, s', rest, hread, hs', hnormal⟩ := hattributes b hb
  obtain ⟨ha, hvalue⟩ := readAttribute_eq_some hm hread
  refine (runsIn_normalize hp hvalue hnormal).mono (List.IsInfix.trans ?_ hs'.isInfix)
  rw [ha]
  exact List.infix_append_left

/-- No run comes about on the lines of a tag, if none does in its attributes. -/
theorem Tag.runsIn_lines {style : Style} (hu : ∀ c ∈ style.indentUnit, p c = false) {indent : Text}
    (hi : ∀ c ∈ indent, p c = false) {s : Text} {tag : Tag} (h : Tag.read style s = .ok (some tag))
    (ha : ∀ a ∈ tag.attributes, RunsIn p a.render s) :
    ∀ l ∈ tag.lines style indent, RunsIn p l s := by
  obtain ⟨hopen, hend, _, _⟩ := Tag.parts_of_read h
  intro l hl
  rcases List.mem_append.mp hl with hl | hl
  · rcases List.mem_cons.mp hl with rfl | hl
    · rw [List.append_assoc]
      exact .append_of_forall hi (.of_isInfix hopen.isInfix)
    · obtain ⟨a, hmem, rfl⟩ := List.mem_map.mp hl
      exact .append_of_forall (List.forall_mem_append.mpr ⟨hi, hu⟩) (ha a hmem)
  · rw [List.mem_singleton.mp hl, List.append_assoc]
    exact .append_of_forall hi (.of_isInfix hend.isInfix)

end Runs

/-! ## Documents -/

section Documents

variable {p : Char → Bool} {style : Style} {s : Text}

theorem runsIn_joined (hp : p ' ' = false) {span : List Text} (h : ∀ l ∈ span, RunsIn p l s) :
    RunsIn p (joined span) s := by
  refine .intercalate (by simp) (List.forall_mem_singleton.mpr hp) fun line hl => ?_
  obtain ⟨l, hm, rfl⟩ := List.mem_map.mp hl
  exact (RunsIn.of_isInfix (trim_isInfix l)).trans (h l hm)

/-- A span that is laid out is a tag with at least two attributes. -/
theorem exists_tag_of_layoutSpan {indent : Text} {span new : List Text}
    (h : layoutSpan style indent span = .ok (some new)) :
    ∃ tag, Tag.read style (joined span) = .ok (some tag) ∧ 2 ≤ tag.attributes.length ∧
      new = tag.lines style indent := by
  obtain ⟨tag?, ht, h⟩ := bind_eq_ok.mp h
  cases tag? with
  | none => cases h
  | some tag =>
    dsimp only [pure, Except.pure, Option.bind_some] at h
    split at h
    · next htwo =>
      cases h
      exact ⟨tag, ht, htwo, rfl⟩
    · cases h

/-- No run comes about on the lines of a tag. -/
theorem runsIn_layoutSpan (hp : Outside p) (hm : IsPlain style.expression)
    (hu : ∀ c ∈ style.indentUnit, p c = false) {indent : Text} (hi : ∀ c ∈ indent, p c = false)
    {span new : List Text} (hspan : ∀ l ∈ span, RunsIn p l s)
    (h : layoutSpan style indent span = .ok (some new)) : ∀ l ∈ new, RunsIn p l s := by
  obtain ⟨tag, ht, _, rfl⟩ := exists_tag_of_layoutSpan h
  have hlines := Tag.runsIn_lines hu hi ht (Tag.runsIn_attributes hp hm ht)
  exact fun l hl => (hlines l hl).trans (runsIn_joined (hp ' ' (by decide)) hspan)

/-- How the lines of a document make up its blocks: a line of its own where no span of a tag starts,
and otherwise the whole span, left alone or laid out. -/
inductive Blocked (style : Style) : List Text → List Block → Prop
  | nil : Blocked style [] []
  | line {line : Text} {lines : List Text} {parts : List Block} :
      (style.opens line = true → spanOf (line :: lines) = none) → Blocked style lines parts →
      Blocked style (line :: lines) (.kept [line] :: parts)
  | kept {line : Text} {span rest : List Text} {parts : List Block} : style.opens line = true →
      spanOf (line :: (span ++ rest)) = some (line :: span) →
      layoutSpan style (indentation line) (line :: span) = .ok none → Blocked style rest parts →
      Blocked style (line :: (span ++ rest)) (.kept (line :: span) :: parts)
  | laidOut {line : Text} {span rest new : List Text} {parts : List Block} :
      style.opens line = true → spanOf (line :: (span ++ rest)) = some (line :: span) →
      layoutSpan style (indentation line) (line :: span) = .ok (some new) →
      Blocked style rest parts →
      Blocked style (line :: (span ++ rest)) (.laidOut new :: parts)

theorem blocked_of_blocksFrom {skip : Nat} {lines : List Text} {parts : List Block}
    (h : blocksFrom style skip lines = .ok parts) : Blocked style (lines.drop skip) parts := by
  induction lines generalizing skip parts with
  | nil =>
    cases h
    rw [List.drop_nil]
    exact .nil
  | cons line lines ih =>
    cases skip with
    | succ skip => exact ih h
    | zero =>
      rw [blocksFrom] at h
      split at h
      · next hs =>
        obtain ⟨more, hmore, h⟩ := bind_eq_ok.mp h
        cases h
        refine .line (fun hopens => ?_) (ih hmore)
        rwa [if_pos hopens] at hs
      · next span hs =>
        split at hs
        · next hopens =>
          obtain ⟨before, l, hspan, hp, _⟩ := spanOf_eq_some hs
          obtain ⟨d, span', rfl⟩ := List.exists_cons_of_ne_nil
            (show span ≠ [] by rw [hspan]; simp)
          obtain ⟨rfl, rest, rfl⟩ := List.cons_prefix_cons.mp hp
          obtain ⟨new, hnew, h⟩ := bind_eq_ok.mp h
          obtain ⟨more, hmore, h⟩ := bind_eq_ok.mp h
          have hmore := ih hmore
          rw [List.length_cons, Nat.add_sub_cancel, List.drop_left] at hmore
          cases new with
          | none =>
            cases h
            exact .kept hopens hs hnew hmore
          | some new =>
            cases h
            exact .laidOut hopens hs hnew hmore
        · cases hs

/-- What laying out a document does, if it does not fail. -/
theorem exists_blocked_of_layout {newline out : Text} {n : Nat}
    (h : layout style newline s = .ok (out, n)) :
    newline ≠ [] ∧ ∃ parts, Blocked style (splitOn newline s) parts ∧
      out = newline.intercalate (parts.flatMap Block.lines) ∧ n = parts.countP Block.isLaidOut := by
  rw [layout] at h
  split at h
  · cases h
  · next he =>
    obtain ⟨parts, hp, h⟩ := bind_eq_ok.mp h
    cases h
    exact ⟨by simpa using he, parts, blocked_of_blocksFrom hp, rfl, rfl⟩

/-- What holds of every line of a document, and of the new lines of a tag if it holds of those of
its span, holds of every line of the blocks. -/
theorem Blocked.forall_lines {P : Text → Prop}
    (hnew : ∀ {line : Text} {span new : List Text}, (∀ l ∈ line :: span, P l) →
      layoutSpan style (indentation line) (line :: span) = .ok (some new) → ∀ l ∈ new, P l)
    {lines : List Text} {parts : List Block} (h : Blocked style lines parts)
    (hl : ∀ l ∈ lines, P l) : ∀ l ∈ parts.flatMap Block.lines, P l := by
  induction h with
  | nil => exact fun l hl => absurd hl List.not_mem_nil
  | line _ _ ih =>
    obtain ⟨hline, hlines⟩ := List.forall_mem_cons.mp hl
    exact List.forall_mem_cons.mpr ⟨hline, ih hlines⟩
  | kept _ _ _ _ ih =>
    rw [← List.cons_append] at hl
    obtain ⟨hspan, hrest⟩ := List.forall_mem_append.mp hl
    exact List.forall_mem_append.mpr ⟨hspan, ih hrest⟩
  | laidOut _ _ h _ ih =>
    rw [← List.cons_append] at hl
    obtain ⟨hspan, hrest⟩ := List.forall_mem_append.mp hl
    exact List.forall_mem_append.mpr ⟨hnew hspan h, ih hrest⟩

theorem Blocked.runsIn (hm : IsPlain style.expression)
    (hu : ∀ c ∈ style.indentUnit, isTokenChar c = false) {lines : List Text} {parts : List Block}
    (h : Blocked style lines parts) (hl : ∀ l ∈ lines, l <:+: s) :
    ∀ l ∈ parts.flatMap Block.lines, RunsIn isTokenChar l s := by
  refine h.forall_lines (fun {line _ _} hspan hnew => ?_) fun l hmem => .of_isInfix (hl l hmem)
  exact runsIn_layoutSpan outside_isTokenChar hm hu (isTokenChar_indentation line) hspan hnew

/-- No run comes about when component tags are laid out. -/
theorem runsIn_layout (hm : IsPlain style.expression)
    (hu : ∀ c ∈ style.indentUnit, isTokenChar c = false) {newline out : Text} {n : Nat}
    (hn : ∀ c ∈ newline, isTokenChar c = false) (h : layout style newline s = .ok (out, n)) :
    RunsIn isTokenChar out s := by
  obtain ⟨hne, parts, hparts, rfl, _⟩ := exists_blocked_of_layout h
  exact .intercalate hne hn (hparts.runsIn hm hu fun l hl => infix_of_mem_splitOn hne hl)

end Documents

end TwigLayout.Component
