import TwigLayout.Proofs.Stable.Route
import TwigLayout.Proofs.Text.Lines

/-!
# Route calls on the line of their attribute

A call is laid out at the indentation of the line on which the last reference attribute before it
starts. Laying out a call moves what follows it to a line of its own, and with it the attributes of
later calls. If the call stands on the line of its attribute, that new line has the indentation of
the old one, so the attributes behind the call are at the same indentation as before.

1. `Aligned.concat`, `Aligned.relaid`: what is laid out at a place of the old text and at the place
   of the new one that matches stays the same behind a character and behind a call.
2. `referenceAt_of_attached`: so the calls of the new document have the references of the old ones.
3. `relayout_of_attached`: laying out the new document leaves it as it is.
-/

namespace TwigLayout.Route

open Text

/-! ## Markers -/

/-- The characters of a text that starts a reference attribute. -/
def isMarkerChar (c : Char) : Bool := isWord c || c == '-' || c == '='

/-- The name of an attribute and an equals sign. -/
structure IsMarker (marker : Text) : Prop where
  chars : ∀ c ∈ marker, isMarkerChar c = true
  last : ['='] <:+ marker

theorem isMarker_of_name {name : Text} (h : ∀ c ∈ name, isWord c = true ∨ c = '-') :
    IsMarker (name ++ ['=']) := by
  refine ⟨List.forall_mem_append.mpr ⟨fun c hc => ?_, List.forall_mem_singleton.mpr (by decide)⟩,
    List.suffix_append _ _⟩
  rcases h c hc with hw | rfl
  · rw [isMarkerChar, hw]
    rfl
  · decide

theorem outside_isMarkerChar : Hash.Outside isMarkerChar := forall_of_any (by decide)

theorem not_isMarkerChar_of_isBlank {c : Char} (h : isBlank c = true) : isMarkerChar c = false := by
  rw [isMarkerChar, not_isWord_of_isBlank h, Bool.false_or, Bool.or_eq_false_iff,
    beq_eq_false_iff_ne, beq_eq_false_iff_ne]
  constructor <;>
  · rintro rfl
    exact absurd h (by decide)

namespace IsMarker

variable {marker : Text}

theorem ne_nil (h : IsMarker marker) : marker ≠ [] := by
  rintro rfl
  exact absurd (List.suffix_nil.mp h.last) (by decide)

theorem not_mem_feed (h : IsMarker marker) : '\n' ∉ marker :=
  not_mem_of_forall (by decide) h.chars

/-- No indentation runs into a marker. -/
theorem indentation_append (h : IsMarker marker) (a b : Text) :
    indentation (a ++ (marker ++ b)) = indentation a := by
  obtain ⟨c, marker, rfl⟩ := List.exists_cons_of_ne_nil h.ne_nil
  have hc := h.chars c List.mem_cons_self
  refine indentation_append_cons ?_ ?_ a _ <;>
  · rintro rfl
    exact absurd hc (by decide)

/-- No marker ends inside of a call: it would end with its equals sign inside the function. -/
theorem not_suffix_append (h : IsMarker marker) {function x v : Text}
    (hword : ∀ c ∈ function, isWord c = true) (hcall : ¬ marker <:+: function ++ '(' :: x)
    (hv : v <+: function ++ '(' :: x) (hne : v ≠ []) (a : Text) : ¬ marker <:+ a ++ v := by
  intro hs
  rcases List.suffix_or_suffix_of_suffix hs (List.suffix_append a v) with hm | hm
  · exact hcall (hm.isInfix.trans hv.isInfix)
  have hparen : '(' ∉ v := fun hp => absurd (h.chars _ (hm.subset hp)) (by decide)
  have hfunction : v <+: function := (prefix_append_cons_iff hparen).mp hv
  have hequals : ['='] <:+ v := by
    refine List.suffix_of_suffix_length_le h.last hm ?_
    exact List.length_pos_iff.mpr hne
  exact absurd (hword _ (hfunction.subset (hequals.subset List.mem_cons_self))) (by decide)

end IsMarker

/-! ## References -/

theorem lastCut?_append_self {lit : Text} (hne : lit ≠ []) (s : Text) :
    lastCut? lit (s ++ lit) = some (s, []) := by
  have hcut : cut? lit.reverse (lit.reverse ++ s.reverse) = some ([], s.reverse) := by
    refine cut?_append_append (a := []) (by simpa using hne) (fun hi => ?_) s.reverse
    have hlen := hi.length_le
    have hpos := List.length_pos_iff.mpr hne
    simp only [List.nil_append, List.length_dropLast, List.length_reverse] at hlen
    omega
  rw [lastCut?, List.reverse_append, hcut]
  simp

/-- The last occurrence is an earlier one, if none ends with the last character. -/
theorem lastCut?_concat {lit s : Text} {c : Char} (h : ¬ lit <:+ s ++ [c]) :
    lastCut? lit (s ++ [c]) = (lastCut? lit s).map fun parts => (parts.1, parts.2 ++ [c]) := by
  have hnone : after? lit.reverse (c :: s.reverse) = none := by
    rw [after?_eq_none_iff]
    intro hp
    exact h (List.reverse_prefix.mp (by simpa using hp))
  rw [lastCut?, List.reverse_append, List.reverse_singleton, List.singleton_append, cut?, hnone]
  cases hcut : cut? lit.reverse s.reverse with
  | none => simp [lastCut?, hcut]
  | some parts => simp [lastCut?, hcut]

/-- The indentation of the line on which the last reference attribute of a text starts. -/
def referenceIn (marker a : Text) : Option Text :=
  (lastCut? marker a).map fun parts => indentation (lastLine parts.1)

theorem referenceAt_append {style : Style} (hm : IsMarker style.marker) (a b : Text) :
    referenceAt style (a ++ b) a.length = referenceIn style.marker a := by
  rw [referenceAt, List.take_left, referenceIn]
  refine Option.map_congr fun parts hp => ?_
  have ha := lastCut?_eq_some hp
  rw [ha, List.append_assoc, List.append_assoc, indentationAt_append, hm.indentation_append]

section References

variable {marker : Text}

theorem referenceIn_append_self (hne : marker ≠ []) (a : Text) :
    referenceIn marker (a ++ marker) = some (indentation (lastLine a)) := by
  rw [referenceIn, lastCut?_append_self hne, Option.map_some]

theorem referenceIn_concat {a : Text} {c : Char} (h : ¬ marker <:+ a ++ [c]) :
    referenceIn marker (a ++ [c]) = referenceIn marker a := by
  rw [referenceIn, lastCut?_concat h, Option.map_map]
  rfl

theorem referenceIn_append {a u : Text}
    (h : ∀ v, v ≠ [] → v <+: u → ¬ marker <:+ a ++ v) :
    referenceIn marker (a ++ u) = referenceIn marker a := by
  induction u using List.reverseRecOn with
  | nil => rw [List.append_nil]
  | append_singleton u c ih =>
    have hlast := h (u ++ [c]) (by simp) (List.prefix_refl _)
    rw [← List.append_assoc] at hlast ⊢
    rw [referenceIn_concat hlast]
    exact ih fun v hne hv => h v hne (hv.trans (List.prefix_append u [c]))

/-! ## Places that match -/

/-- What comes behind the texts `a` and `b` is laid out alike: they have the same reference, the
lines that start in them get the same indentation, and they end alike as far as an attribute can
reach back into them. -/
structure Aligned (marker a b : Text) : Prop where
  reference : referenceIn marker b = referenceIn marker a
  line : ∀ u, indentation (lastLine b ++ u) = indentation (lastLine a ++ u)
  run : ∀ u, (∀ c ∈ u, isMarkerChar c = true) → (u <:+ b ↔ u <:+ a)

namespace Aligned

variable {a b : Text}

theorem refl (a : Text) : Aligned marker a a := ⟨rfl, fun _ => rfl, fun _ _ => Iff.rfl⟩

theorem line_concat (h : Aligned marker a b) (c : Char) (u : Text) :
    indentation (lastLine (b ++ [c]) ++ u) = indentation (lastLine (a ++ [c]) ++ u) := by
  by_cases hc : c = '\n'
  · rw [hc, lastLine_append_feed List.not_mem_nil, lastLine_append_feed List.not_mem_nil]
  · have hone : '\n' ∉ [c] := fun hm => hc (List.mem_singleton.mp hm).symm
    rw [lastLine_append hone, lastLine_append hone, List.append_assoc, List.append_assoc]
    exact h.line ([c] ++ u)

theorem run_concat (h : Aligned marker a b) (c : Char) {u : Text}
    (hu : ∀ d ∈ u, isMarkerChar d = true) : u <:+ b ++ [c] ↔ u <:+ a ++ [c] := by
  rw [List.suffix_concat_iff, List.suffix_concat_iff]
  refine or_congr Iff.rfl (exists_congr fun v => and_congr_right fun he => ?_)
  exact h.run v fun d hd => hu d (by rw [he]; exact List.mem_append_left _ hd)

theorem concat (hm : IsMarker marker) (h : Aligned marker a b) (c : Char) :
    Aligned marker (a ++ [c]) (b ++ [c]) := by
  refine ⟨?_, h.line_concat c, fun u hu => h.run_concat c hu⟩
  by_cases hs : marker <:+ a ++ [c]
  · -- the line on which the new attribute starts is the one that the two texts end with
    obtain ⟨x, hx⟩ := hs
    obtain ⟨y, hy⟩ := (h.run_concat c hm.chars).mpr ⟨x, hx⟩
    have hline := h.line_concat c []
    rw [← hx, ← hy, lastLine_append hm.not_mem_feed, lastLine_append hm.not_mem_feed,
      List.append_assoc, List.append_assoc, hm.indentation_append, hm.indentation_append] at hline
    rw [← hx, ← hy, referenceIn_append_self hm.ne_nil, referenceIn_append_self hm.ne_nil, hline]
  · rw [referenceIn_concat hs, referenceIn_concat fun hb => hs ((h.run_concat c hm.chars).mp hb),
      h.reference]

theorem append (hm : IsMarker marker) (h : Aligned marker a b) (u : Text) :
    Aligned marker (a ++ u) (b ++ u) := by
  induction u generalizing a b with
  | nil => rwa [List.append_nil, List.append_nil]
  | cons c u ih =>
    rw [List.append_cons, List.append_cons b]
    exact ih (h.concat hm c)

/-- Behind a call that was laid out there is its reference, and the line that it ends on starts with
the indentation of the line on which the old call stands. -/
theorem relaid (hm : IsMarker marker) (h : Aligned marker a b) {function x y x' y' : Text}
    (hword : ∀ c ∈ function, isWord c = true) (hold : ¬ marker <:+: function ++ '(' :: x)
    (hnew : ¬ marker <:+: function ++ '(' :: y) {parts : Text × Text}
    (hparts : lastCut? marker a = some parts) (hflat : '\n' ∉ parts.2 ++ (function ++ '(' :: x))
    (hx : x = x' ++ [')']) (hy : y = y' ++ '\n' :: (indentation (lastLine parts.1) ++ ['}', ')'])) :
    Aligned marker (a ++ (function ++ '(' :: x)) (b ++ (function ++ '(' :: y)) := by
  refine ⟨?_, fun u => ?_, fun u hu => ?_⟩
  · rw [referenceIn_append fun v hne hv => hm.not_suffix_append hword hnew hv hne b,
      referenceIn_append fun v hne hv => hm.not_suffix_append hword hold hv hne a, h.reference]
  · have hlast : '\n' ∉ indentation (lastLine parts.1) ++ ['}', ')'] := by
      intro hmem
      rcases List.mem_append.mp hmem with hmem | hmem
      · exact absurd (indentation_all _ _ hmem) (by decide)
      · exact absurd hmem (by decide)
    have hline : '\n' ∉ marker ++ (parts.2 ++ (function ++ '(' :: x)) := fun hmem =>
      (List.mem_append.mp hmem).elim hm.not_mem_feed hflat
    have ha : a ++ (function ++ '(' :: x) =
        parts.1 ++ (marker ++ (parts.2 ++ (function ++ '(' :: x))) := by
      rw [lastCut?_eq_some hparts]
      simp only [List.append_assoc]
    have hb : b ++ (function ++ '(' :: y) = (b ++ (function ++ '(' :: y')) ++
        '\n' :: (indentation (lastLine parts.1) ++ ['}', ')']) := by
      rw [hy]
      simp only [List.append_assoc, List.cons_append]
    rw [ha, hb, lastLine_append_feed hlast, lastLine_append hline]
    simp only [List.append_assoc, List.cons_append]
    rw [hm.indentation_append, indentation_append_cons (by decide) (by decide),
      indentation_eq_self (indentation_all _)]
  · -- no attribute reaches back over the parenthesis
    have hnil : ∀ z, u <:+ z ++ [')'] → u = [] := by
      intro z hs
      rcases List.suffix_concat_iff.mp hs with he | ⟨v, he, _⟩
      · exact he
      · exact absurd (hu ')' (by simp [he])) (by decide)
    constructor
    · intro hs
      rw [hnil (b ++ (function ++ '(' :: (y' ++ '\n' :: (indentation (lastLine parts.1) ++ ['}']))))
        (by simpa [hy] using hs)]
      exact List.nil_suffix
    · intro hs
      rw [hnil (a ++ (function ++ '(' :: x')) (by simpa [hx] using hs)]
      exact List.nil_suffix

end Aligned

end References

/-! ## Documents -/

section Documents

variable {style : Style} {newline s t : Text}

/-- The call stands on the line on which the last reference attribute before it starts, does not
hold the text that starts one, and each bare key of its hash has a value. -/
structure Attached (style : Style) (s : Text) (f : Located Call) : Prop where
  line : ∀ parts ∈ lastCut? style.marker (s.take f.start), '\n' ∉ parts.2 ++ f.text
  marker : ¬ style.marker <:+: f.text
  valued : Hash.Valued f.value.body

instance (style : Style) (s : Text) (f : Located Call) : Decidable (Attached style s f) :=
  decidable_of_iff ((∀ parts ∈ lastCut? style.marker (s.take f.start), '\n' ∉ parts.2 ++ f.text) ∧
      ¬ style.marker <:+: f.text ∧ Hash.Valued f.value.body)
    ⟨fun ⟨hl, hm, hv⟩ => ⟨hl, hm, hv⟩, fun ⟨hl, hm, hv⟩ => ⟨hl, hm, hv⟩⟩

theorem referenceAt_eq_referenceIn (hm : IsMarker style.marker) {functions : List Text}
    {f : Located Call} (hf : f ∈ locate 0 (scan (Call.read functions) s)) :
    referenceAt style s f.start = referenceIn style.marker (s.take f.start) := by
  obtain ⟨u, hs, hlen⟩ := exists_take_append hf
  have h := referenceAt_append hm (s.take f.start) (f.text ++ u)
  rwa [← hs, hlen] at h

/-- The text of an attached call and what takes its place end alike for what follows them. -/
theorem Aligned.remade (hf : AreWords style.functions) (hm : IsMarker style.marker)
    (hn : Blank newline) (hnl : ['\n'] <:+ newline) (hu : Blank style.indentUnit)
    {f : Located Call} (hmem : f ∈ locate 0 (scan (Call.read style.functions) s))
    (hs : (editOf style newline s f).isSome → Attached style s f) {c : Call} {new b : Text}
    (hmade : Call.Remade style newline s f c new) (h : Aligned style.marker (s.take f.start) b) :
    Aligned style.marker (s.take f.start ++ f.text) (b ++ new) := by
  cases hmade with
  | same _ => exact h.append hm f.text
  | @relaid reference out e href hout hnew hedit =>
    obtain ⟨hline, hmarker, _⟩ := hs (by rw [hedit]; rfl)
    obtain ⟨hfunction, hspelled⟩ := spelled_of_mem_locate hf hmem
    obtain ⟨last, rest, hr⟩ :=
      read_of_mem_scanFrom (Call.read_consumes style.functions) (mem_of_mem_locate hmem)
    have hblank : ∀ {u : Text}, Blank u → ∀ c ∈ u, isMarkerChar c = false :=
      fun hu c hc => not_isMarkerChar_of_isBlank (hu c hc)
    have hnone : ¬ style.marker <:+: e.replacement := fun hi =>
      hmarker ((Call.redrawn_layout outside_isMarkerChar (hblank hu) (hblank hn)
        (hblank (blank_of_referenceAt href)) hr hnew).runsIn _ hm.chars hi)
    rw [referenceAt_eq_referenceIn hm hmem] at href
    obtain ⟨parts, hparts, rfl⟩ := Option.map_eq_some_iff.mp href
    have hline := hline parts hparts
    obtain ⟨gap, gap', gap'', gap₃, _, _, _, _, htext⟩ := hspelled.text
    obtain ⟨w, rfl⟩ := hnl
    rw [Call.layout, hout, Option.map_some, Option.some.injEq] at hnew
    have hnew : e.replacement = f.value.function ++ '(' :: (f.value.route ++ ([',', ' ', '{'] ++
        (w ++ '\n' :: (out ++ (w ++ '\n' :: (indentation (lastLine parts.1) ++ ['}', ')'])))))) := by
      rw [← hnew]
      simp
    have hx : gap ++ (f.value.route ++ (gap' ++ ',' :: (gap'' ++ '{' :: (f.value.body ++ '}' ::
        (gap₃ ++ [')']))))) = gap ++ (f.value.route ++ (gap' ++ ',' :: (gap'' ++ '{' ::
          (f.value.body ++ '}' :: gap₃)))) ++ [')'] := by
      simp only [List.append_assoc, List.cons_append]
    have hy : f.value.route ++ ([',', ' ', '{'] ++ (w ++ '\n' :: (out ++ (w ++ '\n' ::
        (indentation (lastLine parts.1) ++ ['}', ')']))))) = f.value.route ++ ([',', ' ', '{'] ++
          (w ++ '\n' :: (out ++ w))) ++ '\n' :: (indentation (lastLine parts.1) ++ ['}', ')']) := by
      simp only [List.append_assoc, List.cons_append]
    rw [htext] at hmarker hline ⊢
    rw [hnew] at hnone ⊢
    exact h.relaid hm (hf _ hfunction) hmarker hnone hparts hline hx hy

/-- Calls of the new document have the references of those that they took the place of. -/
theorem referenceAt_of_attached (hf : AreWords style.functions) (hm : IsMarker style.marker)
    (hn : Blank newline) (hnl : ['\n'] <:+ newline) (hu : Blank style.indentUnit)
    (ht : layout style newline s = t)
    (hs : ∀ f ∈ locate 0 (scan (Call.read style.functions) s),
      (editOf style newline s f).isSome → Attached style s f) :
    ∀ g ∈ locate 0 (scan (Call.read style.functions) t),
      ∃ f ∈ locate 0 (scan (Call.read style.functions) s),
        Call.Remade style newline s f g.value g.text ∧
          referenceAt style t g.start = referenceAt style s f.start := by
  have hmade := rescan_layout hf hn hu s
  rw [ht] at hmade
  intro g hg
  obtain ⟨f, hf', hmade, haligned⟩ := hmade.exists_before (Aligned style.marker) (a := []) (b := [])
    rfl (flatMap_text_scan _ s).symm (flatMap_text_scan _ t).symm (.refl [])
    (fun _ _ c h => h.concat hm c)
    (fun f hf' _ _ _ hmade h => h.remade hf hm hn hnl hu hf' (hs f hf') hmade) g hg
  refine ⟨f, hf', hmade, ?_⟩
  rw [referenceAt_eq_referenceIn hm hg, referenceAt_eq_referenceIn hm hf', haligned.reference]

/-- The last line of each hash shows the indentation of its reference attribute, if the calls that
were laid out stood on the lines of their attributes. -/
theorem isSuffix_of_attached (hf : AreWords style.functions) (hm : IsMarker style.marker)
    (hn : Blank newline) (hnl : ['\n'] <:+ newline) (hu : Blank style.indentUnit)
    (ht : layout style newline s = t)
    (hs : ∀ f ∈ locate 0 (scan (Call.read style.functions) s),
      (editOf style newline s f).isSome → Attached style s f) :
    ∀ g ∈ locate 0 (scan (Call.read style.functions) t), ∀ reference ∈ referenceAt style t g.start,
      Hash.properties g.value.body ≠ [] → newline ++ reference <:+ g.value.body := by
  intro g hg reference href hp
  obtain ⟨f, _, hmade, hreference⟩ := referenceAt_of_attached hf hm hn hnl hu ht hs g hg
  exact hmade.isSuffix (hreference ▸ href) hp

/-- Laying out leaves a document whose calls stood on the lines of their attributes as it laid it
out. -/
theorem relayout_of_attached {name : Text} (hf : ∀ f ∈ style.functions, ∀ c ∈ f, isWord c = true)
    (hm : style.marker = name ++ ['=']) (hname : ∀ c ∈ name, isWord c = true ∨ c = '-')
    (hn : newline = "\n".toList ∨ newline = "\r\n".toList)
    (hu : ∀ c ∈ style.indentUnit, c = ' ' ∨ c = '\t')
    (hs : ∀ f ∈ locate 0 (scan (Call.read style.functions) s),
      (editOf style newline s f).isSome → Attached style s f) :
    layout style newline (layout style newline s) = layout style newline s := by
  have hmarker : IsMarker style.marker := hm ▸ isMarker_of_name hname
  have hblank := blank_of_newline hn
  have hfeed := feed_isSuffix_of_newline hn
  have hunit := blank_of_space_or_tab hu
  refine (layout_eq_self_iff hf hblank hfeed hunit rfl fun f hf' he => (hs f hf' he).valued).mpr ?_
  exact isSuffix_of_attached hf hmarker hblank hfeed hunit rfl hs

/-- Two attributes and three calls on one line, the last of which has no parameters, and a call
before the first attribute. -/
theorem relayout_of_attached_line :
    let first := "path('z', \x7bx: 1\x7d)\n\t<a href=\"path('a', \x7b"
    let s := (first ++ "x: 1\x7d)\" path('b', \x7by: 2, z: 3\x7d) <b href=path('c', \x7b" ++
      "x: 1\x7d) path('d', \x7b\x7d)>").toList
    let t := (first ++ "\n\t    'x': 1\n\t\x7d)\" path('b', \x7b\n\t    'y': 2,\n\t    'z': 3\n\t\x7d) " ++
      "<b href=path('c', \x7b\n\t    'x': 1\n\t\x7d) path('d', \x7b\x7d)>").toList
    layout .default "\n".toList s = t ∧ layout .default "\n".toList t = t := by
  intro first s t
  have ht : layout .default "\n".toList s = t := by decide +kernel
  have hf : AreWords Style.default.functions := areNames_path.areWords
  have h := @relayout_of_attached .default "\n".toList s "href".toList hf rfl
    (forall_of_all (by decide)) (.inl rfl) (forall_of_all (by decide)) (by decide +kernel)
  rw [ht] at h
  exact ⟨ht, h⟩

end Documents

end TwigLayout.Route
