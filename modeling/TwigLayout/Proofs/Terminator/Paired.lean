import TwigLayout.Proofs.Terminator.Reflow

/-!
# Line feeds behind carriage returns

A document is *paired* if every line feed stands behind a carriage return.

1. `paired_replaceAll_iff`: a text of its own lines in the place of a token makes no difference.
2. `Layout.paired_reflow`: a paired document with a line end stays paired when it is laid out.
3. `Layout.eq_or_feed_of_reflow`: laying out leaves a document as it is, or with a line feed.
-/

namespace TwigLayout

open Text

/-- Every line feed stands behind a carriage return. -/
def Paired (s : Text) : Prop := ∀ a b, s = a ++ '\n' :: b → ['\r'] <:+ a

section Texts

variable {s t a b : Text}

theorem paired_of_not_mem (h : '\n' ∉ s) : Paired s := by
  rintro a b rfl
  exact absurd (by simp) h

theorem Paired.head?_ne (h : Paired s) : s.head? ≠ some '\n' := by
  intro hs
  obtain ⟨b, rfl⟩ := List.head?_eq_some_iff.mp hs
  exact absurd (h [] b rfl) (by simp)

theorem Paired.append (ha : Paired a) (hb : Paired b) : Paired (a ++ b) := by
  intro x y he
  rcases List.append_eq_append_iff.mp he with ⟨w, rfl, hw⟩ | ⟨w, rfl, hw⟩
  · exact (hb w y hw).trans (List.suffix_append a w)
  · cases w with
    | nil => exact absurd (congrArg List.head? hw.symm) hb.head?_ne
    | cons c w =>
      obtain ⟨rfl, _⟩ := List.cons.inj hw
      exact ha x w rfl

theorem Paired.of_isPrefix (h : Paired t) (hs : s <+: t) : Paired s := by
  obtain ⟨u, rfl⟩ := hs
  rintro a b rfl
  exact h a (b ++ u) (by simp)

theorem Paired.of_append_right (h : Paired (a ++ b)) (hb : b.head? ≠ some '\n') : Paired b := by
  rintro x y rfl
  cases x with
  | nil => exact absurd rfl hb
  | cons c x =>
    have hp := h (a ++ c :: x) y (by simp)
    exact List.suffix_of_suffix_length_le hp (List.suffix_append a (c :: x)) (by simp)

theorem Paired.of_isInfix (h : Paired t) (hs : s <:+: t) (hh : s.head? ≠ some '\n') : Paired s := by
  obtain ⟨a, b, rfl⟩ := hs
  exact (h.of_isPrefix (List.prefix_append (a ++ s) b)).of_append_right hh

theorem paired_crlf : Paired ['\r', '\n'] := by
  intro a b he
  rcases a with _ | ⟨c, _ | ⟨d, a⟩⟩
  · cases he
  · cases he
    exact List.suffix_refl _
  · simp at he

/-- A text without a carriage return before a line feed is paired only if it has no line feed. -/
theorem Bare.paired_iff (h : Bare s) : Paired s ↔ '\n' ∉ s := by
  refine ⟨fun hp hm => ?_, paired_of_not_mem⟩
  obtain ⟨a, b, rfl⟩ := List.append_of_mem hm
  obtain ⟨u, rfl⟩ := hp a b rfl
  exact bare_iff.mp h ⟨u, b, by simp⟩

theorem paired_intercalate {sep : Text} (hsep : Paired sep) {lines : List Text}
    (h : ∀ l ∈ lines, Paired l) : Paired (sep.intercalate lines) :=
  intercalate_induction (paired_of_not_mem List.not_mem_nil)
    (fun ha hb => (ha.append hsep).append hb) h

/-! ## Replaced parts -/

/-- A text that starts with another character than a line feed, and ends with another one than a
carriage return, stands apart from what is around it. -/
theorem paired_append_append_iff (hh : s.head? ≠ some '\n') (hne : s ≠ [])
    (hl : s.getLast? ≠ some '\r') : Paired (a ++ s ++ b) ↔ Paired a ∧ Paired s ∧ Paired b := by
  constructor
  · intro h
    have hb : b.head? ≠ some '\n' := by
      intro hb
      obtain ⟨b, rfl⟩ := List.head?_eq_some_iff.mp hb
      obtain ⟨u, hu⟩ := h (a ++ s) b rfl
      refine hl ?_
      rw [← List.getLast?_append_of_ne_nil a hne, ← hu, List.getLast?_concat]
    refine ⟨h.of_isPrefix ⟨s ++ b, by simp⟩, h.of_isInfix ⟨a, b, rfl⟩ hh, h.of_append_right hb⟩
  · rintro ⟨ha, hs, hb⟩
    exact (ha.append hs).append hb

/-- A paired text in the place of a text without line ends makes no difference. -/
theorem paired_replaceAll_iff {old new : Text} (hne : old ≠ []) (hold : '\r' ∉ old ∧ '\n' ∉ old)
    (hnew : Paired new) (hnne : new ≠ []) (hl : new.getLast? ≠ some '\r') (s : Text) :
    Paired (replaceAll old new s) ↔ Paired s := by
  -- by the length of the text, as the search goes on behind each occurrence
  induction hn : s.length using Nat.strongRecOn generalizing s with
  | ind n ih =>
    cases hcut : cut? old s with
    | none => rw [replaceAll_eq_self (cut?_eq_none_iff.mp hcut)]
    | some parts =>
      obtain ⟨a, b⟩ := parts
      have hs := cut?_eq_some hcut
      have hlen : b.length < n := by
        have hpos := List.length_pos_of_ne_nil hne
        rw [← hn, hs]
        simp only [List.length_append]
        omega
      have hhead : old.head? ≠ some '\n' := fun h => hold.2 (List.mem_of_head? h)
      have hlast : old.getLast? ≠ some '\r' := fun h => hold.1 (List.mem_of_getLast? h)
      rw [replaceAll_eq_of_cut? new hne hcut, paired_append_append_iff hnew.head?_ne hnne hl,
        ih b.length hlen b rfl, hs, paired_append_append_iff hhead hne hlast]
      exact and_congr_right' (and_congr_left' (iff_of_true hnew (paired_of_not_mem hold.2)))

variable {α : Type} {f : Located α → Option Text} {pieces : List (Piece α)} {i : Nat}

/-- Paired texts in the place of findings that end with another character than a carriage return. -/
theorem paired_replacePieces (hf : ∀ g ∈ locate i pieces, ∀ new, f g = some new →
      g.text ≠ [] ∧ g.text.head? ≠ some '\n' ∧ g.text.getLast? ≠ some '\r' ∧
        (Paired g.text → Paired new)) (hs : Paired (a ++ pieces.flatMap Piece.text)) :
    Paired (a ++ replacePieces f i pieces) := by
  -- with the text in front, as a carriage return may be the last of it
  fun_induction replacePieces f i pieces generalizing a with
  | case1 => exact hs
  | case2 i c pieces ih =>
    rw [List.append_cons]
    exact ih hf (by simpa [Piece.text] using hs)
  | case3 i value text pieces ih =>
    have hf' := fun g hg => hf g (List.mem_cons_of_mem _ hg)
    rw [List.flatMap_cons, Piece.text, ← List.append_assoc] at hs
    rw [← List.append_assoc]
    cases hnew : f ⟨i, value, text⟩ with
    | none => exact ih hf' hs
    | some new =>
      obtain ⟨hne, hh, hl, hpaired⟩ := hf _ List.mem_cons_self new hnew
      obtain ⟨ha, htext, hrest⟩ := (paired_append_append_iff hh hne hl).mp hs
      have hrest := ih hf' (show Paired ([] ++ _) from hrest)
      exact (ha.append (hpaired htext)).append hrest

/-- Findings are all left as they are, or one of the texts in their place shows. -/
theorem eq_or_feed_of_replacePieces (hf : ∀ g ∈ locate i pieces, ∀ new, f g = some new → '\n' ∈ new)
    (hs : pieces.flatMap Piece.text = s) :
    replacePieces f i pieces = s ∨ '\n' ∈ replacePieces f i pieces := by
  by_cases hnone : ∀ g ∈ locate i pieces, f g = none
  · exact .inl (hs ▸ replacePieces_eq_flatMap fun g hg => by rw [hnone g hg]; rfl)
  · obtain ⟨g, hg, hsome⟩ : ∃ g ∈ locate i pieces, f g ≠ none := by simpa using hnone
    obtain ⟨new, hnew⟩ := Option.ne_none_iff_exists'.mp hsome
    have hi := infix_replacePieces (f := f) hg
    rw [hnew] at hi
    exact .inr (hi.subset (hf g hg new hnew))

end Texts

/-! ## Literals -/

namespace Hash

theorem paired_quoteKey {property : Text} (hp : Paired property) : Paired (quoteKey property) := by
  rw [quoteKey]
  split
  · next key value hk =>
    obtain ⟨gap, gap', he, _, _, hkey, htrim⟩ := exists_of_bareKey? hk
    have hquoted : Paired ('\'' :: key ++ ['\'', ':', ' ']) := by
      refine paired_of_not_mem fun hm => ?_
      have hkey' : '\n' ∉ key := fun hm => absurd (hkey _ hm) (by decide)
      simp [hkey'] at hm
    -- the value starts behind the white space after its colon
    have hvalue : value.head? ≠ some '\n' := by
      intro hv
      obtain ⟨v, rfl⟩ := List.head?_eq_some_iff.mp hv
      exact absurd (not_isBlank_of_trimLeft htrim) (by decide)
    refine hquoted.append (Paired.of_append_right (a := key ++ (gap ++ ':' :: gap')) ?_ hvalue)
    rw [he] at hp
    simpa using hp
  · exact hp

theorem paired_layout {body indent newline out : Text} (hb : ∀ p ∈ properties body, Paired p)
    (hi : '\n' ∉ indent) (hn : Paired newline) (h : layout body indent newline = some out) :
    Paired out := by
  obtain ⟨_, rfl⟩ := layout_eq_some_iff.mp h
  have hsep : Paired (',' :: newline) := (paired_of_not_mem (s := [',']) (by decide)).append hn
  refine paired_intercalate hsep fun l hl => ?_
  obtain ⟨q, hq, rfl⟩ := List.mem_map.mp hl
  obtain ⟨p, hp, rfl⟩ := List.mem_map.mp hq
  exact (paired_of_not_mem hi).append (paired_quoteKey (hb p hp))

/-- The properties of a literal in a paired text. -/
theorem paired_of_mem_properties {body t : Text} (ht : Paired t) (hb : body <:+: t) :
    ∀ p ∈ properties body, Paired p := by
  intro p hp
  refine ht.of_isInfix ((infix_of_mem_properties hp).trans hb) fun hh => ?_
  obtain ⟨c, u, rfl, hc⟩ := (mem_properties hp).head
  cases hh
  exact absurd hc (by decide)

end Hash

theorem feed_not_mem_of_space_or_tab {s : Text} (h : ∀ c ∈ s, c = ' ' ∨ c = '\t') : '\n' ∉ s :=
  fun hm => absurd (h _ hm) (by decide)

/-! ## Merge statements -/

namespace Merge

variable {style : Style} {newline : Text}

theorem Statement.paired_layout (hu : ∀ c ∈ style.indentUnit, c = ' ' ∨ c = '\t')
    (hn : Paired newline) {base : Text} (hbase : ∀ c ∈ base, c = ' ' ∨ c = '\t') {m : Statement}
    {old new : Text} (hm : m.Spelled old) (hold : Paired old)
    (h : m.layout style newline base = some new) : Paired new := by
  obtain ⟨out, hout, hnew⟩ := Option.map_eq_some_iff.mp h
  obtain ⟨opening, gap, gap', _, _, _, rfl⟩ := hm.text
  have hu := feed_not_mem_of_space_or_tab hu
  have hbase := feed_not_mem_of_space_or_tab hbase
  have hhead : Paired (trimRight m.head) :=
    hold.of_isPrefix ((trimRight_isPrefix m.head).trans (List.prefix_append _ _))
  have hbody : Paired out := by
    refine Hash.paired_layout (Hash.paired_of_mem_properties hold ?_) (by simp [hbase, hu]) hn hout
    exact List.infix_append_of_infix_right (List.infix_append_of_infix_right List.infix_append_left)
  have hclose : '\n' ∉ m.close := by
    rcases hm.close with hc | hc <;> (rw [hc]; decide)
  have hopen : Paired ("|merge(".toList ++ ['{']) := paired_of_not_mem (by decide)
  have hend : Paired (base ++ (style.indentUnit ++ (['}', ')', ' '] ++ m.close))) :=
    paired_of_not_mem (by simp [hbase, hu, hclose])
  have hall := hhead.append (hopen.append (hn.append (hbody.append (hn.append hend))))
  rw [← hnew]
  simpa using hall

theorem paired_layout (hb : style.block = .block)
    (hu : ∀ c ∈ style.indentUnit, c = ' ' ∨ c = '\t') (hn : Paired newline) {s : Text}
    (hs : Paired s) : Paired (layout style newline s).1 := by
  have hpieces : (scan (Statement.read style.block) s).flatMap Piece.text = s :=
    flatMap_text_scan _ s
  rw [layout, layoutPieces_flatMap]
  refine paired_replacePieces (a := []) (fun g hg new hnew => ?_) (hpieces.symm ▸ hs)
  obtain ⟨last, rest, hr⟩ :=
    read_of_mem_scanFrom (Statement.read_consumes style.block) (mem_of_mem_locate hg)
  have hspelled := Statement.Spelled.of_read hb hr
  obtain ⟨x, y, z, he, _⟩ := hspelled.braces
  refine ⟨hspelled.ne_nil, ?_, ?_, fun hold =>
    Statement.paired_layout hu hn (indentation_all _) hspelled hold hnew⟩
  · rw [he, List.head?_cons]
    decide
  · rw [he, show '{' :: (x ++ '{' :: (y ++ '}' :: (z ++ ['}']))) =
      '{' :: (x ++ '{' :: (y ++ '}' :: z)) ++ ['}'] by simp, List.getLast?_concat]
    decide

theorem eq_or_feed_of_layout (hn : '\n' ∈ newline) (s : Text) :
    (layout style newline s).1 = s ∨ '\n' ∈ (layout style newline s).1 := by
  rw [layout, layoutPieces_flatMap]
  refine eq_or_feed_of_replacePieces (fun g _ new hnew => ?_) (flatMap_text_scan _ s)
  obtain ⟨out, _, rfl⟩ := Option.map_eq_some_iff.mp hnew
  simp [hn]

end Merge

/-! ## Route calls -/

namespace Route

variable {style : Style} {newline : Text}

theorem Call.paired_layout (hu : ∀ c ∈ style.indentUnit, c = ' ' ∨ c = '\t')
    (hn : Paired newline) {reference : Text} (href : ∀ c ∈ reference, c = ' ' ∨ c = '\t')
    {c : Call} {old new : Text} (hword : ∀ d ∈ c.function, isWord d = true) (hc : c.Spelled old)
    (hold : Paired old) (h : c.layout style newline reference = some new) : Paired new := by
  obtain ⟨out, hout, hnew⟩ := Option.map_eq_some_iff.mp h
  obtain ⟨q, name, hq, _, hroute⟩ := hc.route
  obtain ⟨gap, gap', gap'', gap₃, _, _, _, _, rfl⟩ := hc.text
  have hu := feed_not_mem_of_space_or_tab hu
  have href := feed_not_mem_of_space_or_tab href
  have hopen : Paired (c.function ++ ['(']) := by
    refine paired_of_not_mem fun hm => ?_
    rcases List.mem_append.mp hm with hm | hm
    · exact absurd (hword _ hm) (by decide)
    · exact absurd hm (by decide)
  have hroute' : Paired c.route := by
    refine hold.of_isInfix ⟨c.function ++ '(' :: gap,
      gap' ++ ',' :: (gap'' ++ '{' :: (c.body ++ '}' :: (gap₃ ++ [')']))), by simp⟩ ?_
    rw [hroute]
    rintro ⟨⟩
    exact absurd hq (by decide)
  have hbody : Paired out := by
    refine Hash.paired_layout (Hash.paired_of_mem_properties hold ?_) (by simp [href, hu]) hn hout
    exact ⟨c.function ++ '(' :: (gap ++ (c.route ++ (gap' ++ ',' :: (gap'' ++ ['{'])))),
      '}' :: (gap₃ ++ [')']), by simp⟩
  have hbrace : Paired [',', ' ', '{'] := paired_of_not_mem (by decide)
  have hend : Paired (reference ++ ['}', ')']) := paired_of_not_mem (by simp [href])
  have hall := hopen.append (hroute'.append (hbrace.append (hn.append (hbody.append
    (hn.append hend)))))
  rw [← hnew]
  simpa using hall

theorem paired_layout (hf : AreNames style.functions)
    (hu : ∀ c ∈ style.indentUnit, c = ' ' ∨ c = '\t') (hn : Paired newline) {s : Text}
    (hs : Paired s) : Paired (layout style newline s) := by
  have hpieces : (scan (Call.read style.functions) s).flatMap Piece.text = s :=
    flatMap_text_scan _ s
  rw [layout_eq_replacePieces]
  refine paired_replacePieces (a := []) (fun g hg new hnew => ?_) (hpieces.symm ▸ hs)
  obtain ⟨hm, ht⟩ := spelled_of_mem_locate hf.areWords hg
  obtain ⟨e, hedit, rfl⟩ := Option.map_eq_some_iff.mp hnew
  obtain ⟨_, _, k, hnew⟩ := editOf_eq_some hedit
  obtain ⟨hne, hword⟩ := hf _ hm
  obtain ⟨d, function, hfunction⟩ := List.exists_cons_of_ne_nil hne
  obtain ⟨gap, gap', gap'', gap₃, _, _, _, _, htext⟩ := ht.text
  refine ⟨?_, ?_, ?_, fun hold => Call.paired_layout hu hn (indentation_all _) hword ht hold hnew⟩
  · rw [htext, hfunction]
    exact List.cons_ne_nil _ _
  · rw [htext, hfunction]
    rintro ⟨⟩
    exact absurd (hword '\n' (by simp [hfunction])) (by decide)
  · rw [htext, show g.value.function ++ '(' :: (gap ++ (g.value.route ++ (gap' ++ ',' ::
      (gap'' ++ '{' :: (g.value.body ++ '}' :: (gap₃ ++ [')'])))))) =
      g.value.function ++ '(' :: (gap ++ (g.value.route ++ (gap' ++ ',' ::
        (gap'' ++ '{' :: (g.value.body ++ '}' :: gap₃))))) ++ [')'] by simp, List.getLast?_concat]
    decide

theorem eq_or_feed_of_layout (hn : '\n' ∈ newline) (s : Text) :
    layout style newline s = s ∨ '\n' ∈ layout style newline s := by
  rw [layout_eq_replacePieces]
  refine eq_or_feed_of_replacePieces (fun g _ new hnew => ?_) (flatMap_text_scan _ s)
  obtain ⟨e, hedit, rfl⟩ := Option.map_eq_some_iff.mp hnew
  obtain ⟨_, _, k, hnew⟩ := editOf_eq_some hedit
  obtain ⟨out, _, hnew⟩ := Option.map_eq_some_iff.mp hnew
  rw [← hnew]
  simp [hn]

end Route

/-! ## Component tags -/

namespace Component

variable {style : Style}

/-- The lines of a paired document are what stands between its line ends. -/
theorem feed_not_mem_of_intercalate {lines : List Text}
    (h : Paired (['\r', '\n'].intercalate lines))
    (hlines : ∀ l ∈ lines, ¬ ['\r', '\n'] <:+: l) : ∀ l ∈ lines, '\n' ∉ l := by
  induction lines with
  | nil => exact fun l hl => absurd hl List.not_mem_nil
  | cons l lines ih =>
    obtain ⟨hl, hlines⟩ := List.forall_mem_cons.mp hlines
    cases lines with
    | nil =>
      rw [List.intercalate_singleton] at h
      exact List.forall_mem_singleton.mpr ((bare_iff.mpr hl).paired_iff.mp h)
    | cons l' lines =>
      rw [List.intercalate_cons_cons, paired_append_append_iff (by decide) (by decide)
        (by decide)] at h
      exact List.forall_mem_cons.mpr ⟨(bare_iff.mpr hl).paired_iff.mp h.1, ih h.2.2 hlines⟩

theorem paired_layout (hm : IsPlain style.expression)
    (hu : ∀ c ∈ style.indentUnit, c = ' ' ∨ c = '\t') {s out : Text} {n : Nat} (hs : Paired s)
    (h : layout style ['\r', '\n'] s = .ok (out, n)) : Paired out := by
  obtain ⟨hnne, parts, hparts, rfl, _⟩ := exists_blocked_of_layout h
  rw [← intercalate_splitOn hnne s] at hs
  have hlines := feed_not_mem_of_intercalate hs fun l hl => not_infix_of_mem_splitOn hnne hl
  have hnew := hparts.not_mem hm outside_feed (by decide) (feed_not_mem_of_space_or_tab hu) hlines
  exact paired_intercalate paired_crlf fun l hl => paired_of_not_mem (hnew l hl)

theorem Blocked.flatMap_lines_eq_or {lines : List Text} {parts : List Block}
    (h : Blocked style lines parts) :
    parts.flatMap Block.lines = lines ∨ 2 ≤ (parts.flatMap Block.lines).length := by
  induction h with
  | nil => exact .inl rfl
  | line _ _ ih | kept _ _ _ _ ih =>
    rw [List.flatMap_cons]
    rcases ih with ih | ih
    · exact .inl (by rw [ih]; rfl)
    · right
      rw [List.length_append]
      omega
  | laidOut _ _ hnew _ _ =>
    obtain ⟨tag, _, _, rfl⟩ := exists_tag_of_layoutSpan hnew
    right
    rw [List.flatMap_cons, List.length_append]
    simp only [Tag.lines, Block.lines, List.length_append, List.length_cons]
    omega

theorem eq_or_feed_of_layout {newline : Text} (hn : '\n' ∈ newline) {s out : Text} {n : Nat}
    (h : layout style newline s = .ok (out, n)) : out = s ∨ '\n' ∈ out := by
  obtain ⟨hnne, parts, hparts, rfl, _⟩ := exists_blocked_of_layout h
  rcases hparts.flatMap_lines_eq_or with he | htwo
  · exact .inl (he ▸ intercalate_splitOn hnne s)
  · exact .inr ((infix_intercalate_of_two_le htwo).subset hn)

end Component

/-! ## Documents -/

namespace Layout

variable {layout : Layout} {s r : Text}

/-- A paired document with a line end is paired when it is laid out. -/
theorem paired_reflow (hl : layout.Standard) (hf : Route.AreNames layout.route.functions)
    (hs : Paired s) (hcrlf : ¬ Bare s) (h : (layout.reflow s).result = .ok r) : Paired r := by
  obtain ⟨c, m, ⟨n, hc⟩, rfl, rfl⟩ := reflow_eq_ok_iff.mp h
  rw [newlineOf_of_not_bare hcrlf] at hc ⊢
  have hc := Component.paired_layout hl.isPlain (fun d hd => .inl (hl.componentUnit d hd)) hs hc
  have hm := Merge.paired_layout hl.block (fun d hd => .inl (hl.mergeUnit d hd)) paired_crlf hc
  exact Route.paired_layout hf (fun d hd => .inl (hl.routeUnit d hd)) paired_crlf hm

/-- Laying out a document leaves it as it is, or with a line feed. -/
theorem eq_or_feed_of_reflow (h : (layout.reflow s).result = .ok r) : r = s ∨ '\n' ∈ r := by
  obtain ⟨c, m, ⟨n, hc⟩, rfl, rfl⟩ := reflow_eq_ok_iff.mp h
  have hn : '\n' ∈ newlineOf s := (newlineOf_suffix s).subset (List.mem_singleton.mpr rfl)
  have hstatements : ∀ t, (Merge.layout layout.merge (newlineOf s) t).1 = t ∨
      '\n' ∈ (Merge.layout layout.merge (newlineOf s) t).1 := Merge.eq_or_feed_of_layout hn
  have hcalls : ∀ t, Route.layout layout.route (newlineOf s) t = t ∨
      '\n' ∈ Route.layout layout.route (newlineOf s) t := Route.eq_or_feed_of_layout hn
  rcases hcalls (Merge.layout layout.merge (newlineOf s) c).1 with hr | hr
  · rw [hr]
    rcases hstatements c with hm | hm
    · rw [hm]
      exact Component.eq_or_feed_of_layout hn hc
    · exact .inr hm
  · exact .inr hr

/-- A document without a carriage return before a line feed is paired when it is laid out only if it
has no line feed and is left as it is. -/
theorem paired_reflow_iff (hl : layout.Standard) (hf : Route.AreNames layout.route.functions)
    (hs : Bare s) (h : (layout.reflow s).result = .ok r) : Paired r ↔ '\n' ∉ s ∧ r = s := by
  have hr : Bare r := by
    by_contra hr
    have hn := newlineOf_reflow hl hf h
    rw [newlineOf_of_bare hs, newlineOf_of_not_bare hr] at hn
    cases hn
  rw [hr.paired_iff]
  constructor
  · intro hfeed
    have he := (eq_or_feed_of_reflow h).resolve_right hfeed
    exact ⟨he ▸ hfeed, he⟩
  · rintro ⟨hfeed, rfl⟩
    exact hfeed

end Layout

end TwigLayout
