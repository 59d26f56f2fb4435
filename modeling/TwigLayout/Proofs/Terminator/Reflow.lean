import TwigLayout.Proofs.Stable.Reflow
import TwigLayout.Proofs.Terminator.Text

/-!
# The layout under another line terminator

A document whose lines end with a carriage return and a line feed is laid out like the document
with line feeds alone (`Layout.reflow_crlf`). Each pass does the same to both.

1. `Hash.layout_reline`: the properties of a literal.
2. `Merge.layout_reline`, `Route.layout_reline`: the readers find the same statements and calls, and
   what takes their place matches.
3. `Component.layout_crlf`: the lines are the same ones.
-/

namespace TwigLayout

open Text

variable {w : Text}

/-! ## Literals -/

namespace Hash

/-- A line end leads to the same state, however it is written. -/
theorem State.Sound.run_terminator {st : State} (hst : st.Sound) (hw : IsTerminator w) :
    st.run w = st.step '\n' := by
  obtain ⟨u, hu⟩ := hw.last
  have hblank : Blank u := fun c hc => hw.blank c (hu ▸ List.mem_append_left _ hc)
  obtain ⟨_, hq, hd⟩ := hst.run_blank hblank
  have hfeed : isBlank '\n' = true := by decide
  rw [← hu, State.run_append]
  show (st.run u).step '\n' = _
  rw [((hst.run u).step_blank hfeed).2, (hst.step_blank hfeed).2, hq, hd]

theorem segments_reline (hw : IsTerminator w) {st : State} (hst : st.Sound) (s : Text) :
    segments st (reline w s) = (segments st s).map (reline w) := by
  induction s generalizing st with
  | nil =>
    rw [reline_nil, segments, List.map_singleton, reline_nil]
  | cons c s ih =>
    have ih := ih (hst.step c)
    obtain ⟨x, xs, hx⟩ := List.exists_cons_of_ne_nil (segments_ne_nil (st.step c) s)
    rw [hx] at ih
    by_cases hc : c = '\n'
    · subst hc
      obtain ⟨hsplit, _⟩ := hst.step_blank (c := '\n') (by decide)
      rw [reline_feed, hst.segments_blank_append hw.blank, hst.run_terminator hw, ih, segments,
        hsplit, hx]
      simp
    · rw [reline_cons w hc, segments, segments, ih, hx]
      split
      · simp
      · simp [reline_cons w hc]

theorem isEmpty_reline (hw : IsLineEnd w) (s : Text) : (reline w s).isEmpty = s.isEmpty := by
  cases s with
  | nil => rw [reline_nil]
  | cons c s => simp [reline_ne_nil hw.ne_nil (List.cons_ne_nil c s)]

theorem properties_reline (hw : IsTerminator w) (body : Text) :
    properties (reline w body) = (properties body).map (reline w) := by
  have htrim : trim ∘ reline w = reline w ∘ trim := funext (trim_reline hw.toIsLineEnd)
  have hempty : (fun t : Text => !t.isEmpty) ∘ reline w = fun t => !t.isEmpty :=
    funext fun t => congrArg (!·) (isEmpty_reline hw.toIsLineEnd t)
  rw [properties, segments_reline hw State.sound_start, List.map_map, htrim, ← List.map_map,
    List.filter_map, hempty, properties]

theorem bareKey?_reline (hw : IsLineEnd w) {property : Text} (ht : IsTrim property) :
    bareKey? (reline w property) = (bareKey? property).map (Prod.map id (reline w)) := by
  obtain ⟨c, s, rfl, hblank⟩ := ht.head
  have hc : c ≠ '\n' := by
    rintro rfl
    exact absurd hblank (by decide)
  have hkey : ∀ d ∈ w, isKeyChar d = isKeyChar '\n' :=
    hw.eq_of_blank fun _ => not_isKeyChar_of_isBlank
  have hname : '\n' ∉ s.takeWhile isKeyChar := fun hm =>
    absurd (List.all_eq_true.mp List.all_takeWhile _ hm) (by decide)
  rw [reline_cons w hc, bareKey?, bareKey?, dropWhile_reline hw.ne_nil hkey, trimLeft_reline hw,
    takeWhile_reline hw.ne_nil hkey, reline_of_not_mem w hname]
  split
  · cases hrest : trimLeft (s.dropWhile isKeyChar) with
    | nil => rw [reline_nil]; rfl
    | cons d rest =>
      have hd : d ≠ '\n' := by
        rintro rfl
        exact absurd (not_isBlank_of_trimLeft hrest) (by decide)
      rw [reline_cons w hd]
      by_cases hcolon : d = ':'
      · subst hcolon
        simp [trimLeft_reline hw]
      · simp [hcolon]
  · rfl

theorem quoteKey_reline (hw : IsLineEnd w) {property : Text} (ht : IsTrim property) :
    quoteKey (reline w property) = reline w (quoteKey property) := by
  rw [quoteKey, quoteKey, bareKey?_reline hw ht]
  cases hk : bareKey? property with
  | none => rfl
  | some parts =>
    obtain ⟨key, value⟩ := parts
    obtain ⟨_, _, _, _, _, hkey, _⟩ := exists_of_bareKey? hk
    have hquoted : '\n' ∉ '\'' :: key ++ ['\'', ':', ' '] := by
      intro hm
      have hm : '\n' ∈ key := by simpa using hm
      exact absurd (hkey _ hm) (by decide)
    show '\'' :: key ++ ['\'', ':', ' '] ++ reline w value = _
    rw [reline_append, reline_of_not_mem w hquoted]

theorem layout_reline (hw : IsTerminator w) {indent : Text} (hi : '\n' ∉ indent) (body : Text) :
    layout (reline w body) indent w = (layout body indent ['\n']).map (reline w) := by
  have hlines : ((properties body).map (reline w)).map (fun p => indent ++ quoteKey p) =
      ((properties body).map fun p => indent ++ quoteKey p).map (reline w) := by
    rw [List.map_map, List.map_map]
    refine List.map_congr_left fun p hp => ?_
    show indent ++ quoteKey (reline w p) = reline w (indent ++ quoteKey p)
    rw [quoteKey_reline hw.toIsLineEnd (mem_properties hp), reline_append, reline_of_not_mem w hi]
  have hcomma : reline w [',', '\n'] = ',' :: w := by
    rw [reline_cons w (by decide), reline_feed, reline_nil, List.append_nil]
  rw [layout, layout, properties_reline hw]
  cases hp : properties body with
  | nil => rfl
  | cons p ps =>
    rw [hp] at hlines
    show some _ = some (reline w _)
    rw [reline_intercalate, hcomma, ← hlines]

end Hash

/-! ## Merge statements -/

namespace Merge

/-- The statement with its line feeds written as `w`. -/
def Statement.relined (w : Text) (m : Statement) : Statement :=
  ⟨reline w m.head, reline w m.body, m.close⟩

theorem compact_opening : Compact Marks.block.opening := forall_of_any (by decide)

theorem readTarget_reline (hw : IsLineEnd w) (s : Text) :
    readTarget .block (reline w s) = (readTarget .block s).map (reline w) := by
  have hdash : ∀ s, (after? ['-'] (reline w s)).getD (reline w s) =
      reline w ((after? ['-'] s).getD s) := by
    intro s
    rw [after?_reline hw (forall_of_any (by decide))]
    cases after? ['-'] s with
    | none => rfl
    | some rest => rfl
  have htarget : ∀ d ∈ w, isTargetChar d = isTargetChar '\n' :=
    hw.eq_of_blank fun _ => not_isTargetChar_of_isBlank
  unfold readTarget
  refine bind_eq_map_bind (after?_reline hw compact_opening s) fun s₁ _ => ?_
  rw [hdash]
  refine bind_eq_map_bind (after?_trimLeft_reline hw (forall_of_any (by decide)) _) fun s₂ _ => ?_
  simp only [trimLeft_reline hw, any_head?_reline hw.ne_nil htarget,
    dropWhile_reline hw.ne_nil htarget,
    any_head?_reline hw.ne_nil (p := isBlank) (hw.eq_of_blank fun _ h => h)]
  split
  · exact after?_reline hw (forall_of_any (by decide)) _
  · rfl

theorem readMergeOpen_reline (hw : IsLineEnd w) (s : Text) :
    readMergeOpen (reline w s) = (readMergeOpen s).map (reline w) := by
  unfold readMergeOpen
  refine bind_eq_map_bind (after?_reline hw (forall_of_any (by decide)) s) fun s₁ _ => ?_
  refine bind_eq_map_bind (after?_trimLeft_reline hw (forall_of_any (by decide)) s₁) fun s₂ _ => ?_
  exact after?_trimLeft_reline hw (forall_of_any (by decide)) s₂

/-- White space before a merged literal is part of the expression. -/
theorem readUntilMerge_blank_append {b : Text} (hb : Blank b) (s : Text) :
    readUntilMerge (b ++ s) = (readUntilMerge s).map fun parts => (b ++ parts.1, parts.2) := by
  induction b with
  | nil => simp
  | cons c b ih =>
    have hblank := hb c List.mem_cons_self
    have ih := ih fun d hd => hb d (List.mem_cons_of_mem _ hd)
    have hopen : readMergeOpen (c :: (b ++ s)) = none := by
      rw [readMergeOpen, after?_eq_none_of_blank (forall_of_any (by decide)) (by simp) hblank]
      rfl
    have hc : (c == '{' || c == '}' || c == '%') = false := by
      have hexpr := isExpressionChar_of_isBlank hblank
      simpa [isExpressionChar] using hexpr
    rw [List.cons_append, readUntilMerge, hopen, ih]
    simp [hc, Function.comp_def]

theorem readUntilMerge_reline (hw : IsLineEnd w) (s : Text) :
    readUntilMerge (reline w s) =
      (readUntilMerge s).map (Prod.map (reline w) (reline w)) := by
  induction s with
  | nil => rw [reline_nil]; rfl
  | cons c s ih =>
    by_cases hc : c = '\n'
    · have hone : readUntilMerge ('\n' :: s) = _ :=
        readUntilMerge_blank_append (b := ['\n']) (.of_all (by decide)) s
      rw [hc, reline_feed, readUntilMerge_blank_append hw.blank, ih, hone]
      simp [Function.comp_def]
    · have hopen := readMergeOpen_reline hw (c :: s)
      rw [reline_cons w hc] at hopen
      rw [reline_cons w hc, readUntilMerge, readUntilMerge, hopen, ih]
      cases readMergeOpen (c :: s) with
      | some rest => simp
      | none =>
        simp only [Option.map_none]
        split
        · rfl
        · simp [Function.comp_def, reline_cons w hc]

theorem readClose_reline (hw : IsLineEnd w) (s : Text) :
    readClose .block (reline w s) = (readClose .block s).map (Prod.map id (reline w)) := by
  have hclosing : Compact Marks.block.closing := forall_of_any (by decide)
  rw [readClose, readClose, after?_reline hw (forall_of_any (by decide)),
    after?_reline hw hclosing]
  cases after? ['-'] s with
  | none => cases after? Marks.block.closing s <;> rfl
  | some s₁ =>
    simp only [Option.map_some, Option.bind_some, after?_reline hw hclosing]
    cases after? Marks.block.closing s₁ with
    | none => cases after? Marks.block.closing s <;> rfl
    | some rest => rfl

/-- No closing marker starts with white space, so that none takes it back. -/
theorem readCloseAfterBlank_eq (s : Text) :
    readCloseAfterBlank .block s = readClose .block (trimLeft s) := by
  induction s with
  | nil => rfl
  | cons c s ih =>
    rw [readCloseAfterBlank]
    split
    · next hc =>
      have hnone : readClose .block (c :: s) = none := by
        rw [readClose, after?_eq_none_of_blank (forall_of_any (by decide)) (by simp) hc,
          after?_eq_none_of_blank (forall_of_any (by decide)) (by decide) hc]
        rfl
      have htrim : trimLeft (c :: s) = trimLeft s := List.dropWhile_cons_of_pos hc
      rw [ih, hnone, htrim]
      cases readClose .block (trimLeft s) <;> rfl
    · next hc => rw [trimLeft_cons (Bool.eq_false_iff.mpr hc)]

theorem Statement.read_reline (hw : IsLineEnd w) (last : Option Char) (s : Text) :
    read .block last (reline w s) =
      (read .block last s).map (Prod.map (Statement.relined w) (reline w)) := by
  have hbody : ∀ d ∈ w, isBodyChar d = isBodyChar '\n' :=
    hw.eq_of_blank fun _ => isBodyChar_of_isBlank
  unfold read
  refine bind_eq_map_bind (readTarget_reline hw s) fun value hvalue => ?_
  refine bind_eq_map_bind (readUntilMerge_reline hw value) fun ⟨expression, literal⟩ _ => ?_
  simp only [Prod.map_apply, dropWhile_reline hw.ne_nil hbody, takeWhile_reline hw.ne_nil hbody]
  refine bind_eq_map_bind (after?_reline hw (forall_of_any (by decide)) _) fun s₁ _ => ?_
  refine bind_eq_map_bind (after?_trimLeft_reline hw (forall_of_any (by decide)) s₁) fun s₂ _ => ?_
  rw [readCloseAfterBlank_eq, readCloseAfterBlank_eq, trimLeft_reline hw]
  refine bind_eq_map_bind (readClose_reline hw _) fun ⟨close, rest⟩ _ => ?_
  obtain ⟨target, hs⟩ := readTarget_eq_some hvalue
  have htarget : (reline w s).take ((reline w s).length - (reline w value).length) =
      reline w (s.take (s.length - value.length)) := by
    rw [hs, ← List.append_assoc, reline_append, List.length_append, List.length_append,
      Nat.add_sub_cancel, Nat.add_sub_cancel, List.take_left, List.take_left]
  simp [Statement.relined, htarget, reline_append]

theorem Statement.layout_reline (hw : IsTerminator w) {style : Style}
    (hu : '\n' ∉ style.indentUnit) {base : Text} (hbase : '\n' ∉ base) {m : Statement}
    (hclose : '\n' ∉ m.close) :
    (m.relined w).layout style w base = (m.layout style ['\n'] base).map (reline w) := by
  have hindent : '\n' ∉ base ++ style.indentUnit ++ style.indentUnit := by simp [hbase, hu]
  have hopen : '\n' ∉ "|merge(".toList := by decide
  have hbrace : '{' ≠ '\n' := by decide
  have hend : '\n' ∉ '}' :: ')' :: ' ' :: m.close := by simp [hclose]
  rw [layout, layout, Statement.relined, Hash.layout_reline hw hindent,
    trimRight_reline hw.toIsLineEnd]
  cases Hash.layout m.body (base ++ style.indentUnit ++ style.indentUnit) ['\n'] with
  | none => rfl
  | some body =>
    simp only [Option.map_some, reline_append, List.cons_append, List.append_assoc,
      List.nil_append, reline_cons w hbrace, reline_feed, reline_of_not_mem w hopen,
      reline_of_not_mem w hbase, reline_of_not_mem w hu, reline_of_not_mem w hend]

/-- Merge statements are laid out alike under both line terminators. -/
theorem layout_reline (hw : IsTerminator w) {style : Style} (hb : style.block = .block)
    (hu : '\n' ∉ style.indentUnit) (s : Text) :
    (layout style w (reline w s)).1 = reline w (layout style ['\n'] s).1 := by
  rw [layout, layout, layoutPieces_flatMap, layoutPieces_flatMap, hb]
  refine replacePieces_scan_reline hw (Statement.read_consumes .block) (fun last c hc s => ?_)
    (Statement.read_reline hw.toIsLineEnd) fun before m t rest hm hs => ?_
  · rw [Statement.read, readTarget,
      after?_eq_none_of_blank compact_opening (by decide) (hw.blank c hc)]
    rfl
  · obtain ⟨last, rest', hr⟩ := read_of_mem_scanFrom (Statement.read_consumes .block) hm
    have hclose : '\n' ∉ m.close := by
      obtain ⟨_, _, _, _, _, hc | hc⟩ := Statement.read_eq_some hr <;> (rw [hc]; decide)
    dsimp only
    rw [hs, indentationAt_reline hw]
    exact Statement.layout_reline hw hu (not_mem_indentationAt _ _) hclose

end Merge

/-! ## Route calls -/

namespace Route

/-- The call with its line feeds written as `w`. -/
def Call.relined (w : Text) (c : Call) : Call := ⟨c.function, reline w c.route, reline w c.body⟩

theorem compact_of_isWord {s : Text} (h : ∀ c ∈ s, isWord c = true) : Compact s := by
  intro c hc
  refine Bool.eq_false_iff.mpr fun hb => ?_
  have hw := h c hc
  rw [not_isWord_of_isBlank hb] at hw
  cases hw

theorem readRoute_reline (hw : IsLineEnd w) (s : Text) :
    readRoute (reline w s) = (readRoute s).map (Prod.map (reline w) (reline w)) := by
  cases s with
  | nil => rw [reline_nil]; rfl
  | cons q s =>
    by_cases hc : q = '\n'
    · obtain ⟨d, u, rfl⟩ := List.exists_cons_of_ne_nil hw.ne_nil
      have hd : isQuote d = false := not_isQuote_of_isBlank (hw.blank d List.mem_cons_self)
      rw [hc, reline_feed, List.cons_append, readRoute, readRoute, hd]
      rfl
    · rw [reline_cons w hc, readRoute, readRoute]
      split
      · next hq =>
        have hcompact : Compact [q] := List.forall_mem_singleton.mpr (not_isBlank_of_isQuote hq)
        rw [cut?_reline hw hcompact (by simp)]
        cases cut? [q] s with
        | none => rfl
        | some parts => simp [reline_append, reline_cons w hc]
      · rfl

theorem readCallOf_reline (hw : IsLineEnd w) {function : Text} (hf : Compact function) (s : Text) :
    readCallOf (reline w s) function =
      (readCallOf s function).map (Prod.map (Call.relined w) (reline w)) := by
  have hbody : ∀ d ∈ w, isBodyChar d = isBodyChar '\n' :=
    hw.eq_of_blank fun _ => Stage.isBodyChar_of_isBlank
  unfold readCallOf
  refine bind_eq_map_bind (after?_reline hw hf s) fun s₁ _ => ?_
  refine bind_eq_map_bind (after?_reline hw (forall_of_any (by decide)) s₁) fun s₂ _ => ?_
  rw [trimLeft_reline hw]
  refine bind_eq_map_bind (readRoute_reline hw _) fun ⟨route, s₃⟩ _ => ?_
  refine bind_eq_map_bind (after?_trimLeft_reline hw (forall_of_any (by decide)) s₃) fun s₄ _ => ?_
  refine bind_eq_map_bind (after?_trimLeft_reline hw (forall_of_any (by decide)) s₄) fun s₅ _ => ?_
  rw [dropWhile_reline hw.ne_nil hbody, takeWhile_reline hw.ne_nil hbody]
  refine bind_eq_map_bind (after?_reline hw (forall_of_any (by decide)) _) fun s₆ _ => ?_
  refine bind_eq_map_bind (after?_trimLeft_reline hw (forall_of_any (by decide)) s₆) fun _ _ => ?_
  rfl

theorem Call.read_reline (hw : IsLineEnd w) {functions : List Text} (hf : AreNames functions)
    (last : Option Char) (s : Text) :
    read functions last (reline w s) =
      (read functions last s).map (Prod.map (Call.relined w) (reline w)) := by
  rw [read, read]
  split
  · induction functions with
    | nil => rfl
    | cons function functions ih =>
      obtain ⟨⟨_, hword⟩, hrest⟩ := List.forall_mem_cons.mp hf
      rw [List.findSome?_cons, List.findSome?_cons, readCallOf_reline hw (compact_of_isWord hword),
        ih hrest]
      cases readCallOf s function <;> rfl
  · rfl

/-- No call starts with white space. -/
theorem Call.read_eq_none_of_blank {functions : List Text} (hf : AreNames functions)
    (last : Option Char) {c : Char} (hc : isBlank c = true) (s : Text) :
    read functions last (c :: s) = none := by
  rw [read]
  split
  · refine List.findSome?_eq_none_iff.mpr fun function hm => ?_
    obtain ⟨hne, hword⟩ := hf function hm
    rw [readCallOf, after?_eq_none_of_blank (compact_of_isWord hword) hne hc]
    rfl
  · rfl

theorem Call.layout_reline (hw : IsTerminator w) {style : Style} (hu : '\n' ∉ style.indentUnit)
    {reference : Text} (href : '\n' ∉ reference) {c : Call} (hf : '\n' ∉ c.function) :
    (c.relined w).layout style w reference =
      (c.layout style ['\n'] reference).map (reline w) := by
  have hindent : '\n' ∉ reference ++ style.indentUnit := by simp [href, hu]
  rw [layout, layout, Call.relined, Hash.layout_reline hw hindent]
  cases Hash.layout c.body (reference ++ style.indentUnit) ['\n'] with
  | none => rfl
  | some body =>
    simp [reline_append, reline_cons, reline_of_not_mem w hf, reline_of_not_mem w href]

/-- The reference attribute before the places that match stands on the same line. -/
theorem referenceAt_reline (hw : IsTerminator w) {style : Style} (hm : Compact style.marker)
    (hne : style.marker ≠ []) (before rest : Text) :
    referenceAt style (reline w (before ++ rest)) (reline w before).length =
      referenceAt style (before ++ rest) before.length := by
  have htake : (reline w (before ++ rest)).take (reline w before).length = reline w before := by
    rw [reline_append, List.take_left]
  rw [referenceAt, referenceAt, htake, List.take_left, lastCut?_reline hw.toIsLineEnd hm hne]
  cases hcut : lastCut? style.marker before with
  | none => rfl
  | some parts =>
    obtain ⟨a, b⟩ := parts
    have hbefore : before ++ rest = a ++ (style.marker ++ b ++ rest) := by
      rw [lastCut?_eq_some hcut]
      simp
    show some (indentationAt _ (reline w a).length) = some (indentationAt _ a.length)
    rw [hbefore, indentationAt_reline hw]

/-- Route calls are laid out alike under both line terminators. -/
theorem layout_reline (hw : IsTerminator w) {style : Style} (hf : AreNames style.functions)
    (hm : Compact style.marker) (hne : style.marker ≠ []) (hu : '\n' ∉ style.indentUnit)
    (s : Text) : layout style w (reline w s) = reline w (layout style ['\n'] s) := by
  rw [layout_eq_replacePieces, layout_eq_replacePieces]
  refine replacePieces_scan_reline hw (Call.read_consumes style.functions)
    (fun last c hc s => Call.read_eq_none_of_blank hf last (hw.blank c hc) s)
    (Call.read_reline hw.toIsLineEnd hf) fun before c t rest hfound hs => ?_
  obtain ⟨last, rest', hr⟩ := read_of_mem_scanFrom (Call.read_consumes style.functions) hfound
  obtain ⟨_, hmem, _⟩ := (Call.read_iff hf.areWords).mp hr
  have hfunction : '\n' ∉ c.function := fun hn => absurd ((hf _ hmem).2 _ hn) (by decide)
  rw [editOf, editOf]
  dsimp only
  rw [hs, referenceAt_reline hw hm hne]
  cases href : referenceAt style (before ++ (t ++ rest)) before.length with
  | none => rfl
  | some reference =>
    have hflat : '\n' ∉ reference := by
      obtain ⟨parts, _, rfl⟩ := Option.map_eq_some_iff.mp href
      exact not_mem_indentationAt _ _
    simp only [Option.bind_eq_bind, Option.bind_some, Call.layout_reline hw hu hflat hfunction]
    cases c.layout style ['\n'] reference <;> rfl

end Route

/-! ## Component tags -/

namespace Component

variable {style : Style}

/-- The lines of both texts are the same, if no carriage return stands elsewhere. -/
theorem splitOn_crlf {s : Text} (h : '\r' ∉ s) :
    splitOn ['\r', '\n'] (reline ['\r', '\n'] s) = splitOn ['\n'] s := by
  have hscans : ∀ {last : Option Char} {s : Text} {pieces : List (Piece Unit)},
      Scans (literal ['\n']) last s pieces → '\r' ∉ s →
      ∃ pieces', Scans (literal ['\r', '\n']) last (reline ['\r', '\n'] s) pieces' ∧
        fields pieces' = fields pieces := by
    intro last s pieces hs h
    induction hs with
    | nil last => exact ⟨[], by rw [reline_nil]; exact .nil last, rfl⟩
    | @plain last c s pieces hr _ ih =>
      obtain ⟨pieces', hs', hf⟩ := ih fun hm => h (List.mem_cons_of_mem _ hm)
      have hc : c ≠ '\n' := by
        rintro rfl
        simp [literal, after?] at hr
      have hc' : '\r' ≠ c := fun he => h (he ▸ List.mem_cons_self)
      refine ⟨.plain c :: pieces', ?_, by simp only [fields, hf]⟩
      rw [reline_cons _ hc]
      exact .plain (by simp [literal, after?, hc']) hs'
    | @found last value t rest pieces hne hr _ ih =>
      obtain ⟨pieces', hs', hf⟩ := ih fun hm => h (List.mem_append_right _ hm)
      obtain ⟨r, ha, he⟩ := Option.map_eq_some_iff.mp hr
      cases he
      obtain rfl : t = ['\n'] := List.append_cancel_right (after?_eq_some_iff.mp ha)
      refine ⟨.found () ['\r', '\n'] :: pieces', ?_, by simp only [fields, hf]⟩
      rw [List.singleton_append, reline_feed]
      refine .found (by simp) (by simp [literal, after?]) ?_
      exact hs'
  obtain ⟨pieces', hs', hf⟩ := hscans (scans_scan (literal_consumes (by simp)) s) h
  rw [splitOn, splitOn, scan, hs'.scanFrom_eq, hf]

/-- A character that is not on the lines of a document is not on those of its blocks. -/
theorem Blocked.not_mem (hm : IsPlain style.expression) {x : Char} (hx : Outside (· == x))
    (htab : x ≠ '\t') (hu : x ∉ style.indentUnit) {lines : List Text} {parts : List Block}
    (h : Blocked style lines parts) (hl : ∀ l ∈ lines, x ∉ l) :
    ∀ l ∈ parts.flatMap Block.lines, x ∉ l := by
  have hfalse : ∀ {t : Text}, x ∉ t → ∀ c ∈ t, (c == x) = false := by
    intro t ht c hc
    rw [beq_eq_false_iff_ne]
    rintro rfl
    exact ht hc
  have hindent : ∀ line : Text, x ∉ indentation line := by
    intro line hmem
    have hspace : (' ' == x) = false := hx ' ' (by simp)
    rcases indentation_all line x hmem with rfl | rfl
    · simp at hspace
    · exact htab rfl
  refine h.forall_lines (fun {line span new} hspan hnew l hl hmem => ?_) hl
  have hruns := runsIn_layoutSpan hx hm (hfalse hu) (hfalse (hindent line))
    (fun l hl => .of_isInfix (List.infix_of_mem_flatten hl)) hnew
  have hone : [x] <:+: (line :: span).flatten :=
    hruns l hl [x] (by simp) ((List.singleton_infix_iff _ _).mpr hmem)
  obtain ⟨l', hl', hmem'⟩ := List.mem_flatten.mp ((List.singleton_infix_iff _ _).mp hone)
  exact hspan l' hl' hmem'

theorem outside_feed : Outside (· == '\n') := forall_of_any (by decide)

theorem outside_return : Outside (· == '\r') := forall_of_any (by decide)

/-- Component tags are laid out alike under both line terminators. -/
theorem layout_crlf (hm : IsPlain style.expression) (hu : '\n' ∉ style.indentUnit) {s : Text}
    (h : '\r' ∉ s) {out : Text} {n : Nat} (hout : layout style ['\n'] s = .ok (out, n)) :
    layout style ['\r', '\n'] (reline ['\r', '\n'] s) =
      .ok (reline ['\r', '\n'] out, n) := by
  rw [layout] at hout ⊢
  obtain ⟨parts, hparts, hout⟩ := bind_eq_ok.mp hout
  cases hout
  have hlines : ∀ l ∈ parts.flatMap Block.lines, '\n' ∉ l := by
    refine (blocked_of_blocksFrom hparts).not_mem hm outside_feed (by decide) hu fun l hl => ?_
    exact not_mem_of_mem_splitOn hl
  have hmap : (parts.flatMap Block.lines).map (reline ['\r', '\n']) =
      parts.flatMap Block.lines := by
    refine (List.map_congr_left fun l hl => ?_).trans (List.map_id _)
    exact reline_of_not_mem _ (hlines l hl)
  rw [splitOn_crlf h, reline_intercalate, hmap, reline_feed, reline_nil]
  exact bind_eq_ok.mpr ⟨parts, hparts, rfl⟩

/-- Laying out component tags brings about no carriage return. -/
theorem not_mem_layout (hm : IsPlain style.expression) (hu : '\r' ∉ style.indentUnit) {s : Text}
    (h : '\r' ∉ s) {out : Text} {n : Nat} (hout : layout style ['\n'] s = .ok (out, n)) :
    '\r' ∉ out := by
  obtain ⟨_, parts, hparts, rfl, _⟩ := exists_blocked_of_layout hout
  intro hmem
  obtain ⟨l, hl, hmem⟩ := exists_mem_of_mem_intercalate (by decide) hmem
  refine hparts.not_mem hm outside_return (by decide) hu (fun l hl hmem => ?_) l hl hmem
  exact h ((infix_of_mem_splitOn (by simp) hl).subset hmem)

end Component

/-! ## Carriage returns -/

/-- A character does not come about if none of the texts in the place of findings has it. -/
theorem not_mem_replacePieces {α : Type} {f : Located α → Option Text} {x : Char} {i : Nat}
    {pieces : List (Piece α)}
    (hf : ∀ g ∈ locate i pieces, ∀ new, f g = some new → x ∉ g.text → x ∉ new)
    (hs : x ∉ pieces.flatMap Piece.text) : x ∉ replacePieces f i pieces := by
  fun_induction replacePieces f i pieces with
  | case1 => exact hs
  | case2 i c pieces ih =>
    have hs : x ∉ c :: pieces.flatMap Piece.text := hs
    rw [List.mem_cons, not_or] at hs ⊢
    exact ⟨hs.1, ih hf hs.2⟩
  | case3 i value text pieces ih =>
    have hs : x ∉ text ++ pieces.flatMap Piece.text := hs
    rw [List.mem_append, not_or] at hs ⊢
    refine ⟨?_, ih (fun g hg => hf g (List.mem_cons_of_mem _ hg)) hs.2⟩
    cases hnew : f ⟨i, value, text⟩ with
    | none => exact hs.1
    | some new => exact hf _ List.mem_cons_self new hnew hs.1

theorem Hash.not_mem_layout {body indent out : Text} (hb : '\r' ∉ body) (hi : '\r' ∉ indent)
    (h : layout body indent ['\n'] = some out) : '\r' ∉ out := by
  have hne : ∀ {t : Text}, '\r' ∉ t → ∀ c ∈ t, c ≠ '\r' := fun ht c hc he => ht (he ▸ hc)
  exact fun hm => forall_mem_layout (P := (· ≠ '\r')) (by simp) (hne hb) (hne hi) (by simp) h
    _ hm rfl

theorem Merge.not_mem_layout {style : Merge.Style} (hb : style.block = .block)
    (hu : '\r' ∉ style.indentUnit) {s : Text} (h : '\r' ∉ s) :
    '\r' ∉ (Merge.layout style ['\n'] s).1 := by
  have hpieces : (scan (Statement.read style.block) s).flatMap Piece.text = s :=
    flatMap_text_scan _ s
  rw [Merge.layout, layoutPieces_flatMap]
  refine not_mem_replacePieces (fun g hg new hnew htext => ?_) (hpieces.symm ▸ h)
  obtain ⟨last, rest, hr⟩ :=
    read_of_mem_scanFrom (Statement.read_consumes style.block) (mem_of_mem_locate hg)
  obtain ⟨opening, gap, gap', _, _, _, ht⟩ := (Statement.Spelled.of_read hb hr).text
  obtain ⟨out, hout, rfl⟩ := Option.map_eq_some_iff.mp hnew
  rw [ht] at htext
  simp only [List.mem_append, List.mem_cons, not_or] at htext
  obtain ⟨hhead, _, hbody, _, _, _, _, hclose⟩ := htext
  have hbase := not_mem_of_space_or_tab (indentation_all (s.drop (lineStart s g.start)))
  have hout := Hash.not_mem_layout hbody (by simp [indentationAt, hbase, hu]) hout
  have hhead' : '\r' ∉ trimRight g.value.head := fun hm =>
    hhead ((trimRight_isPrefix _).subset hm)
  simp [indentationAt, hhead', hout, hbase, hu, hclose]

theorem Route.not_mem_layout {style : Route.Style} (hf : AreNames style.functions)
    (hu : '\r' ∉ style.indentUnit) {s : Text} (h : '\r' ∉ s) :
    '\r' ∉ Route.layout style ['\n'] s := by
  have hpieces : (scan (Call.read style.functions) s).flatMap Piece.text = s :=
    flatMap_text_scan _ s
  rw [layout_eq_replacePieces]
  refine not_mem_replacePieces (fun g hg new hnew htext => ?_) (hpieces.symm ▸ h)
  obtain ⟨_, ht⟩ := spelled_of_mem_locate hf.areWords hg
  obtain ⟨gap, gap', gap'', gap₃, _, _, _, _, ht⟩ := ht.text
  obtain ⟨e, hedit, rfl⟩ := Option.map_eq_some_iff.mp hnew
  obtain ⟨_, _, k, hlayout⟩ := editOf_eq_some hedit
  obtain ⟨out, hout, hnew⟩ := Option.map_eq_some_iff.mp hlayout
  rw [ht] at htext
  simp only [List.mem_append, List.mem_cons, not_or] at htext
  obtain ⟨hfunction, _, _, hroute, _, _, _, _, hbody, _⟩ := htext
  have href := not_mem_of_space_or_tab (indentation_all (s.drop (lineStart s k)))
  have hout := Hash.not_mem_layout hbody (by simp [indentationAt, href, hu]) hout
  rw [← hnew]
  simp [indentationAt, hfunction, hroute, hout, href]

/-! ## Documents -/

namespace Layout

theorem newlineOf_reline {t : Text} (h : '\n' ∈ t) :
    newlineOf (reline ['\r', '\n'] t) = ['\r', '\n'] := by
  obtain ⟨a, b, rfl⟩ := List.append_of_mem h
  have hocc : occursIn ['\r', '\n'] (reline ['\r', '\n'] (a ++ '\n' :: b)) = true := by
    rw [occursIn_iff, reline_append, reline_feed]
    exact List.infix_append_of_infix_right List.infix_append_left
  rw [newlineOf, if_pos hocc]

theorem newlineOf_of_not_mem {t : Text} (h : '\r' ∉ t) : newlineOf t = ['\n'] :=
  newlineOf_of_bare (firm_iff.mp (firm_of_not_mem h)).1

/-- The passes over a document with line feeds, and over its twin. -/
theorem Passes.crlf {t c m r : Text} (h : default.Passes t c m r) (hr : '\r' ∉ t) (hn : '\n' ∈ t) :
    default.Passes (reline ['\r', '\n'] t) (reline ['\r', '\n'] c) (reline ['\r', '\n'] m)
      (reline ['\r', '\n'] r) := by
  have hl : default.Standard := standard_of_ofSettings rfl ofSettings_default
  have hw := isTerminator_crlf
  obtain ⟨⟨n, hc⟩, hm, hr'⟩ := h
  rw [newlineOf_of_not_mem hr] at hc hm hr'
  refine ⟨⟨n, ?_⟩, ?_, ?_⟩ <;> rw [newlineOf_reline hn]
  · exact Component.layout_crlf hl.isPlain (by decide) hr hc
  · rw [Merge.layout_reline hw hl.block (by decide), hm]
  · rw [Route.layout_reline hw Route.areNames_path (forall_of_any (by decide)) (by decide)
      (by decide), hr']

theorem Passes.not_mem {t c m r : Text} (h : default.Passes t c m r) (hr : '\r' ∉ t) :
    '\r' ∉ r := by
  have hl : default.Standard := standard_of_ofSettings rfl ofSettings_default
  obtain ⟨⟨n, hc⟩, hm, hr'⟩ := h
  rw [newlineOf_of_not_mem hr] at hc hm hr'
  have hc' := Component.not_mem_layout hl.isPlain (by decide) hr hc
  have hm' : '\r' ∉ (Merge.layout default.merge ['\n'] c).1 :=
    Merge.not_mem_layout hl.block (by decide) hc'
  rw [hm] at hm'
  rw [← hr']
  exact Route.not_mem_layout Route.areNames_path (by decide) hm'

/-- With the default settings, a document whose lines all end with a carriage return and a line
feed comes out as one, laid out like its twin with line feeds alone. -/
theorem reflow_crlf {t : Text} (hr : '\r' ∉ t) (hn : '\n' ∈ t) :
    ∃ s, (default.reflow t).result = .ok s ∧ '\r' ∉ s ∧
      (default.reflow (reline ['\r', '\n'] t)).result = .ok (reline ['\r', '\n'] s) := by
  have hl : default.Standard := standard_of_ofSettings rfl ofSettings_default
  obtain ⟨c, m, r, h⟩ := exists_passes hl t
  exact ⟨r, reflow_eq_ok_iff.mpr ⟨c, m, h⟩, h.not_mem hr,
    reflow_eq_ok_iff.mpr ⟨_, _, h.crlf hr hn⟩⟩

/-- A tag, a statement with a property on two lines, and a call whose route is on two lines. -/
theorem reflow_crlf_lines :
    let t := "<twig:A b=\"1\"\n  c=\"2\"/>\n".toList ++
      "\x7b% set d = e|merge(\x7bx:\n f(1,\n2), y\x7d) %\x7d\n".toList ++
      " href=path('p\nq', \x7bi: 2\x7d)".toList
    let s := "<twig:A\n    b=\"1\"\n    c=\"2\"\n/>\n".toList ++
      "\x7b% set d = e|merge(\x7b\n        'x': f(1,\n2),\n        y\n    \x7d) %\x7d\n".toList ++
      " href=path('p\nq', \x7b\n     'i': 2\n \x7d)".toList
    (default.reflow t).result = .ok s ∧
      (default.reflow (reline ['\r', '\n'] t)).result = .ok (reline ['\r', '\n'] s) := by
  intro t s
  have hs : (default.reflow t).result = .ok s := by decide +kernel
  obtain ⟨s', hs', _, hcrlf⟩ := reflow_crlf (t := t) (by decide) (by decide)
  obtain rfl : s' = s := Except.ok.inj (hs'.symm.trans hs)
  exact ⟨hs', hcrlf⟩

end Layout

end TwigLayout
