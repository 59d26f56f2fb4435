import Mathlib.Data.List.Infix
import TwigLayout.Proofs.Text.Blank
import TwigLayout.Proofs.Text.Lines
import TwigLayout.Proofs.Text.Rescan

/-!
# Line ends written in another way

`reline w s` is the text `s` with every line feed written as `w`, a text of white space such as a
carriage return and a line feed. Whatever looks at a text through classes that do not tell `w` from
a line feed, and through literals without white space, finds the same in both texts.

1. `dropWhile_reline`, `takeWhile_reline`, `after?_reline`, `cut?_reline`: runs and literals.
2. `trim_reline`, `lastCut?_reline`: from the end, where `w` reads backwards (`reverse_reline`).
3. `indentationAt_reline`: the indentation at the places that match.
4. `Scans.reline`, `replacePieces_reline`: scans, and texts in which findings were replaced.
-/

namespace TwigLayout.Text

/-- The text with every line feed written as `w`. -/
def reline (w s : Text) : Text := replaceAll ['\n'] w s

section Equations

variable (w : Text)

@[simp] theorem reline_nil : reline w [] = [] := replaceAll_nil w (by simp)

@[simp] theorem reline_feed (s : Text) : reline w ('\n' :: s) = w ++ reline w s :=
  replaceAll_append_self w (by simp) s

theorem reline_cons {c : Char} (hc : c ≠ '\n') (s : Text) :
    reline w (c :: s) = c :: reline w s := by
  refine replaceAll_cons w (by simp) fun hp => hc ?_
  exact (List.cons_prefix_cons.mp hp).1.symm

theorem reline_append (a b : Text) : reline w (a ++ b) = reline w a ++ reline w b := by
  induction a with
  | nil => rw [reline_nil]; rfl
  | cons c a ih =>
    by_cases hc : c = '\n'
    · rw [hc, List.cons_append, reline_feed, ih, reline_feed, List.append_assoc]
    · rw [List.cons_append, reline_cons w hc, ih, reline_cons w hc, List.cons_append]

theorem reline_of_not_mem {s : Text} (h : '\n' ∉ s) : reline w s = s :=
  replaceAll_eq_self (fun hi => h ((List.singleton_infix_iff _ _).mp hi)) w

theorem reline_intercalate (sep : Text) (lines : List Text) :
    reline w (sep.intercalate lines) = (reline w sep).intercalate (lines.map (reline w)) := by
  induction lines with
  | nil => exact reline_nil w
  | cons l lines ih =>
    cases lines with
    | nil => rw [List.map_singleton, List.intercalate_singleton, List.intercalate_singleton]
    | cons l' lines =>
      rw [List.intercalate_cons_cons, reline_append, reline_append, ih]
      rw [List.map_cons, List.map_cons, List.map_cons, List.intercalate_cons_cons]

theorem reverse_reline (s : Text) : (reline w s).reverse = reline w.reverse s.reverse := by
  induction s with
  | nil => rw [reline_nil, List.reverse_nil, reline_nil]
  | cons c s ih =>
    by_cases hc : c = '\n'
    · have hone : reline w.reverse ['\n'] = w.reverse := by
        rw [reline_feed, reline_nil, List.append_nil]
      rw [hc, reline_feed, List.reverse_append, ih, List.reverse_cons, reline_append, hone]
    · have hone : reline w.reverse [c] = [c] := by
        rw [reline_cons _ hc, reline_nil]
      rw [reline_cons w hc, List.reverse_cons, ih, List.reverse_cons, reline_append, hone]

end Equations

/-- A way to write a line end: white space, and at least one character. -/
structure IsLineEnd (w : Text) : Prop where
  blank : Blank w
  ne_nil : w ≠ []

theorem IsLineEnd.reverse {w : Text} (h : IsLineEnd w) : IsLineEnd w.reverse :=
  ⟨fun c hc => h.blank c (List.mem_reverse.mp hc), by simpa using h.ne_nil⟩

/-- A line end that no indentation runs into, and behind which a line starts. -/
structure IsTerminator (w : Text) : Prop extends IsLineEnd w where
  last : ['\n'] <:+ w
  flat : ∀ c ∈ w, c ≠ ' ' ∧ c ≠ '\t'

theorem isTerminator_crlf : IsTerminator ['\r', '\n'] :=
  ⟨⟨.of_all (by decide), by simp⟩, ⟨['\r'], rfl⟩, by simp⟩

/-! ## Runs and literals -/

section Readers

variable {w : Text}

/-- A class that makes no difference between white space characters. -/
theorem IsLineEnd.eq_of_blank (h : IsLineEnd w) {p : Char → Bool} {b : Bool}
    (hp : ∀ c, isBlank c = true → p c = b) : ∀ c ∈ w, p c = p '\n' := by
  intro c hc
  rw [hp c (h.blank c hc), hp '\n' (by decide)]

theorem reline_ne_nil (hw : w ≠ []) {s : Text} (hs : s ≠ []) : reline w s ≠ [] := by
  obtain ⟨c, s, rfl⟩ := List.exists_cons_of_ne_nil hs
  by_cases hc : c = '\n'
  · rw [hc, reline_feed]
    exact List.append_ne_nil_of_left_ne_nil hw _
  · rw [reline_cons w hc]
    exact List.cons_ne_nil _ _

theorem dropWhile_reline (hw : w ≠ []) {p : Char → Bool} (hp : ∀ c ∈ w, p c = p '\n') (s : Text) :
    (reline w s).dropWhile p = reline w (s.dropWhile p) := by
  induction s with
  | nil => rw [reline_nil, List.dropWhile_nil, reline_nil]
  | cons c s ih =>
    by_cases hc : c = '\n'
    · subst hc
      cases hn : p '\n' with
      | true =>
        rw [reline_feed, List.dropWhile_append_of_pos fun d hd => (hp d hd).trans hn, ih,
          List.dropWhile_cons_of_pos hn]
      | false =>
        obtain ⟨d, u, rfl⟩ := List.exists_cons_of_ne_nil hw
        have hd : ¬ p d = true := by simp [hp d List.mem_cons_self, hn]
        rw [List.dropWhile_cons_of_neg (by simp [hn]), reline_feed, List.cons_append,
          List.dropWhile_cons_of_neg hd]
    · rw [reline_cons w hc, List.dropWhile_cons, List.dropWhile_cons, ih]
      split
      · rfl
      · rw [reline_cons w hc]

theorem takeWhile_reline (hw : w ≠ []) {p : Char → Bool} (hp : ∀ c ∈ w, p c = p '\n') (s : Text) :
    (reline w s).takeWhile p = reline w (s.takeWhile p) := by
  -- what follows the run is the same, so the run is
  have h : (reline w s).takeWhile p ++ (reline w s).dropWhile p =
      reline w (s.takeWhile p) ++ (reline w s).dropWhile p := by
    rw [List.takeWhile_append_dropWhile, dropWhile_reline hw hp, ← reline_append,
      List.takeWhile_append_dropWhile]
  exact List.append_cancel_right h

theorem any_head?_reline (hw : w ≠ []) {p : Char → Bool} (hp : ∀ c ∈ w, p c = p '\n') (s : Text) :
    (reline w s).head?.any p = s.head?.any p := by
  cases s with
  | nil => rw [reline_nil]
  | cons c s =>
    by_cases hc : c = '\n'
    · obtain ⟨d, u, rfl⟩ := List.exists_cons_of_ne_nil hw
      rw [hc, reline_feed]
      exact hp d List.mem_cons_self
    · rw [reline_cons w hc]
      rfl

/-- A literal without white space. -/
def Compact (lit : Text) : Prop := ∀ c ∈ lit, isBlank c = false

theorem Compact.not_mem {lit : Text} (h : Compact lit) {c : Char} (hc : isBlank c = true) :
    c ∉ lit := by
  intro hm
  rw [h c hm] at hc
  cases hc

theorem after?_eq_none_of_blank {lit : Text} (hl : Compact lit) (hne : lit ≠ []) {c : Char}
    (hc : isBlank c = true) (s : Text) : after? lit (c :: s) = none := by
  obtain ⟨d, lit, rfl⟩ := List.exists_cons_of_ne_nil hne
  rw [after?, if_neg]
  rintro rfl
  exact hl.not_mem hc List.mem_cons_self

theorem after?_reline (hw : IsLineEnd w) {lit : Text} (hl : Compact lit) (s : Text) :
    after? lit (reline w s) = (after? lit s).map (reline w) := by
  induction lit generalizing s with
  | nil => rfl
  | cons d lit ih =>
    cases s with
    | nil => rw [reline_nil]; rfl
    | cons c s =>
      by_cases hc : c = '\n'
      · obtain ⟨e, u, rfl⟩ := List.exists_cons_of_ne_nil hw.ne_nil
        have hnone := @after?_eq_none_of_blank _ hl (by simp)
        rw [hc, reline_feed, List.cons_append, hnone (hw.blank e List.mem_cons_self),
          hnone (c := '\n') (by decide)]
        rfl
      · rw [reline_cons w hc, after?, after?]
        split
        · exact ih (fun e he => hl e (List.mem_cons_of_mem _ he)) s
        · rfl

theorem cut?_blank_append {b : Text} (hb : Blank b) {lit : Text} (hl : Compact lit) (hne : lit ≠ [])
    (s : Text) : cut? lit (b ++ s) = (cut? lit s).map fun parts => (b ++ parts.1, parts.2) := by
  induction b with
  | nil => simp
  | cons c b ih =>
    have ih := ih fun d hd => hb d (List.mem_cons_of_mem _ hd)
    rw [List.cons_append, cut?, after?_eq_none_of_blank hl hne (hb c List.mem_cons_self), ih]
    simp [Function.comp_def]

theorem cut?_reline (hw : IsLineEnd w) {lit : Text} (hl : Compact lit) (hne : lit ≠ []) (s : Text) :
    cut? lit (reline w s) = (cut? lit s).map (Prod.map (reline w) (reline w)) := by
  induction s with
  | nil =>
    have hnone : cut? lit [] = none := cut?_eq_none_iff.mpr fun h => hne (List.infix_nil.mp h)
    rw [reline_nil, hnone]
    rfl
  | cons c s ih =>
    by_cases hc : c = '\n'
    · have hone : cut? lit ('\n' :: s) = _ :=
        cut?_blank_append (b := ['\n']) (.of_all (by decide)) hl hne s
      rw [hc, reline_feed, cut?_blank_append hw.blank hl hne, ih, hone]
      simp [Function.comp_def]
    · have ha := after?_reline hw hl (c :: s)
      rw [reline_cons w hc] at ha
      rw [reline_cons w hc, cut?, cut?, ha, ih]
      cases after? lit (c :: s) with
      | none => simp [Function.comp_def, reline_cons w hc]
      | some rest => simp

theorem trimLeft_reline (hw : IsLineEnd w) (s : Text) :
    trimLeft (reline w s) = reline w (trimLeft s) :=
  dropWhile_reline hw.ne_nil (hw.eq_of_blank fun _ h => h) s

theorem after?_trimLeft_reline (hw : IsLineEnd w) {lit : Text} (hl : Compact lit) (s : Text) :
    after? lit (trimLeft (reline w s)) = (after? lit (trimLeft s)).map (reline w) := by
  rw [trimLeft_reline hw, after?_reline hw hl]

theorem trimRight_reline (hw : IsLineEnd w) (s : Text) :
    trimRight (reline w s) = reline w (trimRight s) := by
  have h := trimLeft_reline hw.reverse s.reverse
  rw [← reverse_reline] at h
  show (trimLeft (reline w s).reverse).reverse = reline w (trimLeft s.reverse).reverse
  rw [h, reverse_reline, List.reverse_reverse]

theorem trim_reline (hw : IsLineEnd w) (s : Text) : trim (reline w s) = reline w (trim s) := by
  rw [trim, trimLeft_reline hw, trimRight_reline hw, trim]

theorem lastCut?_reline (hw : IsLineEnd w) {lit : Text} (hl : Compact lit) (hne : lit ≠ [])
    (s : Text) :
    lastCut? lit (reline w s) = (lastCut? lit s).map (Prod.map (reline w) (reline w)) := by
  have hl' : Compact lit.reverse := fun c hc => hl c (List.mem_reverse.mp hc)
  rw [lastCut?, lastCut?, reverse_reline, cut?_reline hw.reverse hl' (by simpa using hne)]
  cases cut? lit.reverse s.reverse with
  | none => rfl
  | some parts => simp [reverse_reline]

/-- Two readers, one after the other: if each finds the same in both texts, both together do. -/
theorem bind_eq_map_bind {α α' β β' : Type} {f : α → α'} {g : β → β'} {x : Option α}
    {x' : Option α'} {k : α → Option β} {k' : α' → Option β'} (hx : x' = x.map f)
    (hk : ∀ a, x = some a → k' (f a) = (k a).map g) : x'.bind k' = (x.bind k).map g := by
  subst hx
  cases x with
  | none => rfl
  | some a => exact hk a rfl

end Readers

/-! ## Lines -/

section Lines

variable {w : Text}

/-- The last line is the same if the line ends still end with a line feed. -/
theorem lastLine_reline (hw : ['\n'] <:+ w) (s : Text) : lastLine (reline w s) = lastLine s := by
  obtain ⟨u, rfl⟩ := hw
  have hend : (u ++ ['\n']).reverse = '\n' :: u.reverse := by simp
  rw [lastLine, lastLine, reverse_reline, hend]
  congr 1
  induction s.reverse with
  | nil => rw [reline_nil]
  | cons c s ih =>
    by_cases hc : c = '\n'
    · rw [hc, reline_feed]
      rfl
    · rw [reline_cons _ hc, List.takeWhile_cons, List.takeWhile_cons, ih]

/-- The indentation at the places of two texts that match. -/
theorem indentationAt_reline (hw : IsTerminator w) (a b : Text) :
    indentationAt (reline w (a ++ b)) (reline w a).length = indentationAt (a ++ b) a.length := by
  have hp : ∀ c ∈ w, (c == ' ' || c == '\t') = ('\n' == ' ' || '\n' == '\t') := by
    intro c hc
    simp [hw.flat c hc]
  have hline : lastLine a ++ reline w b = reline w (lastLine a ++ b) := by
    rw [reline_append, reline_of_not_mem w (not_mem_lastLine a)]
  rw [reline_append, indentationAt_append, indentationAt_append, lastLine_reline hw.last, hline,
    indentation, takeWhile_reline hw.ne_nil hp]
  refine reline_of_not_mem w fun hm => ?_
  exact absurd (indentation_all _ _ hm) (by decide)

end Lines

/-! ## Scans -/

section Scans

variable {α : Type} {w : Text} {g : α → α} {read : Reader α}

/-- The pieces of a text whose line feeds are written as `w`. The value of a finding becomes what
`g` makes of it. -/
def Piece.reline (w : Text) (g : α → α) : Piece α → List (Piece α)
  | .plain c => (Text.reline w [c]).map .plain
  | .found value t => [.found (g value) (Text.reline w t)]

theorem Piece.reline_feed : Piece.reline w g (.plain '\n') = w.map .plain := by
  rw [Piece.reline, Text.reline_feed, reline_nil, List.append_nil]

theorem Piece.reline_plain {c : Char} (hc : c ≠ '\n') :
    Piece.reline w g (.plain c) = [.plain c] := by
  rw [Piece.reline, reline_cons w hc, reline_nil]
  rfl

/-- Characters in front at which nothing is read. -/
theorem Scans.append_left {u : Text} (hu : ∀ last, ∀ c ∈ u, ∀ s, read last (c :: s) = none)
    {last : Option Char} {s : Text} {pieces : List (Piece α)}
    (h : Scans read (u.getLast?.or last) s pieces) :
    Scans read last (u ++ s) (u.map .plain ++ pieces) := by
  induction u generalizing last with
  | nil => exact h
  | cons c u ih =>
    refine .plain (hu last c List.mem_cons_self _) (ih (fun last d hd => hu last d
      (List.mem_cons_of_mem _ hd)) ?_)
    rw [List.getLast?_cons] at h
    cases hl : u.getLast? with
    | none => simpa [hl] using h
    | some d => simpa [hl] using h

theorem getLast?_reline (hw : ['\n'] <:+ w) (s : Text) : (reline w s).getLast? = s.getLast? := by
  obtain ⟨u, rfl⟩ := hw
  rcases List.eq_nil_or_concat s with rfl | ⟨s, c, rfl⟩
  · rw [reline_nil]
  · rw [List.concat_eq_append, reline_append]
    by_cases hc : c = '\n'
    · rw [hc, reline_feed, reline_nil, List.append_nil, ← List.append_assoc, List.getLast?_concat,
        List.getLast?_concat]
    · rw [reline_cons _ hc, reline_nil, List.getLast?_concat, List.getLast?_concat]

/-- A scan finds the same in both texts, if the reader does at each place and finds nothing inside
of a line end. -/
theorem Scans.reline (hw : IsTerminator w)
    (hgap : ∀ last, ∀ c ∈ w, ∀ s, read last (c :: s) = none)
    (hread : ∀ last s, read last (reline w s) = (read last s).map (Prod.map g (reline w)))
    {last : Option Char} {s : Text} {pieces : List (Piece α)} (h : Scans read last s pieces) :
    Scans read last (Text.reline w s) (pieces.flatMap (Piece.reline w g)) := by
  induction h with
  | nil last =>
    rw [reline_nil]
    exact .nil last
  | @plain last c s pieces hr _ ih =>
    rw [List.flatMap_cons]
    by_cases hc : c = '\n'
    · subst hc
      rw [Text.reline_feed, Piece.reline_feed]
      refine .append_left hgap ?_
      obtain ⟨u, rfl⟩ := hw.last
      rw [List.getLast?_concat]
      exact ih
    · have hnone := hread last (c :: s)
      rw [hr, reline_cons w hc] at hnone
      rw [reline_cons w hc, Piece.reline_plain hc]
      exact .plain hnone ih
  | @found last value t rest pieces hne hr _ ih =>
    have hsome := hread last (t ++ rest)
    rw [hr, reline_append] at hsome
    rw [reline_append, List.flatMap_cons]
    refine .found (reline_ne_nil hw.ne_nil hne) hsome ?_
    rw [getLast?_reline hw.last]
    exact ih

/-- The findings of both texts, replaced by texts that match. -/
theorem replacePieces_reline {f f' : Located α → Option Text} {s : Text} (before : Text)
    {pieces : List (Piece α)} (hs : s = before ++ pieces.flatMap Piece.text)
    (hf : ∀ before value t rest, .found value t ∈ pieces → s = before ++ (t ++ rest) →
      f' ⟨(reline w before).length, g value, reline w t⟩ =
        (f ⟨before.length, value, t⟩).map (reline w)) :
    replacePieces f' (reline w before).length (pieces.flatMap (Piece.reline w g)) =
      reline w (replacePieces f before.length pieces) := by
  have hplain : ∀ (u : Text) (i : Nat) (pieces : List (Piece α)),
      replacePieces f' i (u.map .plain ++ pieces) =
        u ++ replacePieces f' (i + u.length) pieces := by
    intro u
    induction u with
    | nil => exact fun _ _ => rfl
    | cons c u ih =>
      intro i pieces
      rw [List.map_cons, List.cons_append, replacePieces, ih, List.length_cons, Nat.add_right_comm,
        Nat.add_assoc]
      rfl
  induction pieces generalizing before with
  | nil => rw [replacePieces, reline_nil, List.flatMap_nil, replacePieces]
  | cons piece pieces ih =>
    have ih := fun before hs => ih before hs fun before value t rest hm =>
      hf before value t rest (List.mem_cons_of_mem _ hm)
    rw [List.flatMap_cons]
    cases piece with
    | plain c =>
      have ih := ih (before ++ [c]) (by simpa [Piece.text] using hs)
      rw [reline_append, List.length_append, List.length_append, List.length_singleton] at ih
      have hc : reline w (c :: replacePieces f (before.length + 1) pieces) =
          reline w [c] ++ reline w (replacePieces f (before.length + 1) pieces) :=
        reline_append w [c] _
      rw [Piece.reline, hplain, ih, replacePieces, hc]
    | found value t =>
      have hs' : s = before ++ (t ++ pieces.flatMap Piece.text) := hs
      have ih := ih (before ++ t) (by simpa using hs')
      rw [reline_append, List.length_append, List.length_append] at ih
      rw [Piece.reline, List.singleton_append, replacePieces, replacePieces, ih, reline_append,
        hf before value t _ List.mem_cons_self hs']
      cases f ⟨before.length, value, t⟩ with
      | none => rfl
      | some new => rfl

/-- The text in which findings of a scan were replaced, in both ways to write it. -/
theorem replacePieces_scan_reline (hw : IsTerminator w) (hcons : read.Consumes)
    (hgap : ∀ last, ∀ c ∈ w, ∀ s, read last (c :: s) = none)
    (hread : ∀ last s, read last (reline w s) = (read last s).map (Prod.map g (reline w)))
    {f f' : Located α → Option Text} {s : Text}
    (hf : ∀ before value t rest, .found value t ∈ scan read s → s = before ++ (t ++ rest) →
      f' ⟨(reline w before).length, g value, reline w t⟩ =
        (f ⟨before.length, value, t⟩).map (reline w)) :
    replacePieces f' 0 (scan read (reline w s)) = reline w (replacePieces f 0 (scan read s)) := by
  have hscan : scan read (reline w s) = (scan read s).flatMap (Piece.reline w g) :=
    ((scans_scan hcons s).reline hw hgap hread).scanFrom_eq
  have h := replacePieces_reline [] (by simp) hf
  rw [hscan]
  rwa [reline_nil] at h

end Scans

end TwigLayout.Text
