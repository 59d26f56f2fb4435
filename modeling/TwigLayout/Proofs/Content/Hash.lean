import TwigLayout.Proofs.Reflow.Hash
import TwigLayout.Proofs.Text.Blank

/-!
# The properties of a body that was laid out

Splitting is a machine that reads a body from the left, and a comma splits only where no string and
no bracket is open. So each property can be read from the start again, and a list of texts that can
be read one by one is what their text splits into (`segments_intercalate`).

1. `Separate.properties`: the properties of a body can be read one by one.
2. `Separate.map_quoteKey`: so can they once their keys are quoted.
3. `properties_of_layout`: hence a body that was laid out splits into the quoted properties of the
   body it was made of.
4. `properties_layout`: so it does without the lines around it, and only a body without properties
   is not laid out.
-/

namespace TwigLayout.Hash

open Text

/-! ## States -/

/-- Outside of strings the last character makes no difference. -/
def State.Like (st st' : State) : Prop :=
  st.quote = st'.quote ∧ st.depth = st'.depth ∧ (st.quote = none ∨ st.last = st'.last)

/-- Neither a string nor a bracket is open. -/
def State.Level (st : State) : Prop := st.quote = none ∧ st.depth = 0

/-- No comma of the text ends a property. -/
def State.uncut : State → Text → Bool
  | _, [] => true
  | st, c :: s => !st.splits c && (st.step c).uncut s

section States

variable {st st' : State}

theorem State.Like.refl (st : State) : st.Like st := ⟨rfl, rfl, .inr rfl⟩

theorem State.Like.symm (h : st.Like st') : st'.Like st := by
  obtain ⟨hq, hd, hl⟩ := h
  exact ⟨hq.symm, hd.symm, hl.imp (fun hn => hq ▸ hn) Eq.symm⟩

theorem State.Like.trans {st'' : State} (h : st.Like st') (h' : st'.Like st'') :
    st.Like st'' := by
  obtain ⟨hq, hd, hl⟩ := h
  obtain ⟨hq', hd', hl'⟩ := h'
  refine ⟨hq.trans hq', hd.trans hd', ?_⟩
  rcases hl with hn | hl
  · exact .inl hn
  · rcases hl' with hn | hl'
    · exact .inl (hq.trans hn)
    · exact .inr (hl.trans hl')

theorem State.Level.like (h : st.Level) : st.Like .start := ⟨h.1, h.2, .inl h.1⟩

theorem State.Like.level (h : st.Like st') (hl : st'.Level) : st.Level :=
  ⟨h.1.trans hl.1, h.2.1.trans hl.2⟩

theorem State.Like.step (h : st.Like st') (c : Char) : st.step c = st'.step c := by
  obtain ⟨q, d, l⟩ := st
  obtain ⟨q', d', l'⟩ := st'
  obtain ⟨hq, hd, hl⟩ := h
  dsimp only at hq hd hl
  subst hq hd
  rcases hl with hn | hl
  · subst hn
    rfl
  · subst hl
    rfl

theorem State.Like.splits (h : st.Like st') (c : Char) : st.splits c = st'.splits c := by
  rw [State.splits, State.splits, h.1, h.2.1]

theorem State.Like.run (h : st.Like st') (s : Text) : (st.run s).Like (st'.run s) := by
  cases s with
  | nil => exact h
  | cons c s =>
    change ((st.step c).run s).Like ((st'.step c).run s)
    rw [h.step c]
    exact .refl _

theorem State.Like.uncut (h : st.Like st') (s : Text) : st.uncut s = st'.uncut s := by
  cases s with
  | nil => rfl
  | cons c s => rw [State.uncut, State.uncut, h.splits c, h.step c]

theorem State.Like.segments (h : st.Like st') (s : Text) : segments st s = segments st' s := by
  cases s with
  | nil => rfl
  | cons c s => rw [Hash.segments, Hash.segments, h.splits c, h.step c]

theorem State.run_append (st : State) (a b : Text) : st.run (a ++ b) = (st.run a).run b :=
  List.foldl_append

theorem State.uncut_append (st : State) (a b : Text) :
    st.uncut (a ++ b) = (st.uncut a && (st.run a).uncut b) := by
  induction a generalizing st with
  | nil => rfl
  | cons c a ih =>
    rw [List.cons_append, uncut, uncut, ih, Bool.and_assoc]
    rfl

theorem State.last_step (st : State) (c : Char) : (st.step c).last = some c := by
  rw [State.step.eq_def]
  split
  · split <;> rfl
  · split
    · rfl
    · split
      · rfl
      · split <;> rfl

theorem State.splits_of_isQuote (st : State) {q : Char} (hq : isQuote q = true) :
    st.splits q = false := by
  have hne : (q == ',') = false := by
    rw [beq_eq_false_iff_ne]
    rintro rfl
    exact absurd hq (by decide)
  rw [State.splits, hne, Bool.and_false, Bool.false_and]

/-- The quote of a state is a quote. This holds of every state that is reached from the start. -/
def State.Sound (st : State) : Prop := ∀ q, st.quote = some q → isQuote q = true

theorem State.sound_start : State.start.Sound := fun _ h => nomatch h

theorem State.Sound.step (hst : st.Sound) (c : Char) : (st.step c).Sound := by
  intro q hq
  rw [State.step.eq_def] at hq
  split at hq
  · next q' hq' =>
    split at hq
    · cases hq
    · exact hst q hq
  · next hn =>
    split at hq
    · next hc =>
      cases hq
      exact hc
    · split at hq
      · rw [hn] at hq
        cases hq
      · split at hq
        · rw [hn] at hq
          cases hq
        · rw [hn] at hq
          cases hq

theorem State.Sound.run (hst : st.Sound) (s : Text) : (st.run s).Sound := by
  induction s generalizing st with
  | nil => exact hst
  | cons c s ih => exact ih (hst.step c)

end States

/-! ## Characters that splitting passes over -/

/-- Neither a quote nor a bracket nor a comma. -/
def isInert (c : Char) : Bool := !(isQuote c || isOpening c || isClosing c || c == ',')

theorem eq_of_isInert_eq_false {c : Char} (h : isInert c = false) :
    c = '\'' ∨ c = '"' ∨ c = '(' ∨ c = '[' ∨ c = '{' ∨ c = ')' ∨ c = ']' ∨ c = '}' ∨ c = ',' := by
  simp only [isInert, isQuote, isOpening, isClosing, Bool.not_eq_false', Bool.or_eq_true,
    beq_iff_eq] at h
  grind

theorem isInert_of_isBlank {c : Char} (h : isBlank c = true) : isInert c = true := by
  refine Bool.not_eq_false _ |>.mp fun hn => ?_
  rcases eq_of_isInert_eq_false hn with rfl | rfl | rfl | rfl | rfl | rfl | rfl | rfl | rfl <;>
    exact absurd h (by decide)

theorem not_isKeyChar_of_isBlank {c : Char} (h : isBlank c = true) : isKeyChar c = false := by
  rw [isKeyChar, not_isWord_of_isBlank h, Bool.false_or, beq_eq_false_iff_ne]
  rintro rfl
  exact absurd h (by decide)

/-- A character that keys are made of. -/
def isKeyPart (c : Char) : Bool := isKeyStart c || isKeyChar c

theorem isInert_of_isKeyPart {c : Char} (h : isKeyPart c = true) : isInert c = true := by
  refine Bool.not_eq_false _ |>.mp fun hn => ?_
  rcases eq_of_isInert_eq_false hn with rfl | rfl | rfl | rfl | rfl | rfl | rfl | rfl | rfl <;>
    exact absurd h (by decide)

theorem State.step_inert {st : State} (hst : st.quote = none) {c : Char} (hc : isInert c = true) :
    st.splits c = false ∧ st.step c = { st with last := some c } := by
  simp only [isInert, Bool.not_eq_true', Bool.or_eq_false_iff, beq_eq_false_iff_ne] at hc
  obtain ⟨⟨⟨hq, ho⟩, hcl⟩, hcomma⟩ := hc
  refine ⟨by simp [State.splits, hcomma], ?_⟩
  rw [State.step, hst]
  simp [hq, ho, hcl]

/-- Outside of strings, a text of other characters changes nothing. -/
theorem State.run_inert {st : State} (hst : st.quote = none) {s : Text}
    (hs : ∀ c ∈ s, isInert c = true) : st.uncut s = true ∧ (st.run s).Like st := by
  induction s generalizing st with
  | nil => exact ⟨rfl, .refl st⟩
  | cons c s ih =>
    obtain ⟨hsplit, hstep⟩ := State.step_inert hst (hs c List.mem_cons_self)
    have hq : (st.step c).quote = none := by rw [hstep, hst]
    obtain ⟨hu, hl⟩ := ih hq fun d hd => hs d (List.mem_cons_of_mem _ hd)
    refine ⟨by rw [uncut, hsplit, hu]; rfl, hl.trans ?_⟩
    rw [hstep]
    exact ⟨rfl, rfl, .inl hst⟩

theorem State.run_blank {st : State} (hst : st.quote = none) {s : Text} (hs : Blank s) :
    st.uncut s = true ∧ (st.run s).Like st :=
  st.run_inert hst fun c hc => isInert_of_isBlank (hs c hc)

/-- White space closes no string and opens none, and is no comma. -/
theorem State.Sound.step_blank {st : State} (hst : st.Sound) {c : Char} (hc : isBlank c = true) :
    st.splits c = false ∧ st.step c = { st with last := some c } := by
  cases hq : st.quote with
  | none =>
    rw [← hq]
    exact State.step_inert hq (isInert_of_isBlank hc)
  | some q =>
    have hne : c ≠ q := by
      rintro rfl
      have hinert := isInert_of_isBlank hc
      simp [isInert, hst c hq] at hinert
    refine ⟨by simp [State.splits, hq], ?_⟩
    rw [State.step, hq]
    simp [hne]

theorem State.Sound.run_blank {st : State} (hst : st.Sound) {b : Text} (hb : Blank b) :
    st.uncut b = true ∧ (st.run b).quote = st.quote ∧ (st.run b).depth = st.depth := by
  induction b generalizing st with
  | nil => exact ⟨rfl, rfl, rfl⟩
  | cons c b ih =>
    obtain ⟨hsplit, hstep⟩ := hst.step_blank (hb c List.mem_cons_self)
    obtain ⟨hu, hq, hd⟩ := ih (hst.step c) fun d hm => hb d (List.mem_cons_of_mem _ hm)
    refine ⟨by rw [uncut, hsplit, hu]; rfl, hq.trans (by rw [hstep]), hd.trans (by rw [hstep])⟩

theorem State.run_append_blank (s : Text) {b : Text} (hb : Blank b) :
    (State.start.run s).uncut b = true ∧
      (State.start.run (s ++ b)).quote = (State.start.run s).quote ∧
      (State.start.run (s ++ b)).depth = (State.start.run s).depth := by
  rw [run_append]
  exact (State.sound_start.run s).run_blank hb

/-! ## Texts that can be read one by one -/

/-- The texts can be read one by one, the first of them from a state: none of them is cut, and all
but the last leave nothing open. -/
def SeparateFrom : State → List Text → Prop
  | _, [] => True
  | st, [x] => st.uncut x = true
  | st, x :: y :: xs => st.uncut x = true ∧ (st.run x).Level ∧ SeparateFrom .start (y :: xs)

/-- The texts can be read one by one. -/
abbrev Separate (xs : List Text) : Prop := SeparateFrom .start xs

theorem SeparateFrom.uncut {st : State} {x : Text} {xs : List Text}
    (h : SeparateFrom st (x :: xs)) : st.uncut x = true := by
  cases xs with
  | nil => exact h
  | cons y xs => exact h.1

theorem Separate.tail {x : Text} {xs : List Text} (h : Separate (x :: xs)) : Separate xs := by
  cases xs with
  | nil => trivial
  | cons y xs => exact h.2.2

theorem SeparateFrom.of_like {st st' : State} (hl : st.Like st') {xs : List Text}
    (h : SeparateFrom st' xs) : SeparateFrom st xs := by
  match xs, h with
  | [], _ => trivial
  | [x], h => exact (hl.uncut x).trans h
  | x :: y :: xs, ⟨hu, hlevel, hrest⟩ =>
    exact ⟨(hl.uncut x).trans hu, (hl.run x).level hlevel, hrest⟩

theorem separateFrom_segments (st : State) (s : Text) : SeparateFrom st (segments st s) := by
  induction s generalizing st with
  | nil => rfl
  | cons c s ih =>
    have ih := ih (st.step c)
    obtain ⟨x, xs, hx⟩ := List.exists_cons_of_ne_nil (segments_ne_nil (st.step c) s)
    rw [segments]
    split
    · next hsplit =>
      -- a comma at level: what follows is read from the start
      have hst : st.quote = none ∧ c = ',' ∧ st.depth = 0 := by
        simpa [State.splits, and_assoc] using hsplit
      obtain ⟨hq, rfl, hd⟩ := hst
      have hlike : (State.start).Like (st.step ',') := by
        have hstep : (State.start).step ',' = st.step ',' :=
          (State.Level.like ⟨hq, hd⟩).symm.step ','
        rw [← hstep]
        exact ⟨rfl, rfl, .inl rfl⟩
      rw [hx] at ih ⊢
      exact ⟨rfl, ⟨hq, hd⟩, ih.of_like hlike⟩
    · next hsplit =>
      have hsplit : st.splits c = false := by simpa using hsplit
      have hc : ∀ x, st.uncut (c :: x) = (st.step c).uncut x := by
        intro x
        rw [State.uncut, hsplit]
        rfl
      rw [hx] at ih ⊢
      cases xs with
      | nil => exact (hc x).trans ih
      | cons y xs => exact ⟨(hc x).trans ih.1, ih.2.1, ih.2.2⟩

/-- A text that is not cut becomes part of the first segment of what follows it. -/
theorem segments_append_of_uncut {st : State} {x : Text} (h : st.uncut x = true) (s : Text) :
    segments st (x ++ s) = (segments (st.run x) s).modifyHead (x ++ ·) := by
  induction x generalizing st with
  | nil =>
    obtain ⟨y, ys, hy⟩ := List.exists_cons_of_ne_nil (segments_ne_nil st s)
    show segments st s = (segments st s).modifyHead ([] ++ ·)
    rw [hy]
    rfl
  | cons c x ih =>
    rw [State.uncut, Bool.and_eq_true, Bool.not_eq_true'] at h
    have ih := ih h.2
    obtain ⟨y, ys, hy⟩ := List.exists_cons_of_ne_nil (segments_ne_nil ((st.step c).run x) s)
    rw [hy] at ih
    rw [List.cons_append, segments, h.1, ih]
    show _ = (segments ((st.step c).run x) s).modifyHead _
    rw [hy]
    rfl

theorem State.Sound.segments_blank_append {st : State} (hst : st.Sound) {b : Text} (hb : Blank b)
    (s : Text) : segments st (b ++ s) = (segments (st.run b) s).modifyHead (b ++ ·) :=
  segments_append_of_uncut (hst.run_blank hb).1 s

theorem segments_of_uncut {st : State} {x : Text} (h : st.uncut x = true) :
    segments st x = [x] := by
  have hx := segments_append_of_uncut h []
  rw [List.append_nil] at hx
  rw [hx, segments, List.modifyHead_cons, List.append_nil]

theorem segments_append_comma {st : State} {x : Text} (h : st.uncut x = true)
    (hl : (st.run x).Level) (y : Text) :
    segments st (x ++ ',' :: y) = x :: segments .start y := by
  have hsplit : (st.run x).splits ',' = true := by simp [State.splits, hl.1, hl.2]
  have hlike : ((st.run x).step ',').Like .start := by
    rw [hl.like.step ',']
    exact ⟨rfl, rfl, .inl rfl⟩
  rw [segments_append_of_uncut h, segments, if_pos hsplit, hlike.segments, List.modifyHead_cons,
    List.append_nil]

/-- Texts that can be read one by one are what their text splits into. -/
theorem segments_intercalate {xs : List Text} (hne : xs ≠ []) (h : Separate xs) :
    segments .start ([','].intercalate xs) = xs := by
  induction xs with
  | nil => exact absurd rfl hne
  | cons x xs ih =>
    cases xs with
    | nil =>
      rw [List.intercalate_singleton]
      exact segments_of_uncut h
    | cons y xs =>
      rw [List.intercalate_cons_cons, List.append_assoc, List.singleton_append,
        segments_append_comma h.1 h.2.1, ih (List.cons_ne_nil y xs) h.2.2]

/-! ## Properties -/

/-- What a text does to the state at the start, for texts that do the same. -/
structure ReadsAs (x y : Text) : Prop where
  uncut : State.start.uncut x = true → State.start.uncut y = true
  level : (State.start.run x).Level → (State.start.run y).Level

/-- Reading one by one does not depend on texts that do the same, nor on texts left out. -/
theorem Separate.filterMap {f : Text → Option Text} (hf : ∀ x y, f x = some y → ReadsAs x y)
    {xs : List Text} (h : Separate xs) : Separate (xs.filterMap f) := by
  induction xs with
  | nil => trivial
  | cons x xs ih =>
    have ih := ih h.tail
    cases hx : f x with
    | none =>
      rw [List.filterMap_cons_none hx]
      exact ih
    | some y =>
      rw [List.filterMap_cons_some hx]
      cases hrest : xs.filterMap f with
      | nil => exact (hf x y hx).uncut h.uncut
      | cons z zs =>
        cases xs with
        | nil => cases hrest
        | cons x' xs =>
          rw [← hrest]
          have hlevel := (hf x y hx).level h.2.1
          rw [hrest] at ih ⊢
          exact ⟨(hf x y hx).uncut h.1, hlevel, ih⟩

theorem Separate.map {f : Text → Text} (hf : ∀ x, ReadsAs x (f x)) {xs : List Text}
    (h : Separate xs) : Separate (xs.map f) := by
  rw [← List.filterMap_eq_map]
  refine h.filterMap fun x y hx => ?_
  cases hx
  exact hf x

/-- White space in front makes no difference. -/
theorem State.start_run_blank_append {a : Text} (ha : Blank a) (s : Text) :
    State.start.uncut (a ++ s) = State.start.uncut s ∧
      (State.start.run (a ++ s)).Like (State.start.run s) := by
  obtain ⟨hu, hl⟩ := State.start.run_blank rfl ha
  rw [uncut_append, hu, hl.uncut, run_append]
  exact ⟨rfl, hl.run s⟩

theorem readsAs_blank_append {a : Text} (ha : Blank a) (s : Text) : ReadsAs s (a ++ s) := by
  obtain ⟨hu, hl⟩ := State.start_run_blank_append ha s
  exact ⟨fun h => hu.trans h, fun h => hl.level h⟩

theorem readsAs_trim (s : Text) : ReadsAs s (trim s) := by
  rcases blank_or_exists_isTrim s with h | ⟨a, b, ha, hb, hs, _⟩
  · rw [trim_of_blank h]
    exact ⟨fun _ => rfl, fun _ => ⟨rfl, rfl⟩⟩
  · obtain ⟨hu, hl⟩ := State.start_run_blank_append ha (trim s)
    obtain ⟨_, hq, hd⟩ := State.run_append_blank (a ++ trim s) hb
    rw [← hs] at hq hd
    constructor
    · intro h
      rw [hs, State.uncut_append, Bool.and_eq_true] at h
      exact hu.symm.trans h.1
    · intro h
      exact hl.symm.level ⟨hq.symm.trans h.1, hd.symm.trans h.2⟩

/-- The properties of a body can be read one by one. -/
theorem Separate.properties (body : Text) : Separate (properties body) := by
  have h := Separate.map readsAs_trim (separateFrom_segments .start body)
  rw [Hash.properties, ← List.filterMap_eq_filter]
  refine h.filterMap fun x y hx => ?_
  have hxy : x = y := by
    rw [Option.guard_eq_some_iff] at hx
    exact hx.1
  rw [hxy]
  exact ⟨id, id⟩

/-! ## Quoted keys -/

/-- A bare key with its value: a name, and white space around the colon. -/
theorem exists_of_bareKey? {property key value : Text}
    (h : bareKey? property = some (key, value)) :
    ∃ gap gap', property = key ++ (gap ++ ':' :: (gap' ++ value)) ∧ Blank gap ∧ Blank gap' ∧
      (∀ c ∈ key, isKeyPart c = true) ∧ trimLeft value = value := by
  cases property with
  | nil => cases h
  | cons c s =>
    rw [bareKey?] at h
    split at h
    · next hstart =>
      split at h
      · next rest hrest =>
        cases h
        obtain ⟨gap, hgap, hs⟩ := exists_blank_append_trimLeft (s.dropWhile isKeyChar)
        obtain ⟨gap', hgap', hv⟩ := exists_blank_append_trimLeft rest
        rw [hrest] at hs
        refine ⟨gap, gap', ?_, hgap, hgap', List.forall_mem_cons.mpr ⟨?_, fun d hd => ?_⟩, ?_⟩
        · rw [← hv, ← hs, List.cons_append, List.takeWhile_append_dropWhile]
        · rw [isKeyPart, hstart]
          rfl
        · rw [isKeyPart, List.all_eq_true.mp List.all_takeWhile d hd, Bool.or_true]
        · cases hval : trimLeft rest with
          | nil => rfl
          | cons d t => exact trimLeft_cons (not_isBlank_of_trimLeft hval) t
      · cases h
    · cases h

/-- A key inside its quotes. -/
theorem State.run_quoted {st : State} (hst : st.quote = some '\'') {key : Text}
    (hk : ∀ c ∈ key, isKeyPart c = true) (hl : st.last ≠ some '\\') :
    st.uncut key = true ∧ (st.run key).quote = some '\'' ∧ (st.run key).depth = st.depth ∧
      (st.run key).last ≠ some '\\' := by
  induction key generalizing st with
  | nil => exact ⟨rfl, hst, rfl, hl⟩
  | cons c key ih =>
    have hc := hk c List.mem_cons_self
    have hne : c ≠ '\'' := by
      rintro rfl
      exact absurd hc (by decide)
    have hesc : c ≠ '\\' := by
      rintro rfl
      exact absurd hc (by decide)
    have hstep : st.step c = { st with last := some c } := by
      rw [State.step, hst]
      simp [hne]
    have hsplit : st.splits c = false := by simp [State.splits, hst]
    have hq : (st.step c).quote = some '\'' := by rw [hstep, hst]
    obtain ⟨hu, hrun⟩ := ih hq (fun d hd => hk d (List.mem_cons_of_mem _ hd))
      (by rw [hstep]; simpa using hesc)
    exact ⟨by rw [uncut, hsplit, hu]; rfl, hrun.1, hrun.2.1.trans (by rw [hstep]), hrun.2.2⟩

/-- A quoted key with the colon behind it leaves nothing open. -/
theorem State.start_run_quoted {key : Text} (hk : ∀ c ∈ key, isKeyPart c = true) :
    State.start.uncut ('\'' :: key ++ ['\'', ':', ' ']) = true ∧
      (State.start.run ('\'' :: key ++ ['\'', ':', ' '])).Like .start := by
  have hopen : State.start.step '\'' = ⟨some '\'', 0, some '\''⟩ := rfl
  obtain ⟨hu, hq, hd, hl⟩ := (State.start.step '\'').run_quoted rfl hk (by decide)
  have hclose : ((State.start.step '\'').run key).step '\'' = ⟨none, 0, some '\''⟩ := by
    have hl' : (((State.start.step '\'').run key).last != some '\\') = true := by simpa using hl
    rw [State.step, hq]
    simp only [hl', hd]
    rfl
  have hrun : State.start.run ('\'' :: key) = (State.start.step '\'').run key := rfl
  rw [uncut_append, run_append, hrun]
  constructor
  · have hcut : State.start.uncut ('\'' :: key) = true := by
      rw [uncut, hu]
      rfl
    have hsplit : ((State.start.step '\'').run key).splits '\'' = false := by
      simp [State.splits, hq]
    rw [hcut, uncut, hsplit, hclose]
    rfl
  · change ((((State.start.step '\'').run key).step '\'').run [':', ' ']).Like .start
    rw [hclose]
    exact ⟨rfl, rfl, .inl rfl⟩

/-- So does a bare key. -/
theorem State.start_run_bare {key gap gap' : Text} (hk : ∀ c ∈ key, isKeyPart c = true)
    (hgap : Blank gap) (hgap' : Blank gap') :
    State.start.uncut (key ++ (gap ++ ':' :: gap')) = true ∧
      (State.start.run (key ++ (gap ++ ':' :: gap'))).Like .start := by
  refine State.start.run_inert rfl (List.forall_mem_append.mpr ⟨fun c hc =>
    isInert_of_isKeyPart (hk c hc), List.forall_mem_append.mpr ⟨fun c hc =>
      isInert_of_isBlank (hgap c hc), ?_⟩⟩)
  exact List.forall_mem_cons.mpr ⟨by decide, fun c hc => isInert_of_isBlank (hgap' c hc)⟩

theorem readsAs_quoteKey (property : Text) : ReadsAs property (quoteKey property) := by
  rw [quoteKey]
  split
  · next key value h =>
    obtain ⟨gap, gap', rfl, hgap, hgap', hkey, _⟩ := exists_of_bareKey? h
    -- all before the value is passed over, with quotes and without
    obtain ⟨hu, hl⟩ := State.start_run_bare hkey hgap hgap'
    obtain ⟨hu', hl'⟩ := State.start_run_quoted hkey
    have he : key ++ (gap ++ ':' :: (gap' ++ value)) = key ++ (gap ++ ':' :: gap') ++ value := by
      simp
    rw [he]
    constructor
    · intro h
      rw [State.uncut_append, hu, hl.uncut] at h
      rw [State.uncut_append, hu', hl'.uncut]
      exact h
    · intro h
      rw [State.run_append] at h ⊢
      exact (hl'.run value).level ((hl.run value).symm.level h)
  · exact ⟨id, id⟩

theorem Separate.map_quoteKey {xs : List Text} (h : Separate xs) : Separate (xs.map quoteKey) :=
  h.map readsAs_quoteKey

/-! ## Layout -/

/-- The texts with another one behind the last of them. -/
def appendLast (b : Text) : List Text → List Text
  | [] => []
  | [x] => [x ++ b]
  | x :: y :: xs => x :: appendLast b (y :: xs)

theorem appendLast_ne_nil {b : Text} {xs : List Text} (h : xs ≠ []) : appendLast b xs ≠ [] := by
  fun_cases appendLast b xs <;> simp_all

theorem Separate.appendLast {b : Text} (hb : Blank b) {xs : List Text} (h : Separate xs) :
    Separate (appendLast b xs) := by
  fun_induction Hash.appendLast b xs with
  | case1 => trivial
  | case2 x =>
    show State.start.uncut (x ++ b) = true
    rw [State.uncut_append, (State.run_append_blank x hb).1, Bool.and_true]
    exact h
  | case3 x y xs ih =>
    have ih := ih h.2.2
    obtain ⟨z, zs, hz⟩ :=
      List.exists_cons_of_ne_nil (appendLast_ne_nil (b := b) (List.cons_ne_nil y xs))
    rw [hz] at ih ⊢
    exact ⟨h.1, h.2.1, ih⟩

theorem map_trim_appendLast {b : Text} (hb : Blank b) (xs : List Text) :
    (appendLast b xs).map trim = xs.map trim := by
  fun_induction appendLast b xs with
  | case1 => rfl
  | case2 x =>
    have h := trim_append_append Blank.nil hb x
    rw [List.nil_append] at h
    rw [List.map_singleton, List.map_singleton, h]
  | case3 x y xs ih =>
    rw [List.map_cons, ih]
    rfl

/-- Lines with commas between them, as texts between commas. -/
theorem append_intercalate_append (newline b : Text) {xs : List Text} (hne : xs ≠ []) :
    newline ++ (',' :: newline).intercalate xs ++ b =
      [','].intercalate (appendLast b (xs.map (newline ++ ·))) := by
  induction xs with
  | nil => exact absurd rfl hne
  | cons x xs ih =>
    cases xs with
    | nil => simp [appendLast]
    | cons y xs =>
      have ih := ih (List.cons_ne_nil y xs)
      have hne' : (y :: xs).map (newline ++ ·) ≠ [] := by simp
      obtain ⟨z, zs, hz⟩ := List.exists_cons_of_ne_nil (appendLast_ne_nil (b := b) hne')
      have hlast : [','].intercalate (appendLast b ((x :: y :: xs).map (newline ++ ·))) =
          newline ++ x ++ [','] ++
            [','].intercalate (appendLast b ((y :: xs).map (newline ++ ·))) := by
        show [','].intercalate ((newline ++ x) :: appendLast b ((y :: xs).map (newline ++ ·))) = _
        rw [hz, List.intercalate_cons_cons]
      rw [hlast, ← ih, List.intercalate_cons_cons]
      simp only [List.append_assoc, List.cons_append, List.nil_append]

theorem mem_properties {body property : Text} (h : property ∈ properties body) :
    IsTrim property := by
  obtain ⟨hm, hne⟩ := List.mem_filter.mp h
  obtain ⟨segment, _, rfl⟩ := List.mem_map.mp hm
  rcases trim_eq_nil_or_isTrim segment with hn | ht
  · rw [hn] at hne
    cases hne
  · exact ht

theorem not_blank_quoteKey {property : Text} (h : IsTrim property) :
    ¬ Blank (quoteKey property) := by
  intro hb
  rw [quoteKey] at hb
  split at hb
  · exact absurd (hb '\'' (by simp)) (by decide)
  · obtain ⟨c, t, rfl, hc⟩ := h.head
    exact absurd (hb c List.mem_cons_self) (by simp [hc])

/-- Lines with a property on each of them split into the properties again. -/
theorem properties_lines {xs : List Text} (hne : xs ≠ []) (hsep : Separate xs)
    (hxs : ∀ x ∈ xs, ¬ Blank x) {indent newline b : Text} (hi : Blank indent) (hn : Blank newline)
    (hb : Blank b) :
    properties (newline ++ (',' :: newline).intercalate (xs.map (indent ++ ·)) ++ b) =
      xs.map trim := by
  have hsep' : Separate (xs.map fun x => newline ++ (indent ++ x)) := by
    refine hsep.map fun x => ?_
    rw [← List.append_assoc]
    exact readsAs_blank_append (hn.append hi) x
  have hlines : (xs.map (indent ++ ·)).map (newline ++ ·) =
      xs.map fun x => newline ++ (indent ++ x) := by
    rw [List.map_map]
    rfl
  have htrim : (xs.map fun x => newline ++ (indent ++ x)).map trim = xs.map trim := by
    rw [List.map_map]
    refine List.map_congr_left fun x _ => ?_
    have ht := trim_append_append (hn.append hi) Blank.nil x
    rw [List.append_nil, List.append_assoc] at ht
    exact ht
  rw [append_intercalate_append newline b (by simpa using hne), hlines, properties,
    segments_intercalate (appendLast_ne_nil (by simpa using hne)) (hsep'.appendLast hb),
    map_trim_appendLast hb, htrim]
  refine List.filter_eq_self.mpr fun t ht => ?_
  obtain ⟨x, hx, rfl⟩ := List.mem_map.mp ht
  have hblank := hxs x hx
  rw [← trim_eq_nil_iff] at hblank
  simpa using hblank

theorem layout_eq_some_iff {body indent newline out : Text} :
    layout body indent newline = some out ↔ properties body ≠ [] ∧
      out = (',' :: newline).intercalate (((properties body).map quoteKey).map (indent ++ ·)) := by
  rw [layout, List.map_map]
  split
  · next h => exact ⟨fun he => absurd he (by simp), fun h' => absurd h h'.1⟩
  · next hne =>
    constructor
    · intro h
      cases h
      exact ⟨hne, rfl⟩
    · rintro ⟨_, rfl⟩
      rfl

/-- A body that was laid out splits into the quoted properties of the body it was made of. -/
theorem properties_of_layout {body indent newline b out : Text} (hi : Blank indent)
    (hn : Blank newline) (hb : Blank b) (h : layout body indent newline = some out) :
    properties (newline ++ out ++ b) = (properties body).map fun p => trim (quoteKey p) := by
  obtain ⟨hne, rfl⟩ := layout_eq_some_iff.mp h
  have hquoted : ∀ x ∈ (properties body).map quoteKey, ¬ Blank x := by
    intro x hx
    obtain ⟨p, hp, rfl⟩ := List.mem_map.mp hx
    exact not_blank_quoteKey (mem_properties hp)
  rw [properties_lines (by simpa using hne) (Separate.properties body).map_quoteKey hquoted hi hn
    hb, List.map_map]
  rfl

theorem layout_eq_none_iff {body indent newline : Text} :
    layout body indent newline = none ↔ properties body = [] := by
  rw [layout]
  split
  · next h => exact ⟨fun _ => h, fun _ => rfl⟩
  · next hne => exact ⟨fun he => absurd he (by simp), fun h => absurd h hne⟩

/-- White space in front of a body is no part of its properties. -/
theorem properties_blank_append {b : Text} (hb : Blank b) (s : Text) :
    properties (b ++ s) = properties s := by
  have hrun : (State.start.run b).Like .start := (State.run_blank rfl hb).2
  obtain ⟨x, xs, hx⟩ := List.exists_cons_of_ne_nil (segments_ne_nil .start s)
  have htrim : trim (b ++ x) = trim x := by
    have h := trim_append_append hb Blank.nil x
    rwa [List.append_nil] at h
  rw [properties, State.sound_start.segments_blank_append hb, hrun.segments, hx,
    List.modifyHead_cons, List.map_cons, htrim, properties, hx, List.map_cons]

/-- Only a body without properties is not laid out, whatever it holds. Any other body that was laid
out splits into its own properties again, with their keys quoted. -/
theorem properties_layout (body : Text) {indent newline : Text} (hi : Blank indent)
    (hn : Blank newline) :
    (layout body indent newline = none ↔ properties body = []) ∧
      (properties body ≠ [] → ∃ out, layout body indent newline = some out ∧
        properties out = (properties body).map fun p => trim (quoteKey p)) := by
  refine ⟨layout_eq_none_iff, fun hne => ?_⟩
  obtain ⟨out, hout⟩ : ∃ out, layout body indent newline = some out :=
    Option.ne_none_iff_exists'.mp (mt layout_eq_none_iff.mp hne)
  refine ⟨out, hout, ?_⟩
  have h := properties_of_layout hi hn Blank.nil hout
  rwa [List.append_nil, properties_blank_append hn] at h

/-- A key without a value, a bracket that closes nothing, an escaped quote, and at the end a bracket
and a string that stay open. -/
theorem properties_layout_malformed :
    let body := ", x : ,], 'a\\', b' , y: (1, 2, z: \"3, ".toList
    properties body = ["x :", "]", "'a\\', b'", "y: (1, 2, z: \"3,"].map String.toList ∧
      ∃ out, layout body "\t".toList "\r\n".toList = some out ∧
        properties out = ["'x':", "]", "'a\\', b'", "'y': (1, 2, z: \"3,"].map String.toList := by
  intro body
  have hbody : properties body =
      ["x :", "]", "'a\\', b'", "y: (1, 2, z: \"3,"].map String.toList := by decide +kernel
  have hne : properties body ≠ [] := by simp [hbody]
  have hi : Blank "\t".toList := .of_all (by decide)
  have hn : Blank "\r\n".toList := .of_all (by decide)
  obtain ⟨out, hout, hprops⟩ := (properties_layout body hi hn).2 hne
  refine ⟨hbody, out, hout, hprops.trans ?_⟩
  rw [hbody]
  decide +kernel

/-- Characters other than white space stay when a key is quoted. -/
theorem mem_quoteKey {property : Text} {c : Char} (hc : c ∈ property) (hb : isBlank c = false) :
    c ∈ quoteKey property := by
  rw [quoteKey]
  split
  · next key value h =>
    obtain ⟨gap, gap', rfl, hgap, hgap', _⟩ := exists_of_bareKey? h
    have hgap := hgap.not_mem hb
    have hgap' := hgap'.not_mem hb
    simp only [List.mem_append, List.mem_cons, hgap, hgap', false_or] at hc
    simp only [List.mem_append, List.mem_cons]
    rcases hc with hc | rfl | hc
    · exact .inl (.inl (.inr hc))
    · exact .inl (.inr (.inr (.inl rfl)))
    · exact .inr hc
  · exact hc

/-- Characters other than white space and commas are part of a property. -/
theorem exists_property_of_mem {body : Text} {c : Char} (hc : c ∈ body) (hb : isBlank c = false)
    (hcomma : c ≠ ',') : ∃ p ∈ properties body, c ∈ p := by
  obtain ⟨segment, hs, hc⟩ : ∃ segment ∈ segments .start body, c ∈ segment := by
    rw [← intercalate_segments .start body] at hc
    exact exists_mem_of_mem_intercalate (by simpa using hcomma) hc
  have htrim : c ∈ trim segment := by
    rcases blank_or_exists_isTrim segment with hblank | ⟨a, b, ha, hb', he, _⟩
    · exact absurd hc (hblank.not_mem hb)
    · rw [he] at hc
      simpa [ha.not_mem hb, hb'.not_mem hb] using hc
  refine ⟨trim segment, List.mem_filter.mpr ⟨List.mem_map_of_mem hs, ?_⟩, htrim⟩
  simpa using List.ne_nil_of_mem htrim

/-- Characters other than white space and commas stay when a body is laid out. -/
theorem mem_layout {body indent newline out : Text} (h : layout body indent newline = some out)
    {c : Char} (hc : c ∈ body) (hb : isBlank c = false) (hcomma : c ≠ ',') : c ∈ out := by
  obtain ⟨p, hp, hc⟩ := exists_property_of_mem hc hb hcomma
  rw [layout] at h
  split at h
  · cases h
  · cases h
    have hline := infix_intercalate (',' :: newline)
      (List.mem_map_of_mem (f := fun p => indent ++ quoteKey p) hp)
    exact hline.subset (List.mem_append_right indent (mem_quoteKey hc hb))

theorem forall_mem_quoteKey {P : Char → Prop} (hquote : ∀ c ∈ ['\'', ':', ' '], P c)
    {property : Text} (h : ∀ c ∈ property, P c) : ∀ c ∈ quoteKey property, P c := by
  rw [quoteKey]
  split
  · next key value hk =>
    obtain ⟨gap, gap', rfl, -⟩ := exists_of_bareKey? hk
    have hkey : ∀ c ∈ key, P c := fun c hc => h c (List.mem_append_left _ hc)
    have hvalue : ∀ c ∈ value, P c := fun c hc => h c (by simp [hc])
    exact List.forall_mem_append.mpr ⟨List.forall_mem_append.mpr ⟨List.forall_mem_cons.mpr
      ⟨hquote _ (by simp), hkey⟩, hquote⟩, hvalue⟩
  · exact h

/-- The characters of a body that was laid out. -/
theorem forall_mem_layout {P : Char → Prop} (hmarks : ∀ c ∈ [',', '\'', ':', ' '], P c)
    {body indent newline out : Text} (hb : ∀ c ∈ body, P c) (hi : ∀ c ∈ indent, P c)
    (hn : ∀ c ∈ newline, P c) (h : layout body indent newline = some out) : ∀ c ∈ out, P c := by
  rw [layout] at h
  split at h
  · cases h
  · cases h
    refine forall_mem_intercalate (List.forall_mem_cons.mpr ⟨hmarks _ (by simp), hn⟩) ?_
    intro line hl
    obtain ⟨property, hm, rfl⟩ := List.mem_map.mp hl
    have hp : ∀ c ∈ property, P c := fun c hc => hb c ((infix_of_mem_properties hm).subset hc)
    exact List.forall_mem_append.mpr ⟨hi, forall_mem_quoteKey
      (fun c hc => hmarks c (List.mem_cons_of_mem _ hc)) hp⟩

end TwigLayout.Hash
