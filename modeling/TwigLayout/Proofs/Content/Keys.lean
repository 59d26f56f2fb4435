import TwigLayout.Proofs.Content.Hash

/-!
# Tokens and bare keys

All characters of a token may stand in a bare key. So a token next to a key is part of it, and goes
into the quotes that the key gets. Every other token outside of strings stays outside of them.

1. `quoteKey_around`: the place of a token in a property with its key quoted.
2. `segments_append`: the segments of a text in two parts.
3. `outside_layout_iff`: a token comes to stand in a string exactly if it is part of a bare key
   (`inKey`). `outside_layout_key` is such a token.
-/

namespace TwigLayout.Hash

open Text Placeholder

/-! ## Starts of keys -/

theorem isKeyChar_of_isTokenChar {c : Char} (h : isTokenChar c = true) : isKeyChar c = true := by
  unfold isKeyChar
  rw [isWord_of_isTokenChar h]
  rfl

theorem isKeyChar_of_isKeyStart {c : Char} (h : isKeyStart c = true) : isKeyChar c = true := by
  refine isKeyChar_of_isTokenChar ?_
  unfold isKeyStart at h
  unfold isTokenChar Char.isAlphanum
  grind

theorem not_isBlank_of_isKeyChar {c : Char} (h : isKeyChar c = true) : isBlank c = false := by
  refine Bool.eq_false_iff.mpr fun hb => ?_
  rw [not_isKeyChar_of_isBlank hb] at h
  cases h

theorem isKeyPart_of_isKeyChar {c : Char} (h : isKeyChar c = true) : isKeyPart c = true := by
  unfold isKeyPart
  rw [h, Bool.or_true]

/-- Whether the text may be the start of a bare key. -/
def isKeyPrefix : Text → Bool
  | [] => true
  | c :: s => isKeyStart c && s.all isKeyChar

theorem isKeyChar_of_isKeyPrefix {s : Text} (h : isKeyPrefix s = true) :
    ∀ c ∈ s, isKeyChar c = true := by
  cases s with
  | nil => exact fun _ hc => absurd hc List.not_mem_nil
  | cons d s =>
    rw [isKeyPrefix, Bool.and_eq_true, List.all_eq_true] at h
    exact List.forall_mem_cons.mpr ⟨isKeyChar_of_isKeyStart h.1, h.2⟩

theorem isKeyPrefix_append {s t : Text} (hs : isKeyPrefix s = true) (ht : isKeyPrefix t = true) :
    isKeyPrefix (s ++ t) = true := by
  cases s with
  | nil => exact ht
  | cons c s =>
    rw [isKeyPrefix, Bool.and_eq_true] at hs
    rw [List.cons_append, isKeyPrefix, hs.1, List.all_append, hs.2]
    exact List.all_eq_true.mpr (isKeyChar_of_isKeyPrefix ht)

theorem isKeyPrefix_of_isToken {k : Kind} {i : Nat} {token : Text} (h : IsToken k i token) :
    isKeyPrefix token = true := by
  have hchars : ∀ c ∈ token, isKeyChar c = true :=
    fun c hc => isKeyChar_of_isTokenChar (h.isTokenChar c hc)
  obtain ⟨w, _, rfl⟩ := h.exists_core
  obtain ⟨_, hrest⟩ := List.forall_mem_cons.mp hchars
  rw [isKeyPrefix, List.all_eq_true.mpr hrest]
  rfl

/-- Whether a bare key that goes on with the text ends there, before the colon of its value. -/
def opensValue (s : Text) : Bool := (trimLeft (s.dropWhile isKeyChar)).head? == some ':'

theorem opensValue_iff {s : Text} : opensValue s = true ↔
    ∃ key gap rest, s = key ++ (gap ++ ':' :: rest) ∧ (∀ c ∈ key, isKeyChar c = true) ∧
      Blank gap := by
  unfold opensValue
  rw [beq_iff_eq]
  constructor
  · intro h
    obtain ⟨rest, hrest⟩ := List.head?_eq_some_iff.mp h
    obtain ⟨gap, hgap, hs⟩ := exists_blank_append_trimLeft (s.dropWhile isKeyChar)
    refine ⟨s.takeWhile isKeyChar, gap, rest, ?_, List.all_eq_true.mp List.all_takeWhile, hgap⟩
    rw [← hrest, ← hs, List.takeWhile_append_dropWhile]
  · rintro ⟨key, gap, rest, rfl, hkey, hgap⟩
    rw [dropWhile_append_blank_cons hkey hgap (fun _ => not_isKeyChar_of_isBlank) (by decide),
      trimLeft_append_cons hgap (by decide)]
    rfl

/-! ## Places in a property -/

/-- A bare key that goes on behind a start of a key. -/
theorem bareKey?_append {s : Text} (hne : s ≠ []) (hs : isKeyPrefix s = true) (t : Text) :
    bareKey? (s ++ t) =
      match trimLeft (t.dropWhile isKeyChar) with
      | ':' :: value => some (s ++ t.takeWhile isKeyChar, trimLeft value)
      | _ => none := by
  obtain ⟨c, s, rfl⟩ := List.exists_cons_of_ne_nil hne
  rw [isKeyPrefix, Bool.and_eq_true, List.all_eq_true] at hs
  rw [List.cons_append, bareKey?, if_pos hs.1, List.dropWhile_append_of_pos hs.2,
    List.takeWhile_append_of_pos hs.2]
  rfl

/-- A text that is not the start of a key, with another one behind it: there is no bare key, or it
ends before that. -/
theorem bareKey?_append_of_not {u : Text} (hu : isKeyPrefix u = false) {d : Char}
    (hd : isKeyChar d = true) (v : Text) :
    bareKey? (u ++ d :: v) = none ∨ ∃ key gap gap' u',
      bareKey? (u ++ d :: v) = some (key, u' ++ d :: v) ∧
      u = key ++ (gap ++ ':' :: (gap' ++ u')) ∧ Blank gap ∧ Blank gap' ∧
      ∀ c ∈ key, isKeyPart c = true := by
  have hblank : isBlank d = false := not_isBlank_of_isKeyChar hd
  have hcolon : d ≠ ':' := by
    rintro rfl
    exact absurd hd (by decide)
  cases u with
  | nil => cases hu
  | cons c s =>
    rw [isKeyPrefix] at hu
    rw [List.cons_append, bareKey?]
    split
    · next hstart =>
      -- the run of key characters ends inside of `s`
      obtain hall | ⟨k, e, r, rfl, hk, he⟩ := forall_or_exists_first (isKeyChar · = true) s
      · rw [hstart, List.all_eq_true.mpr hall] at hu
        cases hu
      have he : isKeyChar e = false := by simpa using he
      have htext : k ++ e :: r ++ d :: v = k ++ e :: (r ++ d :: v) := by simp
      have htrim : trimLeft (e :: (r ++ d :: v)) = trimLeft (e :: r) ++ d :: v :=
        trimLeft_append_of_not_isBlank (e :: r) hblank v
      obtain ⟨gap, hgap, hs⟩ := exists_blank_append_trimLeft (e :: r)
      rw [htext, dropWhile_append_cons hk he, takeWhile_append_cons hk he, htrim]
      split
      · next value hvalue =>
        cases hl : trimLeft (e :: r) with
        | nil =>
          rw [hl] at hvalue
          exact absurd (List.cons.inj hvalue).1 hcolon
        | cons x w =>
          rw [hl, List.cons_append] at hvalue
          obtain ⟨rfl, rfl⟩ := List.cons.inj hvalue
          obtain ⟨gap', hgap', hw⟩ := exists_blank_append_trimLeft w
          have hkey : ∀ x ∈ c :: k, isKeyPart x = true :=
            List.forall_mem_cons.mpr ⟨isKeyPart_of_isKeyChar (isKeyChar_of_isKeyStart hstart),
              fun x hx => isKeyPart_of_isKeyChar (hk x hx)⟩
          refine .inr ⟨c :: k, gap, gap', trimLeft w, ?_, ?_, hgap, hgap', hkey⟩
          · rw [trimLeft_append_of_not_isBlank w hblank]
          · rw [← hw, ← hl, ← hs]
            rfl
      · exact .inl rfl
    · exact .inl rfl

/-- The characters that laying out a body neither adds nor takes away. -/
def isKept (c : Char) : Bool := !(isBlank c || c == ',' || c == '\'')

/-- The place behind `a'` in a body that was laid out is the one that was behind `a`: the same
characters stand before it, but for white space, commas and quotes. -/
def SamePlace (a a' : Text) : Prop := a'.filter isKept = a.filter isKept

theorem filter_isKept_of_blank {b : Text} (hb : Blank b) : b.filter isKept = [] := by
  refine List.filter_eq_nil_iff.mpr fun c hc => ?_
  simp [isKept, hb c hc]

/-- There is one such place. -/
theorem SamePlace.eq {a a₁ a₂ : Text} (h₁ : SamePlace a a₁) (h₂ : SamePlace a a₂) {d : Char}
    (hd : isKept d = true) {t₁ t₂ : Text} (h : a₁ ++ d :: t₁ = a₂ ++ d :: t₂) : a₁ = a₂ := by
  have heq : a₁.filter isKept = a₂.filter isKept := h₁.trans h₂.symm
  -- if one place was before the other, `d` would be kept between them
  have hlt : ∀ {x y s t : Text}, x ++ d :: s = y ++ d :: t → x.filter isKept = y.filter isKept →
      ¬ x.length < y.length := by
    intro x y s t hxy hfilter hl
    have hx : x ++ [d] <+: y ++ d :: t := by
      rw [← hxy]
      simp
    obtain ⟨z, hz⟩ : x ++ [d] <+: y := by
      refine List.prefix_of_prefix_length_le hx (List.prefix_append y _) ?_
      rw [List.length_append]
      exact hl
    have hlen := congrArg List.length hfilter
    rw [← hz, List.filter_append, List.filter_append, List.filter_cons_of_pos hd] at hlen
    simp at hlen
  have hlen : a₁.length = a₂.length := by
    have h₁₂ := hlt h heq
    have h₂₁ := hlt h.symm heq.symm
    omega
  exact (List.append_inj h hlen).1

/-- A bare key keeps its characters when it is quoted. -/
theorem samePlace_quoted (key : Text) {gap gap' : Text} (hgap : Blank gap) (hgap' : Blank gap')
    (s : Text) :
    SamePlace (key ++ (gap ++ ':' :: (gap' ++ s))) ('\'' :: key ++ ['\'', ':', ' '] ++ s) := by
  have hmarks : ['\'', ':', ' '].filter isKept = [':'] := rfl
  have hquote : isKept '\'' = false := rfl
  have hcolon : isKept ':' = true := rfl
  unfold SamePlace
  simp only [List.filter_append, List.filter_cons, hquote, hcolon, filter_isKept_of_blank hgap,
    filter_isKept_of_blank hgap', hmarks]
  simp

/-- A property that starts with a part of a key is quoted from there if the rest opens a value. -/
theorem exists_quoteKey_append {s : Text} (hne : s ≠ []) (hs : isKeyPrefix s = true) (t : Text) :
    ∃ t', quoteKey (s ++ t) = (if opensValue t then '\'' :: s else s) ++ t' := by
  unfold quoteKey opensValue
  rw [bareKey?_append hne hs]
  split
  · next hbare =>
    split at hbare
    · next rest hrest =>
      cases hbare
      refine ⟨t.takeWhile isKeyChar ++ ['\'', ':', ' '] ++ trimLeft rest, ?_⟩
      rw [hrest, if_pos (by simp)]
      simp
    · cases hbare
  · next hbare =>
    split at hbare
    · cases hbare
    · next hcolon =>
      have hopens : (trimLeft (t.dropWhile isKeyChar)).head? ≠ some ':' := fun h =>
        let ⟨rest, hrest⟩ := List.head?_eq_some_iff.mp h
        hcolon rest hrest
      exact ⟨t, by rw [if_neg (by simpa using hopens)]⟩

/-- A text behind the key of a property, or behind another text, stays when the key is quoted. -/
theorem exists_quoteKey_append_of_not {u : Text} (hkey : isKeyPrefix u = false)
    (hu : (State.start.run u).quote = none) {d : Char} (hd : isKeyChar d = true) (v : Text) :
    ∃ u', quoteKey (u ++ d :: v) = u' ++ d :: v ∧ SamePlace u u' ∧
      (State.start.run u').quote = none := by
  unfold quoteKey
  obtain hnone | ⟨key, gap, gap', u', hsome, rfl, hgap, hgap', hpart⟩ :=
    bareKey?_append_of_not hkey hd v
  · rw [hnone]
    exact ⟨u, rfl, rfl, hu⟩
  · rw [hsome]
    refine ⟨'\'' :: key ++ ['\'', ':', ' '] ++ u', by simp, samePlace_quoted key hgap hgap' u', ?_⟩
    have hbare := (State.start_run_bare hpart hgap hgap').2.run u'
    have hquoted := (State.start_run_quoted hpart).2.run u'
    rw [← State.run_append] at hbare hquoted
    have htext : key ++ (gap ++ ':' :: (gap' ++ u')) = key ++ (gap ++ ':' :: gap') ++ u' := by
      simp
    rw [htext, hbare.1] at hu
    rw [hquoted.1, hu]

/-- The place of a token in a property whose key is quoted. -/
theorem quoteKey_around {token : Text} (hne : token ≠ []) (htoken : isKeyPrefix token = true)
    {u : Text} (hu : (State.start.run u).quote = none) (v : Text) :
    ∃ u' v', quoteKey (u ++ token ++ v) = u' ++ token ++ v' ∧ SamePlace u u' ∧
      ((State.start.run u').quote = none ↔ (isKeyPrefix u && opensValue v) = false) := by
  cases hkey : isKeyPrefix u with
  | true =>
    obtain ⟨v', hv'⟩ := exists_quoteKey_append (s := u ++ token) (by simp [hne])
      (isKeyPrefix_append hkey htoken) v
    cases hopens : opensValue v with
    | true =>
      -- the token is in the quotes of the key
      rw [hopens] at hv'
      refine ⟨'\'' :: u, v', hv', rfl, ?_⟩
      have hpart : ∀ c ∈ u, isKeyPart c = true :=
        fun c hc => isKeyPart_of_isKeyChar (isKeyChar_of_isKeyPrefix hkey c hc)
      obtain ⟨_, hquote, _⟩ := (State.start.step '\'').run_quoted rfl hpart (by decide)
      show ((State.start.step '\'').run u).quote = none ↔ _
      rw [hquote]
      simp
    | false =>
      rw [hopens] at hv'
      exact ⟨u, v', hv', rfl, by simp [hu]⟩
  | false =>
    obtain ⟨d, t, rfl⟩ := List.exists_cons_of_ne_nil hne
    have hd : isKeyChar d = true := isKeyChar_of_isKeyPrefix htoken d List.mem_cons_self
    obtain ⟨u', hquoted, hsame, hu'⟩ := exists_quoteKey_append_of_not hkey hu hd (t ++ v)
    exact ⟨u', v, by simpa using hquoted, hsame, by simp [hu']⟩

/-! ## Places in a body -/

/-- The segments of a text in two parts: the last one of the first part goes on in the second. -/
theorem segments_append {st : State} {s t x y : Text} {front back : List Text}
    (hs : segments st s = front ++ [x]) (ht : segments (st.run s) t = y :: back) :
    segments st (s ++ t) = front ++ (x ++ y) :: back := by
  induction s generalizing st front x with
  | nil =>
    obtain ⟨rfl, hx⟩ := List.append_eq_singleton_iff.mp hs.symm |>.resolve_right (by simp)
    cases hx
    exact ht
  | cons c s ih =>
    have ht : segments ((st.step c).run s) t = y :: back := ht
    rw [segments] at hs
    rw [List.cons_append, segments]
    split at hs
    · next hsplit =>
      rw [if_pos hsplit]
      cases front with
      | nil => exact absurd (List.cons.inj hs).2 (segments_ne_nil _ s)
      | cons f front =>
        obtain ⟨rfl, hs'⟩ := List.cons.inj hs
        rw [ih hs' ht]
        rfl
    · next hsplit =>
      rw [if_neg hsplit]
      obtain ⟨z, zs, hz⟩ := List.exists_cons_of_ne_nil (segments_ne_nil (st.step c) s)
      rw [hz] at hs
      cases front with
      | nil =>
        obtain ⟨rfl, rfl⟩ := List.cons.inj hs
        rw [@ih (st.step c) z [] hz ht]
        rfl
      | cons f front =>
        obtain ⟨rfl, rfl⟩ := List.cons.inj hs
        rw [@ih (st.step c) x (z :: front) hz ht]
        rfl

theorem Separate.level {xs ys : List Text} {y : Text} (h : Separate (xs ++ y :: ys)) :
    ∀ x ∈ xs, (State.start.run x).Level := by
  induction xs with
  | nil => exact fun _ hx => absurd hx List.not_mem_nil
  | cons x xs ih =>
    obtain ⟨z, zs, hz⟩ := List.exists_cons_of_ne_nil (show xs ++ y :: ys ≠ [] by simp)
    rw [List.cons_append, hz] at h
    rw [hz] at ih
    exact List.forall_mem_cons.mpr ⟨h.2.1, ih h.2.2⟩

/-- Texts that leave nothing open, with commas behind them. -/
theorem State.run_flatMap_level {indent newline : Text} (hi : Blank indent) (hn : Blank newline)
    {xs : List Text} (h : ∀ x ∈ xs, (State.start.run x).Level) :
    (State.start.run (xs.flatMap fun x => indent ++ x ++ ',' :: newline)).Like .start := by
  induction xs with
  | nil => exact .refl _
  | cons x xs ih =>
    obtain ⟨hx, hxs⟩ := List.forall_mem_cons.mp h
    have hlevel : (State.start.run (indent ++ x)).Level :=
      (State.start_run_blank_append hi x).2.level hx
    have hcomma : ((State.start.run (indent ++ x)).step ',').Like .start := by
      rw [hlevel.like.step]
      exact ⟨rfl, rfl, .inl rfl⟩
    have hline : (State.start.run (indent ++ x ++ ',' :: newline)).Like .start := by
      rw [State.run_append]
      exact (State.run_blank hcomma.1 hn).2.trans hcomma
    rw [List.flatMap_cons, State.run_append]
    exact (hline.run _).trans (ih hxs)

/-- The text since the last comma that ends a property. -/
def lastSegment (a : Text) : Text := (segments .start a).getLast (segments_ne_nil .start a)

theorem segments_eq_append_lastSegment (a : Text) :
    ∃ front, segments .start a = front ++ [lastSegment a] :=
  ⟨_, (List.dropLast_concat_getLast _).symm⟩

/-- Whether a token behind `a` and before `b` is part of a bare key. -/
def inKey (a b : Text) : Bool := isKeyPrefix (trimLeft (lastSegment a)) && opensValue b

/-- The rest of a bare key and the colon behind it are in the first segment. -/
theorem opensValue_trimRight {st : State} (hst : st.quote = none) {b y : Text} {back : List Text}
    (h : segments st b = y :: back) : opensValue (trimRight y) = opensValue b := by
  rw [Bool.eq_iff_iff, opensValue_iff, opensValue_iff]
  constructor
  · rintro ⟨key, gap, rest, hy, hkey, hgap⟩
    obtain ⟨c, _, hc⟩ := exists_trimRight_append_blank y
    have hb := intercalate_segments st b
    rw [h, intercalate_cons_eq_flatMap, hc, hy] at hb
    exact ⟨key, gap, rest ++ (c ++ back.flatMap ([','] ++ ·)), by rw [← hb]; simp, hkey, hgap⟩
  · rintro ⟨key, gap, rest, rfl, hkey, hgap⟩
    have hinert : ∀ c ∈ key ++ (gap ++ [':']), isInert c = true :=
      List.forall_mem_append.mpr ⟨fun c hc =>
        isInert_of_isKeyPart (isKeyPart_of_isKeyChar (hkey c hc)), List.forall_mem_append.mpr
          ⟨fun c hc => isInert_of_isBlank (hgap c hc), List.forall_mem_singleton.mpr rfl⟩⟩
    obtain ⟨y', back', hrest⟩ := List.exists_cons_of_ne_nil
      (segments_ne_nil (st.run (key ++ (gap ++ [':']))) rest)
    have happend := @segments_append st (key ++ (gap ++ [':'])) rest _ y' [] back'
      (segments_of_uncut (State.run_inert hst hinert).1) hrest
    have htext : key ++ (gap ++ [':']) ++ rest = key ++ (gap ++ ':' :: rest) := by simp
    rw [htext, h] at happend
    obtain ⟨rfl, _⟩ := List.cons.inj happend
    refine ⟨key, gap, trimRight y', ?_, hkey, hgap⟩
    have htrim := trimRight_append_cons (c := ':') (by decide) (key ++ gap) y'
    simpa using htrim

/-! ## Layout -/

theorem filter_isKept_trim (s : Text) : (trim s).filter isKept = s.filter isKept := by
  obtain ⟨a, b, ha, hb, hs⟩ := exists_append_trim_append s
  conv => rhs; rw [hs]
  rw [List.filter_append, List.filter_append, filter_isKept_of_blank ha, filter_isKept_of_blank hb,
    List.nil_append, List.append_nil]

theorem filter_isKept_quoteKey (property : Text) :
    (quoteKey property).filter isKept = property.filter isKept := by
  unfold quoteKey
  split
  · next key value h =>
    obtain ⟨gap, gap', rfl, hgap, hgap', _⟩ := exists_of_bareKey? h
    exact samePlace_quoted key hgap hgap' value
  · rfl

/-- The properties that segments make up keep their characters. -/
theorem flatMap_filter_isKept (xs : List Text) :
    (((xs.map trim).filter (!·.isEmpty)).map quoteKey).flatMap (·.filter isKept) =
      xs.flatMap (·.filter isKept) := by
  induction xs with
  | nil => rfl
  | cons x xs ih =>
    rw [List.map_cons, List.flatMap_cons, ← ih, List.filter_cons]
    split
    · rw [List.map_cons, List.flatMap_cons, filter_isKept_quoteKey, filter_isKept_trim]
    · next hnil =>
      have hx : trim x = [] := by simpa using hnil
      rw [← filter_isKept_trim x, hx]
      rfl

theorem filter_isKept_flatMap {indent newline : Text} (hi : Blank indent) (hn : Blank newline)
    (xs : List Text) :
    (xs.flatMap fun x => indent ++ x ++ ',' :: newline).filter isKept =
      xs.flatMap (·.filter isKept) := by
  have hcomma : isKept ',' = false := rfl
  rw [List.filter_flatMap]
  refine congrArg (fun f => xs.flatMap f) (funext fun x => ?_)
  rw [List.filter_append, List.filter_append, filter_isKept_of_blank hi,
    List.filter_cons_of_neg (by simp [hcomma]), filter_isKept_of_blank hn]
  simp

/-- The place of a token outside of strings: the segments before it, and the property that it is
part of. -/
theorem exists_property_around {a token : Text} (htoken : IsTrim token)
    (hinert : ∀ c ∈ token, isInert c = true) (ha : (State.start.run a).quote = none) (b : Text) :
    ∃ (front back : List Text) (v : Text),
      a = front.flatMap (fun x => [] ++ x ++ [',']) ++ lastSegment a ∧
      (∀ x ∈ front, (State.start.run x).Level) ∧ opensValue v = opensValue b ∧
      properties (a ++ token ++ b) =
        (front.map trim).filter (!·.isEmpty) ++
          (trimLeft (lastSegment a) ++ token ++ v) :: back := by
  obtain ⟨front, hfront⟩ := segments_eq_append_lastSegment a
  obtain ⟨hu, hlike⟩ := State.run_inert ha hinert
  have hquote : ((State.start.run a).run token).quote = none := hlike.1.trans ha
  obtain ⟨y, back, hy⟩ :=
    List.exists_cons_of_ne_nil (segments_ne_nil ((State.start.run a).run token) b)
  have htail := @segments_append (State.start.run a) token b token y [] back
    (segments_of_uncut hu) hy
  have hall := segments_append hfront htail
  have hseparate := separateFrom_segments .start a
  rw [hfront] at hseparate
  refine ⟨front, (back.map trim).filter (!·.isEmpty), trimRight y, ?_, Separate.level hseparate,
    opensValue_trimRight hquote hy, ?_⟩
  · have ha := intercalate_segments .start a
    rw [hfront, intercalate_append_cons] at ha
    simpa using ha.symm
  · have htrim : trim (lastSegment a ++ (token ++ y)) =
        trimLeft (lastSegment a) ++ token ++ trimRight y := by
      rw [← List.append_assoc]
      exact htoken.trim_around (lastSegment a) y
    have hne : trimLeft (lastSegment a) ++ token ++ trimRight y ≠ [] := by simp [htoken.ne_nil]
    unfold properties
    rw [List.append_assoc, hall, List.map_append, List.map_cons, List.filter_append, htrim,
      List.filter_cons_of_pos (by simpa using hne)]

/-- The place of a token outside of strings in a body that is laid out. -/
theorem exists_layout_around {k : Kind} {i : Nat} {a token : Text} (htoken : IsToken k i token)
    (ha : (State.start.run a).quote = none) (b : Text) {indent newline : Text} (hi : Blank indent)
    (hn : Blank newline) :
    ∃ a' b', layout (a ++ token ++ b) indent newline = some (a' ++ token ++ b') ∧ SamePlace a a' ∧
      ((State.start.run a').quote = none ↔ inKey a b = false) := by
  have hprefix : isKeyPrefix token = true := isKeyPrefix_of_isToken htoken
  have hchars : ∀ c ∈ token, isKeyChar c = true := isKeyChar_of_isKeyPrefix hprefix
  have hinert : ∀ c ∈ token, isInert c = true :=
    fun c hc => isInert_of_isKeyPart (isKeyPart_of_isKeyChar (hchars c hc))
  have htrim : IsTrim token :=
    .of_forall htoken.ne_nil fun c hc => not_isBlank_of_isKeyChar (hchars c hc)
  obtain ⟨front, back, v, hfront, hlevel, hopens, hproperties⟩ :=
    exists_property_around htrim hinert ha b
  -- the scanner is outside of strings at the same place in the property
  obtain ⟨gap, hgap, hlast⟩ := exists_blank_append_trimLeft (lastSegment a)
  have hu : (State.start.run (trimLeft (lastSegment a))).quote = none := by
    have hlike := (State.run_flatMap_level Blank.nil Blank.nil hlevel).run (lastSegment a)
    rw [← State.run_append, ← hfront] at hlike
    have hblank := (State.start_run_blank_append hgap (trimLeft (lastSegment a))).2
    rw [← hlast] at hblank
    rw [← hblank.1, ← hlike.1]
    exact ha
  obtain ⟨u, w, hquoted, hplace, hiff⟩ := quoteKey_around htoken.ne_nil hprefix hu v
  have hseparate := (Separate.properties (a ++ token ++ b)).map_quoteKey
  rw [hproperties, List.map_append, List.map_cons, hquoted] at hseparate
  have hbefore := State.run_flatMap_level hi hn (Separate.level hseparate)
  refine ⟨(((front.map trim).filter (!·.isEmpty)).map quoteKey).flatMap
      (fun x => indent ++ x ++ ',' :: newline) ++ (indent ++ u),
    w ++ ((back.map quoteKey).map (indent ++ ·)).flatMap ((',' :: newline) ++ ·), ?_, ?_, ?_⟩
  · refine layout_eq_some_iff.mpr ⟨by rw [hproperties]; simp, ?_⟩
    rw [hproperties, List.map_append, List.map_cons, hquoted, List.map_append, List.map_cons,
      intercalate_append_cons]
    simp only [List.flatMap_map, List.append_assoc]
  · unfold SamePlace
    rw [List.filter_append, List.filter_append, filter_isKept_flatMap hi hn, flatMap_filter_isKept,
      filter_isKept_of_blank hi, List.nil_append, hplace]
    conv => rhs; rw [hfront, List.filter_append, filter_isKept_flatMap .nil .nil, hlast]
    rw [List.filter_append, filter_isKept_of_blank hgap, List.nil_append]
  · have hlike := (hbefore.run (indent ++ u)).trans (State.start_run_blank_append hi u).2
    rw [State.run_append, hlike.1, hiff, hopens]
    rfl

/-- A token outside of strings has its place in a body that is laid out, and is outside of strings
there exactly if it is not part of a bare key. -/
theorem outside_layout_iff {k : Kind} {i : Nat} {a token : Text} (htoken : IsToken k i token)
    (ha : (State.start.run a).quote = none) (b : Text) {indent newline : Text} (hi : Blank indent)
    (hn : Blank newline) :
    (∃ a' b', layout (a ++ token ++ b) indent newline = some (a' ++ token ++ b') ∧
      SamePlace a a') ∧
    ∀ a' b', layout (a ++ token ++ b) indent newline = some (a' ++ token ++ b') → SamePlace a a' →
      ((State.start.run a').quote = none ↔ inKey a b = false) := by
  obtain ⟨x, y, hlayout, hplace, hiff⟩ := exists_layout_around htoken ha b hi hn
  refine ⟨⟨x, y, hlayout, hplace⟩, fun a' b' hlayout' hplace' => ?_⟩
  obtain ⟨w, _, rfl⟩ := htoken.exists_core
  rw [hlayout, Option.some.injEq, List.append_assoc, List.append_assoc] at hlayout'
  have hd : isKept '_' = true := rfl
  rw [← hplace.eq hplace' hd hlayout']
  exact hiff

theorem isToken_comment_zero : IsToken .comment 0 "__TWIG_CS_COMMENT_0_aaaaaaaa__".toList :=
  ⟨"aaaaaaaa".toList, ⟨rfl, forall_of_all (by decide)⟩, rfl⟩

/-- A token with a space between it and the key, behind a property with a comma in a string. -/
theorem outside_layout_space :
    let token := "__TWIG_CS_COMMENT_0_aaaaaaaa__".toList
    let a := "x: ',', ".toList
    let a' := "  'x': ',',\n  ".toList
    let b := " key: 1".toList
    layout (a ++ token ++ b) "  ".toList "\n".toList = some (a' ++ token ++ b) ∧
      (State.start.run a').quote = none := by
  intro token a a' b
  have hlayout : layout (a ++ token ++ b) "  ".toList "\n".toList = some (a' ++ token ++ b) := by
    decide +kernel
  have ha : (State.start.run a).quote = none := by decide +kernel
  have hplace : SamePlace a a' := by
    unfold SamePlace
    decide +kernel
  have houtside := (outside_layout_iff isToken_comment_zero ha b (.of_all (by decide))
    (.of_all (by decide))).2 a' b hlayout hplace
  exact ⟨hlayout, houtside.mpr (by decide +kernel)⟩

/-- A token right before a key. The quotes of the key go around both. -/
theorem outside_layout_key :
    let token := "__TWIG_CS_COMMENT_0_aaaaaaaa__".toList
    let a' := "  '".toList
    IsToken .comment 0 token ∧ (State.start.run []).quote = none ∧
      layout ([] ++ token ++ "key: 1".toList) "  ".toList "\n".toList =
        some (a' ++ token ++ "key': 1".toList) ∧
      SamePlace [] a' ∧ (State.start.run a').quote = some '\'' := by
  intro token a'
  refine ⟨isToken_comment_zero, rfl, by decide +kernel, ?_, by decide +kernel⟩
  unfold SamePlace
  decide +kernel

end TwigLayout.Hash
