import TwigLayout.Proofs.Text.Runs

/-!
# White space

Blank texts, and what trimming does to a text put together from blank texts and others. A text is
*trim* if it is not empty and has no white space at its ends; trimming gives such a text or nothing
(`trim_eq_nil_or_isTrim`).
-/

namespace TwigLayout.Text

/-- A text of white space only. -/
def Blank (s : Text) : Prop := ∀ c ∈ s, isBlank c = true

theorem Blank.nil : Blank [] := fun _ h => absurd h List.not_mem_nil

theorem Blank.append {a b : Text} (ha : Blank a) (hb : Blank b) : Blank (a ++ b) :=
  List.forall_mem_append.mpr ⟨ha, hb⟩

/-- For a text that is written out, `s.all isBlank` evaluates. -/
theorem Blank.of_all {s : Text} (h : s.all isBlank = true) : Blank s := List.all_eq_true.mp h

theorem Blank.not_mem {s : Text} (h : Blank s) {c : Char} (hc : isBlank c = false) : c ∉ s := by
  intro hm
  rw [h c hm] at hc
  exact Bool.noConfusion hc

/-- White space at the end of a text stands behind every other character of it. -/
theorem Blank.exists_of_append_cons_eq {x : Text} (hx : Blank x) {c : Char}
    (hc : isBlank c = false) {a s y : Text} (h : a ++ c :: s = y ++ x) :
    ∃ y', y = a ++ c :: y' ∧ s = y' ++ x := by
  have hmem := hx.not_mem hc
  rcases List.append_eq_append_iff.mp h with ⟨w, rfl, hw⟩ | ⟨w, _, rfl⟩
  · cases w with
    | nil => exact absurd (by rw [← List.nil_append x, ← hw]; exact List.mem_cons_self) hmem
    | cons d w =>
      obtain ⟨rfl, rfl⟩ := List.cons.inj hw
      exact ⟨w, rfl, rfl⟩
  · exact absurd (by simp) hmem

/-- A run of a class without white space ends before white space, or the character behind it. -/
theorem dropWhile_append_blank_cons {p : Char → Bool} {a b : Text} {c : Char}
    (ha : ∀ d ∈ a, p d = true) (hb : Blank b) (hblank : ∀ d, isBlank d = true → p d = false)
    (hc : p c = false) (s : Text) : (a ++ (b ++ c :: s)).dropWhile p = b ++ c :: s := by
  cases b with
  | nil => exact dropWhile_append_cons ha hc s
  | cons d b => exact dropWhile_append_cons ha (hblank d (hb d List.mem_cons_self)) (b ++ c :: s)

theorem blank_of_space_or_tab {s : Text} (h : ∀ c ∈ s, c = ' ' ∨ c = '\t') : Blank s := by
  intro c hc
  rcases h c hc with rfl | rfl <;> decide

theorem blank_indentation (s : Text) : Blank (indentation s) :=
  blank_of_space_or_tab (indentation_all s)

/-- White space is no part of a name. -/
theorem not_isWord_of_isBlank {c : Char} (h : isBlank c = true) : isWord c = false := by
  have hn : c.toNat ≤ 0x20 ∨ c.toNat ∈ [0x85, 0xA0, 0x1680, 0x2000, 0x2001, 0x2002, 0x2003,
      0x2004, 0x2005, 0x2006, 0x2007, 0x2008, 0x2009, 0x200A, 0x2028, 0x2029, 0x202F, 0x205F,
      0x3000] := by
    simp only [isBlank, Bool.or_eq_true, Bool.and_eq_true, decide_eq_true_eq, beq_iff_eq] at h
    simp only [List.mem_cons, List.not_mem_nil, or_false]
    omega
  have hholds : Tables.holds Tables.alphanumeric c.toNat = false := by
    rcases hn with hn | hn
    · -- below the first range of the table
      have hlow : c.toNat < 0x30 := by omega
      unfold Tables.holds Tables.alphanumeric
      rw [Tables.offset?, if_pos hlow]
      rfl
    · revert hn
      generalize c.toNat = n
      revert n
      decide +kernel
  have hne : (c == '_') = false := by
    rw [beq_eq_false_iff_ne]
    rintro rfl
    exact absurd h (by decide)
  rw [isWord, hne, hholds]
  rfl

theorem not_isBlank_of_isQuote {c : Char} (h : isQuote c = true) : isBlank c = false := by
  rw [isQuote, Bool.or_eq_true, beq_iff_eq, beq_iff_eq] at h
  rcases h with rfl | rfl <;> decide

theorem not_isQuote_of_isBlank {c : Char} (h : isBlank c = true) : isQuote c = false := by
  refine Bool.eq_false_iff.mpr fun hq => ?_
  rw [not_isBlank_of_isQuote hq] at h
  cases h

/-! ## Trimming on the left -/

theorem trimLeft_append {b : Text} (hb : Blank b) (s : Text) : trimLeft (b ++ s) = trimLeft s :=
  List.dropWhile_append_of_pos hb

theorem trimLeft_cons {c : Char} (hc : isBlank c = false) (s : Text) :
    trimLeft (c :: s) = c :: s := by
  rw [trimLeft, List.dropWhile_cons_of_neg (by simp [hc])]

theorem trimLeft_append_cons {b : Text} (hb : Blank b) {c : Char} (hc : isBlank c = false)
    (s : Text) : trimLeft (b ++ c :: s) = c :: s := by
  rw [trimLeft_append hb, trimLeft_cons hc]

theorem trimLeft_of_blank {b : Text} (hb : Blank b) : trimLeft b = [] := by
  have h := trimLeft_append hb []
  rwa [List.append_nil] at h

/-- The white space that trimming takes away. -/
theorem exists_blank_append_trimLeft (s : Text) : ∃ b, Blank b ∧ s = b ++ trimLeft s :=
  ⟨s.takeWhile isBlank, List.all_eq_true.mp List.all_takeWhile,
    List.takeWhile_append_dropWhile.symm⟩

/-- What is left after trimming starts with another character, if anything is left. -/
theorem not_isBlank_of_trimLeft {s t : Text} {c : Char} (h : trimLeft s = c :: t) :
    isBlank c = false := by
  have hn := List.head?_dropWhile_not isBlank s
  rw [trimLeft] at h
  rw [h] at hn
  exact hn

theorem trimLeft_append_of_not_isBlank (s : Text) {c : Char} (hc : isBlank c = false) (t : Text) :
    trimLeft (s ++ c :: t) = trimLeft s ++ c :: t := by
  obtain ⟨b, hb, hs⟩ := exists_blank_append_trimLeft s
  cases hl : trimLeft s with
  | nil =>
    rw [hl, List.append_nil] at hs
    rw [hs, trimLeft_append_cons hb hc, List.nil_append]
  | cons d r =>
    rw [hs, hl, List.append_assoc, List.cons_append,
      trimLeft_append_cons hb (not_isBlank_of_trimLeft hl)]

theorem trimLeft_append_of_ne_nil {s : Text} (h : trimLeft s ≠ []) (t : Text) :
    trimLeft (s ++ t) = trimLeft s ++ t := by
  have hne : ¬ (s.dropWhile isBlank).isEmpty = true := fun he => h (List.isEmpty_iff.mp he)
  rw [trimLeft, List.dropWhile_append, if_neg hne]
  rfl

/-! ## Trimming on the right -/

theorem trimRight_append {b : Text} (hb : Blank b) (s : Text) :
    trimRight (s ++ b) = trimRight s := by
  rw [trimRight, List.reverse_append, List.dropWhile_append_of_pos]
  · rfl
  · exact fun c hc => hb c (List.mem_reverse.mp hc)

theorem trimRight_append_cons {c : Char} (hc : isBlank c = false) (a b : Text) :
    trimRight (a ++ c :: b) = a ++ c :: trimRight b := by
  rw [trimRight, List.reverse_append, List.reverse_cons, List.append_assoc, List.dropWhile_append]
  split
  · next he =>
    have hb : trimRight b = [] := by rw [trimRight, List.isEmpty_iff.mp he, List.reverse_nil]
    rw [hb, List.singleton_append, List.dropWhile_cons_of_neg (by simp [hc])]
    simp
  · rw [List.reverse_append]
    simp [trimRight]

theorem trimRight_of_blank {b : Text} (hb : Blank b) : trimRight b = [] := by
  have h := trimRight_append hb []
  rwa [List.nil_append] at h

/-- The white space that trimming takes away at the end. -/
theorem exists_trimRight_append_blank (s : Text) : ∃ b, Blank b ∧ s = trimRight s ++ b := by
  obtain ⟨b, hb, he⟩ := exists_blank_append_trimLeft s.reverse
  refine ⟨b.reverse, fun c hc => hb c (List.mem_reverse.mp hc), ?_⟩
  have h := congrArg List.reverse he
  rwa [List.reverse_reverse, List.reverse_append] at h

theorem trimRight_trimRight (s : Text) : trimRight (trimRight s) = trimRight s := by
  obtain ⟨b, hb, he⟩ := exists_trimRight_append_blank s
  have h := trimRight_append hb (trimRight s)
  rw [← he] at h
  exact h.symm

/-- Trimming on the right leaves a text alone that does not end with white space. -/
theorem trimRight_eq_self_iff {s : Text} :
    trimRight s = s ↔ ∀ c, s.getLast? = some c → isBlank c = false := by
  constructor
  · intro h c hc
    obtain ⟨u, rfl⟩ := List.getLast?_eq_some_iff.mp hc
    refine Bool.eq_false_iff.mpr fun hblank => ?_
    rw [trimRight_append (List.forall_mem_singleton.mpr hblank)] at h
    have hlen := (trimRight_isPrefix u).length_le
    rw [h, List.length_append, List.length_singleton] at hlen
    exact Nat.not_succ_le_self _ hlen
  · intro h
    rcases List.eq_nil_or_concat s with rfl | ⟨u, c, rfl⟩
    · rfl
    · have hc : isBlank c = false := h c (by simp)
      rw [List.concat_eq_append, trimRight_append_cons hc, trimRight_of_blank Blank.nil]

/-! ## Trimming on both sides -/

/-- A text with characters other than white space at its two ends. -/
structure IsTrim (s : Text) : Prop where
  head : ∃ c t, s = c :: t ∧ isBlank c = false
  last : ∃ t c, s = t ++ [c] ∧ isBlank c = false

theorem IsTrim.ne_nil {s : Text} (h : IsTrim s) : s ≠ [] := by
  obtain ⟨c, t, rfl, _⟩ := h.head
  exact List.cons_ne_nil c t

theorem IsTrim.of_forall {s : Text} (hne : s ≠ []) (h : ∀ c ∈ s, isBlank c = false) : IsTrim s := by
  constructor
  · obtain ⟨c, t, rfl⟩ := List.exists_cons_of_ne_nil hne
    exact ⟨c, t, rfl, h c List.mem_cons_self⟩
  · obtain ⟨t, c, rfl⟩ := List.eq_nil_or_concat s |>.resolve_left hne
    rw [List.concat_eq_append] at h ⊢
    exact ⟨t, c, rfl, h c (List.mem_append_right t List.mem_cons_self)⟩

theorem IsTrim.trimRight {s : Text} (h : IsTrim s) : trimRight s = s := by
  obtain ⟨t, c, rfl, hc⟩ := h.last
  rw [trimRight_append_cons hc, trimRight_of_blank Blank.nil]

/-- Trimming takes away the white space around a trim text. -/
theorem IsTrim.trim_append {s : Text} (h : IsTrim s) {a b : Text} (ha : Blank a) (hb : Blank b) :
    trim (a ++ s ++ b) = s := by
  obtain ⟨c, t, hs, hc⟩ := h.head
  have hleft : trimLeft (a ++ s ++ b) = s ++ b := by
    rw [List.append_assoc, hs, List.cons_append, trimLeft_append_cons ha hc]
  rw [trim, hleft, trimRight_append hb, h.trimRight]

theorem IsTrim.trim {s : Text} (h : IsTrim s) : trim s = s := by
  have ht := h.trim_append Blank.nil Blank.nil
  rwa [List.nil_append, List.append_nil] at ht

/-- Trimming does not reach beyond a trim text. -/
theorem IsTrim.trim_around {s : Text} (h : IsTrim s) (a b : Text) :
    Text.trim (a ++ s ++ b) = trimLeft a ++ s ++ Text.trimRight b := by
  have hleft : trimLeft (a ++ s ++ b) = trimLeft a ++ s ++ b := by
    obtain ⟨c, t, rfl, hc⟩ := h.head
    rw [List.append_assoc, List.cons_append, trimLeft_append_of_not_isBlank a hc,
      ← List.cons_append, ← List.append_assoc]
  obtain ⟨t, c, rfl, hc⟩ := h.last
  have hright := trimRight_append_cons hc (trimLeft a ++ t) b
  rw [Text.trim, hleft]
  simpa using hright

theorem trim_of_blank {b : Text} (hb : Blank b) : trim b = [] := by
  rw [trim, trimLeft_of_blank hb, trimRight_of_blank Blank.nil]

/-- A text is blank, or a trim text with white space around it. -/
theorem blank_or_exists_isTrim (s : Text) :
    Blank s ∨ ∃ a b, Blank a ∧ Blank b ∧ s = a ++ trim s ++ b ∧ IsTrim (trim s) := by
  obtain ⟨a, ha, hs⟩ := exists_blank_append_trimLeft s
  cases hl : trimLeft s with
  | nil =>
    left
    rw [hs, hl, List.append_nil]
    exact ha
  | cons c t =>
    right
    have hc := not_isBlank_of_trimLeft hl
    obtain ⟨b, hb, ht⟩ := exists_trimRight_append_blank (c :: t)
    have htrim : trim s = trimRight (c :: t) := by rw [trim, hl]
    refine ⟨a, b, ha, hb, ?_, ?_, ?_⟩
    · rw [htrim, List.append_assoc, ← ht, ← hl]
      exact hs
    · obtain ⟨u, hu⟩ := trimRight_cons hc t
      exact ⟨c, u, htrim.trans hu, hc⟩
    · rw [htrim]
      rcases List.eq_nil_or_concat (trimRight (c :: t)) with hnil | ⟨u, d, hu⟩
      · obtain ⟨v, hv⟩ := trimRight_cons hc t
        rw [hnil] at hv
        cases hv
      · refine ⟨u, d, by simpa using hu, ?_⟩
        -- a blank last character would have been taken away
        refine Bool.eq_false_iff.mpr fun hd => ?_
        have hblank : Blank [d] := fun e he => List.mem_singleton.mp he ▸ hd
        have hagain := trimRight_trimRight (c :: t)
        have hu' : trimRight (c :: t) = u ++ [d] := by simpa using hu
        rw [hu', trimRight_append hblank] at hagain
        have hlen := congrArg List.length hagain
        have hle := (trimRight_isPrefix u).length_le
        rw [List.length_append, List.length_singleton] at hlen
        omega

/-- The white space that trimming takes away at the two ends. -/
theorem exists_append_trim_append (s : Text) : ∃ a b, Blank a ∧ Blank b ∧ s = a ++ trim s ++ b := by
  rcases blank_or_exists_isTrim s with h | ⟨a, b, ha, hb, hs, _⟩
  · exact ⟨s, [], h, .nil, by rw [trim_of_blank h]; simp⟩
  · exact ⟨a, b, ha, hb, hs⟩

theorem trim_eq_nil_or_isTrim (s : Text) : trim s = [] ∨ IsTrim (trim s) := by
  rcases blank_or_exists_isTrim s with h | ⟨_, _, _, _, _, h⟩
  · exact .inl (trim_of_blank h)
  · exact .inr h

theorem trim_eq_nil_iff {s : Text} : trim s = [] ↔ Blank s := by
  constructor
  · intro h
    rcases blank_or_exists_isTrim s with hb | ⟨_, _, _, _, _, ht⟩
    · exact hb
    · exact absurd h ht.ne_nil
  · exact trim_of_blank

/-- White space around a text makes no difference to trimming. -/
theorem trim_append_append {a b : Text} (ha : Blank a) (hb : Blank b) (s : Text) :
    trim (a ++ s ++ b) = trim s := by
  rcases blank_or_exists_isTrim s with h | ⟨a', b', ha', hb', hs, ht⟩
  · rw [trim_of_blank ((ha.append h).append hb), trim_of_blank h]
  · have h := ht.trim_append (ha.append ha') (hb'.append hb)
    have he : a ++ a' ++ trim s ++ (b' ++ b) = a ++ (a' ++ trim s ++ b') ++ b := by
      simp only [List.append_assoc]
    rwa [he, ← hs] at h

end TwigLayout.Text
