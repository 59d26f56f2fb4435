import TwigLayout.Placeholder.Shield
import TwigLayout.Proofs.Text.Replace

/-!
# The form of tokens

A token is two underscores, a core, and two underscores. Cores have no two underscores in a row and
none at an end, so no occurrence of a core reaches into the underscores around another one
(`Solid.infix_append`). A core has the letter `W` once, which pins its place
(`IsCore.eq_of_infix`): of two tokens neither occurs in the other, unless they are the same.
-/

namespace TwigLayout.Placeholder

open Text

/-! ## Suffixes -/

/-- A suffix as it is drawn: eight small letters and digits. -/
def IsSuffix (s : Text) : Prop := s.length = 8 ∧ ∀ c ∈ s, isSuffixChar c = true

/-- Every draw is a suffix. -/
def Supply.WellFormed (supply : Supply) : Prop := ∀ n, IsSuffix (supply.draw n)

theorem isSuffixChar_suffixDigit : ∀ n < 36, isSuffixChar (suffixDigit n) = true := by decide

theorem isSuffix_countingSuffix (n : Nat) : IsSuffix (countingSuffix n) := by
  refine ⟨by simp [countingSuffix], fun c hc => ?_⟩
  obtain ⟨place, _, rfl⟩ := List.mem_map.mp hc
  exact isSuffixChar_suffixDigit _ (Nat.mod_lt _ (by decide))

theorem Supply.counting_wellFormed : Supply.counting.WellFormed := isSuffix_countingSuffix

/-! ## Solid texts -/

/-- A text without an underscore at an end or next to another one. -/
structure Solid (w : Text) : Prop where
  ne_nil : w ≠ []
  head : w.head? ≠ some '_'
  last : w.getLast? ≠ some '_'
  single : ¬ ['_', '_'] <:+: w

/-- Two underscores are a fence for a solid text. -/
theorem Solid.infix_append {w a b : Text} (hw : Solid w) (h : w <:+: a ++ '_' :: '_' :: b) :
    w <:+: a ∨ w <:+: b := by
  have hhead : ∀ s, ¬ w <+: '_' :: s := by
    intro s hp
    rcases List.prefix_cons_iff.mp hp with rfl | ⟨t, rfl, _⟩
    · exact hw.ne_nil rfl
    · exact hw.head rfl
  rcases List.infix_append_iff_ne_nil.mp h with h | h | ⟨x, y, hx, hy, rfl, _, hp⟩
  · exact .inl h
  · rcases List.infix_cons_iff.mp h with h | h
    · exact absurd h (hhead _)
    · rcases List.infix_cons_iff.mp h with h | h
      · exact absurd h (hhead _)
      · exact .inr h
  · rcases List.prefix_cons_iff.mp hp with rfl | ⟨t, rfl, ht⟩
    · exact absurd rfl hy
    · rcases List.prefix_cons_iff.mp ht with rfl | ⟨u, rfl, _⟩
      · exact absurd (by simp) hw.last
      · exact absurd ⟨x, u, by simp⟩ hw.single

theorem Solid.of_not_mem {w : Text} (hne : w ≠ []) (h : '_' ∉ w) : Solid w where
  ne_nil := hne
  head hh := h (List.mem_of_mem_head? (by rw [hh]; rfl))
  last hl := h (List.mem_of_getLast? hl)
  single hi := h (hi.subset (by simp))

/-- Solid texts are words with single underscores between them. -/
theorem Solid.append_cons {a b : Text} (hne : a ≠ []) (h : '_' ∉ a) (hb : Solid b) :
    Solid (a ++ '_' :: b) := by
  have ha : Solid a := .of_not_mem hne h
  refine ⟨by simp, ?_, ?_, fun hi => ?_⟩
  · obtain ⟨c, a, rfl⟩ := List.exists_cons_of_ne_nil hne
    exact ha.head
  · obtain ⟨c, b, rfl⟩ := List.exists_cons_of_ne_nil hb.ne_nil
    have hl : (a ++ '_' :: c :: b).getLast? = (c :: b).getLast? := by
      rw [List.getLast?_append, List.getLast?_cons_cons, List.getLast?_cons]
      rfl
    rw [hl]
    exact hb.last
  · rcases List.infix_append_iff_ne_nil.mp hi with hi | hi | ⟨x, y, hx, hy, he, hs, _⟩
    · exact ha.single hi
    · rcases List.infix_cons_iff.mp hi with hi | hi
      · have hp : ['_'] <+: b := by simpa using hi
        obtain ⟨t, rfl⟩ := hp
        exact hb.head rfl
      · exact hb.single hi
    · obtain ⟨c, x, rfl⟩ := List.exists_cons_of_ne_nil hx
      obtain ⟨rfl, _⟩ : '_' = c ∧ _ := by simpa using he
      exact h (hs.subset List.mem_cons_self)

/-! ## Cores -/

/-- What every token of a kind holds. -/
def Kind.key (k : Kind) : Text := "TWIG_CS_".toList ++ k.label

theorem Kind.not_key_infix {s : Text} (h : occursIn "TWIG_CS_".toList s = false) (k : Kind) :
    ¬ k.key <:+: s := by
  intro hi
  exact occursIn_eq_false_iff.mp h ((List.prefix_append _ k.label).isInfix.trans hi)

/-- The part of a token between the underscores at its two ends. -/
def core (k : Kind) (index : Nat) (suffix : Text) : Text :=
  k.key ++ '_' :: (Nat.toDigits 10 index ++ '_' :: suffix)

/-- A core of a kind with an index. -/
def IsCore (k : Kind) (index : Nat) (w : Text) : Prop :=
  ∃ suffix, IsSuffix suffix ∧ w = core k index suffix

/-- A token of a kind with an index. -/
def IsToken (k : Kind) (index : Nat) (token : Text) : Prop :=
  ∃ suffix, IsSuffix suffix ∧ token = Table.tokenOf k.label index suffix

theorem tokenOf_eq (k : Kind) (index : Nat) (suffix : Text) :
    Table.tokenOf k.label index suffix = '_' :: '_' :: (core k index suffix ++ ['_', '_']) := by
  have h : "__TWIG_CS_".toList = '_' :: '_' :: "TWIG_CS_".toList := rfl
  unfold Table.tokenOf core Kind.key
  rw [h]
  simp only [List.cons_append, List.append_assoc]

theorem IsToken.exists_core {k : Kind} {index : Nat} {token : Text} (h : IsToken k index token) :
    ∃ w, IsCore k index w ∧ token = '_' :: '_' :: (w ++ ['_', '_']) := by
  obtain ⟨suffix, hs, rfl⟩ := h
  exact ⟨core k index suffix, ⟨suffix, hs, rfl⟩, tokenOf_eq k index suffix⟩

theorem IsSuffix.not_mem {s : Text} (hs : IsSuffix s) {c : Char} (hc : isSuffixChar c = false) :
    c ∉ s := by
  intro hm
  rw [hs.2 c hm] at hc
  exact Bool.noConfusion hc

theorem IsSuffix.ne_nil {s : Text} (hs : IsSuffix s) : s ≠ [] := by
  rintro rfl
  exact absurd hs.1 (by decide)

theorem not_mem_toDigits {c : Char} (hc : c.isDigit = false) (n : Nat) : c ∉ Nat.toDigits 10 n := by
  intro hm
  rw [Nat.isDigit_of_mem_toDigits (by decide) (by decide) hm] at hc
  exact Bool.noConfusion hc

theorem Kind.key_eq (k : Kind) :
    k.key = "TWIG".toList ++ '_' :: ("CS".toList ++ '_' :: k.label) := by
  cases k <;> rfl

theorem Kind.label_solid (k : Kind) : k.label ≠ [] ∧ '_' ∉ k.label := by
  cases k <;> decide

theorem Kind.key_solid (k : Kind) : Solid k.key := by
  rw [k.key_eq]
  exact .append_cons (by decide) (by decide) (.append_cons (by decide) (by decide)
    (.of_not_mem k.label_solid.1 k.label_solid.2))

theorem IsCore.solid {k : Kind} {index : Nat} {w : Text} (h : IsCore k index w) : Solid w := by
  obtain ⟨suffix, hs, rfl⟩ := h
  have he : core k index suffix = "TWIG".toList ++ '_' :: ("CS".toList ++ '_' :: (k.label ++
      '_' :: (Nat.toDigits 10 index ++ '_' :: suffix))) := by
    rw [core, k.key_eq]
    simp only [List.append_assoc, List.cons_append]
  rw [he]
  exact .append_cons (by decide) (by decide) (.append_cons (by decide) (by decide)
    (.append_cons k.label_solid.1 k.label_solid.2
      (.append_cons Nat.toDigits_ne_nil Nat.underscore_not_in_toDigits
        (.of_not_mem hs.ne_nil (hs.not_mem (by decide))))))

theorem IsCore.key_prefix {k : Kind} {index : Nat} {w : Text} (h : IsCore k index w) :
    k.key <+: w := by
  obtain ⟨suffix, _, rfl⟩ := h
  exact List.prefix_append _ _

/-! ## Comparing cores -/

/-- What follows the one `W` of a core or a key. -/
theorem prefix_of_infix_of_not_mem {c d : Char} {s t : Text} (hcd : c ≠ d) (hs : d ∉ s)
    (h : c :: d :: t <:+: c :: d :: s) : c :: d :: t <+: c :: d :: s := by
  rcases List.infix_cons_iff.mp h with h | h
  · exact h
  · rcases List.infix_cons_iff.mp h with h | h
    · exact absurd (by simpa using h : c = d ∧ _).1 hcd
    · exact absurd (h.subset (by simp)) hs

/-- The words before the first underscore of two texts, one of which starts with the other. -/
theorem prefix_append_cons_cons {c : Char} {a b a' b' : Text} (ha : c ∉ a) (ha' : c ∉ a')
    (h : a ++ c :: b <+: a' ++ c :: b') : a = a' ∧ b <+: b' := by
  induction a generalizing a' with
  | nil =>
    cases a' with
    | nil => exact ⟨rfl, by simpa using h⟩
    | cons d a' =>
      obtain ⟨rfl, _⟩ : c = d ∧ _ := by simpa using h
      exact absurd List.mem_cons_self ha'
  | cons d a ih =>
    cases a' with
    | nil =>
      obtain ⟨rfl, _⟩ : d = c ∧ _ := by simpa using h
      exact absurd List.mem_cons_self ha
    | cons e a' =>
      obtain ⟨rfl, hp⟩ : d = e ∧ a ++ c :: b <+: a' ++ c :: b' := by simpa using h
      obtain ⟨rfl, hb⟩ := ih (fun hm => ha (List.mem_cons_of_mem _ hm))
        (fun hm => ha' (List.mem_cons_of_mem _ hm)) hp
      exact ⟨rfl, hb⟩

theorem not_mem_core_tail {k : Kind} {index : Nat} {suffix : Text} (hs : IsSuffix suffix) :
    'W' ∉ "IG_CS_".toList ++ (k.label ++ '_' :: (Nat.toDigits 10 index ++ '_' :: suffix)) := by
  have hl : 'W' ∉ k.label := by cases k <;> decide
  have hd : 'W' ∉ Nat.toDigits 10 index := not_mem_toDigits (by decide) index
  have hx : 'W' ∉ suffix := hs.not_mem (by decide)
  have h0 : 'W' ∉ "IG_CS_".toList := by decide
  simp only [List.mem_append, List.mem_cons, hl, hd, hx, h0, or_false, false_or]
  decide

theorem core_eq (k : Kind) (index : Nat) (suffix : Text) :
    core k index suffix = 'T' :: 'W' ::
      ("IG_CS_".toList ++ (k.label ++ '_' :: (Nat.toDigits 10 index ++ '_' :: suffix))) := by
  have h : "TWIG_CS_".toList = 'T' :: 'W' :: "IG_CS_".toList := rfl
  unfold core Kind.key
  rw [h]
  simp only [List.cons_append, List.append_assoc]

/-- A text that starts as a key does can occur in a core only at its start. -/
theorem IsCore.prefix_of_infix {k : Kind} {index : Nat} {w t : Text} (h : IsCore k index w)
    (hi : 'T' :: 'W' :: t <:+: w) : 'T' :: 'W' :: t <+: w := by
  obtain ⟨suffix, hs, rfl⟩ := h
  rw [core_eq] at hi ⊢
  exact prefix_of_infix_of_not_mem (by decide) (not_mem_core_tail hs) hi

theorem IsCore.not_key_infix {k l : Kind} {index : Nat} {w : Text} (h : IsCore k index w)
    (hkl : l ≠ k) : ¬ l.key <:+: w := by
  intro hi
  have hp : l.key <+: w := by
    cases l <;> exact h.prefix_of_infix hi
  obtain ⟨suffix, _, rfl⟩ := h
  have hlen := List.prefix_or_prefix_of_prefix hp (List.prefix_append k.key _)
  cases k <;> cases l
  · exact hkl rfl
  · exact absurd hlen (by decide)
  · exact absurd hlen (by decide)
  · exact hkl rfl

theorem IsCore.eq_of_infix {k : Kind} {i j : Nat} {w x : Text} (hw : IsCore k i w)
    (hx : IsCore k j x) (h : w <:+: x) : i = j ∧ w = x := by
  obtain ⟨u, hu, rfl⟩ := hw
  have hp : core k i u <+: x := by
    rw [core_eq] at h ⊢
    exact hx.prefix_of_infix h
  obtain ⟨v, hv, rfl⟩ := hx
  have hp' := (List.prefix_append_right_inj k.key).mp hp
  obtain ⟨hd, hs⟩ := prefix_append_cons_cons Nat.underscore_not_in_toDigits
    Nat.underscore_not_in_toDigits (by simpa using hp')
  have hij : i = j := by
    have := congrArg (Nat.ofDigitChars 10 · 0) hd
    simpa using this
  have huv : u = v := hs.eq_of_length (hu.1.trans hv.1.symm)
  exact ⟨hij, by rw [hij, huv]⟩

/-! ## Comparing tokens -/

theorem IsToken.core_infix {k : Kind} {index : Nat} {token w : Text} (h : IsToken k index token)
    (hw : Solid w) (hi : w <:+: token) : ∃ x, IsCore k index x ∧ w <:+: x := by
  obtain ⟨x, hx, rfl⟩ := h.exists_core
  have hi : w <:+: [] ++ '_' :: '_' :: (x ++ '_' :: '_' :: []) := by simpa using hi
  rcases hw.infix_append hi with hi | hi
  · exact absurd (List.infix_nil.mp hi) hw.ne_nil
  · rcases hw.infix_append hi with hi | hi
    · exact ⟨x, hx, hi⟩
    · exact absurd (List.infix_nil.mp hi) hw.ne_nil

/-- Of two tokens of one kind neither occurs in the other, unless they are the same. -/
theorem IsToken.eq_of_infix {k : Kind} {i j : Nat} {token token' : Text} (h : IsToken k i token)
    (h' : IsToken k j token') (hi : token <:+: token') : i = j ∧ token = token' := by
  obtain ⟨w, hw, rfl⟩ := h.exists_core
  have hwi : w <:+: token' :=
    List.IsInfix.trans ⟨['_', '_'], ['_', '_'], by simp⟩ hi
  obtain ⟨x, hx, he⟩ := h'.exists_core
  obtain ⟨y, hy, hwy⟩ := h'.core_infix hw.solid hwi
  subst he
  obtain ⟨rfl, _⟩ := hw.eq_of_infix hy hwy
  refine ⟨rfl, ?_⟩
  have hlen : ∀ {z}, IsCore k i z → z.length = (core k i (List.replicate 8 'a')).length := by
    rintro z ⟨u, hu, rfl⟩
    simp [core, hu.1]
  refine hi.eq_of_length ?_
  simp [hlen hw, hlen hx]

theorem IsToken.ne_nil {k : Kind} {index : Nat} {token : Text} (h : IsToken k index token) :
    token ≠ [] := by
  obtain ⟨w, _, rfl⟩ := h.exists_core
  simp

theorem IsToken.key_infix {k : Kind} {index : Nat} {token : Text} (h : IsToken k index token) :
    k.key <:+: token := by
  obtain ⟨w, hw, rfl⟩ := h.exists_core
  exact hw.key_prefix.isInfix.trans ⟨['_', '_'], ['_', '_'], by simp⟩

/-- Behind a text that does not have the core of a token, the first occurrence of the token is the
token itself. -/
theorem Solid.not_infix_append_dropLast {w a : Text} (hw : Solid w) (ha : ¬ w <:+: a) :
    ¬ '_' :: '_' :: (w ++ ['_', '_']) <:+: a ++ ('_' :: '_' :: (w ++ ['_', '_'])).dropLast := by
  intro hi
  obtain ⟨b, c, rfl⟩ : ∃ b c, w = b ++ [c] := by
    rcases List.eq_nil_or_concat w with rfl | ⟨b, c, rfl⟩
    · exact absurd rfl hw.ne_nil
    · exact ⟨b, c, by simp⟩
  have he : a ++ ('_' :: '_' :: (b ++ [c] ++ ['_', '_'])).dropLast =
      a ++ '_' :: '_' :: b ++ [c, '_'] := by
    simp [List.dropLast_cons_of_ne_nil, List.dropLast_append_of_ne_nil]
  have hi' : '_' :: '_' :: (b ++ [c]) ++ ['_', '_'] <:+: a ++ '_' :: '_' :: b ++ [c, '_'] := by
    rw [← he]
    simpa using hi
  have hj : '_' :: '_' :: (b ++ [c]) <:+: a ++ '_' :: '_' :: b :=
    infix_of_append_infix_append (by simp) hi'
  have hk : b ++ [c] <:+: a ++ '_' :: '_' :: b :=
    List.IsInfix.trans ⟨['_', '_'], [], by simp⟩ hj
  rcases hw.infix_append hk with hk | hk
  · exact ha hk
  · have hlen := hk.length_le
    rw [List.length_append] at hlen
    exact absurd hlen (Nat.not_succ_le_self _)

theorem IsToken.not_infix_append_dropLast {k : Kind} {index : Nat} {token a : Text}
    (h : IsToken k index token) (ha : ¬ k.key <:+: a) : ¬ token <:+: a ++ token.dropLast := by
  obtain ⟨w, hw, rfl⟩ := h.exists_core
  exact hw.solid.not_infix_append_dropLast fun hi => ha (hw.key_prefix.isInfix.trans hi)

/-! ## The characters of a token -/

/-- A character that tokens are made of. -/
def isTokenChar (c : Char) : Bool := c.isAlphanum || c == '_'

theorem isTokenChar_of_isSuffixChar {c : Char} (h : isSuffixChar c = true) :
    isTokenChar c = true := by
  unfold isSuffixChar at h
  show (((c.isUpper || c.isLower) || c.isDigit) || c == '_') = true
  simp only [Bool.or_eq_true] at h ⊢
  rcases h with h | h
  · exact .inl (.inl (.inr h))
  · exact .inl (.inr h)

theorem isWord_of_isTokenChar {c : Char} (h : isTokenChar c = true) : isWord c = true := by
  have hlt : c.toNat < 128 := by
    unfold isTokenChar Char.isAlphanum at h
    delta Char.isAlpha Char.isUpper Char.isLower at h
    simp only [Char.isDigit, Bool.or_eq_true, Bool.and_eq_true, decide_eq_true_eq, beq_iff_eq,
      UInt32.le_iff_toNat_le, ge_iff_le] at h
    rcases h with h | rfl
    · have hc : c.toNat = c.val.toNat := rfl
      simp only [Char.reduceVal, UInt32.reduceToNat] at h
      omega
    · decide
  have hall : ∀ n < 128, isTokenChar (Char.ofNat n) = true → isWord (Char.ofNat n) = true := by
    decide +kernel
  have hc := hall c.toNat hlt
  rw [Char.ofNat_toNat] at hc
  exact hc h

theorem Kind.isTokenChar_key (k : Kind) : ∀ c ∈ k.key, isTokenChar c = true :=
  List.all_eq_true.mp (by cases k <;> decide)

theorem IsToken.isTokenChar {k : Kind} {index : Nat} {token : Text} (h : IsToken k index token) :
    ∀ c ∈ token, isTokenChar c = true := by
  obtain ⟨suffix, hs, rfl⟩ := h
  have h0 : ∀ c ∈ "__TWIG_CS_".toList, Placeholder.isTokenChar c = true :=
    List.all_eq_true.mp (by decide)
  have hk : ∀ c ∈ k.label, Placeholder.isTokenChar c = true :=
    List.all_eq_true.mp (by cases k <;> decide)
  have h1 : ∀ c ∈ "__".toList, Placeholder.isTokenChar c = true := List.all_eq_true.mp (by decide)
  have hd : ∀ c ∈ Nat.toDigits 10 index, Placeholder.isTokenChar c = true := by
    intro c hc
    have := Nat.isDigit_of_mem_toDigits (by decide) (by decide) hc
    simp [Placeholder.isTokenChar, Char.isAlphanum, this]
  have hx : ∀ c ∈ suffix, Placeholder.isTokenChar c = true :=
    fun c hc => isTokenChar_of_isSuffixChar (hs.2 c hc)
  unfold Table.tokenOf
  refine List.forall_mem_append.mpr ⟨List.forall_mem_append.mpr ⟨List.forall_mem_append.mpr
    ⟨List.forall_mem_append.mpr ⟨h0, hk⟩, ?_⟩, ?_⟩, h1⟩
  · exact List.forall_mem_cons.mpr ⟨rfl, hd⟩
  · exact List.forall_mem_cons.mpr ⟨rfl, hx⟩

theorem IsToken.not_mem {k : Kind} {index : Nat} {token : Text} (h : IsToken k index token)
    {c : Char} (hc : Placeholder.isTokenChar c = false) : c ∉ token := by
  intro hm
  rw [h.isTokenChar c hm] at hc
  exact Bool.noConfusion hc

end TwigLayout.Placeholder
