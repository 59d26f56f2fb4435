import TwigLayout.Text.Scan

/-!
# Replacing a literal

`replaceAll` by equations, and how it acts on a text put together from parts. A character that a
literal does not have is a *fence* for it: no occurrence of the literal crosses the character.

1. `infix_append_cons_iff`: an occurrence lies on one side of a fence.
2. `replaceAll_append_cons`: the text on one side of a fence is replaced without the other.
3. `replaceAll_append_self_append`: the first occurrence is replaced where it stands.
4. `not_infix_replaceAll`: replacing brings about no new occurrence of a literal that the
   replacement fences off.
-/

namespace TwigLayout.Text

theorem after?_append (lit rest : Text) : after? lit (lit ++ rest) = some rest :=
  after?_eq_some_iff.mpr rfl

theorem after?_cons (c d : Char) (lit s : Text) :
    after? (c :: lit) (d :: s) = if c = d then after? lit s else none := rfl

/-! ## Fences -/

theorem prefix_append_cons_iff {w a b : Text} {c : Char} (hc : c ∉ w) :
    w <+: a ++ c :: b ↔ w <+: a := by
  constructor
  · intro h
    rcases List.prefix_or_prefix_of_prefix h (List.prefix_append a (c :: b)) with h' | ⟨t, rfl⟩
    · exact h'
    · have ht : t <+: c :: b := (List.prefix_append_right_inj a).mp h
      rcases List.prefix_cons_iff.mp ht with rfl | ⟨u, rfl, _⟩
      · simp
      · exact absurd (by simp) hc
  · intro h
    exact h.trans (List.prefix_append a (c :: b))

theorem infix_append_cons_iff {w a b : Text} {c : Char} (hc : c ∉ w) :
    w <:+: a ++ c :: b ↔ w <:+: a ∨ w <:+: b := by
  constructor
  · intro h
    rcases List.infix_append_iff_ne_nil.mp h with h | h | ⟨x, y, _, hy, rfl, _, hp⟩
    · exact .inl h
    · rcases List.infix_cons_iff.mp h with h | h
      · rcases List.prefix_cons_iff.mp h with rfl | ⟨t, rfl, _⟩
        · exact .inl List.nil_infix
        · exact absurd List.mem_cons_self hc
      · exact .inr h
    · rcases List.prefix_cons_iff.mp hp with rfl | ⟨t, rfl, _⟩
      · exact absurd rfl hy
      · exact absurd (by simp) hc
  · rintro (h | h)
    · exact List.infix_append_of_infix_left h
    · exact List.infix_append_of_infix_right (List.infix_cons h)

/-- A text parted behind `a`, all of a class, and at a character outside of it: the second place is
the first one or lies behind it. -/
theorem eq_or_exists_of_append_cons {p : Char → Bool} {a r g y : Text} {e d : Char}
    (ha : ∀ c ∈ a, p c = true) (hd : p d = false) (h : a ++ e :: r = g ++ d :: y) :
    (g = a ∧ d = e ∧ y = r) ∨ ∃ g', g = a ++ e :: g' ∧ r = g' ++ d :: y := by
  rcases List.append_eq_append_iff.mp h with ⟨w, rfl, hw⟩ | ⟨w, rfl, hw⟩
  · cases w with
    | nil =>
      cases hw
      exact .inl ⟨by simp, rfl, rfl⟩
    | cons c w =>
      cases hw
      exact .inr ⟨w, rfl, rfl⟩
  · cases w with
    | nil =>
      cases hw
      exact .inl ⟨by simp, rfl, rfl⟩
    | cons c w =>
      cases hw
      rw [ha d (by simp)] at hd
      cases hd

/-- A text has one first character outside of a class. -/
theorem append_cons_inj_of_forall {p : Char → Bool} {a r g y : Text} {e d : Char}
    (ha : ∀ c ∈ a, p c = true) (he : p e = false) (hg : ∀ c ∈ g, p c = true) (hd : p d = false)
    (h : a ++ e :: r = g ++ d :: y) : a = g ∧ e = d ∧ r = y := by
  rcases eq_or_exists_of_append_cons ha hd h with ⟨rfl, rfl, rfl⟩ | ⟨g', rfl, _⟩
  · exact ⟨rfl, rfl, rfl⟩
  · rw [hg e (by simp)] at he
    cases he

/-- A text that starts and ends with a fence for `w`. -/
def Fenced (w s : Text) : Prop := ∃ c m d, s = c :: (m ++ [d]) ∧ c ∉ w ∧ d ∉ w

/-- An occurrence lies before, in or behind a fenced text. -/
theorem Fenced.infix_append {w s a b : Text} (hf : Fenced w s) (h : w <:+: a ++ s ++ b) :
    w <:+: a ∨ w <:+: s ∨ w <:+: b := by
  obtain ⟨c, m, d, rfl, hc, hd⟩ := hf
  have he : a ++ c :: (m ++ [d]) ++ b = a ++ c :: (m ++ d :: b) := by simp
  rw [he] at h
  rcases (infix_append_cons_iff hc).mp h with h | h
  · exact .inl h
  · rcases (infix_append_cons_iff hd).mp h with h | h
    · exact .inr (.inl (List.infix_cons (List.infix_append_of_infix_left h)))
    · exact .inr (.inr h)

/-- What stands before the last characters of a text, if as many follow it as there are of them. -/
theorem infix_of_append_infix_append {a b s t : Text} (hl : t.length ≤ b.length)
    (h : a ++ b <:+: s ++ t) : a <:+: s := by
  obtain ⟨u, v, he⟩ := h
  have hp : u ++ a <+: s ++ t := ⟨b ++ v, by rw [← he]; simp⟩
  have hlen : (u ++ a).length ≤ s.length := by
    have hlen := congrArg List.length he
    simp only [List.length_append] at hlen ⊢
    omega
  exact (List.suffix_append u a).isInfix.trans
    (List.prefix_of_prefix_length_le hp (List.prefix_append s t) hlen).isInfix

theorem occursIn_eq_false_iff {lit s : Text} : occursIn lit s = false ↔ ¬ lit <:+: s := by
  rw [← Bool.not_eq_true, occursIn_iff]

/-! ## Equations -/

theorem replaceAll_eq_self {old s : Text} (h : ¬ old <:+: s) (new : Text) :
    replaceAll old new s = s :=
  replaceAll_of_not_occursIn (occursIn_eq_false_iff.mpr h) new

section Equations

variable {old : Text} (new : Text)

theorem scanFrom_literal_last (lit : Text) (skip : Nat) (last last' : Option Char) (s : Text) :
    scanFrom (literal lit) skip last s = scanFrom (literal lit) skip last' s := by
  cases s with
  | nil => simp [scanFrom]
  | cons c s =>
    cases skip with
    | zero => rfl
    | succ n => rfl

theorem replaceAll_nil (hne : old ≠ []) : replaceAll old new [] = [] := by
  simp [replaceAll, hne, scan, scanFrom]

theorem replaceAll_cons (hne : old ≠ []) {c : Char} {s : Text} (h : ¬ old <+: c :: s) :
    replaceAll old new (c :: s) = c :: replaceAll old new s := by
  have hr : literal old none (c :: s) = none := by
    simp [literal, after?_eq_none_iff.mpr h]
  simp only [replaceAll, List.isEmpty_iff, hne, if_false, scan, scanFrom, hr, List.foldr_cons]
  rw [scanFrom_literal_last old 0 (some c) none]

theorem replaceAll_append_self (hne : old ≠ []) (s : Text) :
    replaceAll old new (old ++ s) = new ++ replaceAll old new s := by
  obtain ⟨c, lit, rfl⟩ := List.exists_cons_of_ne_nil hne
  have hr : literal (c :: lit) none (c :: (lit ++ s)) = some ((), s) := by
    simp [literal, after?_eq_some_iff.mpr (List.cons_append ..).symm]
  have hk : (lit ++ s).length - s.length = lit.length := by simp
  simp only [replaceAll, List.isEmpty_iff, hne, if_false, scan, List.cons_append, scanFrom, hr, hk,
    List.foldr_cons]
  rw [scanFrom_skip, List.drop_left, scanFrom_literal_last (c :: lit) 0 _ none]

/-- Before the first occurrence there is none: one at the very start would end before the last
character of the one behind `a`. -/
theorem not_prefix_cons_append {lit a : Text} {c : Char}
    (h : ¬ lit <:+: c :: a ++ lit.dropLast) (b : Text) : ¬ lit <+: c :: (a ++ lit ++ b) := by
  intro hp
  have hq : c :: a ++ lit.dropLast <+: c :: (a ++ lit ++ b) := by
    simpa using (List.dropLast_prefix lit).trans (List.prefix_append lit b)
  have hl : lit.length ≤ (c :: a ++ lit.dropLast).length := by
    simp
    omega
  exact h (List.prefix_of_prefix_length_le hp hq hl).isInfix

/-- The first occurrence is replaced where it stands, and replacing goes on behind it. -/
theorem replaceAll_append_self_append (hne : old ≠ []) {a : Text}
    (h : ¬ old <:+: a ++ old.dropLast) (b : Text) :
    replaceAll old new (a ++ old ++ b) = a ++ new ++ replaceAll old new b := by
  induction a with
  | nil => simpa using replaceAll_append_self new hne b
  | cons c a ih =>
    have ih := ih fun hi => h (List.infix_cons hi)
    simp only [List.cons_append, replaceAll_cons new hne (not_prefix_cons_append h b), ih]

/-- A text is cut at the first occurrence. -/
theorem cut?_append_append {lit a : Text} (hne : lit ≠ []) (h : ¬ lit <:+: a ++ lit.dropLast)
    (b : Text) : cut? lit (a ++ lit ++ b) = some (a, b) := by
  induction a with
  | nil =>
    obtain ⟨c, lit, rfl⟩ := List.exists_cons_of_ne_nil hne
    have hs : after? (c :: lit) (c :: (lit ++ b)) = some b := after?_eq_some_iff.mpr rfl
    simp only [List.nil_append, List.cons_append, cut?, hs]
  | cons c a ih =>
    have ih := ih fun hi => h (List.infix_cons hi)
    have hs := after?_eq_none_iff.mpr (not_prefix_cons_append h b)
    simp only [List.cons_append, cut?, hs, ih, Option.map_some]

/-- No occurrence starts before the one at which a text is cut. -/
theorem length_le_of_cut? {lit s a b u : Text} (h : cut? lit s = some (a, b))
    (hu : u ++ lit <+: s) : a.length ≤ u.length := by
  refine Nat.le_of_not_lt fun hl => cut?_first h u.length hl ?_
  obtain ⟨t, rfl⟩ := hu
  rw [List.append_assoc, List.drop_left]
  exact List.prefix_append lit t

/-- An occurrence that starts before the end of `a` in front of `lit`. -/
theorem exists_of_infix_append_dropLast {lit a : Text} (hne : lit ≠ [])
    (h : lit <:+: a ++ lit.dropLast) (b : Text) :
    ∃ u, u.length < a.length ∧ u ++ lit <+: a ++ lit ++ b := by
  obtain ⟨u, v, he⟩ := h
  refine ⟨u, ?_, List.IsPrefix.trans ⟨v, he⟩ ?_⟩
  · have hlen := congrArg List.length he
    have hpos := List.length_pos_iff.mpr hne
    simp only [List.length_append, List.length_dropLast] at hlen
    omega
  · rw [List.append_assoc]
    exact (List.prefix_append_right_inj a).mpr
      ((List.dropLast_prefix lit).trans (List.prefix_append lit b))

theorem not_infix_append_dropLast_of_cut? {lit s a b : Text} (hne : lit ≠ [])
    (h : cut? lit s = some (a, b)) : ¬ lit <:+: a ++ lit.dropLast := by
  intro hi
  obtain ⟨u, hl, hu⟩ := exists_of_infix_append_dropLast hne hi b
  rw [← cut?_eq_some h] at hu
  exact absurd (length_le_of_cut? h hu) (Nat.not_le.mpr hl)

theorem replaceAll_eq_of_cut? (hne : old ≠ []) {s a b : Text} (h : cut? old s = some (a, b)) :
    replaceAll old new s = a ++ new ++ replaceAll old new b := by
  have ha := not_infix_append_dropLast_of_cut? hne h
  obtain rfl := cut?_eq_some h
  exact replaceAll_append_self_append new hne ha b

end Equations

/-- The text before the first occurrence has none. -/
theorem not_infix_of_cut? {lit s a b : Text} (hne : lit ≠ []) (h : cut? lit s = some (a, b)) :
    ¬ lit <:+: a :=
  fun hi => not_infix_append_dropLast_of_cut? hne h (List.infix_append_of_infix_left hi)

/-- The first place of a character. -/
theorem cut?_singleton_iff {q : Char} {s before rest : Text} :
    cut? [q] s = some (before, rest) ↔ q ∉ before ∧ s = before ++ q :: rest := by
  constructor
  · intro h
    refine ⟨fun hq => ?_, by simpa using cut?_eq_some h⟩
    obtain ⟨a, b, rfl⟩ := List.append_of_mem hq
    exact not_infix_of_cut? (by simp) h ⟨a, b, by simp⟩
  · rintro ⟨hq, rfl⟩
    induction before with
    | nil =>
      rw [List.nil_append, cut?]
      simp [after?]
    | cons c before ih =>
      have hc : q ≠ c := fun he => hq (he ▸ List.mem_cons_self)
      rw [List.cons_append, cut?, ih fun h => hq (List.mem_cons_of_mem _ h)]
      simp [after?, hc]

/-! ## Texts put together -/

/-- The text on one side of a fence is replaced without the other. -/
theorem replaceAll_append_cons {old : Text} (hne : old ≠ []) (new : Text) {c : Char} (hc : c ∉ old)
    (a b : Text) :
    replaceAll old new (a ++ c :: b) = replaceAll old new a ++ c :: replaceAll old new b := by
  -- by the length of `a`, as an occurrence in it is passed over as a whole
  induction hn : a.length using Nat.strongRecOn generalizing a with
  | ind n ih =>
    cases a with
    | nil =>
      have hp : ¬ old <+: c :: b := by
        intro hp
        exact hne (List.prefix_nil.mp ((prefix_append_cons_iff (a := []) hc).mp hp))
      rw [List.nil_append, replaceAll_cons new hne hp, replaceAll_nil new hne, List.nil_append]
    | cons d a =>
      by_cases hp : old <+: d :: a
      · obtain ⟨t, ht⟩ := hp
        have hlt : t.length < n := by
          have hlen := congrArg List.length ht
          have hpos := List.length_pos_iff.mpr hne
          rw [List.length_append] at hlen
          omega
        rw [← ht, List.append_assoc, replaceAll_append_self new hne, ih _ hlt t rfl,
          replaceAll_append_self new hne, List.append_assoc]
      · have hp' : ¬ old <+: d :: (a ++ c :: b) := by
          intro h
          exact hp ((prefix_append_cons_iff (a := d :: a) hc).mp h)
        have hlt : a.length < n := by
          rw [← hn]
          simp
        rw [List.cons_append, replaceAll_cons new hne hp', ih _ hlt a rfl,
          replaceAll_cons new hne hp, List.cons_append]

/-- A fenced text without the literal stays as it is, and so it parts the text around it. -/
theorem replaceAll_append_fenced {old : Text} (hne : old ≠ []) (new : Text) {s : Text}
    (hf : Fenced old s) (hs : ¬ old <:+: s) (a b : Text) :
    replaceAll old new (a ++ s ++ b) = replaceAll old new a ++ s ++ replaceAll old new b := by
  obtain ⟨c, m, d, rfl, hc, hd⟩ := hf
  have hm : ¬ old <:+: m := fun h =>
    hs (List.infix_cons (List.infix_append_of_infix_left h))
  have he : a ++ c :: (m ++ [d]) ++ b = a ++ c :: (m ++ d :: b) := by simp
  rw [he, replaceAll_append_cons hne new hc, replaceAll_append_cons hne new hd,
    replaceAll_eq_self hm]
  simp

/-- Replacing brings about no occurrence of `w`, if `w` occurs neither in the replacement nor in any
part of the text without the literal, and the replacement is fenced. -/
theorem not_infix_replaceAll {old new w s : Text} (hne : old ≠ []) (hf : Fenced w new)
    (hn : ¬ w <:+: new) (hs : ∀ a, a <:+: s → ¬ old <:+: a → ¬ w <:+: a) :
    ¬ w <:+: replaceAll old new s := by
  induction hl : s.length using Nat.strongRecOn generalizing s with
  | ind n ih =>
    cases hcut : cut? old s with
    | none =>
      have ho : ¬ old <:+: s := cut?_eq_none_iff.mp hcut
      rw [replaceAll_eq_self ho]
      exact hs s (List.infix_refl s) ho
    | some parts =>
      obtain ⟨a, b⟩ := parts
      have he := cut?_eq_some hcut
      have ha : ¬ w <:+: a := by
        refine hs a ?_ (not_infix_of_cut? hne hcut)
        rw [he, List.append_assoc]
        exact List.infix_append_left
      have hb : ¬ w <:+: replaceAll old new b := by
        refine ih b.length ?_ (fun t ht => hs t ?_) rfl
        · have hlen := congrArg List.length he
          have hpos := List.length_pos_iff.mpr hne
          simp only [List.length_append] at hlen
          omega
        · rw [he]
          exact List.infix_append_of_infix_right ht
      rw [replaceAll_eq_of_cut? new hne hcut]
      intro h
      rcases hf.infix_append h with h | h | h
      · exact ha h
      · exact hn h
      · exact hb h

end TwigLayout.Text
