import TwigLayout.Proofs.Placeholder.RoundTrip

/-!
# Texts that overlap the tokens

A fresh token occurs nowhere in the text that is shielded, but it may occur in the shielded text at
other places than its own: it can start with underscores or with a whole piece of itself that the
text has in front of its place, or end with a piece that the text has behind another token. It is
then replaced at the wrong place.

1. `Walled.restoreEntries_first`: the first place at which restoring changes a text is that of some
   token.
2. `replaceAll_other` and `not_infix_of_replaceAll_own`: one turn. If the text in front of a place
   comes back and a region starts there, neither the token of the place nor any other one started
   before the place or inside of the token.
3. `restore_shield_iff`: so a text comes back only if every token is clear (`isClear`), and then it
   does. `restore_shield_overlap` is a text that does not come back.
-/

namespace TwigLayout.Placeholder

open Text

/-! ## The first change -/

theorem append_singleton_prefix {u x y : Text} {c : Char} (h : x <+: u ++ c :: y)
    (hl : u.length < x.length) : u ++ [c] <+: x := by
  have hu : u ++ [c] <+: u ++ c :: y := by simp
  refine List.prefix_of_prefix_length_le hu h ?_
  rw [List.length_append]
  exact hl

theorem eq_of_prefix_of_prefix {u x : Text} {c d : Char} (hc : u ++ [c] <+: x)
    (hd : u ++ [d] <+: x) : c = d := by
  have h := (List.prefix_of_prefix_length_le hc hd (by simp)).eq_of_length (by simp)
  simpa using List.append_cancel_left h

theorem restoreEntries_of_not_infix {entries : List (Text × Text)} {s : Text}
    (h : ∀ e ∈ entries, ¬ e.1 <:+: s) : (restoreEntries entries s).1 = s := by
  induction entries with
  | nil => rfl
  | cons e entries ih =>
    rw [restoreEntries_cons_fst, replaceAll_eq_self (h e List.mem_cons_self)]
    exact ih fun f hf => h f (List.mem_cons_of_mem _ hf)

theorem restoreEntries_append_fenced {entries : List (Text × Text)} {region : Text}
    (hne : ∀ e ∈ entries, e.1 ≠ []) (hf : ∀ e ∈ entries, Fenced e.1 region)
    (hn : ∀ e ∈ entries, ¬ e.1 <:+: region) (a b : Text) :
    (restoreEntries entries (a ++ region ++ b)).1 =
      (restoreEntries entries a).1 ++ region ++ (restoreEntries entries b).1 := by
  induction entries generalizing a b with
  | nil => rfl
  | cons e entries ih =>
    simp only [restoreEntries_cons_fst]
    rw [replaceAll_append_fenced (hne e List.mem_cons_self) e.2 (hf e List.mem_cons_self)
      (hn e List.mem_cons_self)]
    exact ih (fun f hm => hne f (List.mem_cons_of_mem _ hm))
      (fun f hm => hf f (List.mem_cons_of_mem _ hm)) (fun f hm => hn f (List.mem_cons_of_mem _ hm))
      _ _

/-- A region that is back parts the text for all that is still to do. -/
theorem Walled.restoreEntries_append {e : Text × Text} {entries : List (Text × Text)}
    (h : Walled (e :: entries)) (a b : Text) :
    (restoreEntries entries (a ++ e.2 ++ b)).1 =
      (restoreEntries entries a).1 ++ e.2 ++ (restoreEntries entries b).1 :=
  restoreEntries_append_fenced h.tail.ne_nil
    (fun f hf => h.fenced f (List.mem_cons_of_mem _ hf) e List.mem_cons_self)
    (fun f hf => h.not_infix f (List.mem_cons_of_mem _ hf) e List.mem_cons_self) a b

/-- Restoring leaves a text alone, or the first change puts a region in the place of its token. -/
theorem Walled.restoreEntries_first {entries : List (Text × Text)} (h : Walled entries) (s : Text) :
    (restoreEntries entries s).1 = s ∨ ∃ e ∈ entries, ∃ a b rest,
      s = a ++ e.1 ++ b ∧ (restoreEntries entries s).1 = a ++ e.2 ++ rest := by
  induction entries generalizing s with
  | nil => exact .inl rfl
  | cons e entries ih =>
    rw [restoreEntries_cons_fst]
    have hne : e.1 ≠ [] := h.ne_nil e List.mem_cons_self
    cases hc : cut? e.1 s with
    | none =>
      rw [replaceAll_eq_self (cut?_eq_none_iff.mp hc)]
      rcases ih h.tail s with hr | ⟨f, hf, a, b, rest, hs, hr⟩
      · exact .inl hr
      · exact .inr ⟨f, List.mem_cons_of_mem _ hf, a, b, rest, hs, hr⟩
    | some parts =>
      obtain ⟨a, b⟩ := parts
      refine .inr ?_
      rw [replaceAll_eq_of_cut? e.2 hne hc, h.restoreEntries_append, cut?_eq_some hc]
      -- the text in front of the token may change in a later turn
      rcases ih h.tail a with hr | ⟨f, hf, a', b', rest, rfl, hr⟩
      · exact ⟨e, List.mem_cons_self, a, b, _, rfl, by rw [hr]⟩
      · exact ⟨f, List.mem_cons_of_mem _ hf, a', b' ++ e.1 ++ b, _,
          by simp only [List.append_assoc], by rw [hr]; simp only [List.append_assoc]; rfl⟩

/-- If the text starts as before up to a place, and a character that no token has comes to stand
there, the character was there, or a token was. -/
theorem Walled.prefix_or_exists_prefix {entries : List (Text × Text)} (h : Walled entries)
    {x s : Text} {d : Char} (hx : x <+: s) (hr : x ++ [d] <+: (restoreEntries entries s).1) :
    x ++ [d] <+: s ∨ ∃ e ∈ entries, x ++ e.1 <+: s := by
  rcases h.restoreEntries_first s with he | ⟨e, hm, a, b, rest, rfl, he⟩
  · rw [he] at hr
    exact .inl hr
  · rw [he] at hr
    obtain ⟨c, m, c₂, hregion, hc, _⟩ := h.fenced e hm e hm
    obtain ⟨c', token, htoken⟩ := List.exists_cons_of_ne_nil (h.ne_nil e hm)
    have hr' : x ++ [d] <+: a ++ c :: (m ++ c₂ :: rest) := by
      rw [hregion] at hr
      simpa using hr
    have hx' : x <+: a ++ c' :: (token ++ b) := by
      rw [htoken] at hx
      simpa using hx
    rcases Nat.lt_trichotomy a.length x.length with hl | hl | hl
    · -- two characters at the place of `a`
      have h₁ := append_singleton_prefix hx' hl
      have h₂ := append_singleton_prefix ((List.prefix_append x [d]).trans hr') hl
      obtain rfl := eq_of_prefix_of_prefix h₁ h₂
      exact absurd (by rw [htoken]; exact List.mem_cons_self) hc
    · have hxa : x = a :=
        (List.prefix_of_prefix_length_le hx' (List.prefix_append a _) (by omega)).eq_of_length
          hl.symm
      refine .inr ⟨e, hm, ?_⟩
      rw [hxa]
      exact List.prefix_append _ _
    · have ha : x ++ [d] <+: a :=
        List.prefix_of_prefix_length_le hr' (List.prefix_append a _) (by
          rw [List.length_append]
          exact hl)
      refine .inl (ha.trans ?_)
      rw [List.append_assoc]
      exact List.prefix_append _ _

/-! ## One turn -/

section Turn

variable {e : Text × Text} {entries : List (Text × Text)} {x token s : Text} {d : Char}

/-- If a token is replaced before a place, the text in front of the place does not come back. -/
theorem Walled.length_le_of_prefix (h : Walled (e :: entries)) (hx : x <+: s)
    (hn : ∀ f ∈ entries, ¬ f.1 <:+: x) {u v : Text} (hc : cut? e.1 s = some (u, v))
    (hr : x <+: (restoreEntries (e :: entries) s).1) : x.length ≤ u.length := by
  refine Nat.le_of_not_lt fun hl => ?_
  have hne := h.ne_nil e List.mem_cons_self
  obtain ⟨c, m, c₂, hregion, hc', _⟩ := h.fenced e List.mem_cons_self e List.mem_cons_self
  obtain ⟨c', token, htoken⟩ := List.exists_cons_of_ne_nil hne
  have hs := cut?_eq_some hc
  have hux : u <+: x := by
    refine List.prefix_of_prefix_length_le ?_ hx (Nat.le_of_lt hl)
    rw [hs, List.append_assoc]
    exact List.prefix_append _ _
  have hu : (restoreEntries entries u).1 = u :=
    restoreEntries_of_not_infix fun f hf hi => hn f hf (hi.trans hux.isInfix)
  rw [restoreEntries_cons_fst, replaceAll_eq_of_cut? e.2 hne hc, h.restoreEntries_append, hu,
    hregion] at hr
  have h₁ : u ++ [c] <+: x := append_singleton_prefix (by simpa using hr) hl
  have h₂ : u ++ [c'] <+: x := by
    rw [hs, htoken] at hx
    exact append_singleton_prefix (by simpa using hx) hl
  obtain rfl := eq_of_prefix_of_prefix h₁ h₂
  exact hc' (by rw [htoken]; exact List.mem_cons_self)

/-- If another token is replaced from inside the token of the place on, no region starts there. -/
theorem Walled.not_prefix_of_cut_inside (h : Walled (e :: entries))
    (hs : ∀ f ∈ e :: entries, f.1 <:+: token ∨ token <:+: f.1 → f.1 = token) (he : e.1 ≠ token)
    (hd : d ∉ token) {t v y : Text} (ht : t <+: token) (hlt : t.length < token.length)
    (hc : cut? e.1 (x ++ token ++ y) = some (x ++ t, v)) :
    ¬ x ++ [d] <+: (restoreEntries (e :: entries) (x ++ token ++ y)).1 := by
  intro hr
  have hne := h.ne_nil e List.mem_cons_self
  have hty : token ++ y = t ++ e.1 ++ v := by simpa using cut?_eq_some hc
  cases t with
  | nil =>
    -- both tokens stand at the place
    have hp : e.1 <+: token ++ y := by
      rw [hty]
      exact List.prefix_append _ _
    refine he (hs e List.mem_cons_self ?_)
    rcases List.prefix_or_prefix_of_prefix hp (List.prefix_append token y) with hp | hp
    · exact .inl hp.isInfix
    · exact .inr hp.isInfix
  | cons a t =>
    -- what is left of the token of the place is shorter than any token
    obtain ⟨c, m, c₂, hregion, _, _⟩ := h.fenced e List.mem_cons_self e List.mem_cons_self
    rw [restoreEntries_cons_fst, replaceAll_eq_of_cut? e.2 hne hc, hregion] at hr
    have hr' : x ++ [d] <+: (restoreEntries entries
        (x ++ (a :: t ++ c :: (m ++ c₂ :: replaceAll e.1 (c :: (m ++ [c₂])) v)))).1 := by
      simpa using hr
    rcases h.tail.prefix_or_exists_prefix (List.prefix_append _ _) hr' with hp | ⟨f, hf, hp⟩
    · have hp' := (List.prefix_append_right_inj x).mp hp
      obtain rfl : d = a := by simpa using hp'
      exact hd (ht.subset List.mem_cons_self)
    · have hp' := (List.prefix_append_right_inj x).mp hp
      have hcf : c ∉ f.1 := by
        obtain ⟨c', m', d', he', hc', _⟩ :=
          h.fenced f (List.mem_cons_of_mem _ hf) e List.mem_cons_self
        rw [hregion] at he'
        obtain ⟨rfl, _⟩ : c = c' ∧ _ := by simpa using he'
        exact hc'
      have hft : f.1 <+: a :: t := (prefix_append_cons_iff hcf).mp hp'
      have htoken := hs f (List.mem_cons_of_mem _ hf) (.inl (hft.trans ht).isInfix)
      rw [htoken] at hft
      exact absurd hft.length_le (Nat.not_le.mpr hlt)

/-- At the turn of another token than that of the place, only the text behind the token of the place
changes. -/
theorem replaceAll_other (h : Walled (e :: entries))
    (hs : ∀ f ∈ e :: entries, f.1 <:+: token ∨ token <:+: f.1 → f.1 = token) (he : e.1 ≠ token)
    (hd : d ∉ token) (hn : ∀ f ∈ entries, ¬ f.1 <:+: x) {y : Text}
    (hr : x ++ [d] <+: (restoreEntries (e :: entries) (x ++ token ++ y)).1) :
    replaceAll e.1 e.2 (x ++ token ++ y) = x ++ token ++ replaceAll e.1 e.2 y ∧
      (e.1 <:+: x ++ token ++ y → e.1 <:+: y) := by
  have hne := h.ne_nil e List.mem_cons_self
  have hx : x <+: x ++ token ++ y := by
    rw [List.append_assoc]
    exact List.prefix_append _ _
  cases hc : cut? e.1 (x ++ token ++ y) with
  | none =>
    have ho : ¬ e.1 <:+: x ++ token ++ y := cut?_eq_none_iff.mp hc
    have hy : ¬ e.1 <:+: y := fun hi => ho (List.infix_append_of_infix_right hi)
    rw [replaceAll_eq_self ho, replaceAll_eq_self hy]
    exact ⟨rfl, fun hi => absurd hi ho⟩
  | some parts =>
    obtain ⟨u, v⟩ := parts
    have hl := h.length_le_of_prefix hx hn hc ((List.prefix_append x [d]).trans hr)
    have hcut := cut?_eq_some hc
    obtain ⟨t, rfl⟩ : x <+: u := by
      refine List.prefix_of_prefix_length_le hx ?_ hl
      rw [hcut, List.append_assoc]
      exact List.prefix_append _ _
    have hty : token ++ y = t ++ e.1 ++ v := by simpa using hcut
    have htoken : token <+: token ++ y := List.prefix_append _ _
    have htail : t <+: token ++ y := by
      rw [hty, List.append_assoc]
      exact List.prefix_append _ _
    by_cases hlt : t.length < token.length
    · have ht := List.prefix_of_prefix_length_le htail htoken (Nat.le_of_lt hlt)
      exact absurd hr (h.not_prefix_of_cut_inside hs he hd ht hlt hc)
    · obtain ⟨t', rfl⟩ : token <+: t :=
        List.prefix_of_prefix_length_le htoken htail (Nat.le_of_not_lt hlt)
      obtain rfl : y = t' ++ e.1 ++ v := by simpa using hty
      have hi := not_infix_append_dropLast_of_cut? hne hc
      have ht' : ¬ e.1 <:+: t' ++ e.1.dropLast := by
        intro hj
        refine hi ?_
        rw [List.append_assoc, List.append_assoc]
        exact List.infix_append_of_infix_right (List.infix_append_of_infix_right hj)
      rw [replaceAll_eq_of_cut? e.2 hne hc, replaceAll_append_self_append e.2 hne ht']
      exact ⟨by simp only [List.append_assoc], fun _ => List.infix_append ..⟩

/-- At the turn of the token of the place, it started nowhere before. -/
theorem not_infix_of_replaceAll_own {region y : Text} (h : Walled ((token, region) :: entries))
    (hn : ∀ f ∈ entries, ¬ f.1 <:+: x)
    (hr : x <+: (restoreEntries ((token, region) :: entries) (x ++ token ++ y)).1) :
    ¬ token <:+: x ++ token.dropLast := by
  intro hi
  have hne := h.ne_nil _ List.mem_cons_self
  obtain ⟨u, hl, hu⟩ := exists_of_infix_append_dropLast hne hi y
  have hx : x <+: x ++ token ++ y := by
    rw [List.append_assoc]
    exact List.prefix_append _ _
  cases hc : cut? token (x ++ token ++ y) with
  | none => exact cut?_eq_none_iff.mp hc (List.infix_append ..)
  | some parts =>
    have h₁ := h.length_le_of_prefix hx hn hc hr
    have h₂ := length_le_of_cut? hc hu
    omega

end Turn

/-! ## All turns -/

/-- If the text in front of a place comes back and a region starts there, the token of the place was
replaced at its turn, and no turn before it found its token in front of the place or at it. -/
theorem restoreEntries_place {done later : List (Text × Text)} {x token region y : Text} {d : Char}
    (h : Walled (done ++ (token, region) :: later))
    (hs : ∀ f ∈ done ++ (token, region) :: later, f.1 <:+: token ∨ token <:+: f.1 → f.1 = token)
    (hdone : ∀ f ∈ done, f.1 ≠ token) (hd : d ∉ token)
    (hn : ∀ f ∈ done ++ (token, region) :: later, ¬ f.1 <:+: x)
    (hr : x ++ [d] <+: (restoreEntries (done ++ (token, region) :: later) (x ++ token ++ y)).1) :
    (restoreEntries (done ++ (token, region) :: later) (x ++ token ++ y)).1 =
        x ++ region ++ (restoreEntries (done ++ (token, region) :: later) y).1 ∧
      ¬ token <:+: x ++ token.dropLast ∧
      ((∀ f ∈ done, ¬ f.1 <:+: y) → ∀ f ∈ done, ¬ f.1 <:+: x ++ token ++ y) := by
  induction done generalizing y with
  | nil =>
    have hn' : ∀ f ∈ later, ¬ f.1 <:+: x := fun f hf => hn f (List.mem_cons_of_mem _ hf)
    have hx := not_infix_of_replaceAll_own h hn' ((List.prefix_append x [d]).trans hr)
    refine ⟨?_, hx, fun _ f hf => absurd hf List.not_mem_nil⟩
    rw [List.nil_append, restoreEntries_cons_fst, restoreEntries_cons_fst,
      replaceAll_append_self_append region (h.ne_nil _ List.mem_cons_self) hx,
      h.restoreEntries_append, restoreEntries_of_not_infix hn']
  | cons e done ih =>
    obtain ⟨hrep, hocc⟩ := replaceAll_other h hs (hdone e List.mem_cons_self) hd
      (fun f hf => hn f (List.mem_cons_of_mem _ hf)) hr
    rw [List.cons_append, restoreEntries_cons_fst, hrep] at hr
    obtain ⟨heq, hx, hd'⟩ := ih h.tail (fun f hf => hs f (List.mem_cons_of_mem _ hf))
      (fun f hf => hdone f (List.mem_cons_of_mem _ hf))
      (fun f hf => hn f (List.mem_cons_of_mem _ hf)) hr
    refine ⟨?_, hx, fun hy f hf => ?_⟩
    · rw [List.cons_append, restoreEntries_cons_fst, restoreEntries_cons_fst, hrep]
      exact heq
    · rcases List.mem_cons.mp hf with rfl | hf
      · exact fun hi => hy f List.mem_cons_self (hocc hi)
      · -- the turn of `e` did nothing
        rw [replaceAll_eq_self (hy e List.mem_cons_self)] at hd'
        exact hd' (fun g hg => hy g (List.mem_cons_of_mem _ hg)) f hf

/-- The regions are walled, and no token occurs in another one. -/
structure Apart (entries : List (Text × Text)) : Prop extends Walled entries where
  eq_of_occurs : ∀ e ∈ entries, ∀ f ∈ entries, e.1 <:+: f.1 → e.1 = f.1
  pairwise : entries.Pairwise (·.1 ≠ ·.1)

namespace Apart

variable {done later : List (Text × Text)} {before x token region y : Text}

theorem mem_place (done later : List (Text × Text)) (token region : Text) :
    (token, region) ∈ done ++ (token, region) :: later :=
  List.mem_append_right _ List.mem_cons_self

/-- What the turns do with a place whose region comes back. -/
theorem restoreEntries_place (h : Apart (done ++ (token, region) :: later))
    (hn : ∀ e ∈ done ++ (token, region) :: later, ¬ e.1 <:+: x)
    (hr : x ++ region <+: (restoreEntries (done ++ (token, region) :: later) (x ++ token ++ y)).1) :
    (restoreEntries (done ++ (token, region) :: later) (x ++ token ++ y)).1 =
        x ++ region ++ (restoreEntries (done ++ (token, region) :: later) y).1 ∧
      ¬ token <:+: x ++ token.dropLast ∧
      ((∀ f ∈ done, ¬ f.1 <:+: y) → ∀ f ∈ done, ¬ f.1 <:+: x ++ token ++ y) := by
  have hmem := mem_place done later token region
  obtain ⟨c, m, c₂, hregion, hc, _⟩ : Fenced token region := h.fenced _ hmem _ hmem
  have hfirst : x ++ [c] <+: x ++ region := by
    rw [hregion]
    exact (List.prefix_append_right_inj x).mpr (List.prefix_append [c] (m ++ [c₂]))
  refine Placeholder.restoreEntries_place h.toWalled (fun f hf hi => ?_) (fun f hf => ?_) hc hn
    (hfirst.trans hr)
  · exact hi.elim (h.eq_of_occurs f hf _ hmem) fun hi => (h.eq_of_occurs _ hmem f hf hi).symm
  · exact (List.pairwise_append.mp h.pairwise).2.2 f hf _ List.mem_cons_self

/-- A region that is back walls off what is behind it. -/
theorem infix_behind (h : Apart (done ++ (token, region) :: later))
    (hn : ∀ e ∈ done ++ (token, region) :: later, ¬ e.1 <:+: x)
    (hb : ∀ e ∈ done ++ (token, region) :: later, ∀ s, e.1 <:+: before ++ s → e.1 <:+: s) :
    ∀ e ∈ done ++ (token, region) :: later, ∀ s,
      e.1 <:+: before ++ x ++ region ++ s → e.1 <:+: s := by
  intro e he s hi
  have hmem := mem_place done later token region
  rcases (h.fenced e he _ hmem).infix_append hi with hi | hi | hi
  · exact absurd (hb e he x hi) (hn e he)
  · exact absurd hi (h.not_infix e he _ hmem)
  · exact hi

end Apart

/-- If a shielded text comes back, every token in it is clear. The text that is back already is
`before`, which no occurrence of a token leaves, and `x`. -/
theorem isClear_of_restoreEntries {done : List (Text × Text)} {parts : List (Piece Text)}
    {before x : Text} (h : Apart (done ++ parts.filterMap pair?))
    (hn : ∀ e ∈ done ++ parts.filterMap pair?, ¬ e.1 <:+: x ++ parts.flatMap Piece.text)
    (hb : ∀ e ∈ done ++ parts.filterMap pair?, ∀ s, e.1 <:+: before ++ s → e.1 <:+: s)
    (hr : (restoreEntries (done ++ parts.filterMap pair?) (x ++ parts.flatMap shown)).1 =
      x ++ parts.flatMap Piece.text) :
    isClear (before ++ x) parts = true ∧ ∀ e ∈ done, ¬ e.1 <:+: x ++ parts.flatMap shown := by
  -- over the places, from the left: those of `done` are passed, but its turns come before those of
  -- the places ahead, so its tokens still count
  induction parts generalizing done before x with
  | nil => exact ⟨rfl, fun e he => hn e (List.mem_append_left _ he)⟩
  | cons part parts ih =>
    cases part with
    | plain c =>
      simp only [filterMap_pair?_plain] at h hn hb hr
      obtain ⟨hclear, hdone⟩ := ih (x := x ++ [c]) h (by simpa [Piece.text] using hn) hb
        (by simpa [shown, Piece.text] using hr)
      exact ⟨by simpa [isClear] using hclear, by simpa [shown] using hdone⟩
    | found token region =>
      simp only [filterMap_pair?_found] at h hn hb hr
      simp only [List.flatMap_cons, shown, Piece.text, ← List.append_assoc] at hn hr ⊢
      have hx : ∀ e ∈ done ++ (token, region) :: parts.filterMap pair?, ¬ e.1 <:+: x :=
        fun e he hi => hn e he
          (List.infix_append_of_infix_left (List.infix_append_of_infix_left hi))
      have hrest : ∀ e ∈ done ++ (token, region) :: parts.filterMap pair?,
          ¬ e.1 <:+: [] ++ parts.flatMap Piece.text :=
        fun e he hi => hn e he (List.infix_append_of_infix_right hi)
      obtain ⟨heq, hown, hother⟩ := h.restoreEntries_place hx (hr ▸ List.prefix_append _ _)
      have hb' := h.infix_behind hx hb
      have hr' := List.append_cancel_left (heq.symm.trans hr)
      have hassoc : done ++ (token, region) :: parts.filterMap pair? =
          done ++ [(token, region)] ++ parts.filterMap pair? := by simp
      have hmem := Apart.mem_place done (parts.filterMap pair?) token region
      rw [hassoc] at h hrest hb' hr'
      obtain ⟨hclear, hdone⟩ := ih h hrest hb' hr'
      rw [List.append_nil] at hclear
      refine ⟨isClear_found_iff.mpr ⟨fun hi => hown ?_, ?_, hclear⟩, hother fun f hf => ?_⟩
      · exact hb _ hmem _ (by simpa using hi)
      · exact hdone _ (List.mem_append_right _ List.mem_cons_self)
      · exact hdone f (List.mem_append_left _ hf)

theorem Numbered.pairwise {k : Kind} {n : Nat} {parts : List (Piece Text)}
    (h : Numbered k n parts) : (parts.filterMap pair?).Pairwise (·.1 ≠ ·.1) := by
  fun_induction Numbered k n parts with
  | case1 => exact .nil
  | case2 n c parts ih => exact ih h
  | case3 n token region parts ih =>
    refine .cons (fun e he htoken => ?_) (ih h.2)
    obtain ⟨i, hi, hei⟩ := h.2.exists_isToken (mem_filterMap_pair?.mp he)
    have hn : n = i := (IsToken.eq_of_infix h.1 hei (htoken ▸ List.infix_refl token)).1
    omega

/-- A shielded text comes back exactly if every token is clear. -/
theorem Assigned.restore_result_eq_ok_iff {α : Type} {k : Kind} {source : Text} {n : Nat}
    {pieces : List (Piece α)} {parts : List (Piece Text)} (h : Assigned k source n pieces parts)
    (hp : pieces.flatMap Piece.text = source) {t : Table} (ht : t.entries = parts.filterMap pair?)
    (hw : Walled t.entries) (strict : Bool) :
    (restore k strict t (parts.flatMap shown)).result = .ok source ↔ isClear [] parts = true := by
  rw [Placeholder.restore_result_eq_ok_iff]
  rw [ht] at hw ⊢
  have htext : parts.flatMap Piece.text = source := h.text.trans hp
  constructor
  · rintro ⟨hr, _⟩
    have hapart : Apart ([] ++ parts.filterMap pair?) := by
      refine ⟨hw, fun e he f hf hi => ?_, h.numbered.pairwise⟩
      obtain ⟨i, hei⟩ := h.isToken he
      obtain ⟨j, hfj⟩ := h.isToken hf
      exact (hei.eq_of_infix hfj hi).2
    have hfresh : ∀ e ∈ [] ++ parts.filterMap pair?, ¬ e.1 <:+: [] ++ parts.flatMap Piece.text := by
      intro e he
      rw [List.nil_append, htext]
      exact h.fresh _ _ (mem_filterMap_pair?.mp he)
    rw [← htext] at hr
    have hback : ∀ e ∈ [] ++ parts.filterMap pair?, ∀ u, e.1 <:+: ([] : Text) ++ u → e.1 <:+: u :=
      fun _ _ _ hi => hi
    exact (isClear_of_restoreEntries hapart hfresh hback hr).1
  · intro hclear
    have hr := restoreEntries_of_isClear [] (fun token region hm =>
      hw.ne_nil (token, region) (mem_filterMap_pair?.mpr hm)) hclear
    rw [List.nil_append, List.nil_append, htext] at hr
    rw [hr]
    exact ⟨rfl, fun _ => rfl⟩

theorem bind_restore_eq_ok_iff {assigned : Except Fault (List (Piece Text) × Table)} {k : Kind}
    {strict : Bool} {s : Text}
    (h : ∀ parts t, assigned = .ok (parts, t) →
      ((restore k strict t (parts.flatMap shown)).result = .ok s ↔ isClear [] parts = true)) :
    ((do let (parts, t) ← assigned; return (parts.flatMap shown, t)) >>= fun (hidden, t) =>
        (restore k strict t hidden).result) = .ok s ↔
      ∃ parts t, assigned = .ok (parts, t) ∧ isClear [] parts = true := by
  constructor
  · intro hr
    obtain ⟨⟨hidden, t⟩, hs, hr⟩ := bind_eq_ok.mp hr
    obtain ⟨⟨parts, t⟩, ha, he⟩ := bind_eq_ok.mp hs
    cases he
    exact ⟨parts, t, ha, (h parts t ha).mp hr⟩
  · rintro ⟨parts, t, ha, hclear⟩
    exact bind_eq_ok.mpr ⟨(parts.flatMap shown, t), bind_eq_ok.mpr ⟨(parts, t), ha, rfl⟩,
      (h parts t ha).mpr hclear⟩

/-- Hiding the comments or the elements of a text and putting them back gives the text exactly if
every token is clear, for each text, rule and supply of suffixes. -/
theorem restore_shield_iff {supply : Supply} (hs : supply.WellFormed) (strict : Bool) (s : Text) :
    ((shieldComments supply .comment s >>= fun (hidden, t) =>
        (restore .comment strict t hidden).result) = .ok s ↔
      ∃ parts t, assignComments supply .comment s = .ok (parts, t) ∧ isClear [] parts = true) ∧
    ∀ rule, (shieldElements supply rule s >>= fun (hidden, t) =>
        (restore .inline strict t hidden).result) = .ok s ↔
      ∃ parts t, assignElements supply rule s = .ok (parts, t) ∧ isClear [] parts = true := by
  refine ⟨bind_restore_eq_ok_iff fun parts t h => ?_, fun rule =>
    bind_restore_eq_ok_iff fun parts t h => ?_⟩
  · obtain ⟨ha, he⟩ := assignComments_eq_ok hs h
    exact ha.restore_result_eq_ok_iff (Comment.flatMap_text_pieces _ s) he (walled_comments hs h)
      strict
  · obtain ⟨ha, he⟩ := assignElements_eq_ok hs h
    exact ha.restore_result_eq_ok_iff (flatMap_text_scan _ s) he (walled_elements hs h) strict

theorem restore_shield_clear :
    (shieldComments .counting .comment "{# a #}_{# b #}".toList >>= fun (hidden, t) =>
      (restore .comment true t hidden).result) = .ok "{# a #}_{# b #}".toList :=
  (restore_shield_iff Supply.counting_wellFormed true _).1.mpr
    ⟨_, _, rfl, by decide +kernel⟩

/-- A token that starts with a piece of the text in front of its place. It is fresh, as the text
does not have the whole of it. -/
theorem restore_shield_overlap :
    (shieldComments .counting .comment "__TWIG_CS_COMMENT_0_aaaaaaaa{# x #}".toList >>=
        fun (hidden, t) => (restore .comment true t hidden).result) =
      .ok "{# x #}TWIG_CS_COMMENT_0_aaaaaaaa__".toList ∧
    (shieldElements .counting (.of "twig:".toList 120)
        "__TWIG_CS_INLINE_0_aaaaaaaa<a>x</a>".toList >>=
        fun (hidden, t) => (restore .inline true t hidden).result) =
      .ok "<a>x</a>TWIG_CS_INLINE_0_aaaaaaaa__".toList :=
  ⟨rfl, rfl⟩

end TwigLayout.Placeholder
