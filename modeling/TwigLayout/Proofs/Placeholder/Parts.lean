import TwigLayout.Proofs.Logged
import TwigLayout.Proofs.Placeholder.Token

/-!
# The parts of a shielded text

Assigning tokens gives a text as parts: plain characters, and regions each of which has its token.
The parts put together to the text that was shielded, the tokens are numbered in their order, none
of them occurs in the text, and the table has an entry for each (`assign_eq_ok`). As long as no
token of the kind could occur in the text, every first draw is taken (`exists_assign_eq_ok`).
`Assigns` is the assignment as a relation, with one case for each thing that can become of a piece.
-/

namespace TwigLayout.Placeholder

open Text

/-! ## Parts -/

/-- The entry of the table for a part. -/
def pair? : Piece Text → Option (Text × Text)
  | .plain _ => none
  | .found token region => some (token, region)

@[simp] theorem filterMap_pair?_plain (c : Char) (parts : List (Piece Text)) :
    (.plain c :: parts).filterMap pair? = parts.filterMap pair? := rfl

@[simp] theorem filterMap_pair?_found (token region : Text) (parts : List (Piece Text)) :
    (.found token region :: parts).filterMap pair? =
      (token, region) :: parts.filterMap pair? := rfl

/-- The tokens of the parts have the indices from `n` on, in order. -/
def Numbered (k : Kind) : (n : Nat) → List (Piece Text) → Prop
  | _, [] => True
  | n, .plain _ :: parts => Numbered k n parts
  | n, .found token _ :: parts => IsToken k n token ∧ Numbered k (n + 1) parts

theorem Numbered.exists_isToken {k : Kind} {n : Nat} {parts : List (Piece Text)}
    (h : Numbered k n parts) {token region : Text} (hm : .found token region ∈ parts) :
    ∃ i, n ≤ i ∧ IsToken k i token := by
  fun_induction Numbered k n parts with
  | case1 => simp at hm
  | case2 n c parts ih => exact ih h (by simpa using hm)
  | case3 n token' region' parts ih =>
    rcases List.mem_cons.mp hm with he | hm
    · cases he
      exact ⟨n, Nat.le_refl n, h.1⟩
    · obtain ⟨i, hi, ht⟩ := ih h.2 hm
      exact ⟨i, by omega, ht⟩

theorem numbered_map_plain_append {k : Kind} {n : Nat} {parts : List (Piece Text)} (s : Text) :
    Numbered k n (s.map .plain ++ parts) ↔ Numbered k n parts := by
  induction s with
  | nil => exact Iff.rfl
  | cons c s ih => exact ih

theorem flatMap_text_map_plain {α : Type} (s : Text) :
    (s.map .plain : List (Piece α)).flatMap Piece.text = s := by
  induction s with
  | nil => rfl
  | cons c s ih => simp [Piece.text, ih]

theorem filterMap_pair?_map_plain (s : Text) : (s.map Piece.plain).filterMap pair? = [] := by
  induction s with
  | nil => rfl
  | cons c s ih => exact ih

/-! ## Tables -/

/-- The tokens of a table are of its kind and have indices below the number of entries. -/
structure Table.Valid (k : Kind) (t : Table) : Prop where
  label : t.label = k.label
  isToken : ∀ token ∈ t.tokens, ∃ i < t.entries.length, IsToken k i token

theorem Table.valid_empty (k : Kind) : (Table.empty k.label).Valid k where
  label := rfl
  isToken token h := by simp [Table.empty, Table.tokens] at h

section Supply

variable {supply : Supply} {k : Kind} {source : Text}

theorem Table.Valid.isToken_candidate {t : Table} (ht : t.Valid k) (hs : supply.WellFormed)
    (n : Nat) : IsToken k t.entries.length (t.candidate (supply.draw n)) :=
  ⟨supply.draw n, hs n, by rw [Table.candidate, ht.label]⟩

theorem Table.exists_draw_of_search {t : Table} {token : Text} {tries n m : Nat}
    (h : Table.search supply t source tries n = some (token, m)) :
    ∃ i, token = t.candidate (supply.draw i) := by
  fun_induction Table.search supply t source tries n with
  | case1 => simp at h
  | case2 tries n token' hf =>
    obtain ⟨rfl, _⟩ : token' = token ∧ n + 1 = m := by simpa using h
    exact ⟨n, rfl⟩
  | case3 tries n token' _ ih => exact ih h

/-- A token is added with the next index, and the table stays valid. -/
theorem Table.Valid.add? {t u : Table} {region token : Text} (ht : t.Valid k)
    (hs : supply.WellFormed) (h : t.add? supply region source = some (token, u)) :
    IsToken k t.entries.length token ∧ ¬ token <:+: source ∧
      u.entries = t.entries ++ [(token, region)] ∧ u.Valid k := by
  obtain ⟨hfresh, he, hl⟩ := Table.add?_eq_some h
  have htoken : IsToken k t.entries.length token := by
    obtain ⟨⟨token', v⟩, hn, hu⟩ := Option.map_eq_some_iff.mp h
    obtain ⟨⟨token'', m⟩, hsearch, hv⟩ := Option.map_eq_some_iff.mp hn
    cases hu
    cases hv
    obtain ⟨i, rfl⟩ := Table.exists_draw_of_search hsearch
    exact ht.isToken_candidate hs i
  have hsource : ¬ token <:+: source := by
    intro hi
    simp [Table.isFresh, occursIn_iff.mpr hi] at hfresh
  refine ⟨htoken, hsource, he, hl.trans ht.label, ?_⟩
  intro x hx
  rw [Table.tokens, he, List.map_append, List.mem_append] at hx
  rw [he, List.length_append]
  rcases hx with hx | hx
  · obtain ⟨i, hi, hxi⟩ := ht.isToken x hx
    exact ⟨i, Nat.lt_add_right _ hi, hxi⟩
  · obtain rfl : x = token := by simpa using hx
    exact ⟨t.entries.length, Nat.lt_add_one _, htoken⟩

/-- If the text has no key of the kind, the first draw is fresh. -/
theorem Table.Valid.exists_add? {t : Table} (ht : t.Valid k) (hs : supply.WellFormed)
    (hk : ¬ k.key <:+: source) (region : Text) :
    ∃ token u, t.add? supply region source = some (token, u) := by
  have hc := ht.isToken_candidate hs t.drawn
  have hfresh : t.isFresh source (t.candidate (supply.draw t.drawn)) = true := by
    rw [Table.isFresh, Bool.and_eq_true, Bool.not_eq_true', Bool.not_eq_true']
    constructor
    · rw [occursIn_eq_false_iff]
      intro hi
      have hkey : k.key <:+: t.candidate (supply.draw t.drawn) := hc.key_infix
      exact hk (hkey.trans hi)
    · rw [Bool.eq_false_iff, ne_eq, List.contains_iff_mem]
      intro hm
      obtain ⟨i, hi, hti⟩ := ht.isToken _ hm
      have := (hti.eq_of_infix hc (List.infix_refl _)).1
      omega
  have hsearch : Table.search supply t source (t.patience supply source) t.drawn =
      some (t.candidate (supply.draw t.drawn), t.drawn + 1) := by
    obtain ⟨n, hn⟩ : ∃ n, t.patience supply source = n + 1 :=
      Nat.exists_eq_succ_of_ne_zero (by unfold Table.patience; omega)
    rw [hn, Table.search]
    simp only [hfresh, if_true]
  refine ⟨t.candidate (supply.draw t.drawn), { t with
    entries := t.entries ++ [(t.candidate (supply.draw t.drawn), region)]
    drawn := t.drawn + 1 }, ?_⟩
  simp only [Table.add?, Table.newToken?, hsearch, Option.map_some]

/-! ## Assigning -/

variable {α : Type} {accepts : α → Text → Except Fault Bool}

/-- Assigning tokens to pieces, one after the other, from one table to another. -/
inductive Assigns (supply : Supply) (source : Text) (accepts : α → Text → Except Fault Bool) :
    List (Piece α) → Table → List (Piece Text) → Table → Prop
  | nil {t : Table} : Assigns supply source accepts [] t [] t
  | plain {c : Char} {pieces : List (Piece α)} {t u : Table} {parts : List (Piece Text)} :
      Assigns supply source accepts pieces t parts u →
      Assigns supply source accepts (.plain c :: pieces) t (.plain c :: parts) u
  | refused {value : α} {text : Text} {pieces : List (Piece α)} {t u : Table}
      {parts : List (Piece Text)} :
      accepts value text = .ok false → Assigns supply source accepts pieces t parts u →
      Assigns supply source accepts (.found value text :: pieces) t (text.map .plain ++ parts) u
  | accepted {value : α} {text token : Text} {pieces : List (Piece α)} {t u v : Table}
      {parts : List (Piece Text)} :
      accepts value text = .ok true → t.add? supply text source = some (token, v) →
      Assigns supply source accepts pieces v parts u →
      Assigns supply source accepts (.found value text :: pieces) t (.found token text :: parts) u

theorem assigns_of_assign {pieces : List (Piece α)} {t u : Table} {parts : List (Piece Text)}
    (h : assign supply source accepts pieces t = .ok (parts, u)) :
    Assigns supply source accepts pieces t parts u := by
  induction pieces generalizing t parts with
  | nil =>
    cases h
    exact .nil
  | cons piece pieces ih =>
    cases piece with
    | plain c =>
      obtain ⟨⟨rest, v⟩, hr, hv⟩ := bind_eq_ok.mp h
      cases hv
      exact .plain (ih hr)
    | found value text =>
      obtain ⟨b, hb, h⟩ := bind_eq_ok.mp h
      cases b with
      | false =>
        obtain ⟨⟨rest, v⟩, hr, hv⟩ := bind_eq_ok.mp h
        cases hv
        exact .refused hb (ih hr)
      | true =>
        simp only [if_true] at h
        split at h
        · cases h
        · next token w hadd =>
          obtain ⟨⟨rest, v⟩, hr, hv⟩ := bind_eq_ok.mp h
          cases hv
          exact .accepted hb hadd (ih hr)

/-- What assigning tokens to the findings of a text gives. -/
structure Assigned (k : Kind) (source : Text) (n : Nat) (pieces : List (Piece α))
    (parts : List (Piece Text)) : Prop where
  text : parts.flatMap Piece.text = pieces.flatMap Piece.text
  numbered : Numbered k n parts
  fresh : ∀ token region, .found token region ∈ parts → ¬ token <:+: source
  found : ∀ token region, .found token region ∈ parts → ∃ value, .found value region ∈ pieces

theorem assign_eq_ok (hs : supply.WellFormed) {pieces : List (Piece α)} {t u : Table}
    {parts : List (Piece Text)} (ht : t.Valid k)
    (h : assign supply source accepts pieces t = .ok (parts, u)) :
    Assigned k source t.entries.length pieces parts ∧
      u.entries = t.entries ++ parts.filterMap pair? := by
  replace h := assigns_of_assign h
  induction h with
  | nil => exact ⟨⟨rfl, trivial, by simp, by simp⟩, by simp⟩
  | plain _ ih =>
    obtain ⟨ha, he⟩ := ih ht
    refine ⟨⟨?_, ha.numbered, ?_, ?_⟩, he⟩
    · simp [Piece.text, ha.text]
    · intro token region hm
      exact ha.fresh token region (by simpa using hm)
    · intro token region hm
      obtain ⟨value, hv⟩ := ha.found token region (by simpa using hm)
      exact ⟨value, List.mem_cons_of_mem _ hv⟩
  | @refused value text pieces t u parts _ _ ih =>
    -- the finding stays, as plain characters without a number
    obtain ⟨ha, he⟩ := ih ht
    have hmem : ∀ token region, Piece.found token region ∈ text.map .plain ++ parts →
        .found token region ∈ parts := by
      intro token region hm
      simpa using hm
    refine ⟨⟨?_, (numbered_map_plain_append text).mpr ha.numbered, ?_, ?_⟩, ?_⟩
    · rw [List.flatMap_append, flatMap_text_map_plain, ha.text]
      rfl
    · intro token region hm
      exact ha.fresh token region (hmem token region hm)
    · intro token region hm
      obtain ⟨value', hv⟩ := ha.found token region (hmem token region hm)
      exact ⟨value', List.mem_cons_of_mem _ hv⟩
    · rw [List.filterMap_append, filterMap_pair?_map_plain, List.nil_append]
      exact he
  | @accepted value text token pieces t u v parts _ hadd _ ih =>
    obtain ⟨htoken, hsource, hv, hvalid⟩ := ht.add? hs hadd
    obtain ⟨ha, he⟩ := ih hvalid
    have hlen : v.entries.length = t.entries.length + 1 := by simp [hv]
    rw [hlen] at ha
    refine ⟨⟨?_, ⟨htoken, ha.numbered⟩, ?_, ?_⟩, ?_⟩
    · simp [Piece.text, ha.text]
    · intro token' region hm
      rcases List.mem_cons.mp hm with hm | hm
      · cases hm
        exact hsource
      · exact ha.fresh token' region hm
    · intro token' region hm
      rcases List.mem_cons.mp hm with hm | hm
      · cases hm
        exact ⟨value, List.mem_cons_self⟩
      · obtain ⟨value', hv⟩ := ha.found token' region hm
        exact ⟨value', List.mem_cons_of_mem _ hv⟩
    · rw [he, hv]
      simp [pair?]

/-- If every finding is accepted, the regions of the table are the findings in their order. -/
theorem regions_of_assign (ha : ∀ value s, accepts value s = .ok true) {pieces : List (Piece α)}
    {t u : Table} {parts : List (Piece Text)}
    (h : assign supply source accepts pieces t = .ok (parts, u)) (offset : Nat) :
    (parts.filterMap pair?).map (·.2) = (locate offset pieces).map (·.text) := by
  replace h := assigns_of_assign h
  induction h generalizing offset with
  | nil => rfl
  | plain _ ih => exact ih _
  | refused hb =>
    rw [ha] at hb
    cases hb
  | accepted _ _ _ ih => rw [filterMap_pair?_found, locate, List.map_cons, List.map_cons, ih]

theorem exists_assign_eq_ok (hs : supply.WellFormed) (hk : ¬ k.key <:+: source)
    (ha : ∀ value s, ∃ b, accepts value s = .ok b) (pieces : List (Piece α)) {t : Table}
    (ht : t.Valid k) : ∃ parts u, assign supply source accepts pieces t = .ok (parts, u) := by
  induction pieces generalizing t with
  | nil => exact ⟨[], t, rfl⟩
  | cons piece pieces ih =>
    cases piece with
    | plain c =>
      obtain ⟨parts, u, h⟩ := ih ht
      exact ⟨_, u, bind_eq_ok.mpr ⟨(parts, u), h, rfl⟩⟩
    | found value text =>
      obtain ⟨b, hb⟩ := ha value text
      cases b with
      | false =>
        obtain ⟨parts, u, h⟩ := ih ht
        exact ⟨_, u, bind_eq_ok.mpr ⟨false, hb, bind_eq_ok.mpr ⟨(parts, u), h, rfl⟩⟩⟩
      | true =>
        obtain ⟨token, w, hadd⟩ := ht.exists_add? hs hk text
        obtain ⟨parts, u, h⟩ := ih (ht.add? hs hadd).2.2.2
        refine ⟨.found token text :: parts, u, bind_eq_ok.mpr ⟨true, hb, ?_⟩⟩
        simp only [if_true, hadd]
        exact bind_eq_ok.mpr ⟨(parts, u), h, rfl⟩

end Supply

end TwigLayout.Placeholder
