import TwigLayout.Proofs.Placeholder.RoundTrip
import TwigLayout.Proofs.Spacing.Basic
import TwigLayout.Proofs.Text.Rescan

/-!
# Shielded texts with other spacing

What respacing a text in which comments are hidden means for the text with the comments back. The
text may have a gap `z` behind it, which stays.

1. `exists_respelled`: the tokens stay, in order, and the plain text between them is respaced.
2. `Respelled.not_key_infix`: so no key of a token comes about.
3. `Respelled.scans`: with the regions back, the comments of the text are the regions again.
-/

namespace TwigLayout.Spacing

open Text Placeholder

variable {a z : Text}

/-- A text of hard characters lies before a gap. -/
theorem Soft.exists_of_eq_append {s t w : Text} (hz : Soft z) (hne : w ≠ [])
    (hw : ∀ c ∈ w, isSoft c = false) (h : a ++ z = s ++ w ++ t) :
    ∃ t', a = s ++ w ++ t' ∧ t = t' ++ z := by
  rcases List.append_eq_append_iff.mp h with ⟨v, hv, hz'⟩ | ⟨v, rfl, rfl⟩
  · rcases List.eq_nil_or_concat v with rfl | ⟨u, c, rfl⟩
    · exact ⟨[], by simpa using hv.symm, by simpa using hz'.symm⟩
    · -- the last character of `w` would be in the gap
      obtain ⟨x, d, rfl⟩ := List.eq_nil_or_concat w |>.resolve_left hne
      obtain rfl : d = c := by
        have hlast := congrArg List.getLast? hv
        simpa using hlast
      have hsoft := hz d (by simp [hz'])
      rw [hw d (by simp)] at hsoft
      cases hsoft
  · exact ⟨v, rfl, rfl⟩

/-! ## Parts -/

/-- The plain text between the regions is respaced, and with it the gap behind the last region. -/
inductive Respelled (z : Text) : List (Piece Text) → List (Piece Text) → Prop
  | plain {a a' : Text} : Respaced (a ++ z) (a' ++ z) →
      Respelled z (a.map .plain) (a'.map .plain)
  | found {a a' token region : Text} {parts parts' : List (Piece Text)} : Respaced a a' →
      Respelled z parts parts' →
      Respelled z (a.map .plain ++ .found token region :: parts)
        (a'.map .plain ++ .found token region :: parts')

theorem flatMap_shown_map_plain (s : Text) : (s.map Piece.plain).flatMap shown = s := by
  induction s with
  | nil => rfl
  | cons c s ih => simp [shown, ih]

/-- The tokens of a shielded text part what it was respaced to. -/
theorem exists_respelled (hz : Soft z) {k : Kind} {n : Nat} {parts : List (Piece Text)}
    (hn : Numbered k n parts) {new : Text}
    (h : Respaced (a ++ parts.flatMap shown ++ z) (new ++ z)) :
    ∃ parts', new = parts'.flatMap shown ∧ Respelled z (a.map .plain ++ parts) parts' := by
  induction parts generalizing a n new with
  | nil =>
    refine ⟨new.map .plain, (flatMap_shown_map_plain new).symm, ?_⟩
    rw [List.append_nil]
    exact .plain (by simpa using h)
  | cons part parts ih =>
    cases part with
    | plain c =>
      obtain ⟨parts', rfl, h'⟩ := ih (a := a ++ [c]) (n := n) hn (by simpa [shown] using h)
      exact ⟨parts', rfl, by simpa using h'⟩
    | found token region =>
      obtain ⟨htoken, hn⟩ := hn
      have h' : Respaced (a ++ token ++ (parts.flatMap shown ++ z)) (new ++ z) := by
        simpa [shown] using h
      obtain ⟨a', b', he, ha, hb⟩ := h'.split htoken.ne_nil htoken.isTokenChar
      obtain ⟨new', rfl, rfl⟩ := hz.exists_of_eq_append htoken.ne_nil
        (fun c hc => (isSoft_of_isTokenChar (htoken.isTokenChar c hc)).1) he
      obtain ⟨parts', rfl, h''⟩ := ih (a := []) (n := n + 1) hn hb
      exact ⟨a'.map .plain ++ .found token region :: parts',
        by simp [flatMap_shown_map_plain, shown], .found ha h''⟩

namespace Respelled

variable {parts parts' : List (Piece Text)}

theorem filterMap_pair? (h : Respelled z parts parts') :
    parts'.filterMap pair? = parts.filterMap pair? := by
  induction h with
  | plain _ => simp only [filterMap_pair?_map_plain]
  | found _ _ ih =>
    simp only [List.filterMap_append, filterMap_pair?_map_plain, filterMap_pair?_found, ih]

theorem numbered {k : Kind} {n : Nat} (h : Respelled z parts parts') (hn : Numbered k n parts) :
    Numbered k n parts' := by
  induction h generalizing n with
  | @plain a a' _ =>
    rw [← List.append_nil (a'.map Piece.plain)]
    exact (numbered_map_plain_append a').mpr trivial
  | @found a a' _ _ _ _ _ _ ih =>
    obtain ⟨htoken, hn⟩ := (numbered_map_plain_append a).mp hn
    exact (numbered_map_plain_append a').mpr ⟨htoken, ih hn⟩

/-- No key of a token comes about. -/
theorem not_key_infix (hz : Soft z) (h : Respelled z parts parts')
    (hb : ∀ token region, .found token region ∈ parts → Bounded region) (k : Kind)
    (hk : ¬ k.key <:+: parts.flatMap Piece.text) : ¬ k.key <:+: parts'.flatMap Piece.text := by
  induction h with
  | plain h =>
    rw [flatMap_text_map_plain] at hk ⊢
    intro hi
    obtain ⟨u, v, he⟩ := h.runsIn _ k.isTokenChar_key (List.infix_append_of_infix_left hi)
    obtain ⟨v', rfl, _⟩ := hz.exists_of_eq_append k.key_solid.ne_nil
      (fun c hc => (isSoft_of_isTokenChar (k.isTokenChar_key c hc)).1) he.symm
    exact hk ⟨u, v', rfl⟩
  | @found a a' token region parts parts' h _ ih =>
    have hregion : Bounded region := hb token region (by simp)
    have hb' : ∀ token region, .found token region ∈ parts → Bounded region :=
      fun token region hm => hb token region (by simp [hm])
    have htext : ∀ (a : Text) (parts : List (Piece Text)),
        (a.map Piece.plain ++ Piece.found token region :: parts).flatMap Piece.text =
          a ++ region ++ parts.flatMap Piece.text := by
      intro a parts
      rw [List.flatMap_append, flatMap_text_map_plain, List.flatMap_cons, List.append_assoc]
      rfl
    rw [htext] at hk ⊢
    have hfenced : Fenced k.key region := by
      obtain ⟨c, m, d, he, hc, hd⟩ := hregion
      have hnot : ∀ {c}, isTokenChar c = false → c ∉ k.key := by
        intro c hc hm
        rw [k.isTokenChar_key c hm] at hc
        cases hc
      exact ⟨c, m, d, he, hnot hc, hnot hd⟩
    intro hi
    rcases hfenced.infix_append hi with hi | hi | hi
    · exact hk (List.infix_append_of_infix_left (List.infix_append_of_infix_left
        (h.runsIn _ k.isTokenChar_key hi)))
    · exact hk (List.infix_append_of_infix_left (List.infix_append_of_infix_right hi))
    · exact ih hb' (fun hi => hk (List.infix_append_of_infix_right hi)) hi

end Respelled

end TwigLayout.Spacing

/-! ## Comments -/

namespace TwigLayout.Comment

open Text Placeholder Spacing

/-- What a part is to a scan for comments. -/
def ofPart : Piece Text → Piece Unit
  | .plain c => .plain c
  | .found _ region => .found () region

theorem map_ofPart_map_plain (s : Text) : (s.map .plain).map ofPart = s.map .plain := by
  rw [List.map_map]
  rfl

theorem flatMap_text_map_ofPart (parts : List (Piece Text)) :
    (parts.map ofPart).flatMap Piece.text = parts.flatMap Piece.text := by
  induction parts with
  | nil => rfl
  | cons part parts ih =>
    cases part with
    | plain c => exact congrArg (c :: ·) ih
    | found token region => exact congrArg (region ++ ·) ih

theorem text_locate_map_ofPart (parts : List (Piece Text)) (offset : Nat) :
    (locate offset (parts.map ofPart)).map (·.text) = (parts.filterMap pair?).map (·.2) := by
  induction parts generalizing offset with
  | nil => rfl
  | cons part parts ih =>
    cases part with
    | plain c => exact ih (offset + 1)
    | found token region => exact congrArg (region :: ·) (ih (offset + region.length))

/-- If every comment is given a token, the parts are the pieces of the scan. -/
theorem map_ofPart_of_assign {supply : Supply} {source : Text}
    {accepts : Unit → Text → Except Fault Bool} (ha : ∀ value s, accepts value s = .ok true)
    {pieces : List (Piece Unit)} {t u : Table} {parts : List (Piece Text)}
    (h : assign supply source accepts pieces t = .ok (parts, u)) : parts.map ofPart = pieces := by
  replace h := assigns_of_assign h
  induction h with
  | nil => rfl
  | plain _ ih | accepted _ _ _ ih =>
    rw [List.map_cons, ih]
    rfl
  | refused hb =>
    rw [ha] at hb
    cases hb

/-! ### Reading -/

variable {last last' : Option Char} {s t rest : Text}

theorem read_eq (last : Option Char) (s : Text) : read .comment last s =
    (after? ['{', '#'] s).bind fun inner =>
      (cut? ['#', '}'] inner).map fun parts => ((), parts.2) := by
  show (after? ['{', '#'] s).bind _ = _
  congr 1
  funext inner
  show (cut? ['#', '}'] inner).bind _ = _
  cases cut? ['#', '}'] inner <;> rfl

theorem read_eq_none_iff : read .comment last s = none ↔
    ∀ inner, s = '{' :: '#' :: inner → ¬ ['#', '}'] <:+: inner := by
  rw [read_eq, Option.bind_eq_none_iff]
  constructor
  · rintro h inner rfl
    exact cut?_eq_none_iff.mp (Option.map_eq_none_iff.mp (h inner (after?_eq_some_iff.mpr rfl)))
  · intro h inner hi
    exact Option.map_eq_none_iff.mpr (cut?_eq_none_iff.mpr (h inner (after?_eq_some_iff.mp hi)))

/-- A comment is closed by the first closing marker in it, and is read whatever follows it. -/
theorem read_append (h : read .comment last (t ++ rest) = some ((), rest)) :
    (∃ body, t = '{' :: '#' :: (body ++ ['#', '}']) ∧ ¬ ['#', '}'] <:+: body ++ ['#']) ∧
      ∀ last' rest', read .comment last' (t ++ rest') = some ((), rest') := by
  rw [read_eq] at h
  obtain ⟨inner, hi, h⟩ := Option.bind_eq_some_iff.mp h
  obtain ⟨⟨body, tail⟩, hc, h⟩ := Option.map_eq_some_iff.mp h
  cases h
  have ht : t = '{' :: '#' :: (body ++ ['#', '}']) := by
    have he := after?_eq_some_iff.mp hi
    rw [cut?_eq_some hc, ← List.append_assoc] at he
    simpa using List.append_cancel_right he
  have hfirst := not_infix_append_dropLast_of_cut? (by decide) hc
  refine ⟨⟨body, ht, hfirst⟩, fun last' rest' => ?_⟩
  have hinner : after? ['{', '#'] (t ++ rest') = some (body ++ ['#', '}'] ++ rest') :=
    after?_eq_some_iff.mpr (by rw [ht]; rfl)
  rw [read_eq, hinner, Option.bind_some, cut?_append_append (by decide) hfirst]
  rfl

/-! ### Scanning -/

/-- The plain characters before the other pieces of a scan. -/
theorem scans_plain_append {pieces : List (Piece Unit)}
    (h : Scans (read .comment) last s (t.map .plain ++ pieces)) :
    ∃ last' rest, s = t ++ rest ∧ Scans (read .comment) last' rest pieces ∧
      ∀ u, u ≠ [] → u <:+ t → read .comment none (u ++ rest) = none := by
  induction t generalizing s last with
  | nil =>
    refine ⟨last, s, rfl, h, fun u hne hu => ?_⟩
    exact absurd (List.suffix_nil.mp hu) hne
  | cons c t ih =>
    cases h with
    | plain hr hs =>
      obtain ⟨last', rest, rfl, hs', hnone⟩ := ih hs
      refine ⟨last', rest, rfl, hs', fun u hne hu => ?_⟩
      rcases List.suffix_cons_iff.mp hu with rfl | hu
      · exact hr
      · exact hnone u hne hu

theorem scans_append {pieces : List (Piece Unit)}
    (hnone : ∀ u, u ≠ [] → u <:+ t → read .comment none (u ++ rest) = none)
    (h : ∀ last, Scans (read .comment) last rest pieces) (last : Option Char) :
    Scans (read .comment) last (t ++ rest) (t.map .plain ++ pieces) := by
  induction t generalizing last with
  | nil => exact h last
  | cons c t ih =>
    refine .plain (hnone (c :: t) (by simp) (List.suffix_refl _)) (ih (fun u hne hu => ?_) _)
    exact hnone u hne (hu.trans (List.suffix_cons c t))

/-- A text that is respaced up to a gap holds no comment then if it held none before: a comment of
the new text stands in the old one, and does not reach into the gap. -/
theorem read_eq_none_of_respaced {a a' u z : Text} (hz : Soft z) (h : Respaced (a ++ z) (a' ++ z))
    (hnone : ∀ u, u ≠ [] → u <:+ a → read .comment none u = none) (hu : u <:+ a') :
    read .comment none u = none := by
  rw [read_eq_none_iff]
  rintro inner rfl hi
  obtain ⟨v, rfl⟩ := hu
  obtain ⟨x, y, hxy, hy⟩ := Respaced.of_opening (a := v) (b := inner ++ z) (by simpa using h)
  obtain ⟨m, n, rfl⟩ := hy.of_closing (List.infix_append_of_infix_left hi)
  obtain ⟨n', ha, rfl⟩ := hz.exists_of_eq_append (a := a) (s := x ++ '{' :: '#' :: m)
    (w := ['#', '}']) (t := n) (by decide) (forall_of_any (by decide)) (by simpa using hxy)
  have hread := hnone ('{' :: '#' :: (m ++ ['#', '}'] ++ n')) (by simp) ⟨x, by simp [ha]⟩
  exact read_eq_none_iff.mp hread (m ++ ['#', '}'] ++ n') rfl ⟨m, n', rfl⟩

/-- In a text without an opening marker no comment starts before a region. -/
theorem read_eq_none_of_not_opening {a u : Text} (hopen : ¬ ['{', '#'] <:+: a) (hne : u ≠ [])
    (hu : u <:+ a) (rest : Text) : read .comment none (u ++ '{' :: rest) = none := by
  rw [read_eq_none_iff]
  intro inner he
  obtain ⟨c, u, rfl⟩ := List.exists_cons_of_ne_nil hne
  cases u with
  | nil => cases (List.cons.inj he).2
  | cons d u =>
    obtain ⟨rfl, rfl, _⟩ : c = '{' ∧ d = '#' ∧ _ := by simpa using he
    exact absurd ((List.prefix_append ['{', '#'] u).isInfix.trans hu.isInfix) hopen

/-- With the regions back, a scan finds the regions again: a marker that the respaced text has
stands in the old one as well. -/
theorem scans_of_respelled {z : Text} (hz : Soft z) {parts parts' : List (Piece Text)}
    (h : Respelled z parts parts') (hs : Scans (read .comment) last s (parts.map ofPart))
    (last' : Option Char) :
    Scans (read .comment) last' (parts'.flatMap Piece.text) (parts'.map ofPart) := by
  induction h generalizing last last' s with
  | @plain a a' h =>
    rw [map_ofPart_map_plain, ← List.append_nil (a.map Piece.plain)] at hs
    obtain ⟨_, rest, rfl, hs, hnone⟩ := scans_plain_append hs
    cases hs
    simp only [List.append_nil] at hnone
    have hnone' : ∀ u, u ≠ [] → u <:+ a' → read .comment none (u ++ []) = none := by
      intro u _ hu
      rw [List.append_nil]
      exact read_eq_none_of_respaced hz h hnone hu
    have hscans := scans_append hnone' (fun last => .nil last) last'
    rw [List.append_nil, List.append_nil] at hscans
    rwa [map_ofPart_map_plain, flatMap_text_map_plain]
  | @found a a' token region parts parts' h _ ih =>
    rw [List.map_append, map_ofPart_map_plain, List.map_cons] at hs
    obtain ⟨_, rest, rfl, hs, hnone⟩ := scans_plain_append hs
    cases hs with
    | @found _ _ _ rest _ hne hr hs =>
      obtain ⟨⟨body, hregion, _⟩, hr'⟩ := read_append hr
      have hscans : ∀ last, Scans (read .comment) last (region ++ parts'.flatMap Piece.text)
          (.found () region :: parts'.map ofPart) := fun last => .found hne (hr' _ _) (ih hs _)
      -- a comment that opens before the region would end in it at the latest
      have hopen : ¬ ['{', '#'] <:+: a := by
        rintro ⟨u, v, rfl⟩
        have hread := hnone ('{' :: '#' :: v) (by simp) ⟨u, by simp⟩
        refine read_eq_none_iff.mp hread (v ++ (region ++ rest)) rfl ?_
        exact ⟨v ++ '{' :: '#' :: body, rest, by simp [hregion]⟩
      rw [List.map_append, map_ofPart_map_plain, List.flatMap_append, flatMap_text_map_plain]
      refine scans_append (fun u hne hu => ?_) hscans last'
      rw [hregion]
      exact read_eq_none_of_not_opening (h.not_opening hopen) hne hu _

end TwigLayout.Comment
