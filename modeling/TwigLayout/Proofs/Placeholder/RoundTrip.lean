import TwigLayout.Proofs.Placeholder.Region

/-!
# Shielding and restoring again

Restoring goes through the tokens in the order of their places. At its turn a token is replaced
wherever it occurs, so the text comes back only if the token occurs nowhere but at its own place.

1. `restoreEntries_of_isClear`: if that holds of every token (`isClear`), the text comes back.
2. `isClear_of_not_key_infix`: it holds if the text has no key of the kind.
3. `nested_restore_shield`: so a text without `TWIG_CS_` comes back, also when elements are hidden
   in a text in which comments are hidden already.
-/

namespace TwigLayout.Placeholder

open Text

/-- Whether every token, at its turn, starts nowhere but at its own place: not before it, and not
behind it. The parts follow a text in which all regions are back. -/
def isClear : (before : Text) → List (Piece Text) → Bool
  | _, [] => true
  | before, .plain c :: parts => isClear (before ++ [c]) parts
  | before, .found token region :: parts =>
    !occursIn token (before ++ token.dropLast) && !occursIn token (parts.flatMap shown) &&
      isClear (before ++ region) parts

theorem isClear_found_iff {before token region : Text} {parts : List (Piece Text)} :
    isClear before (.found token region :: parts) = true ↔
      ¬ token <:+: before ++ token.dropLast ∧ ¬ token <:+: parts.flatMap shown ∧
        isClear (before ++ region) parts = true := by
  simp only [isClear, Bool.and_eq_true, Bool.not_eq_true', occursIn_eq_false_iff, and_assoc]

theorem restoreEntries_of_isClear {parts : List (Piece Text)} (before : Text)
    (hne : ∀ token region, .found token region ∈ parts → token ≠ [])
    (h : isClear before parts = true) :
    restoreEntries (parts.filterMap pair?) (before ++ parts.flatMap shown) =
      (before ++ parts.flatMap Piece.text, []) := by
  induction parts generalizing before with
  | nil => rfl
  | cons part parts ih =>
    have hne' : ∀ token region, .found token region ∈ parts → token ≠ [] :=
      fun token region hm => hne token region (List.mem_cons_of_mem _ hm)
    cases part with
    | plain c =>
      have ih := ih (before ++ [c]) hne' h
      simpa [shown, Piece.text] using ih
    | found token region =>
      obtain ⟨hb, ha, hrest⟩ := isClear_found_iff.mp h
      have htoken : token ≠ [] := hne token region List.mem_cons_self
      have hocc : occursIn token (before ++ (token ++ parts.flatMap shown)) = true :=
        occursIn_iff.mpr (List.infix_append' ..)
      have hrep : replaceAll token region (before ++ (token ++ parts.flatMap shown)) =
          before ++ region ++ parts.flatMap shown := by
        rw [← List.append_assoc, replaceAll_append_self_append region htoken hb,
          replaceAll_eq_self ha]
      rw [filterMap_pair?_found, List.flatMap_cons, List.flatMap_cons]
      simp only [shown, Piece.text, restoreEntries, hocc, if_true, hrep]
      rw [ih (before ++ region) hne' hrest, List.append_assoc]

theorem restore_eq_pure {k : Kind} {t : Table} {s out : Text}
    (h : restoreEntries t.entries s = (out, [])) (strict : Bool) :
    restore k strict t s = pure out := by
  rw [restore, h]

/-! ## Texts without a key -/

/-- A solid text that a shielded text shows stands in the text itself or in a token. -/
theorem Solid.infix_shown {w : Text} (hw : Solid w) {k : Kind} {n : Nat}
    {parts : List (Piece Text)} (hn : Numbered k n parts) {a : Text}
    (h : w <:+: a ++ parts.flatMap shown) :
    w <:+: a ++ parts.flatMap Piece.text ∨
      ∃ token region, .found token region ∈ parts ∧ w <:+: token := by
  induction parts generalizing a n with
  | nil => exact .inl h
  | cons part parts ih =>
    cases part with
    | plain c =>
      have h' : w <:+: (a ++ [c]) ++ parts.flatMap shown := by simpa [shown] using h
      rcases ih (n := n) hn h' with h' | ⟨token, region, hm, hi⟩
      · exact .inl (by simpa [Piece.text] using h')
      · exact .inr ⟨token, region, List.mem_cons_of_mem _ hm, hi⟩
    | found token region =>
      -- two underscores never lie inside of a solid text, so those around the core part the text
      obtain ⟨x, hx, rfl⟩ := hn.1.exists_core
      have h' : w <:+: a ++ '_' :: '_' :: (x ++ '_' :: '_' :: parts.flatMap shown) := by
        simpa [shown] using h
      rcases hw.infix_append h' with h' | h'
      · exact .inl (List.infix_append_of_infix_left h')
      rcases hw.infix_append h' with h' | h'
      · exact .inr ⟨_, region, List.mem_cons_self, h'.trans ⟨['_', '_'], ['_', '_'], by simp⟩⟩
      rcases ih (n := n + 1) (a := []) hn.2 h' with h' | ⟨token, region, hm, hi⟩
      · refine .inl (List.infix_append_of_infix_right ?_)
        exact List.infix_append_of_infix_right h'
      · exact .inr ⟨token, region, List.mem_cons_of_mem _ hm, hi⟩

/-- In a text without a key of the kind every token is clear. -/
theorem isClear_of_not_key_infix {k : Kind} {n : Nat} {parts : List (Piece Text)}
    (hn : Numbered k n parts) {before : Text}
    (hk : ¬ k.key <:+: before ++ parts.flatMap Piece.text) : isClear before parts = true := by
  induction parts generalizing before n with
  | nil => rfl
  | cons part parts ih =>
    cases part with
    | plain c =>
      refine ih (n := n) hn ?_
      simpa [Piece.text] using hk
    | found token region =>
      have hbefore : ¬ k.key <:+: before := fun h => hk (List.infix_append_of_infix_left h)
      have hafter : ¬ k.key <:+: parts.flatMap Piece.text := fun h =>
        hk (List.infix_append_of_infix_right (List.infix_append_of_infix_right h))
      refine isClear_found_iff.mpr ⟨hn.1.not_infix_append_dropLast hbefore, fun hi => ?_, ?_⟩
      · -- the core would stand in the text, or in a token with another index
        obtain ⟨w, hw, rfl⟩ := hn.1.exists_core
        have hwi : w <:+: [] ++ parts.flatMap shown :=
          List.IsInfix.trans ⟨['_', '_'], ['_', '_'], by simp⟩ hi
        rcases hw.solid.infix_shown hn.2 hwi with h | ⟨token', region', hm, h⟩
        · exact hafter (hw.key_prefix.isInfix.trans h)
        · obtain ⟨i, hi, htoken⟩ := Numbered.exists_isToken hn.2 hm
          obtain ⟨x, hx, hwx⟩ := htoken.core_infix hw.solid h
          have := (hw.eq_of_infix hx hwx).1
          omega
      · refine ih (n := n + 1) hn.2 ?_
        simpa [Piece.text] using hk

/-- The other kind's key does not come about by hiding regions. -/
theorem Assigned.not_key_infix_shown {α : Type} {k l : Kind} {source : Text} {n : Nat}
    {pieces : List (Piece α)} {parts : List (Piece Text)} (h : Assigned k source n pieces parts)
    (hkl : l ≠ k) (hl : ¬ l.key <:+: pieces.flatMap Piece.text) :
    ¬ l.key <:+: parts.flatMap shown := by
  intro hi
  rcases l.key_solid.infix_shown h.numbered (a := []) hi with hi | ⟨token, region, hm, hi⟩
  · exact hl (h.text ▸ hi)
  · obtain ⟨i, _, htoken⟩ := h.numbered.exists_isToken hm
    obtain ⟨x, hx, hix⟩ := htoken.core_infix l.key_solid hi
    exact hx.not_key_infix hkl hix

/-- Restoring a text without a key of the kind. -/
theorem Assigned.restoreEntries_shown {α : Type} {k : Kind} {source : Text} {n : Nat}
    {pieces : List (Piece α)} {parts : List (Piece Text)} (h : Assigned k source n pieces parts)
    (hk : ¬ k.key <:+: pieces.flatMap Piece.text) :
    restoreEntries (parts.filterMap pair?) (parts.flatMap shown) =
      (pieces.flatMap Piece.text, []) := by
  have hclear : isClear [] parts = true :=
    isClear_of_not_key_infix h.numbered (by rw [List.nil_append, h.text]; exact hk)
  rw [← h.text]
  refine restoreEntries_of_isClear [] (fun token region hm => ?_) hclear
  obtain ⟨i, _, htoken⟩ := h.numbered.exists_isToken hm
  exact htoken.ne_nil

/-- Comments are hidden in a text, then elements in what is left, and both come back in the reverse
order. If the text has no `TWIG_CS_`, this gives the text again, with nothing lost on the way, for
all markers, component namespaces, widths and draws. -/
theorem nested_restore_shield {commentDraws elementDraws : Supply}
    (hc : commentDraws.WellFormed) (he : elementDraws.WellFormed) (marks : Marks) (space : Text)
    (maxWidth : Int) (strict : Bool) {s : Text} (hs : occursIn "TWIG_CS_".toList s = false) :
    ∃ code comments hidden elements,
      shieldComments commentDraws marks s = .ok (code, comments) ∧
      shieldElements elementDraws (.of space maxWidth) code = .ok (hidden, elements) ∧
      restore .inline strict elements hidden = pure code ∧
      restore .comment strict comments code = pure s := by
  have hkey : ∀ k : Kind, ¬ k.key <:+: s := Kind.not_key_infix hs
  obtain ⟨parts, comments, hparts⟩ := exists_assign_eq_ok hc (hkey .comment)
    (fun _ _ => ⟨true, rfl⟩) (Comment.pieces marks s) (Table.valid_empty .comment)
  obtain ⟨ha, hce⟩ := assignComments_eq_ok hc hparts
  have hct := Comment.flatMap_text_pieces marks s
  have hinline : ¬ Kind.inline.key <:+: parts.flatMap shown :=
    ha.not_key_infix_shown (by decide) (by rw [hct]; exact hkey .inline)
  obtain ⟨parts', elements, hparts'⟩ := exists_assign_eq_ok he hinline
    (fun e t => ⟨_, Element.Rule.accepts_of space maxWidth e t⟩)
    (Element.pieces (parts.flatMap shown)) (Table.valid_empty .inline)
  obtain ⟨ha', hee⟩ := assignElements_eq_ok he hparts'
  have het := flatMap_text_scan Element.read (parts.flatMap shown)
  refine ⟨parts.flatMap shown, comments, parts'.flatMap shown, elements,
    bind_eq_ok.mpr ⟨(parts, comments), hparts, rfl⟩,
    bind_eq_ok.mpr ⟨(parts', elements), hparts', rfl⟩, restore_eq_pure ?_ strict,
    restore_eq_pure ?_ strict⟩
  · have := ha'.restoreEntries_shown (by rw [Element.pieces, het]; exact hinline)
    rw [hee, this, Element.pieces, het]
  · have := ha.restoreEntries_shown (by rw [hct]; exact hkey .comment)
    rw [hce, this, hct]

theorem nested_restore_shield_comment_in_element :
    ∃ code comments hidden elements,
      shieldComments .counting .comment "<a>_{# b #}</a>_{# b #}".toList = .ok (code, comments) ∧
      shieldElements .counting (.of "twig:".toList 120) code = .ok (hidden, elements) ∧
      restore .inline true elements hidden = pure code ∧
      restore .comment true comments code = pure "<a>_{# b #}</a>_{# b #}".toList :=
  nested_restore_shield Supply.counting_wellFormed Supply.counting_wellFormed .comment
    "twig:".toList 120 true (by decide +kernel)

end TwigLayout.Placeholder
