import Mathlib.Logic.Relation
import TwigLayout.Proofs.Placeholder.Token
import TwigLayout.Proofs.Text.Blank

/-!
# Texts with other spacing

A character is *hard* if tokens are made of it or it can be part of a comment's marker, and *soft*
otherwise. A text is respaced if its hard characters stay as they are, and in order: a gap of soft
characters may become another gap, a gap may come about behind a brace that opens or before one that
closes, and none goes away. So no marker of a comment comes about, and no token is taken apart.

1. `Respaced.split`: the parts of a text between its tokens are respaced one by one.
2. `Respaced.of_opening`, `Respaced.of_closing`: a marker in the new text stands in the old one.
3. `Respaced.runsIn`: so does every run of token characters.
-/

namespace TwigLayout.Spacing

open Text Placeholder

/-! ## One step -/

/-- Characters that neither tokens nor the markers of comments have. -/
def isSoft (c : Char) : Bool := !(isTokenChar c || c == '{' || c == '}' || c == '#')

/-- A gap: a text of soft characters only. -/
def Soft (s : Text) : Prop := ∀ c ∈ s, isSoft c = true

theorem Soft.nil : Soft [] := fun _ h => absurd h List.not_mem_nil

theorem Soft.append {a b : Text} (ha : Soft a) (hb : Soft b) : Soft (a ++ b) :=
  List.forall_mem_append.mpr ⟨ha, hb⟩

theorem Soft.cons {c : Char} (hc : isSoft c = true) {s : Text} (hs : Soft s) : Soft (c :: s) :=
  List.forall_mem_cons.mpr ⟨hc, hs⟩

/-- For a text that is written out, `s.all isSoft` evaluates. -/
theorem Soft.of_all {s : Text} (h : s.all isSoft = true) : Soft s := List.all_eq_true.mp h

theorem isSoft_of_isBlank {c : Char} (h : isBlank c = true) : isSoft c = true := by
  have htoken : isTokenChar c = false := by
    refine Bool.eq_false_iff.mpr fun ht => ?_
    have hword := isWord_of_isTokenChar ht
    rw [not_isWord_of_isBlank h] at hword
    cases hword
  have hne : ∀ d, isBlank d = false → (c == d) = false := by
    intro d hd
    rw [beq_eq_false_iff_ne]
    rintro rfl
    rw [hd] at h
    cases h
  rw [isSoft, htoken, hne '{' (by decide), hne '}' (by decide), hne '#' (by decide)]
  rfl

theorem soft_of_blank {s : Text} (h : Blank s) : Soft s := fun c hc => isSoft_of_isBlank (h c hc)

/-- One text is the other with other spacing. -/
inductive Respace : Text → Text → Prop
  | nil : Respace [] []
  | hard {c : Char} {s t : Text} : isSoft c = false → Respace s t → Respace (c :: s) (c :: t)
  | gap {g g' s t : Text} : Soft g → Soft g' → g ≠ [] → g' ≠ [] → Respace s t →
      Respace (g ++ s) (g' ++ t)
  | opening {g s t : Text} : Soft g → Respace s t → Respace ('{' :: s) ('{' :: (g ++ t))
  | closing {g s t : Text} : Soft g → Respace s t → Respace ('}' :: s) (g ++ '}' :: t)

variable {a b g g' s t : Text} {c : Char}

theorem Respace.append_left (a : Text) (h : Respace s t) : Respace (a ++ s) (a ++ t) := by
  induction a with
  | nil => exact h
  | cons c a ih =>
    cases hc : isSoft c with
    | true =>
      have hsoft : Soft [c] := .cons hc .nil
      show Respace ([c] ++ (a ++ s)) ([c] ++ (a ++ t))
      exact .gap hsoft hsoft (by simp) (by simp) ih
    | false => exact .hard hc ih

theorem Respace.refl (s : Text) : Respace s s := by
  have h := Respace.nil.append_left s
  rwa [List.append_nil] at h

theorem Respace.append {a' b' : Text} (ha : Respace a a') (hb : Respace b b') :
    Respace (a ++ b) (a' ++ b') := by
  induction ha with
  | nil => exact hb
  | hard hc _ ih => exact .hard hc ih
  | gap hg hg' hne hne' _ ih =>
    rw [List.append_assoc, List.append_assoc]
    exact .gap hg hg' hne hne' ih
  | opening hg _ ih =>
    rw [List.cons_append, List.cons_append, List.append_assoc]
    exact .opening hg ih
  | closing hg _ ih =>
    rw [List.cons_append, List.append_assoc, List.cons_append]
    exact .closing hg ih

/-! ### Taking texts apart -/

/-- A gap ends before a hard character. -/
theorem Soft.exists_of_append_eq (hg : Soft g) (hc : isSoft c = false)
    (h : g ++ s = a ++ c :: b) : ∃ a', a = g ++ a' ∧ s = a' ++ c :: b := by
  rcases List.append_eq_append_iff.mp h with ⟨w, rfl, hw⟩ | ⟨w, rfl, hw⟩
  · exact ⟨w, rfl, hw⟩
  · cases w with
    | nil => exact ⟨[], by simp, by simpa using hw.symm⟩
    | cons d w =>
      cases hw
      rw [hg c (by simp)] at hc
      cases hc

/-- The first character of a gap is not hard. -/
theorem Soft.not_cons_eq (hg : Soft g) (hne : g ≠ []) (hc : isSoft c = false) :
    g ++ s ≠ c :: t := by
  intro h
  obtain ⟨d, g, rfl⟩ := List.exists_cons_of_ne_nil hne
  cases h
  rw [hg c List.mem_cons_self] at hc
  cases hc

/-- A text parted at a hard character other than a brace. -/
theorem Respace.split (hc : isSoft c = false) (ho : c ≠ '{') (hcl : c ≠ '}')
    (h : Respace (a ++ c :: b) t) :
    ∃ a' b', t = a' ++ c :: b' ∧ Respace a a' ∧ Respace b b' := by
  generalize hs : a ++ c :: b = s at h
  induction h generalizing a with
  | nil => simp at hs
  | @hard d s t hd h ih =>
    cases a with
    | nil =>
      cases hs
      exact ⟨[], t, rfl, .nil, h⟩
    | cons e a =>
      cases hs
      obtain ⟨a', b', rfl, ha, hb⟩ := ih rfl
      exact ⟨d :: a', b', rfl, .hard hd ha, hb⟩
  | @gap g g' s t hg hg' hne hne' _ ih =>
    obtain ⟨a, rfl, rfl⟩ := hg.exists_of_append_eq hc hs.symm
    obtain ⟨a', b', rfl, ha, hb⟩ := ih rfl
    exact ⟨g' ++ a', b', by simp, .gap hg hg' hne hne' ha, hb⟩
  | @opening g s t hg _ ih =>
    cases a with
    | nil =>
      cases hs
      exact absurd rfl ho
    | cons e a =>
      cases hs
      obtain ⟨a', b', rfl, ha, hb⟩ := ih rfl
      exact ⟨'{' :: (g ++ a'), b', by simp, .opening hg ha, hb⟩
  | @closing g s t hg _ ih =>
    cases a with
    | nil =>
      cases hs
      exact absurd rfl hcl
    | cons e a =>
      cases hs
      obtain ⟨a', b', rfl, ha, hb⟩ := ih rfl
      exact ⟨g ++ '}' :: a', b', by simp, .closing hg ha, hb⟩

theorem Respace.eq_nil (h : Respace [] t) : t = [] := by
  generalize hs : [] = s at h
  cases h with
  | nil => rfl
  | gap _ _ hne _ _ => exact absurd (List.append_eq_nil_iff.mp hs.symm).1 hne
  | hard _ _ | opening _ _ | closing _ _ => cases hs

theorem Respace.eq_nil_of_nil (h : Respace s []) : s = [] := by
  generalize ht : [] = t at h
  cases h with
  | nil => rfl
  | gap _ _ _ hne' _ => exact absurd (List.append_eq_nil_iff.mp ht.symm).1 hne'
  | hard _ _ | opening _ _ => cases ht
  | closing _ _ => exact nomatch (List.append_eq_nil_iff.mp ht.symm).2

theorem isSoft_of_isTokenChar (h : isTokenChar c = true) :
    isSoft c = false ∧ c ≠ '{' ∧ c ≠ '}' := by
  refine ⟨by rw [isSoft, h]; rfl, ?_, ?_⟩ <;>
  · rintro rfl
    exact absurd h (by decide)

/-- A text parted at a text of token characters. -/
theorem Respace.split_token {token : Text} (hne : token ≠ [])
    (ht : ∀ c ∈ token, isTokenChar c = true) (h : Respace (a ++ token ++ b) t) :
    ∃ a' b', t = a' ++ token ++ b' ∧ Respace a a' ∧ Respace b b' := by
  -- by the length of the token; a character behind another one of it has nothing in front
  induction token generalizing a t with
  | nil => exact absurd rfl hne
  | cons c token ih =>
    obtain ⟨hc, ho, hcl⟩ := isSoft_of_isTokenChar (ht c List.mem_cons_self)
    rw [List.append_assoc, List.cons_append] at h
    obtain ⟨a', b', rfl, ha, hb⟩ := h.split hc ho hcl
    by_cases hnil : token = []
    · subst hnil
      exact ⟨a', b', by simp, ha, hb⟩
    · obtain ⟨e, b'', rfl, he, hb''⟩ :=
        ih (a := []) hnil (fun d hd => ht d (List.mem_cons_of_mem _ hd)) hb
      obtain rfl := he.eq_nil
      exact ⟨a', b'', by simp, ha, hb''⟩

/-- The text at a hard character of the new text, other than a brace that closes. -/
theorem Respace.exists_of_append (hc : isSoft c = false) (hcl : c ≠ '}')
    (h : Respace s (a ++ c :: b)) : ∃ a' b', s = a' ++ c :: b' ∧ Respace (c :: b') (c :: b) := by
  generalize ht : a ++ c :: b = t at h
  induction h generalizing a with
  | nil => simp at ht
  | @hard d s t hd h ih =>
    cases a with
    | nil =>
      cases ht
      exact ⟨[], s, rfl, .hard hd h⟩
    | cons e a =>
      cases ht
      obtain ⟨a', b', rfl, hb⟩ := ih rfl
      exact ⟨d :: a', b', rfl, hb⟩
  | @gap g g' s t _ hg' _ _ _ ih =>
    obtain ⟨a, rfl, rfl⟩ := hg'.exists_of_append_eq hc ht.symm
    obtain ⟨a', b', rfl, hb⟩ := ih rfl
    exact ⟨g ++ a', b', by simp, hb⟩
  | @opening g s t hg h ih =>
    cases a with
    | nil =>
      cases ht
      exact ⟨[], s, rfl, .opening hg h⟩
    | cons e a =>
      obtain ⟨a, rfl, rfl⟩ := hg.exists_of_append_eq hc (List.cons.inj ht).2.symm
      obtain ⟨a', b', rfl, hb⟩ := ih rfl
      exact ⟨'{' :: a', b', rfl, hb⟩
  | @closing g s t hg _ ih =>
    obtain ⟨a, rfl, he⟩ := hg.exists_of_append_eq hc ht.symm
    cases a with
    | nil =>
      cases he
      exact absurd rfl hcl
    | cons e a =>
      cases he
      obtain ⟨a', b', rfl, hb⟩ := ih rfl
      exact ⟨'}' :: a', b', rfl, hb⟩

/-- A new text that starts with a hard character. -/
theorem Respace.exists_of_cons (hc : isSoft c = false) (h : Respace s (c :: t)) :
    ∃ s', s = c :: s' ∧ (c ≠ '{' → Respace s' t) := by
  generalize ht : c :: t = u at h
  cases h with
  | nil => cases ht
  | hard _ h =>
    cases ht
    exact ⟨_, rfl, fun _ => h⟩
  | gap _ hg' _ hne' _ => exact absurd ht.symm (hg'.not_cons_eq hne' hc)
  | opening _ _ =>
    cases ht
    exact ⟨_, rfl, fun hne => absurd rfl hne⟩
  | @closing g s t' hg h =>
    by_cases hne : g = []
    · subst hne
      cases ht
      exact ⟨s, rfl, fun _ => h⟩
    · exact absurd ht.symm (hg.not_cons_eq hne hc)

/-- The opening marker of a comment in the new text. -/
theorem Respace.of_opening (h : Respace s (a ++ '{' :: '#' :: b)) :
    ∃ a' b', s = a' ++ '{' :: '#' :: b' ∧ Respace b' b := by
  obtain ⟨a', b', rfl, hb⟩ := h.exists_of_append (by decide) (by decide)
  have hrest : Respace b' ('#' :: b) := by
    generalize ht : '{' :: '#' :: b = u at hb
    generalize hs : '{' :: b' = v at hb
    cases hb with
    | nil => cases hs
    | hard _ h =>
      cases hs
      cases ht
      exact h
    | gap hg _ hne _ _ => exact absurd hs.symm (hg.not_cons_eq hne (by decide))
    | @opening g s t hg h =>
      cases hs
      by_cases hne : g = []
      · subst hne
        cases ht
        exact h
      · exact absurd (List.cons.inj ht).2.symm (hg.not_cons_eq hne (by decide))
    | closing _ _ => cases hs
  obtain ⟨b'', rfl, hb''⟩ := hrest.exists_of_cons (by decide)
  exact ⟨a', b'', rfl, hb'' (by decide)⟩

/-- The closing marker of a comment in the new text. -/
theorem Respace.of_closing (h : Respace s t) (ht : ['#', '}'] <:+: t) : ['#', '}'] <:+: s := by
  obtain ⟨a, b, rfl⟩ := ht
  have h' : Respace s (a ++ '#' :: '}' :: b) := by simpa using h
  obtain ⟨a', b', rfl, hb⟩ := h'.exists_of_append (by decide) (by decide)
  obtain ⟨s', hs', hrest⟩ := hb.exists_of_cons (by decide)
  cases hs'
  obtain ⟨b'', rfl, _⟩ := (hrest (by decide)).exists_of_cons (by decide)
  exact ⟨a', b'', by simp⟩

theorem Soft.not_isTokenChar (hg : Soft g) : ∀ c ∈ g, isTokenChar c = false := by
  intro c hc
  have h := hg c hc
  rw [isSoft, Bool.not_eq_true', Bool.or_eq_false_iff, Bool.or_eq_false_iff,
    Bool.or_eq_false_iff] at h
  exact h.1.1.1

theorem drawn_of_runsIn {p : Char → Bool} (hg : g ≠ []) (hp : ∀ c ∈ g, p c = false)
    (h : RunsIn p t s) : Drawn p (g ++ t) s where
  start w hw hpre := by
    obtain ⟨c, g, rfl⟩ := List.exists_cons_of_ne_nil hg
    rcases List.prefix_cons_iff.mp hpre with rfl | ⟨v, rfl, _⟩
    · exact List.nil_prefix
    · exact absurd (hw c List.mem_cons_self) (by simp [hp c List.mem_cons_self])
  runsIn := .append_of_forall hp h

theorem Respace.drawn (h : Respace s t) : Drawn isTokenChar t s := by
  induction h with
  | nil => exact .refl []
  | @hard c s t _ _ ih => exact ih.append_left [c]
  | gap _ hg' _ hne' _ ih =>
    exact drawn_of_runsIn hne' hg'.not_isTokenChar (ih.runsIn.mono List.infix_append_right)
  | @opening g s t hg _ ih =>
    exact drawn_of_runsIn (g := '{' :: g) (by simp)
      (List.forall_mem_cons.mpr ⟨by decide, hg.not_isTokenChar⟩)
      (ih.runsIn.mono (List.infix_cons (List.infix_refl s)))
  | @closing g s t hg _ ih =>
    have h : Drawn isTokenChar ((g ++ ['}']) ++ t) ('}' :: s) :=
      drawn_of_runsIn (by simp) (List.forall_mem_append.mpr
        ⟨hg.not_isTokenChar, List.forall_mem_singleton.mpr (by decide)⟩)
        (ih.runsIn.mono (List.infix_cons (List.infix_refl s)))
    rwa [List.append_assoc] at h

/-! ## Any number of steps -/

/-- One text is the other with the spacing changed any number of times. -/
def Respaced : Text → Text → Prop := Relation.ReflTransGen Respace

theorem Respaced.refl (s : Text) : Respaced s s := Relation.ReflTransGen.refl

theorem Respace.respaced (h : Respace s t) : Respaced s t := Relation.ReflTransGen.single h

theorem Respaced.trans {u : Text} (h : Respaced s t) (h' : Respaced t u) : Respaced s u :=
  Relation.ReflTransGen.trans h h'

theorem Respaced.append {a' b' : Text} (ha : Respaced a a') (hb : Respaced b b') :
    Respaced (a ++ b) (a' ++ b') := by
  have hleft : Respaced (a ++ b) (a' ++ b) :=
    Relation.ReflTransGen.lift (· ++ b) (fun _ _ h => Respace.append h (.refl b)) _ _ ha
  have hright : Respaced (a' ++ b) (a' ++ b') :=
    Relation.ReflTransGen.lift (a' ++ ·) (fun _ _ h => Respace.append_left a' h) _ _ hb
  exact hleft.trans hright

theorem Respaced.append_left (a : Text) (h : Respaced s t) : Respaced (a ++ s) (a ++ t) :=
  (Respaced.refl a).append h

theorem Respaced.gap {k : Text} (hg : Soft g) (hk : Soft k) (hgne : g ≠ []) (hkne : k ≠ [])
    (h : Respaced s t) : Respaced (g ++ s) (k ++ t) := by
  have hgap : Respace (g ++ []) (k ++ []) := .gap hg hk hgne hkne .nil
  rw [List.append_nil, List.append_nil] at hgap
  exact hgap.respaced.append h

theorem Respaced.ne_nil (h : Respaced s t) (hs : s ≠ []) : t ≠ [] := by
  induction h with
  | refl => exact hs
  | tail _ hstep ih =>
    rintro rfl
    exact ih hstep.eq_nil_of_nil

/-- A text parted at a text of token characters. -/
theorem Respaced.split {token : Text} (hne : token ≠ []) (ht : ∀ c ∈ token, isTokenChar c = true)
    (h : Respaced (a ++ token ++ b) t) :
    ∃ a' b', t = a' ++ token ++ b' ∧ Respaced a a' ∧ Respaced b b' := by
  induction h with
  | refl => exact ⟨a, b, rfl, .refl a, .refl b⟩
  | tail _ hstep ih =>
    obtain ⟨a₁, b₁, rfl, ha, hb⟩ := ih
    obtain ⟨a', b', rfl, ha', hb'⟩ := hstep.split_token hne ht
    exact ⟨a', b', rfl, ha.trans ha'.respaced, hb.trans hb'.respaced⟩

theorem Respaced.of_opening (h : Respaced s (a ++ '{' :: '#' :: b)) :
    ∃ a' b', s = a' ++ '{' :: '#' :: b' ∧ Respaced b' b := by
  generalize ht : a ++ '{' :: '#' :: b = t at h
  induction h generalizing a b with
  | refl => exact ⟨a, b, ht.symm, .refl b⟩
  | tail _ hstep ih =>
    subst ht
    obtain ⟨a₁, b₁, rfl, hb₁⟩ := hstep.of_opening
    obtain ⟨a', b', rfl, hb⟩ := ih rfl
    exact ⟨a', b', rfl, hb.trans hb₁.respaced⟩

theorem Respaced.of_closing (h : Respaced s t) (ht : ['#', '}'] <:+: t) : ['#', '}'] <:+: s := by
  induction h with
  | refl => exact ht
  | tail _ hstep ih => exact ih (hstep.of_closing ht)

theorem Respaced.not_opening (h : Respaced s t) (hs : ¬ ['{', '#'] <:+: s) :
    ¬ ['{', '#'] <:+: t := by
  rintro ⟨u, v, rfl⟩
  obtain ⟨x, y, rfl, _⟩ := Respaced.of_opening (a := u) (b := v) (by simpa using h)
  exact hs ⟨x, y, by simp⟩

theorem Respaced.runsIn (h : Respaced s t) : RunsIn isTokenChar t s := by
  induction h with
  | refl => exact .of_isInfix (List.infix_refl s)
  | tail _ hstep ih => exact hstep.drawn.runsIn.trans ih

/-- Findings of a scan that are respaced one by one. -/
theorem respaced_replacePieces {α : Type} {read : Reader α} (hread : read.Consumes)
    {f : Located α → Option Text}
    (h : ∀ i last value old rest new, read last (old ++ rest) = some (value, rest) →
      f ⟨i, value, old⟩ = some new → Respaced old new) (s : Text) :
    Respaced s (replacePieces f 0 (scan read s)) := by
  have hpieces : ∀ pieces : List (Piece α), (∀ p ∈ pieces, p ∈ scan read s) → ∀ i,
      Respaced (pieces.flatMap Piece.text) (replacePieces f i pieces) := by
    intro pieces hm
    induction pieces with
    | nil => exact fun _ => .refl []
    | cons piece pieces ih =>
      intro i
      have ih := ih fun p hp => hm p (List.mem_cons_of_mem _ hp)
      cases piece with
      | plain c => exact (ih (i + 1)).append_left [c]
      | found value old =>
        refine Respaced.append ?_ (ih _)
        obtain ⟨last, rest, hr⟩ := read_of_mem_scanFrom hread (hm _ List.mem_cons_self)
        cases hf : f ⟨i, value, old⟩ with
        | none => exact .refl old
        | some new => exact h i last value old rest new hr hf
  have hall := hpieces (scan read s) (fun _ hp => hp) 0
  rwa [flatMap_text_scan] at hall

end TwigLayout.Spacing
