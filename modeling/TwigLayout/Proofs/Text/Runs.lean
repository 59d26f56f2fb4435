import TwigLayout.Text.Line
import TwigLayout.Text.Scan
import TwigLayout.Proofs.Text.Replace

/-!
# Runs of characters of a class

A run is a text of characters of one class, such as those a name is made of. `RunsIn p s t` says
that every run that stands in `s` stands in `t` as well: whatever made `s` of `t` has brought about
no new run. Characters outside of the class part runs, so it is enough to look at the texts between
them.

1. `RunsIn.append_cons`, `RunsIn.append_of_forall` and `RunsIn.intercalate`: texts put together.
2. `infix_of_mem_splitOn`, `infix_of_mem_words` and `trim_isInfix`: texts taken apart.
3. `RunsIn.replacePieces_scan`: findings in a text that are rewritten one by one (`Redrawn`).
-/

namespace TwigLayout.Text

/-- Every run of `s` stands in `t`. -/
def RunsIn (p : Char → Bool) (s t : Text) : Prop :=
  ∀ w, (∀ c ∈ w, p c = true) → w <:+: s → w <:+: t

variable {p : Char → Bool} {a b s t u : Text}

theorem RunsIn.of_isInfix (h : s <:+: t) : RunsIn p s t := fun _ _ hi => hi.trans h

theorem RunsIn.trans (h : RunsIn p s t) (h' : RunsIn p t u) : RunsIn p s u :=
  fun w hw hi => h' w hw (h w hw hi)

theorem RunsIn.mono (h : RunsIn p s t) (h' : t <:+: u) : RunsIn p s u :=
  h.trans (.of_isInfix h')

theorem not_mem_of_forall {c : Char} {w : Text} (hc : p c = false) (hw : ∀ c ∈ w, p c = true) :
    c ∉ w := by
  intro hm
  rw [hw c hm] at hc
  exact Bool.noConfusion hc

/-- For a text that is written out, `s.any p` evaluates. -/
theorem forall_of_any (h : s.any p = false) : ∀ c ∈ s, p c = false :=
  fun c hc => Bool.eq_false_iff.mpr (List.any_eq_false.mp h c hc)

theorem forall_of_all {P : Char → Prop} [DecidablePred P]
    (h : s.all (fun c => decide (P c)) = true) : ∀ c ∈ s, P c :=
  fun c hc => of_decide_eq_true (List.all_eq_true.mp h c hc)

/-- A property holds of all characters of a text, or there is a first one of which it does not. -/
theorem forall_or_exists_first (P : Char → Prop) [DecidablePred P] (s : Text) :
    (∀ c ∈ s, P c) ∨ ∃ k c r, s = k ++ c :: r ∧ (∀ x ∈ k, P x) ∧ ¬ P c := by
  induction s with
  | nil => exact .inl fun _ h => absurd h List.not_mem_nil
  | cons d s ih =>
    by_cases hd : P d
    · rcases ih with hs | ⟨k, c, r, rfl, hk, hc⟩
      · exact .inl (List.forall_mem_cons.mpr ⟨hd, hs⟩)
      · exact .inr ⟨d :: k, c, r, rfl, List.forall_mem_cons.mpr ⟨hd, hk⟩, hc⟩
    · exact .inr ⟨[], d, s, rfl, fun _ h => absurd h List.not_mem_nil, hd⟩

/-! ## Texts put together -/

theorem RunsIn.append_cons {c : Char} (hc : p c = false) (ha : RunsIn p a t) (hb : RunsIn p b t) :
    RunsIn p (a ++ c :: b) t := by
  intro w hw hi
  rcases (infix_append_cons_iff (not_mem_of_forall hc hw)).mp hi with hi | hi
  · exact ha w hw hi
  · exact hb w hw hi

theorem RunsIn.cons {c : Char} (hc : p c = false) (hb : RunsIn p b t) : RunsIn p (c :: b) t :=
  .append_cons (a := []) hc (.of_isInfix List.nil_infix) hb

/-- A text of other characters in front changes nothing. -/
theorem RunsIn.append_of_forall (ha : ∀ c ∈ a, p c = false) (hb : RunsIn p b t) :
    RunsIn p (a ++ b) t := by
  induction a with
  | nil => exact hb
  | cons c a ih =>
    exact .cons (ha c List.mem_cons_self) (ih fun d hd => ha d (List.mem_cons_of_mem _ hd))

/-- A text of other characters, with at least one, between two texts. -/
theorem RunsIn.append_append {sep : Text} (hne : sep ≠ []) (hsep : ∀ c ∈ sep, p c = false)
    (ha : RunsIn p a t) (hb : RunsIn p b t) : RunsIn p (a ++ (sep ++ b)) t := by
  obtain ⟨c, sep, rfl⟩ := List.exists_cons_of_ne_nil hne
  exact .append_cons (hsep c List.mem_cons_self) ha
    (.append_of_forall (fun d hd => hsep d (List.mem_cons_of_mem _ hd)) hb)

/-- What holds of the empty text, and of two texts with the separator between them if it holds of
each, holds of joined texts. -/
theorem intercalate_induction {P : Text → Prop} {sep : Text} (hnil : P [])
    (happend : ∀ {a b : Text}, P a → P b → P (a ++ sep ++ b)) {lines : List Text}
    (h : ∀ l ∈ lines, P l) : P (sep.intercalate lines) := by
  induction lines with
  | nil => exact hnil
  | cons l lines ih =>
    obtain ⟨hl, hlines⟩ := List.forall_mem_cons.mp h
    cases lines with
    | nil =>
      rw [List.intercalate_singleton]
      exact hl
    | cons l' lines =>
      rw [List.intercalate_cons_cons]
      exact happend hl (ih hlines)

theorem RunsIn.intercalate {sep : Text} (hne : sep ≠ []) (hsep : ∀ c ∈ sep, p c = false)
    {lines : List Text} (h : ∀ l ∈ lines, RunsIn p l t) : RunsIn p (sep.intercalate lines) t := by
  refine intercalate_induction (P := (RunsIn p · t)) (.of_isInfix List.nil_infix) ?_ h
  intro a b ha hb
  rw [List.append_assoc]
  exact .append_append hne hsep ha hb

/-! ## Texts taken apart -/

/-- A run ends before a character outside of the class. -/
theorem takeWhile_append_cons {c : Char} (ha : ∀ x ∈ a, p x = true)
    (hc : p c = false) (s : Text) : (a ++ c :: s).takeWhile p = a := by
  rw [List.takeWhile_append_of_pos ha, List.takeWhile_cons_of_neg (by simp [hc]), List.append_nil]

theorem dropWhile_append_cons {c : Char} (ha : ∀ x ∈ a, p x = true)
    (hc : p c = false) (s : Text) : (a ++ c :: s).dropWhile p = c :: s := by
  rw [List.dropWhile_append_of_pos ha, List.dropWhile_cons_of_neg (by simp [hc])]

/-- A class that has no braces. -/
theorem bne_braces_of_class {c : Char} (hopen : p '{' = false) (hclose : p '}' = false)
    (h : p c = true) : (c != '{' && c != '}') = true := by
  rw [Bool.and_eq_true, bne_iff_ne, bne_iff_ne]
  constructor
  · rintro rfl
    exact Bool.eq_false_iff.mp hopen h
  · rintro rfl
    exact Bool.eq_false_iff.mp hclose h

theorem suffix_of_after? {lit rest : Text} (h : after? lit s = some rest) : rest <:+ s :=
  ⟨lit, (after?_eq_some_iff.mp h).symm⟩

theorem orElse_eq_some {α : Type} {x y : Option α} {value : α} (h : (x <|> y) = some value) :
    x = some value ∨ y = some value := by
  rw [Option.orElse_eq_orElse, Option.orElse_eq_or] at h
  rcases Option.or_eq_some_iff.mp h with h | ⟨_, h⟩
  · exact .inl h
  · exact .inr h

theorem intercalate_cons_eq_flatMap (sep x : Text) (xs : List Text) :
    sep.intercalate (x :: xs) = x ++ xs.flatMap (sep ++ ·) := by
  induction xs generalizing x with
  | nil => simp
  | cons y xs ih =>
    rw [List.intercalate_cons_cons, ih, List.flatMap_cons]
    simp only [List.append_assoc]

/-- One of the lines, with what stands before it and behind it. -/
theorem intercalate_append_cons (sep : Text) (before : List Text) (line : Text)
    (after : List Text) :
    sep.intercalate (before ++ line :: after) =
      before.flatMap (· ++ sep) ++ (line ++ after.flatMap (sep ++ ·)) := by
  induction before with
  | nil => exact intercalate_cons_eq_flatMap sep line after
  | cons l before ih =>
    obtain ⟨x, xs, hx⟩ := List.exists_cons_of_ne_nil (show before ++ line :: after ≠ [] by simp)
    rw [List.cons_append, hx, List.intercalate_cons_cons, ← hx, ih, List.flatMap_cons]
    simp only [List.append_assoc]

theorem infix_intercalate (sep : Text) {l : Text} {lines : List Text} (h : l ∈ lines) :
    l <:+: sep.intercalate lines := by
  obtain ⟨before, after, rfl⟩ := List.append_of_mem h
  rw [intercalate_append_cons, ← List.append_assoc]
  exact ⟨_, _, rfl⟩

theorem suffix_intercalate_concat (sep : Text) (lines : List Text) (l : Text) :
    l <:+ sep.intercalate (lines ++ [l]) := by
  rw [intercalate_append_cons, List.flatMap_nil, List.append_nil]
  exact List.suffix_append _ l

theorem forall_mem_intercalate {P : Char → Prop} {sep : Text} (hsep : ∀ c ∈ sep, P c)
    {lines : List Text} (h : ∀ l ∈ lines, ∀ c ∈ l, P c) : ∀ c ∈ sep.intercalate lines, P c := by
  refine intercalate_induction (P := fun s => ∀ c ∈ s, P c) (fun c hc => ?_) ?_ h
  · exact absurd hc List.not_mem_nil
  · intro a b ha hb
    exact List.forall_mem_append.mpr ⟨List.forall_mem_append.mpr ⟨ha, hsep⟩, hb⟩

theorem exists_mem_of_mem_intercalate {sep : Text} {c : Char} (hc : c ∉ sep) {lines : List Text}
    (h : c ∈ sep.intercalate lines) : ∃ l ∈ lines, c ∈ l := by
  refine Classical.byContradiction fun hnone => ?_
  have hne := forall_mem_intercalate (P := (· ≠ c)) (fun d hd he => hc (he ▸ hd))
    fun l hl d hd he => hnone ⟨l, hl, he ▸ hd⟩
  exact hne c h rfl

/-- A text without the separator lies in one of the parts. -/
theorem exists_infix_of_infix_intercalate {c : Char} {w : Text} (hc : c ∉ w) (hne : w ≠ [])
    {lines : List Text} (h : w <:+: [c].intercalate lines) : ∃ l ∈ lines, w <:+: l := by
  induction lines with
  | nil => exact absurd (List.infix_nil.mp h) hne
  | cons l lines ih =>
    cases lines with
    | nil =>
      rw [List.intercalate_singleton] at h
      exact ⟨l, List.mem_cons_self, h⟩
    | cons l' lines =>
      rw [List.intercalate_cons_cons, List.append_assoc, List.singleton_append] at h
      rcases (infix_append_cons_iff hc).mp h with h | h
      · exact ⟨l, List.mem_cons_self, h⟩
      · obtain ⟨m, hm, h⟩ := ih h
        exact ⟨m, List.mem_cons_of_mem _ hm, h⟩

theorem infix_of_mem_splitOn {sep l : Text} (hne : sep ≠ []) (h : l ∈ splitOn sep s) :
    l <:+: s := by
  have hi := infix_intercalate sep h
  rwa [intercalate_splitOn hne] at hi

theorem infix_of_mem_splitOnP {q : Char → Bool} {w : Text} (h : w ∈ s.splitOnP q) : w <:+: s := by
  -- the first stretch is in fact a text that `s` starts with
  have hboth : ∀ head tail, s.splitOnP q = head :: tail →
      head <+: s ∧ ∀ w ∈ tail, w <:+: s := by
    clear h
    induction s with
    | nil =>
      intro head tail h
      cases h
      exact ⟨List.prefix_refl [], fun w hw => absurd hw List.not_mem_nil⟩
    | cons c s ih =>
      intro head tail h
      obtain ⟨x, xs, hx⟩ := List.exists_cons_of_ne_nil (List.splitOnP_ne_nil q s)
      obtain ⟨hp, ht⟩ := ih x xs hx
      rw [List.splitOnP_cons_eq_if_modifyHead, hx] at h
      split at h
      · cases h
        refine ⟨List.nil_prefix, fun w hw => List.infix_cons ?_⟩
        rcases List.mem_cons.mp hw with rfl | hw
        · exact hp.isInfix
        · exact ht w hw
      · cases h
        exact ⟨List.cons_prefix_cons.mpr ⟨rfl, hp⟩, fun w hw => List.infix_cons (ht w hw)⟩
  obtain ⟨x, xs, hx⟩ := List.exists_cons_of_ne_nil (List.splitOnP_ne_nil q s)
  obtain ⟨hp, ht⟩ := hboth x xs hx
  rw [hx] at h
  rcases List.mem_cons.mp h with rfl | h
  · exact hp.isInfix
  · exact ht w h

theorem not_of_mem_splitOnP {q : Char → Bool} {w : Text} (h : w ∈ s.splitOnP q) :
    ∀ c ∈ w, q c = false := by
  induction s generalizing w with
  | nil =>
    rw [List.splitOnP_nil, List.mem_singleton] at h
    rw [h]
    exact fun c hc => absurd hc List.not_mem_nil
  | cons d s ih =>
    obtain ⟨x, xs, hx⟩ := List.exists_cons_of_ne_nil (List.splitOnP_ne_nil q s)
    rw [List.splitOnP_cons_eq_if_modifyHead, hx] at h
    split at h
    · rcases List.mem_cons.mp h with rfl | h
      · exact fun c hc => absurd hc List.not_mem_nil
      · exact ih (hx ▸ h)
    · next hd =>
      rcases List.mem_cons.mp h with rfl | h
      · exact List.forall_mem_cons.mpr ⟨Bool.eq_false_iff.mpr hd, ih (hx ▸ List.mem_cons_self)⟩
      · exact ih (hx ▸ List.mem_cons_of_mem _ h)

theorem infix_of_mem_words {w : Text} (h : w ∈ words s) : w <:+: s :=
  infix_of_mem_splitOnP (List.mem_filter.mp h).1

theorem trimLeft_isSuffix (s : Text) : trimLeft s <:+ s := List.dropWhile_suffix _

theorem trimRight_isPrefix (s : Text) : trimRight s <+: s := by
  have h : s.reverse.dropWhile isBlank <:+ s.reverse := List.dropWhile_suffix _
  have hp := List.reverse_prefix.mpr h
  rwa [List.reverse_reverse] at hp

theorem trim_isInfix (s : Text) : trim s <:+: s :=
  (trimRight_isPrefix _).isInfix.trans (trimLeft_isSuffix s).isInfix

theorem trimRight_cons {c : Char} (hc : isBlank c = false) (s : Text) :
    ∃ t, trimRight (c :: s) = c :: t := by
  rw [trimRight, List.reverse_cons, List.dropWhile_append]
  split
  · exact ⟨[], by simp [hc]⟩
  · exact ⟨(s.reverse.dropWhile isBlank).reverse, by simp⟩

theorem indentation_all (s : Text) : ∀ c ∈ indentation s, c = ' ' ∨ c = '\t' := by
  intro c hc
  have h := List.all_eq_true.mp List.all_takeWhile c hc
  simpa using h

/-- Collapsing white space brings no runs together. -/
theorem RunsIn.collapse (hp : p ' ' = false) : RunsIn p (collapse s) s := by
  refine .intercalate (by simp) (fun c hc => ?_) fun w hw => .of_isInfix (infix_of_mem_words hw)
  rw [List.mem_singleton.mp hc]
  exact hp

/-- The only white space of a collapsed text is spaces. -/
theorem eq_or_of_mem_collapse {c : Char} (h : c ∈ collapse s) : c = ' ' ∨ isBlank c = false := by
  refine forall_mem_intercalate (P := fun c => c = ' ' ∨ isBlank c = false)
    (List.forall_mem_singleton.mpr (.inl rfl)) (fun w hw c hc => .inr ?_) c h
  exact not_of_mem_splitOnP (List.mem_filter.mp hw).1 c hc

/-! ## Pieces -/

/-- Every run of `s` stands in `t`, and one at the start of `s` stands at the start of `t`. -/
structure Drawn (p : Char → Bool) (s t : Text) : Prop where
  start : ∀ w, (∀ c ∈ w, p c = true) → w <+: s → w <+: t
  runsIn : RunsIn p s t

theorem Drawn.refl (s : Text) : Drawn p s s := ⟨fun _ _ h => h, fun _ _ h => h⟩

theorem Drawn.append_left (h : Drawn p s t) (a : Text) : Drawn p (a ++ s) (a ++ t) := by
  induction a with
  | nil => exact h
  | cons c a ih =>
    have hstart : ∀ w, (∀ d ∈ w, p d = true) → w <+: c :: (a ++ s) → w <+: c :: (a ++ t) := by
      intro w hw hp
      rcases List.prefix_cons_iff.mp hp with rfl | ⟨v, rfl, hv⟩
      · exact List.nil_prefix
      · exact List.cons_prefix_cons.mpr
          ⟨rfl, ih.start v (fun d hd => hw d (List.mem_cons_of_mem _ hd)) hv⟩
    refine ⟨hstart, fun w hw hi => ?_⟩
    rcases List.infix_cons_iff.mp hi with hi | hi
    · exact (hstart w hw hi).isInfix
    · exact List.infix_cons (ih.runsIn w hw hi)

/-- A piece was rewritten: it starts as before up to a character outside of the class, ends with
such a character, and has no new runs. -/
structure Redrawn (p : Char → Bool) (new old : Text) : Prop where
  runsIn : RunsIn p new old
  head : ∃ a c, p c = false ∧ a ++ [c] <+: new ∧ a ++ [c] <+: old
  last : ∃ d, p d = false ∧ [d] <:+ new

theorem Redrawn.append {new old : Text} (h : Redrawn p new old) (hd : Drawn p s t) :
    Drawn p (new ++ s) (old ++ t) where
  start w hw hp := by
    obtain ⟨a, c, hc, ⟨x, rfl⟩, ho⟩ := h.head
    have hp' : w <+: a ++ c :: (x ++ s) := by simpa using hp
    have hwa := (prefix_append_cons_iff (not_mem_of_forall hc hw)).mp hp'
    exact hwa.trans ((List.prefix_append a [c]).trans (ho.trans (List.prefix_append old t)))
  runsIn w hw hi := by
    obtain ⟨d, hd', ⟨x, hx⟩⟩ := h.last
    rw [← hx, List.append_assoc, List.singleton_append] at hi
    rcases (infix_append_cons_iff (not_mem_of_forall hd' hw)).mp hi with hi | hi
    · refine List.infix_append_of_infix_left (h.runsIn w hw ?_)
      rw [← hx]
      exact List.infix_append_of_infix_left hi
    · exact List.infix_append_of_infix_right (hd.runsIn w hw hi)

/-- The text of pieces, with a finding replaced if there is a text to take its place. -/
def replacePieces {α : Type} (f : Located α → Option Text) : (offset : Nat) → List (Piece α) → Text
  | _, [] => []
  | offset, .plain c :: pieces => c :: replacePieces f (offset + 1) pieces
  | offset, .found value text :: pieces =>
    (f ⟨offset, value, text⟩).getD text ++ replacePieces f (offset + text.length) pieces

theorem drawn_replacePieces {α : Type} {f : Located α → Option Text} {pieces : List (Piece α)}
    (h : ∀ i value old new, .found value old ∈ pieces → f ⟨i, value, old⟩ = some new →
      Redrawn p new old) (offset : Nat) :
    Drawn p (replacePieces f offset pieces) (pieces.flatMap Piece.text) := by
  fun_induction replacePieces f offset pieces with
  | case1 => exact .refl []
  | case2 offset c pieces ih =>
    have ih := ih fun i value old new hm => h i value old new (List.mem_cons_of_mem _ hm)
    exact ih.append_left [c]
  | case3 offset value text pieces ih =>
    have ih := ih fun i value old new hm => h i value old new (List.mem_cons_of_mem _ hm)
    cases hf : f ⟨offset, value, text⟩ with
    | none => exact ih.append_left text
    | some new => exact (h offset value text new List.mem_cons_self hf).append ih

/-- Findings of a scan that are replaced one by one bring about no run. -/
theorem RunsIn.replacePieces_scan {α : Type} {f : Located α → Option Text} {read : Reader α}
    (hread : read.Consumes)
    (h : ∀ i last value old rest new, read last (old ++ rest) = some (value, rest) →
      f ⟨i, value, old⟩ = some new → Redrawn p new old) (s : Text) :
    RunsIn p (replacePieces f 0 (scan read s)) s := by
  have hdrawn : Drawn p (replacePieces f 0 (scan read s)) ((scan read s).flatMap Piece.text) := by
    refine drawn_replacePieces (fun i value old new hm hf => ?_) 0
    obtain ⟨last, rest, hr⟩ := read_of_mem_scanFrom hread hm
    exact h i last value old rest new hr hf
  rw [flatMap_text_scan] at hdrawn
  exact hdrawn.runsIn

end TwigLayout.Text
