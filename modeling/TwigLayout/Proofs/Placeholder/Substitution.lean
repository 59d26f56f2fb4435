import Mathlib.Data.List.Nodup
import TwigLayout.Proofs.Placeholder.Overlap

/-!
# Tokens at any places

Between hiding and restoring, tokens may be moved, repeated or dropped. A text is then literal
pieces with tokens between them. Restoring goes through the table and changes the text once for
each entry, but the outcome is as if all tokens were replaced at once (`restore_woven`): it does not
depend on the order of the entries, and the tokens that are lost are those that are not in the text.

1. `IsTable.replaceAll_woven`: one turn. It replaces its token at every place, and nothing else.
2. `IsTable.restoreEntries_woven`: all turns, by induction on the entries that are still to come.
-/

namespace TwigLayout.Placeholder

open Text

/-- What a table looks like that hiding has made. -/
structure IsTable (k : Kind) (entries : List (Text × Text)) : Prop extends Walled entries where
  isToken : ∀ e ∈ entries, ∃ i, IsToken k i e.1
  nodup : (entries.map (·.1)).Nodup

/-- `Issued k t`: hiding the comments, or the elements, of some text has made the table. -/
inductive Issued : Kind → Table → Prop
  | comments {supply : Supply} {s hidden : Text} {t : Table} :
      supply.WellFormed → shieldComments supply .comment s = .ok (hidden, t) → Issued .comment t
  | elements {supply : Supply} {rule : Element.Rule} {s hidden : Text} {t : Table} :
      supply.WellFormed → shieldElements supply rule s = .ok (hidden, t) → Issued .inline t

theorem Assigned.isTable {α : Type} {k : Kind} {source : Text} {n : Nat} {pieces : List (Piece α)}
    {parts : List (Piece Text)} (h : Assigned k source n pieces parts)
    (hw : Walled (parts.filterMap pair?)) : IsTable k (parts.filterMap pair?) :=
  ⟨hw, fun _ he => h.isToken he, List.pairwise_map.mpr h.numbered.pairwise⟩

theorem Issued.isTable {k : Kind} {t : Table} (h : Issued k t) : IsTable k t.entries := by
  cases h with
  | comments hs h =>
    obtain ⟨⟨parts, t⟩, ha, he⟩ := bind_eq_ok.mp h
    cases he
    have hw := walled_comments hs ha
    obtain ⟨ha, he⟩ := assignComments_eq_ok hs ha
    rw [he] at hw ⊢
    exact ha.isTable hw
  | elements hs h =>
    obtain ⟨⟨parts, t⟩, ha, he⟩ := bind_eq_ok.mp h
    cases he
    have hw := walled_elements hs ha
    obtain ⟨ha, he⟩ := assignElements_eq_ok hs ha
    rw [he] at hw ⊢
    exact ha.isTable hw

section

variable {k : Kind} {entries : List (Text × Text)}

theorem IsTable.perm (h : IsTable k entries) {es : List (Text × Text)} (hp : es.Perm entries) :
    IsTable k es where
  ne_nil e he := h.ne_nil e (hp.mem_iff.mp he)
  fenced e he f hf := h.fenced e (hp.mem_iff.mp he) f (hp.mem_iff.mp hf)
  not_infix e he f hf := h.not_infix e (hp.mem_iff.mp he) f (hp.mem_iff.mp hf)
  isToken e he := h.isToken e (hp.mem_iff.mp he)
  nodup := (hp.map _).nodup_iff.mpr h.nodup

theorem IsTable.eq_of_token (h : IsTable k entries) {e f : Text × Text} (he : e ∈ entries)
    (hf : f ∈ entries) (htoken : e.1 = f.1) : e = f :=
  List.inj_on_of_nodup_map h.nodup he hf htoken

/-! ## Woven texts -/

/-- Entries, each with a literal piece behind it. `shows` is what an entry is in the text. -/
def woven (shows : Text × Text → Text) (items : List ((Text × Text) × Text)) : Text :=
  items.flatMap fun i => shows i.1 ++ i.2

theorem woven_cons (shows : Text × Text → Text) (i : (Text × Text) × Text)
    (items : List ((Text × Text) × Text)) :
    woven shows (i :: items) = shows i.1 ++ (i.2 ++ woven shows items) := by
  unfold woven
  rw [List.flatMap_cons, List.append_assoc]

/-- Before the turns of `es`, the entries that are still to come show their tokens, and the others
their texts. -/
def pending (es : List (Text × Text)) (e : Text × Text) : Text := if e ∈ es then e.1 else e.2

theorem pending_cons_of_ne {e f : Text × Text} (h : f ≠ e) (es : List (Text × Text)) :
    pending (e :: es) f = pending es f := by
  unfold pending
  simp only [List.mem_cons, h, false_or]

theorem pending_cons_self (e : Text × Text) (es : List (Text × Text)) : pending (e :: es) e = e.1 :=
  if_pos List.mem_cons_self

/-- The items of a text whose literal pieces do not have what every token starts with. -/
def Woven (k : Kind) (entries : List (Text × Text)) (items : List ((Text × Text) × Text)) : Prop :=
  ∀ i ∈ items, i.1 ∈ entries ∧ ¬ k.key ++ ['_'] <:+: i.2

theorem IsCore.not_infix_of_literal {i : Nat} {w : Text} (h : IsCore k i w) {a : Text}
    (ha : ¬ k.key ++ ['_'] <:+: a) : ¬ w <:+: a := by
  obtain ⟨suffix, _, rfl⟩ := h
  refine fun hi => ha (List.IsInfix.trans ?_ hi)
  unfold core
  exact ⟨[], Nat.toDigits 10 i ++ '_' :: suffix, by simp⟩

/-! ## One turn -/

variable {e : Text × Text} {i : Nat} {w : Text}

/-- The core of a token does not come about around another token. -/
theorem IsTable.not_infix_append_token (h : IsTable k entries) (he : e ∈ entries)
    (hw : IsCore k i w) (htoken : e.1 = '_' :: '_' :: (w ++ ['_', '_'])) {f : Text × Text}
    (hf : f ∈ entries) (hne : f ≠ e) {a b : Text} (ha : ¬ w <:+: a) (hb : ¬ w <:+: b) :
    ¬ w <:+: a ++ f.1 ++ b := by
  obtain ⟨j, hj⟩ := h.isToken f hf
  obtain ⟨x, hx, hfx⟩ := hj.exists_core
  have htext : a ++ f.1 ++ b = a ++ '_' :: '_' :: (x ++ '_' :: '_' :: b) := by
    rw [hfx]
    simp
  rw [htext]
  intro hi
  rcases hw.solid.infix_append hi with hi | hi
  · exact ha hi
  rcases hw.solid.infix_append hi with hi | hi
  · obtain ⟨_, rfl⟩ := hw.eq_of_infix hx hi
    exact hne (h.eq_of_token hf he (hfx.trans htoken.symm))
  · exact hb hi

/-- A token is in the text only if its entry is one of the items. -/
theorem IsTable.not_infix_woven (h : IsTable k entries) (he : e ∈ entries) (hw : IsCore k i w)
    (htoken : e.1 = '_' :: '_' :: (w ++ ['_', '_'])) {shows : Text × Text → Text}
    (hshows : ∀ f, shows f = f.1 ∨ shows f = f.2) {items : List ((Text × Text) × Text)}
    (hitems : Woven k entries items) (hne : ∀ i ∈ items, i.1 ≠ e) {a : Text} (ha : ¬ w <:+: a) :
    ¬ e.1 <:+: a ++ woven shows items := by
  have hcore : w <:+: e.1 := by
    rw [htoken]
    exact ⟨['_', '_'], ['_', '_'], by simp⟩
  induction items generalizing a with
  | nil =>
    show ¬ e.1 <:+: a ++ []
    rw [List.append_nil]
    exact fun hi => ha (hcore.trans hi)
  | cons item items ih =>
    obtain ⟨⟨hf, hgap⟩, hrest⟩ := List.forall_mem_cons.mp hitems
    obtain ⟨hfe, hne⟩ := List.forall_mem_cons.mp hne
    have hgap := hw.not_infix_of_literal hgap
    rw [woven_cons]
    rcases hshows item.1 with hs | hs
    · have ha' := h.not_infix_append_token he hw htoken hf hfe ha hgap
      rw [hs, ← List.append_assoc, ← List.append_assoc]
      exact ih hrest hne ha'
    · rw [hs, ← List.append_assoc]
      intro hi
      rcases (h.fenced e he _ hf).infix_append hi with hi | hi | hi
      · exact ha (hcore.trans hi)
      · exact h.not_infix e he _ hf hi
      · exact ih hrest hne hgap hi

theorem IsTable.infix_woven_iff (h : IsTable k entries) (he : e ∈ entries) (hw : IsCore k i w)
    (htoken : e.1 = '_' :: '_' :: (w ++ ['_', '_'])) (es : List (Text × Text))
    {items : List ((Text × Text) × Text)} (hitems : Woven k entries items) {a : Text}
    (ha : ¬ w <:+: a) :
    e.1 <:+: a ++ woven (pending (e :: es)) items ↔ e.1 ∈ items.map (·.1.1) := by
  constructor
  · intro hi
    refine Decidable.not_not.mp fun hno => ?_
    have hne : ∀ i ∈ items, i.1 ≠ e := by
      rintro i hm rfl
      exact hno (List.mem_map.mpr ⟨i, hm, rfl⟩)
    have hshows : ∀ f, pending (e :: es) f = f.1 ∨ pending (e :: es) f = f.2 := by
      intro f
      unfold pending
      split
      · exact .inl rfl
      · exact .inr rfl
    exact h.not_infix_woven he hw htoken hshows hitems hne ha hi
  · intro hm
    obtain ⟨item, hm, heq⟩ := List.mem_map.mp hm
    have hitem : item.1 = e := h.eq_of_token (hitems item hm).1 he heq
    have hinfix : pending (e :: es) item.1 ++ item.2 <:+: woven (pending (e :: es)) items := by
      unfold woven
      rw [List.flatMap_def]
      exact List.infix_of_mem_flatten (List.mem_map.mpr ⟨item, hm, rfl⟩)
    rw [hitem, pending_cons_self] at hinfix
    exact List.infix_append_of_infix_right ((List.prefix_append e.1 item.2).isInfix.trans hinfix)

/-- The turn of an entry replaces its token wherever the entry is one of the items. -/
theorem IsTable.replaceAll_woven (h : IsTable k entries) (he : e ∈ entries) (hw : IsCore k i w)
    (htoken : e.1 = '_' :: '_' :: (w ++ ['_', '_'])) {es : List (Text × Text)} (hes : e ∉ es)
    {items : List ((Text × Text) × Text)} (hitems : Woven k entries items) {a : Text}
    (ha : ¬ w <:+: a) :
    replaceAll e.1 e.2 (a ++ woven (pending (e :: es)) items) = a ++ woven (pending es) items := by
  have hne : e.1 ≠ [] := h.ne_nil e he
  have hcore : ∀ {b : Text}, ¬ w <:+: b → ¬ e.1 <:+: b := by
    intro b hb hi
    refine hb (List.IsInfix.trans ?_ hi)
    rw [htoken]
    exact ⟨['_', '_'], ['_', '_'], by simp⟩
  -- `a` is what there is since the last region: tokens of other entries and literal pieces
  induction items generalizing a with
  | nil =>
    show replaceAll e.1 e.2 (a ++ []) = a ++ []
    rw [List.append_nil, replaceAll_eq_self (hcore ha)]
  | cons item items ih =>
    obtain ⟨⟨hf, hgap⟩, hrest⟩ := List.forall_mem_cons.mp hitems
    have hgap := hw.not_infix_of_literal hgap
    rw [woven_cons, woven_cons]
    by_cases hfe : item.1 = e
    · have hfirst : ¬ e.1 <:+: a ++ e.1.dropLast := by
        rw [htoken]
        exact hw.solid.not_infix_append_dropLast ha
      have hafter : pending es e = e.2 := if_neg hes
      rw [hfe, pending_cons_self, hafter, ← List.append_assoc,
        replaceAll_append_self_append e.2 hne hfirst, ih hrest hgap, List.append_assoc]
    · rw [pending_cons_of_ne hfe]
      by_cases hm : item.1 ∈ es
      · have ha' := h.not_infix_append_token he hw htoken hf hfe ha hgap
        have hshow : pending es item.1 = item.1.1 := if_pos hm
        rw [hshow, ← List.append_assoc, ← List.append_assoc, ih hrest ha']
        simp only [List.append_assoc]
      · have hshow : pending es item.1 = item.1.2 := if_neg hm
        rw [hshow, ← List.append_assoc,
          replaceAll_append_fenced hne e.2 (h.fenced e he _ hf) (h.not_infix e he _ hf),
          ih hrest hgap, replaceAll_eq_self (hcore ha), List.append_assoc]

/-! ## All turns -/

/-- The tokens that no item shows. -/
def lost (tokens : List Text) (items : List ((Text × Text) × Text)) : List Text :=
  tokens.filter fun token => token ∉ items.map (·.1.1)

/-- The turns of the entries that are still to come replace all that is left, and find those tokens
missing that no item shows. -/
theorem IsTable.restoreEntries_woven (h : IsTable k entries) {items : List ((Text × Text) × Text)}
    (hitems : Woven k entries items) {a : Text} (ha : ¬ k.key ++ ['_'] <:+: a)
    {es : List (Text × Text)} (hes : ∀ e ∈ es, e ∈ entries) (hnodup : es.Nodup) :
    restoreEntries es (a ++ woven (pending es) items) =
      (a ++ woven (·.2) items, lost (es.map (·.1)) items) := by
  induction es with
  | nil => rfl
  | cons e es ih =>
    obtain ⟨he, hes⟩ := List.forall_mem_cons.mp hes
    obtain ⟨hmem, hnodup⟩ := List.nodup_cons.mp hnodup
    have ih := ih hes hnodup
    obtain ⟨i, hi⟩ := h.isToken e he
    obtain ⟨w, hw, htoken⟩ := hi.exists_core
    have ha := hw.not_infix_of_literal ha
    have hturn := h.replaceAll_woven he hw htoken hmem hitems ha
    have hiff := h.infix_woven_iff he hw htoken es hitems ha
    unfold restoreEntries
    split
    · next hocc =>
      have hlost : lost ((e :: es).map (·.1)) items = lost (es.map (·.1)) items :=
        List.filter_cons_of_neg (by simpa using hiff.mp (occursIn_iff.mp hocc))
      rw [hturn, ih, hlost]
    · next hocc =>
      have hno : ¬ e.1 <:+: a ++ woven (pending (e :: es)) items :=
        fun hi => hocc (occursIn_iff.mpr hi)
      have hlost : lost ((e :: es).map (·.1)) items = e.1 :: lost (es.map (·.1)) items :=
        List.filter_cons_of_pos (by simpa using hno ∘ hiff.mpr)
      rw [replaceAll_eq_self hno] at hturn
      rw [hturn, ih, hlost]

end

theorem restore_result_of_restoreEntries {k : Kind} {t : Table} {s out : Text} {missing : List Text}
    (h : restoreEntries t.entries s = (out, missing)) (strict : Bool) :
    (restore k strict t s).result =
      if strict = true ∧ missing ≠ [] then .error (.lostTokens k.word missing) else .ok out := by
  unfold restore
  rw [h]
  cases missing with
  | nil => cases strict <;> rfl
  | cons token missing => cases strict <;> rfl

/-- Restoring replaces every token by its text at once, wherever the tokens stand in a text whose
other pieces do not have what every token starts with, and in whatever order the entries are. If it
is strict, it fails exactly if there are tokens that are not in the text, and names them. -/
theorem restore_woven {k : Kind} {t : Table} (h : Issued k t) {first : Text}
    {items : List ((Text × Text) × Text)} (hfirst : ¬ k.key ++ ['_'] <:+: first)
    (hitems : Woven k t.entries items) {u : Table} (hu : u.entries.Perm t.entries) (strict : Bool) :
    (restore k strict u (first ++ woven (·.1) items)).result =
      if strict = true ∧ lost u.tokens items ≠ [] then
        .error (.lostTokens k.word (lost u.tokens items))
      else .ok (first ++ woven (·.2) items) := by
  refine restore_result_of_restoreEntries ?_ strict
  have htable : IsTable k t.entries := h.isTable
  have hnodup : u.entries.Nodup := (htable.perm hu).nodup.of_map
  have hshown : woven (·.1) items = woven (pending u.entries) items := by
    unfold woven
    refine List.flatMap_congr fun i hi => ?_
    have hshow : pending u.entries i.1 = i.1.1 := if_pos (hu.mem_iff.mpr (hitems i hi).1)
    rw [hshow]
  rw [hshown]
  exact htable.restoreEntries_woven hitems hfirst (fun e he => hu.mem_iff.mp he) hnodup

/-- The second token moved to the front, the first one repeated, the third one dropped, next to
pieces that start as tokens do, with a region that holds most of a token. -/
theorem restore_woven_moved :
    let a := ("__TWIG_CS_COMMENT_0_aaaaaaaa__".toList, "{# a #}".toList)
    let b := ("__TWIG_CS_COMMENT_1_aaaaaaab__".toList, "{# TWIG_CS_COMMENT_0_aaaaaaaa__ #}".toList)
    let c := ("__TWIG_CS_COMMENT_2_aaaaaaac__".toList, "{# c #}".toList)
    let key := "TWIG_CS_COMMENT".toList
    let s := key ++ b.1 ++ '_' :: a.1 ++ a.1 ++ key
    let out := key ++ b.2 ++ '_' :: a.2 ++ a.2 ++ key
    let t : Table := ⟨"COMMENT".toList, [c, b, a], 3⟩
    (restore .comment false t s).result = .ok out ∧
      (restore .comment true t s).result = .error (.lostTokens "comment" [c.1]) := by
  intro a b c key s out t
  have hissued : Issued .comment ⟨"COMMENT".toList, [a, b, c], 3⟩ :=
    @Issued.comments .counting (a.2 ++ b.2 ++ c.2) (a.1 ++ b.1 ++ c.1) _
      Supply.counting_wellFormed (by decide +kernel)
  have hfirst : ¬ Kind.comment.key ++ ['_'] <:+: key := by decide +kernel
  have hitems : Woven .comment [a, b, c] [(b, ['_']), (a, []), (a, key)] := by
    unfold Woven
    decide +kernel
  have hperm : t.entries.Perm [a, b, c] := List.reverse_perm [a, b, c]
  have h := restore_woven hissued hfirst hitems hperm
  exact ⟨h false, h true⟩

end TwigLayout.Placeholder
