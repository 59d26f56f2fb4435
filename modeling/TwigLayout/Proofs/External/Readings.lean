import Mathlib.Data.List.Infix
import TwigLayout.Proofs.External.Globs
import TwigLayout.Proofs.Text.Replace

/-!
# Segments for any directories

A segment `**/` of a glob may stand for no directory, so a glob can be read with some of its
segments left out (`Glob.IsReading`). A file is matched with two of these readings only, the one
with all segments and the one with none. They are enough

- if there is no more than one segment (`Glob.Single`), or
- if each segment has a star beside it once all are left out, as in `*/**/a/**/*.twig`: the star
  then stands for what the segment stood for (`Glob.Loose`).

`Glob.fits_iff_reading` says so, and `ProjectOptions.globsFit_iff_reading` what follows for the
files of a project. By `Glob.covered_iff` the condition is needed: no other glob in which all
characters but stars stand for themselves has enough of the two readings.
-/

namespace TwigLayout

open Text

namespace Glob

/-! ## What a glob stands for -/

section Fits

variable {p : Pattern} {item : Item} {c : Char} {s w : Text}

theorem accepts_star_iff :
    accepts (.star :: p) w = true ↔ ∃ u v, w = u ++ v ∧ accepts p v = true := by
  induction w with
  | nil =>
    rw [accepts_star_nil]
    constructor
    · exact fun h => ⟨[], [], rfl, h⟩
    · rintro ⟨u, v, he, h⟩
      rwa [(List.append_eq_nil_iff.mp he.symm).2] at h
  | cons c w ih =>
    rw [accepts_star_cons, Bool.or_eq_true, ih]
    constructor
    · rintro (h | ⟨u, v, rfl, h⟩)
      · exact ⟨[], c :: w, rfl, h⟩
      · exact ⟨c :: u, v, rfl, h⟩
    · rintro ⟨u, v, he, h⟩
      cases u with
      | nil => exact .inl (he ▸ h)
      | cons d u => exact .inr ⟨u, v, (List.cons.inj he).2, h⟩

theorem accepts_item_iff (hitem : item ≠ .star) :
    accepts (item :: p) w = true ↔
      ∃ c v, w = c :: v ∧ item.fits c = true ∧ accepts p v = true := by
  cases w with
  | nil =>
    rw [accepts_item_nil hitem]
    exact iff_of_false Bool.false_ne_true fun ⟨_, _, he, _⟩ => List.cons_ne_nil _ _ he.symm
  | cons c w =>
    rw [accepts_item_cons hitem, Bool.and_eq_true]
    constructor
    · exact fun h => ⟨c, w, rfl, h⟩
    · rintro ⟨d, v, he, h⟩
      cases he
      exact h

theorem fits_nil : fits [] w = true ↔ w = [] := by
  rw [fits, parse, parseFrom, accepts_nil, List.isEmpty_iff]

/-- Stars in a row are read as one, which stands for what they stand for. -/
theorem fits_star : fits ('*' :: s) w = true ↔ ∃ u v, w = u ++ v ∧ fits s v = true := by
  unfold fits
  rw [parse, parseFrom, if_pos rfl]
  split
  · next rest hrest =>
    have hparse : parse s = .star :: rest := hrest
    rw [hparse]
    constructor
    · exact fun h => ⟨[], w, rfl, h⟩
    · rintro ⟨u, v, rfl, h⟩
      obtain ⟨u', v', rfl, hv⟩ := accepts_star_iff.mp h
      exact accepts_star_iff.mpr ⟨u ++ u', v', (List.append_assoc ..).symm, hv⟩
  · exact accepts_star_iff

theorem fits_cons (hstar : c ≠ '*') (hset : c ≠ '[') :
    fits (c :: s) w = true ↔ ∃ d v, w = d :: v ∧ (c = '?' ∨ c = d) ∧ fits s v = true := by
  unfold fits
  rw [parse, parseFrom, if_neg hstar, if_neg hset]
  split
  · next hone =>
    have hitem : Item.one ≠ .star := by decide
    simp only [accepts_item_iff hitem, hone, true_or, true_and, Item.fits]
    rfl
  · next hone =>
    have hitem : Item.char c ≠ .star := Item.noConfusion
    simp only [accepts_item_iff hitem, hone, false_or, Item.fits, beq_iff_eq]
    rfl

/-- A character that is no wildcard stands for itself. -/
theorem fits_char (hstar : c ≠ '*') (hone : c ≠ '?') (hset : c ≠ '[') :
    fits (c :: s) w = true ↔ ∃ v, w = c :: v ∧ fits s v = true := by
  rw [fits_cons hstar hset]
  constructor
  · rintro ⟨d, v, rfl, hd, h⟩
    obtain rfl := hd.resolve_left hone
    exact ⟨v, rfl, h⟩
  · rintro ⟨v, rfl, h⟩
    exact ⟨c, v, rfl, .inr rfl, h⟩

/-- A glob stands for the texts of its two parts. A set that begins in the first part could end in
the second one. -/
theorem fits_append {before after : Text} (hset : '[' ∉ before) :
    fits (before ++ after) w = true ↔
      ∃ u v, w = u ++ v ∧ fits before u = true ∧ fits after v = true := by
  induction before generalizing w with
  | nil =>
    constructor
    · exact fun h => ⟨[], w, rfl, fits_nil.mpr rfl, h⟩
    · rintro ⟨u, v, rfl, hu, h⟩
      rwa [fits_nil.mp hu]
  | cons c before ih =>
    obtain ⟨hc, hset⟩ := List.ne_and_not_mem_of_not_mem_cons hset
    have ih {w : Text} := ih (w := w) hset
    by_cases hstar : c = '*'
    · subst hstar
      simp only [List.cons_append, fits_star, ih]
      constructor
      · rintro ⟨u, _, rfl, v, v', rfl, h, h'⟩
        exact ⟨u ++ v, v', (List.append_assoc ..).symm, ⟨u, v, rfl, h⟩, h'⟩
      · rintro ⟨_, v', rfl, ⟨u, v, rfl, h⟩, h'⟩
        exact ⟨u, v ++ v', List.append_assoc .., v, v', rfl, h, h'⟩
    · simp only [List.cons_append, fits_cons hstar (Ne.symm hc), ih]
      constructor
      · rintro ⟨d, _, rfl, hd, v, v', rfl, h, h'⟩
        exact ⟨d :: v, v', rfl, ⟨d, v, rfl, hd, h⟩, h'⟩
      · rintro ⟨_, v', rfl, ⟨d, v, rfl, hd, h⟩, h'⟩
        exact ⟨d, v ++ v', rfl, hd, v, v', rfl, h, h'⟩

end Fits

/-! ## Readings of a glob -/

/-- What stands for any directories in a glob. -/
def segment : Text := ['*', '*', '/']

/-- A glob with some of its segments left out: each one or not. -/
inductive IsReading : Text → Text → Prop
  | nil : IsReading [] []
  | keep {glob r : Text} (c : Char) : IsReading glob r → IsReading (c :: glob) (c :: r)
  | leave {glob r : Text} : IsReading glob r → IsReading ('*' :: '*' :: '/' :: glob) r

/-- A glob with all of its segments left out. -/
def withoutSegments (glob : Text) : Text := replaceAll segment [] glob

section Readings

variable {c : Char} {glob before after a b r w : Text}

theorem withoutSegments_nil : withoutSegments [] = [] := replaceAll_nil [] (List.cons_ne_nil _ _)

theorem withoutSegments_segment (glob : Text) :
    withoutSegments (segment ++ glob) = withoutSegments glob :=
  replaceAll_append_self [] (List.cons_ne_nil _ _) glob

theorem withoutSegments_cons (h : ¬ segment <+: c :: glob) :
    withoutSegments (c :: glob) = c :: withoutSegments glob :=
  replaceAll_cons [] (List.cons_ne_nil _ _) h

/-- A glob is empty, starts with a segment, or has a character before what it goes on with. -/
@[elab_as_elim]
theorem segment_induction {P : Text → Prop} (nil : P [])
    (segment : ∀ glob, P glob → P (segment ++ glob))
    (cons : ∀ c glob, ¬ Glob.segment <+: c :: glob → P glob → P (c :: glob)) (glob : Text) :
    P glob := by
  induction hn : glob.length using Nat.strongRecOn generalizing glob with
  | ind n ih =>
    by_cases hstarts : Glob.segment <+: glob
    · obtain ⟨rest, rfl⟩ := hstarts
      refine segment rest (ih rest.length ?_ rest rfl)
      rw [← hn, List.length_append]
      exact Nat.lt_add_of_pos_left (Nat.succ_pos _)
    · cases glob with
      | nil => exact nil
      | cons c glob => exact cons c glob hstarts (ih glob.length (hn ▸ Nat.lt_succ_self _) glob rfl)

theorem IsReading.refl (glob : Text) : IsReading glob glob := by
  induction glob with
  | nil => exact .nil
  | cons c glob ih => exact .keep c ih

theorem isReading_withoutSegments (glob : Text) : IsReading glob (withoutSegments glob) := by
  induction glob using segment_induction with
  | nil => exact withoutSegments_nil ▸ .nil
  | segment glob ih => exact withoutSegments_segment glob ▸ .leave ih
  | cons c glob h ih => exact withoutSegments_cons h ▸ .keep c ih

theorem IsReading.append (ha : IsReading a r) (hb : IsReading b w) :
    IsReading (a ++ b) (r ++ w) := by
  induction ha with
  | nil => exact hb
  | keep c _ ih => exact .keep c ih
  | leave _ ih => exact .leave ih

theorem IsReading.sublist (h : IsReading glob r) : r.Sublist glob := by
  induction h with
  | nil => exact List.Sublist.slnil
  | keep c _ ih => exact ih.cons_cons c
  | leave _ ih => exact ((ih.cons '/').cons '*').cons '*'

theorem IsReading.eq_cons (hno : ¬ segment <+: c :: glob) (h : IsReading (c :: glob) r) :
    ∃ r', r = c :: r' ∧ IsReading glob r' := by
  cases h with
  | keep _ h => exact ⟨_, rfl, h⟩
  | leave _ => exact absurd (List.prefix_append segment _) hno

/-- A segment is left out or it is kept as a whole. -/
theorem IsReading.of_segment (h : IsReading (segment ++ glob) r) :
    IsReading glob r ∨ ∃ r', r = segment ++ r' ∧ IsReading glob r' := by
  cases h with
  | leave h => exact .inl h
  | keep _ h =>
    obtain ⟨_, rfl, hslash⟩ := h.eq_cons (by simp [segment])
    obtain ⟨r', rfl, hrest⟩ := hslash.eq_cons (by simp [segment])
    exact .inr ⟨r', rfl, hrest⟩

/-- A segment does not overlap with another one. -/
theorem withoutSegments_append_segment (a b : Text) :
    withoutSegments (a ++ segment ++ b) = withoutSegments a ++ withoutSegments b := by
  induction a using segment_induction with
  | nil =>
    rw [List.nil_append, withoutSegments_segment, withoutSegments_nil, List.nil_append]
  | segment a ih =>
    rw [List.append_assoc, List.append_assoc, withoutSegments_segment, withoutSegments_segment,
      ← List.append_assoc, ih]
  | cons c a h ih =>
    have hno : ¬ segment <+: c :: (a ++ segment ++ b) := by
      match a with
      | [] | [_] => simp [segment]
      | _ :: _ :: _ => simpa [segment] using h
    rw [List.cons_append, List.cons_append, withoutSegments_cons hno, withoutSegments_cons h, ih,
      List.cons_append]

end Readings

/-! ## Globs with enough readings -/

/-- A glob has at most one segment. -/
def Single (glob : Text) : Prop := ∀ a b, glob = a ++ segment ++ b → ¬ segment <:+: b

/-- A star stands at the end of a text, before its last slash, or at the start of the next text. -/
def StarBeside (before after : Text) : Prop :=
  ['*'] <:+ before ∨ ['*', '/'] <:+ before ∨ ['*'] <+: after

/-- Every segment of a glob has a star beside it once all segments are left out. No set may begin
before a segment. -/
def Loose (glob : Text) : Prop :=
  ∀ a b, glob = a ++ segment ++ b →
    '[' ∉ a ∧ StarBeside (withoutSegments a) (withoutSegments b)

/-- A text is parted at an occurrence of another one if it is parted at the place of it. -/
theorem forall_split_iff {P : Text → Text → Prop} {s sep : Text} :
    (∀ a b, s = a ++ sep ++ b → P a b) ↔
      ∀ n < s.length + 1, sep <+: s.drop n → P (s.take n) (s.drop (n + sep.length)) := by
  constructor
  · rintro h n - ⟨b, hb⟩
    refine h _ _ ?_
    rw [List.append_assoc, ← List.drop_drop, ← hb, List.drop_left, hb, List.take_append_drop]
  · rintro h a b rfl
    have hplace := h a.length (by simp only [List.length_append]; omega)
    rw [List.append_assoc, List.drop_left, ← List.drop_drop, List.drop_left, List.drop_left,
      List.take_left] at hplace
    exact hplace (List.prefix_append sep b)

instance (before after : Text) : Decidable (StarBeside before after) :=
  inferInstanceAs (Decidable (_ ∨ _ ∨ _))

instance : DecidablePred Single := fun _ => decidable_of_iff _ forall_split_iff.symm

instance : DecidablePred Loose := fun _ => decidable_of_iff _ forall_split_iff.symm

section Enough

variable {c : Char} {glob before after r w : Text}

theorem fits_slash :
    fits ('/' :: after) w = true ↔ ∃ v, w = '/' :: v ∧ fits after v = true :=
  fits_char (by decide) (by decide) (by decide)

theorem fits_segment :
    fits (segment ++ after) w = true ↔ ∃ u v, w = u ++ '/' :: v ∧ fits after v = true := by
  simp only [segment, List.cons_append, List.nil_append, fits_star, fits_slash]
  constructor
  · rintro ⟨u, _, rfl, u', _, rfl, v, rfl, h⟩
    exact ⟨u ++ u', v, by rw [List.append_assoc], h⟩
  · rintro ⟨u, v, rfl, h⟩
    exact ⟨u, _, rfl, [], _, rfl, v, rfl, h⟩

/-- A star beside a segment stands for what the segment stands for. -/
theorem fits_of_segment (hset : '[' ∉ before) (hstar : StarBeside before after)
    (h : fits (before ++ (segment ++ after)) w = true) : fits (before ++ after) w = true := by
  rcases hstar with ⟨p, rfl⟩ | ⟨p, rfl⟩ | ⟨s, rfl⟩
  · have hp : '[' ∉ p := fun hmem => hset (List.mem_append_left _ hmem)
    rw [List.append_assoc, fits_append hp] at h ⊢
    obtain ⟨u, _, rfl, hu, hstar⟩ := h
    obtain ⟨x, _, rfl, hsegment⟩ := fits_star.mp hstar
    obtain ⟨y, v, rfl, hv⟩ := fits_segment.mp hsegment
    exact ⟨u, _, rfl, hu, fits_star.mpr ⟨x ++ y ++ ['/'], v, by simp, hv⟩⟩
  · have hp : '[' ∉ p := fun hmem => hset (List.mem_append_left _ hmem)
    rw [List.append_assoc, fits_append hp] at h ⊢
    obtain ⟨u, _, rfl, hu, hstar⟩ := h
    obtain ⟨x, _, rfl, hslash⟩ := fits_star.mp hstar
    obtain ⟨_, rfl, hsegment⟩ := fits_slash.mp hslash
    obtain ⟨y, v, rfl, hv⟩ := fits_segment.mp hsegment
    have hrest : fits ('/' :: after) ('/' :: v) = true := fits_slash.mpr ⟨v, rfl, hv⟩
    exact ⟨u, _, rfl, hu, fits_star.mpr ⟨x ++ '/' :: y, '/' :: v, by simp, hrest⟩⟩
  · rw [fits_append hset] at h ⊢
    obtain ⟨u, _, rfl, hu, hsegment⟩ := h
    obtain ⟨x, _, rfl, hstar⟩ := fits_segment.mp hsegment
    obtain ⟨y, v, rfl, hv⟩ := fits_star.mp hstar
    exact ⟨u, _, rfl, hu, fits_star.mpr ⟨x ++ '/' :: y, v, by simp, hv⟩⟩

theorem IsReading.head_star (h : IsReading glob r) (hstar : ['*'] <+: withoutSegments glob) :
    ['*'] <+: r := by
  induction glob using segment_induction generalizing r with
  | nil =>
    rw [withoutSegments_nil] at hstar
    exact absurd (List.prefix_nil.mp hstar) (List.cons_ne_nil _ _)
  | segment glob ih =>
    rcases h.of_segment with h | ⟨r', rfl, _⟩
    · exact ih h (withoutSegments_segment glob ▸ hstar)
    · exact ⟨'*' :: '/' :: r', rfl⟩
  | cons c glob hno _ =>
    obtain ⟨r', rfl, _⟩ := h.eq_cons hno
    rw [withoutSegments_cons hno] at hstar
    rw [List.prefix_cons_iff] at hstar ⊢
    simpa using hstar

/-- The segments are left out one after the other, the first one first. So what stands before a
segment has none of its own any more. -/
theorem fits_withoutSegments (before : Text)
    (hloose : ∀ a b, glob = a ++ segment ++ b → '[' ∉ before ++ a ∧
      StarBeside (before ++ withoutSegments a) (withoutSegments b))
    (h : IsReading glob r) (hfits : fits (before ++ r) w = true) :
    fits (before ++ withoutSegments glob) w = true := by
  induction glob using segment_induction generalizing before r with
  | nil =>
    cases h
    rwa [withoutSegments_nil]
  | segment glob ih =>
    have hrest : ∀ a b, glob = a ++ segment ++ b → '[' ∉ before ++ a ∧
        StarBeside (before ++ withoutSegments a) (withoutSegments b) := by
      intro a b he
      obtain ⟨hset, hstar⟩ := hloose (segment ++ a) b (by rw [he]; simp only [List.append_assoc])
      rw [withoutSegments_segment] at hstar
      rw [List.mem_append, List.mem_append] at hset
      exact ⟨fun hmem => hset ((List.mem_append.mp hmem).imp_right .inr), hstar⟩
    rw [withoutSegments_segment]
    rcases h.of_segment with hr | ⟨r', rfl, hr⟩
    · exact ih _ hrest hr hfits
    · obtain ⟨hset, hstar⟩ := hloose [] glob rfl
      rw [withoutSegments_nil, List.append_nil] at hstar
      rw [List.append_nil] at hset
      have hkept : StarBeside before r' := hstar.imp_right (.imp_right hr.head_star)
      exact ih _ hrest hr (fits_of_segment hset hkept hfits)
  | cons c glob hno ih =>
    obtain ⟨r', rfl, hr⟩ := h.eq_cons hno
    have hrest : ∀ a b, glob = a ++ segment ++ b → '[' ∉ before ++ [c] ++ a ∧
        StarBeside (before ++ [c] ++ withoutSegments a) (withoutSegments b) := by
      intro a b he
      obtain ⟨hset, hstar⟩ := hloose (c :: a) b (congrArg (c :: ·) he)
      have ha : ¬ segment <+: c :: a := fun hstarts =>
        hno (hstarts.trans ⟨segment ++ b, by rw [he, List.append_assoc, List.cons_append]⟩)
      rw [withoutSegments_cons ha] at hstar
      rw [List.append_assoc, List.append_assoc]
      exact ⟨hset, hstar⟩
    rw [withoutSegments_cons hno, List.append_cons]
    rw [List.append_cons] at hfits
    exact ih _ hrest hr hfits

/-- A glob with no segment has one reading. -/
theorem IsReading.eq_of_none (hno : ¬ segment <:+: glob) (h : IsReading glob r) :
    r = glob := by
  induction h with
  | nil => rfl
  | keep c _ ih => rw [ih fun hi => hno (List.infix_cons hi)]
  | leave _ => exact absurd (List.prefix_append segment _).isInfix hno

/-- With at most one segment there are two readings only. -/
theorem IsReading.of_single (hsingle : Single glob) (h : IsReading glob r) :
    r = glob ∨ r = withoutSegments glob := by
  induction glob using segment_induction generalizing r with
  | nil =>
    cases h
    exact .inl rfl
  | segment glob _ =>
    have hno := hsingle [] glob rfl
    have hwithout := (isReading_withoutSegments glob).eq_of_none hno
    rw [withoutSegments_segment, hwithout]
    rcases h.of_segment with hr | ⟨r', rfl, hr⟩
    · exact .inr (hr.eq_of_none hno)
    · exact .inl (congrArg _ (hr.eq_of_none hno))
  | cons c glob hno ih =>
    obtain ⟨r', rfl, hr⟩ := h.eq_cons hno
    have hrest : Single glob := fun a b he => hsingle (c :: a) b (congrArg (c :: ·) he)
    rw [withoutSegments_cons hno]
    exact (ih hrest hr).imp (congrArg _) (congrArg _)

/-- If a glob has at most one segment or a star beside each one, the reading with all segments and
the one with none stand for all that any reading stands for. -/
theorem fits_iff_reading (h : Single glob ∨ Loose glob) :
    (∃ r, IsReading glob r ∧ fits r w = true) ↔
      fits glob w = true ∨ fits (withoutSegments glob) w = true := by
  constructor
  · rintro ⟨r, hr, hfits⟩
    rcases h with hsingle | hloose
    · rcases hr.of_single hsingle with rfl | rfl
      · exact .inl hfits
      · exact .inr hfits
    · exact .inr (fits_withoutSegments [] hloose hr hfits)
  · rintro (hfits | hfits)
    · exact ⟨glob, .refl glob, hfits⟩
    · exact ⟨_, isReading_withoutSegments glob, hfits⟩

end Enough

/-! ## Globs without enough readings -/

/-- A glob in which every character but a star stands for itself. -/
def Plain (glob : Text) : Prop := '?' ∉ glob ∧ '[' ∉ glob

/-- The characters of a glob that stand for themselves. -/
def literals (glob : Text) : Text := glob.filter (· != '*')

section Missed

variable {c z : Char} {glob a b w x y : Text}

theorem Plain.of_sublist (h : Plain b) (hsub : a.Sublist b) : Plain a :=
  ⟨fun hm => h.1 (hsub.subset hm), fun hm => h.2 (hsub.subset hm)⟩

theorem Plain.tail (h : Plain (c :: glob)) : Plain glob :=
  h.of_sublist (List.sublist_cons_self c glob)

theorem fits_cons_of_plain (hplain : Plain (c :: glob)) (hstar : c ≠ '*') :
    fits (c :: glob) w = true ↔ ∃ v, w = c :: v ∧ fits glob v = true :=
  fits_char hstar (fun he => hplain.1 (he ▸ List.mem_cons_self))
    fun he => hplain.2 (he ▸ List.mem_cons_self)

theorem literals_append (a b : Text) : literals (a ++ b) = literals a ++ literals b :=
  List.filter_append ..

theorem literals_cons (hc : c ≠ '*') (glob : Text) :
    literals (c :: glob) = c :: literals glob :=
  List.filter_cons_of_pos (bne_iff_ne.mpr hc)

theorem literals_eq_nil_iff : literals glob = [] ↔ ∀ c ∈ glob, c = '*' := by
  simp [literals]

/-- The stars may all stand for nothing. -/
theorem fits_literals (hplain : Plain glob) : fits glob (literals glob) = true := by
  induction glob with
  | nil => exact fits_nil.mpr rfl
  | cons c glob ih =>
    have h := ih hplain.tail
    by_cases hc : c = '*'
    · subst hc
      exact fits_star.mpr ⟨[], _, rfl, h⟩
    · exact (fits_cons_of_plain hplain hc).mpr ⟨_, literals_cons hc glob, h⟩

theorem literals_sublist (hplain : Plain glob) (h : fits glob w = true) :
    (literals glob).Sublist w := by
  induction glob generalizing w with
  | nil => exact List.nil_sublist w
  | cons c glob ih =>
    have hrest := hplain.tail
    by_cases hc : c = '*'
    · subst hc
      obtain ⟨u, v, rfl, hv⟩ := fits_star.mp h
      exact (ih hrest hv).trans (List.sublist_append_right u v)
    · obtain ⟨v, rfl, hv⟩ := (fits_cons_of_plain hplain hc).mp h
      rw [literals_cons hc]
      exact (ih hrest hv).cons_cons c

/-- What a glob does not have stands at a star, and so the rest of the glob stands for characters
before it and behind it. -/
theorem exists_star_of_fits (hplain : Plain glob) (hz : z ∉ glob)
    (h : fits glob (x ++ z :: y) = true) :
    ∃ a b, glob = a ++ '*' :: b ∧ (literals a).Sublist x ∧ (literals b).Sublist y := by
  induction glob generalizing x with
  | nil => exact absurd (fits_nil.mp h) (by simp)
  | cons c glob ih =>
    obtain ⟨hzc, hzrest⟩ := List.ne_and_not_mem_of_not_mem_cons hz
    have hrest := hplain.tail
    by_cases hc : c = '*'
    · subst hc
      obtain ⟨u, v, he, hv⟩ := fits_star.mp h
      rcases List.append_eq_append_iff.mp he with ⟨t, rfl, ht⟩ | ⟨t, rfl, rfl⟩
      · cases t with
        | nil =>
          rw [List.nil_append] at ht
          obtain ⟨a, b, rfl, ha, hb⟩ := ih hrest hzrest (x := []) (ht ▸ hv)
          exact ⟨'*' :: a, b, rfl, ha.trans (List.nil_sublist x), hb⟩
        | cons d t =>
          obtain ⟨rfl, rfl⟩ := List.cons.inj ht
          exact ⟨[], glob, rfl, List.nil_sublist x,
            (literals_sublist hrest hv).trans (List.sublist_append_right t v)⟩
      · obtain ⟨a, b, rfl, ha, hb⟩ := ih hrest hzrest hv
        exact ⟨'*' :: a, b, rfl, ha.trans (List.sublist_append_right u t), hb⟩
    · obtain ⟨v, he, hv⟩ := (fits_cons_of_plain hplain hc).mp h
      cases x with
      | nil => exact absurd (List.cons.inj he).1 hzc
      | cons d x =>
        obtain ⟨rfl, rfl⟩ := List.cons.inj he
        obtain ⟨a, b, rfl, ha, hb⟩ := ih hrest hzrest hv
        refine ⟨d :: a, b, rfl, ?_, hb⟩
        rw [literals_cons hc]
        exact ha.cons_cons d

theorem count_literals (glob : Text) : (literals glob).count '/' = glob.count '/' :=
  List.count_filter (by decide)

theorem star_head (h : literals a = []) (b : Text) : ['*'] <+: a ++ '*' :: b := by
  cases a with
  | nil => exact List.prefix_append ['*'] b
  | cons c a =>
    obtain rfl := literals_eq_nil_iff.mp h c List.mem_cons_self
    exact List.prefix_append ['*'] _

theorem star_suffix (h : literals a = []) : ['*'] <:+ '*' :: a := by
  rcases List.eq_nil_or_concat a with rfl | ⟨a, c, rfl⟩
  · exact List.suffix_refl _
  · obtain rfl := literals_eq_nil_iff.mp h c (by simp)
    exact ⟨'*' :: a, by simp⟩

/-- What stands for a part of a slash is a slash or nothing. -/
theorem star_suffix_or (h : (literals a ++ w).Sublist ('/' :: w)) :
    ['*'] <:+ '*' :: a ∨ ['*', '/'] <:+ '*' :: a := by
  rcases List.eq_nil_or_concat a with rfl | ⟨a, c, rfl⟩
  · exact .inl (List.suffix_refl _)
  rw [List.concat_eq_append] at h ⊢
  by_cases hc : c = '*'
  · subst hc
    exact .inl (List.suffix_append ('*' :: a) _)
  · have hlast : literals [c] = [c] := literals_cons hc []
    rw [literals_append, hlast] at h
    have hlen := h.length_le
    simp only [List.length_append, List.length_cons, List.length_nil] at hlen
    have hrest : literals a = [] := List.length_eq_zero_iff.mp (by omega)
    rw [hrest, List.nil_append] at h
    obtain rfl : c = '/' := (List.cons.inj (h.eq_of_length rfl)).1
    obtain ⟨s, hs⟩ := star_suffix hrest
    exact .inr ⟨s, by rw [← List.cons_append, ← hs, List.append_assoc]; rfl⟩

/-- A star that leaves the characters before it to the first text and those behind it to the
second one, but for a slash, stands beside the place where they meet. -/
theorem starBeside_of_eq {p q : Text} (he : a ++ b = p ++ '*' :: q)
    (hp : (literals p).Sublist (literals a)) (hq : (literals q).Sublist ('/' :: literals b)) :
    StarBeside a b := by
  rcases List.append_eq_append_iff.mp he with ⟨t, rfl, rfl⟩ | ⟨t, rfl, ht⟩
  · have hlen := hp.length_le
    rw [literals_append, List.length_append] at hlen
    exact .inr (.inr (star_head (List.length_eq_zero_iff.mp (by omega)) q))
  · cases t with
    | nil => exact .inr (.inr ⟨q, ht⟩)
    | cons d t =>
      obtain ⟨hd, hq'⟩ := List.cons.inj ht
      rw [hq', List.append_eq, literals_append] at hq
      rw [← hd]
      have hsuffix := List.suffix_append p ('*' :: t)
      rcases star_suffix_or hq with h | h
      · exact .inl (h.trans hsuffix)
      · exact .inr (.inl (h.trans hsuffix))

theorem count_of_not_single (h : ¬ Single glob) :
    (withoutSegments glob).count '/' + 2 ≤ glob.count '/' := by
  have hle (s : Text) : (withoutSegments s).count '/' ≤ s.count '/' :=
    (isReading_withoutSegments s).sublist.count_le '/'
  have hsegment : segment.count '/' = 1 := by decide
  unfold Single at h
  push Not at h
  obtain ⟨a, _, rfl, b, d, rfl⟩ := h
  have ha := hle a
  have hb := hle b
  have hd := hle d
  simp only [withoutSegments_append_segment, List.count_append, hsegment]
  omega

/-- With two segments, and one of them without a star beside it, this one may stand for a directory
while the others stand for none. -/
theorem exists_missed (hplain : Plain glob) (hz : z ∉ glob) (hslash : z ≠ '/')
    (hsingle : ¬ Single glob) (hloose : ¬ Loose glob) :
    ∃ r w, IsReading glob r ∧ fits r w = true ∧ fits glob w = false ∧
      fits (withoutSegments glob) w = false := by
  obtain ⟨a, b, rfl, hstar⟩ : ∃ a b, glob = a ++ segment ++ b ∧
      ¬ StarBeside (withoutSegments a) (withoutSegments b) := by
    unfold Loose at hloose
    push Not at hloose
    obtain ⟨a, b, he, h⟩ := hloose
    exact ⟨a, b, he, h fun hm => hplain.2 (he ▸ by simp [hm])⟩
  have hreading : IsReading (a ++ segment ++ b)
      (withoutSegments a ++ segment ++ withoutSegments b) :=
    ((isReading_withoutSegments a).append (.refl segment)).append (isReading_withoutSegments b)
  have hread := hplain.of_sublist hreading.sublist
  have ha := hread.of_sublist ((List.sublist_append_left _ _).trans (List.sublist_append_left _ _))
  have hb := hread.of_sublist (List.sublist_append_right _ _)
  have hall := hplain.of_sublist (isReading_withoutSegments _).sublist
  have hzall : z ∉ withoutSegments (a ++ segment ++ b) := fun hm =>
    hz ((isReading_withoutSegments _).sublist.subset hm)
  have hcount := count_of_not_single hsingle
  rw [withoutSegments_append_segment] at hall hzall hcount
  refine ⟨_, literals (withoutSegments a) ++ z :: '/' :: literals (withoutSegments b), hreading,
    ?_, ?_, ?_⟩
  · rw [List.append_assoc, fits_append ha.2]
    exact ⟨_, _, rfl, fits_literals ha,
      fits_segment.mpr ⟨[z], _, rfl, fits_literals hb⟩⟩
  · -- the glob has more slashes than the text
    rw [← Bool.not_eq_true]
    intro h
    have hle := (literals_sublist hplain h).count_le '/'
    simp only [count_literals, List.count_append, List.count_cons, beq_iff_eq, hslash, if_true,
      if_false] at hle hcount
    omega
  · rw [← Bool.not_eq_true, withoutSegments_append_segment]
    intro h
    obtain ⟨p, q, he, hp, hq⟩ := exists_star_of_fits hall hzall h
    exact hstar (starBeside_of_eq he hp hq)

/-- Exactly the globs with at most one segment, or with a star beside each one, have enough
readings. -/
theorem covered_iff (hplain : Plain glob) (hz : z ∉ glob) (hslash : z ≠ '/') :
    (∀ r w, IsReading glob r → fits r w = true →
      fits glob w = true ∨ fits (withoutSegments glob) w = true) ↔ Single glob ∨ Loose glob := by
  constructor
  · intro h
    by_contra hno
    rw [not_or] at hno
    obtain ⟨r, w, hr, hfits, hall, hnone⟩ := exists_missed hplain hz hslash hno.1 hno.2
    rcases h r w hr hfits with h | h
    · exact Bool.false_ne_true (hall.symm.trans h)
    · exact Bool.false_ne_true (hnone.symm.trans h)
  · exact fun h r w hr hfits => (fits_iff_reading h).mp ⟨r, hr, hfits⟩

end Missed

end Glob

namespace ProjectOptions

open Glob (IsReading Single Loose fits_iff_reading)

variable {glob file : String}

/-- A glob with a slash that has at most one segment, or a star beside each one, stands for a file
if it can be read so that it stands for the path of the file. -/
theorem globsFit_iff_reading (hslash : '/' ∈ glob.toList) (hnull : '\x00' ∉ file.toList)
    (h : Single (unprefixed glob.toList) ∨ Loose (unprefixed glob.toList)) (dir : Option Path) :
    globsFit (.str glob) (Path.resolve file) dir = .ok true ↔
      ∃ r, IsReading (unprefixed glob.toList) r ∧
        Glob.fits r (seenFrom dir (Path.resolve file)).toList = true := by
  rw [globsFit_str (Path.not_hasNull_resolve hnull), globFits_of_slash hslash,
    fits_iff_reading h, Except.ok.injEq, Bool.or_eq_true]
  rfl

/-- A glob with two segments and a star beside each one. The second one stands for no directory. -/
theorem globsFit_iff_reading_loose :
    let glob := "./*/**/a/**/*.twig"
    (¬ Single (unprefixed glob.toList) ∧ Loose (unprefixed glob.toList)) ∧
      globsFit (.str glob) (Path.resolve "/p/x/y/a/t.twig") (some ["p"]) = .ok true := by
  intro glob
  have hloose : ¬ Single (unprefixed glob.toList) ∧ Loose (unprefixed glob.toList) := by
    decide +kernel
  have hglob : unprefixed glob.toList =
      "*/**/a/".toList ++ (Glob.segment ++ "*.twig".toList) := by decide +kernel
  have hreading : IsReading (unprefixed glob.toList) ("*/**/a/".toList ++ "*.twig".toList) :=
    hglob ▸ (IsReading.refl _).append (.leave (.refl _))
  exact ⟨hloose, (globsFit_iff_reading (by decide) (by decide) (.inr hloose.2) _).mpr
    ⟨_, hreading, by decide +kernel⟩⟩

/-- A glob with two segments and no star beside the first one: with the first one kept and the
second one left out it stands for the path, and yet it does not stand for the file. -/
theorem globsFit_two_segments :
    (∃ r, IsReading (unprefixed "**/templates/**/*.twig".toList) r ∧
      Glob.fits r (seenFrom (some ["p"]) (Path.resolve "/p/src/templates/x.twig")).toList = true) ∧
    globsFit (.str "**/templates/**/*.twig") (Path.resolve "/p/src/templates/x.twig")
      (some ["p"]) = .ok false := by
  have hglob : unprefixed "**/templates/**/*.twig".toList =
      "**/templates/".toList ++ (Glob.segment ++ "*.twig".toList) := by decide +kernel
  refine ⟨⟨"**/templates/".toList ++ "*.twig".toList, ?_, ?_⟩, ?_⟩
  · rw [hglob]
    exact (IsReading.refl _).append (.leave (.refl _))
  · decide +kernel
  · decide +kernel

end ProjectOptions

end TwigLayout
